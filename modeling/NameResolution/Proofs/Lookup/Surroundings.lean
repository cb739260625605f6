import Mathlib.Data.List.Basic
import NameResolution.Proofs.Links
import NameResolution.Proofs.Lookup.Copies

/-!
# Around a constructor call

The arguments of a constructor call are resolved in a context outside the class, with the owner of
the call. The context is made at the nearest one around the class that is no template, so besides
the copies of a class its templates next to it are left out too.

* `Grown.exists_surroundedBy`: where the context for the arguments stands on the chain of the call.
* `innermostDefinition_moveTo_iff`: a definition found there is found in the arguments unless their
  scope has the name, exactly if the owner of the call has the same access to the classes on the way
  (`SameAccess`).
* `run_moveTo_of_found`: then the lookup answers the same if the imports in effect bind the same.
* `Context.lookup_constructor_around`: both for the contexts of constructor calls, at any later
  store.
* `Context.lookup_constructor_left_out`: a class nested directly in another, an owner with more
  access, and a package clause inside a class.
-/

namespace NameResolution

namespace Context

/-! ### Positions on the chain -/

/-- What lies around a context of the chain is the rest of the chain. -/
theorem chain_of_split {cx c : Context} {inner outer : List Context}
    (h : cx.chain = inner ++ c :: outer) : c.chain = c :: outer := by
  induction cx generalizing inner with
  | root frame =>
    cases inner with
    | nil =>
      cases h
      rfl
    | cons d inner => simp [chain] at h
  | nested frame around ih =>
    cases inner with
    | nil =>
      cases h
      rfl
    | cons d inner => exact ih (List.cons.inj h).2

theorem length_chain_le {c cx : Context} (h : c ∈ cx.chain) :
    c.chain.length ≤ cx.chain.length := by
  obtain ⟨inner, outer, hsplit⟩ := List.append_of_mem h
  rw [chain_of_split hsplit, hsplit, List.length_append]
  exact Nat.le_add_left _ _

theorem mem_chain_of_inner {cx c d : Context} {inner outer : List Context}
    (h : cx.chain = inner ++ d :: outer) (hc : c ∈ inner) : d ∈ c.chain := by
  obtain ⟨before, after, rfl⟩ := List.append_of_mem hc
  rw [List.append_assoc, List.cons_append] at h
  rw [chain_of_split h]
  exact List.mem_cons_of_mem _ (List.mem_append_right _ List.mem_cons_self)

/-- A context does not lie around those around it. -/
theorem notMem_chain_of_outer {cx c d : Context} {inner outer : List Context}
    (h : cx.chain = inner ++ d :: outer) (hc : c ∈ outer) : d ∉ c.chain := by
  obtain ⟨before, after, rfl⟩ := List.append_of_mem hc
  have hd := congrArg List.length (chain_of_split h)
  have hsplit : cx.chain = (inner ++ d :: before) ++ c :: after := by rw [h]; simp
  have hchain := congrArg List.length (chain_of_split hsplit)
  intro hmem
  have hle := length_chain_le hmem
  simp only [List.length_cons, List.length_append] at hd hchain
  omega

/-! ### Where constructor contexts are made -/

/-- What lies around a context inside a class: first contexts that open no class, then the template
of the class and those next to it, then `around` and what lies around that. -/
structure SurroundedBy (cx : Context) (inner templates : List Context) (around : Context) :
    Prop where
  chain_eq : cx.chain = inner ++ templates ++ around.chain
  inner : ∀ c ∈ inner, c.opensClass = false
  innermost : templates.head? = some cx.enclosingClass
  templates : ∀ c ∈ templates, c.node = .template
  around : around.node ≠ .template

theorem enclosingClass_split (cx : Context) :
    ∃ inner, cx.chain = inner ++ cx.enclosingClass.chain ∧ ∀ c ∈ inner, c.opensClass = false := by
  induction cx with
  | root frame => exact ⟨[], rfl, by simp⟩
  | nested frame outer ih =>
    rw [enclosingClass_nested]
    split
    · exact ⟨[], rfl, by simp⟩
    · obtain ⟨inner, hchain, hinner⟩ := ih
      refine ⟨nested frame outer :: inner, by rw [chain, hchain, List.cons_append], ?_⟩
      exact List.forall_mem_cons.mpr ⟨Bool.eq_false_iff.mpr ‹_›, hinner⟩

theorem Grown.skipTemplates_split {cx : Context} (h : cx.Grown) :
    ∃ templates, cx.chain = templates ++ cx.skipTemplates.chain ∧
      (∀ c ∈ templates, c.node = .template) ∧ cx.skipTemplates.node ≠ .template := by
  induction h with
  | @root frame hnode =>
    refine ⟨[], rfl, by simp, ?_⟩
    show frame.node ≠ .template
    simp [hnode]
  | @nested outer _ id ext ih =>
    unfold skipTemplates
    split
    · rename_i htemplate
      obtain ⟨templates, hchain, htemplates, hlast⟩ := ih
      refine ⟨.nested (outer.innerFrame id ext) outer :: templates,
        by rw [chain, hchain, List.cons_append], ?_, hlast⟩
      exact List.forall_mem_cons.mpr ⟨htemplate, htemplates⟩
    · exact ⟨[], rfl, by simp, ‹_›⟩

/-- **Constructor contexts are made around the class and the templates next to it.** -/
theorem Grown.exists_surroundedBy {cx : Context} (h : cx.Grown)
    (htemplate : cx.enclosingClass.node = .template) :
    ∃ inner templates, cx.SurroundedBy inner templates cx.constructorBase := by
  obtain ⟨inner, hchain, hinner⟩ := cx.enclosingClass_split
  have hgrown := h.of_mem_chain cx.enclosingClass_mem_chain
  unfold constructorBase
  cases hclass : cx.enclosingClass with
  | root frame =>
    -- The root is no template.
    rw [hclass] at hgrown htemplate
    cases hgrown with
    | root hnode =>
      have hsame : NodeKind.root = .template := hnode.symm.trans htemplate
      cases hsame
  | nested frame outer =>
    rw [hclass] at hchain hgrown htemplate
    have houter := hgrown.of_mem_chain (List.mem_cons_of_mem _ (mem_chain_self outer))
    obtain ⟨templates, hrest, htemplates, hlast⟩ := houter.skipTemplates_split
    refine ⟨inner, .nested frame outer :: templates, ⟨?_, hinner, ?_, ?_, hlast⟩⟩
    · rw [hchain, chain, hrest, List.append_assoc, List.cons_append]
      rfl
    · rw [hclass]
      rfl
    · exact List.forall_mem_cons.mpr ⟨htemplate, htemplates⟩

/-- A context directly inside another that opens no class and holds no import. What it adds for the
names inside is a scope and an owner. -/
structure AddsScope (inside cx : Context) : Prop where
  outer : inside.outer? = some cx
  session : inside.session = cx.session
  opensClass : inside.opensClass = false
  imported : inside.imported = none

theorem addsScope_makeConstructor {cx : Context} (hclass : cx.opensClass = false) (u : Universe)
    (s : Store) : (cx.makeConstructor u s).1.AddsScope cx.constructorBase :=
  ⟨rfl, rfl, hclass, rfl⟩

namespace AddsScope

variable {inside cx : Context}

theorem chain_eq (h : inside.AddsScope cx) : inside.chain = inside :: cx.chain :=
  chain_of_outer? h.outer

theorem enclosingClass (h : inside.AddsScope cx) : inside.enclosingClass = cx.enclosingClass := by
  cases inside with
  | root frame => cases h.outer
  | nested frame outer =>
    cases h.outer
    rw [enclosingClass_nested]
    exact if_neg (Bool.eq_false_iff.mp h.opensClass)

theorem query (h : inside.AddsScope cx) (u : Universe) (name : Name)
    (qualifies : SymbolId → Bool) (s : Store) :
    inside.query u name qualifies s = (cx.query u name qualifies s).moveTo inside := by
  unfold Context.query Lookup.Query.moveTo Context.view
  rw [h.session]

end AddsScope

/-- The class that is left and the contexts in it are not on the chain outside. -/
theorem SurroundedBy.notMem_chain {cx inside around : Context} {inner templates : List Context}
    (h : cx.SurroundedBy inner templates around) (hinside : inside.AddsScope around) :
    ∀ c ∈ inner ++ templates, c ∉ inside.chain := by
  intro c hc hmem
  obtain ⟨before, after, hsplit⟩ := List.append_of_mem hc
  have hwhole : cx.chain = before ++ c :: (after ++ around.chain) := by
    rw [h.chain_eq, hsplit, List.append_assoc, List.cons_append]
  have hchain := chain_of_split hwhole
  rw [hinside.chain_eq] at hmem
  rcases List.mem_cons.mp hmem with rfl | hmem
  · -- Next to `around` stands a template, and the context inside opens no class.
    have hnil : after = [] := by simpa [hinside.chain_eq] using hchain
    have hlast : (inner ++ templates).getLast? = some c := by rw [hsplit, hnil]; simp
    have hne : templates ≠ [] := fun hnil => by simpa [hnil] using h.innermost
    rw [List.getLast?_append_of_ne_nil _ hne] at hlast
    have hopens : c.opensClass = true :=
      congrArg NodeKind.opensClass (h.templates c (List.mem_of_getLast? hlast))
    rw [hinside.opensClass] at hopens
    cases hopens
  · have hle := length_chain_le hmem
    rw [hchain, List.length_cons, List.length_append] at hle
    omega

end Context

namespace Lookup.Query

variable (q : Query)

/-- Two queries have the same access to the members that the classes up to a definition have under
the name. Classes whose scope has an entry for it are not asked. -/
def SameAccess (q' : Query) (found : Found) : Prop :=
  ∀ c ∈ q'.cx.chain, found.cx ∈ c.chain → c.opensClass = true → q'.entriesAt c = [] →
    ∀ sym ∈ q'.membersAt c, q.isAccessible c.selfType sym = q'.isAccessible c.selfType sym

/-- The imports in effect bind the same to the name at two contexts. -/
def SameBindings (q' : Query) : Prop :=
  ∀ level ∈ q'.importLevels, ∀ explicitOnly,
    q.boundBy explicitOnly level = q'.boundBy explicitOnly level

/-- How the lookup `q` at a context that adds a scope follows the lookup `q'` around it. -/
structure Follows (q' : Query) : Prop where
  /-- It finds entries of the scope that was added, or a definition that lies further out. -/
  found : ∀ found, q.InnermostDefinition found →
    (found.cx = q.cx ∧ found.isMember = false) ∨ found.cx ∈ q'.cx.chain
  /-- Unless the scope has the name, a definition found around is found exactly with the same
  access. -/
  kept : q.entriesAt q.cx = [] → ∀ found, q'.InnermostDefinition found →
    (q.InnermostDefinition found ↔ q.SameAccess q' found)
  /-- Where both find one definition they answer the same if the imports bind the same. -/
  result : ∀ found, q.InnermostDefinition found → q'.InnermostDefinition found →
    q.SameBindings q' → q.run.result = q'.run.result
  /-- Constructors are those of the class around. -/
  constructors : q.name.isConstructor = true → q.run.result = q'.run.result

variable {q} {inside : Context}

/-! ### Definitions -/

/-- Where the scope of a context has no entry, what is found there are members of its class. -/
theorem DefinedAs.members_of_nil {found : Found} (h : q.DefinedAs found)
    (hnone : q.entriesAt found.cx = []) :
    found.meaning.alternatives =
      (q.membersAt found.cx).filter (q.isAccessible found.cx.selfType) := by
  cases h with
  | entries hgroup =>
    dsimp only at hnone
    rw [hnone] at hgroup
    cases hgroup
  | members _ _ hgroup => exact Meaning.alternatives_of_ofList? hgroup

/-- On the way to the innermost definition nothing is defined. -/
theorem InnermostDefinition.not_defines {found : Found} (h : q.InnermostDefinition found)
    {c : Context} (hc : c ∈ q.cx.chain) (hway : found.cx ∈ c.chain) (hne : c ≠ found.cx) :
    ¬ q.Defines c := by
  obtain ⟨inner, outer, hchain, hinner⟩ := h.first
  rw [hchain] at hc
  rcases List.mem_append.mp hc with hc | hc
  · exact hinner c hc
  · rcases List.mem_cons.mp hc with heq | hc
    · exact absurd heq hne
    · exact absurd hway (Context.notMem_chain_of_outer hchain hc)

theorem isAccessible_of_not_defines {c : Context} (h : ¬ q.Defines c) (hclass : c.opensClass = true)
    {sym : SymbolId} (hsym : sym ∈ q.membersAt c) : q.isAccessible c.selfType sym = false :=
  Bool.eq_false_iff.mpr fun haccessible => h (Or.inr ⟨hclass, sym, hsym, haccessible⟩)

/-- Inside, a definition is an entry of the scope that was added or lies further out. -/
theorem innermostDefinition_moveTo (h : inside.AddsScope q.cx) {found : Found}
    (hfound : (q.moveTo inside).InnermostDefinition found) :
    (found.cx = inside ∧ found.isMember = false) ∨ found.cx ∈ q.cx.chain := by
  obtain ⟨⟨inner, outer, hchain, -⟩, hdefined⟩ := hfound
  have hmem : found.cx ∈ inside :: q.cx.chain := by
    rw [← h.chain_eq]
    show found.cx ∈ (q.moveTo inside).cx.chain
    rw [hchain]
    exact List.mem_append_right _ List.mem_cons_self
  refine (List.mem_cons.mp hmem).imp_left fun hcx => ⟨hcx, ?_⟩
  cases hdefined with
  | entries => rfl
  | members _ hclass =>
    obtain rfl : _ = inside := hcx
    rw [h.opensClass] at hclass
    cases hclass

/-- **A definition found around a scope that does not have the name is found inside, exactly if both
have the same access to the classes on the way.** -/
theorem innermostDefinition_moveTo_iff (h : inside.AddsScope q.cx)
    (hnone : q.entriesAt inside = []) {found : Found} (hfound : q.InnermostDefinition found) :
    (q.moveTo inside).InnermostDefinition found ↔ (q.moveTo inside).SameAccess q found := by
  constructor
  · intro hinside c hc hway hclass hentries sym hsym
    by_cases hcx : c = found.cx
    · -- At the definition both queries select the same members.
      subst hcx
      have houtside := hfound.definedAs.members_of_nil hentries
      have hmoved := hinside.definedAs.members_of_nil hentries
      have hmem := congrArg (sym ∈ ·) (hmoved.symm.trans houtside)
      have hsym' : sym ∈ (q.moveTo inside).membersAt found.cx := hsym
      exact Bool.eq_iff_iff.mpr (by simpa [List.mem_filter, hsym, hsym'] using hmem)
    · -- Nearer classes define nothing for either.
      have hmem : c ∈ inside.chain := h.chain_eq ▸ List.mem_cons_of_mem _ hc
      rw [isAccessible_of_not_defines (hfound.not_defines hc hway hcx) hclass hsym]
      exact isAccessible_of_not_defines (hinside.not_defines hmem hway hcx) hclass hsym
  · intro haccess
    obtain ⟨⟨inner, outer, hchain, hinner⟩, hdefined⟩ := hfound
    have hmem : ∀ c ∈ inner, c ∈ q.cx.chain := fun c hc => hchain ▸ List.mem_append_left _ hc
    refine ⟨⟨inside :: inner, outer, ?_, List.forall_mem_cons.mpr ⟨?_, fun c hc => ?_⟩⟩, ?_⟩
    · show inside.chain = _
      rw [h.chain_eq, hchain, List.cons_append]
    · rintro (hentries | ⟨hclass, -⟩)
      · exact hentries hnone
      · rw [h.opensClass] at hclass
        cases hclass
    · rintro (hentries | ⟨hclass, sym, hsym, haccessible⟩)
      · exact hinner c hc (Or.inl hentries)
      · have hentries : q.entriesAt c = [] :=
          Classical.not_not.mp fun hne => hinner c hc (Or.inl hne)
        rw [haccess c (hmem c hc) (Context.mem_chain_of_inner hchain hc) hclass hentries sym hsym]
          at haccessible
        exact hinner c hc (Or.inr ⟨hclass, sym, hsym, haccessible⟩)
    · cases hdefined with
      | entries hgroup => exact .entries hgroup
      | @members c meaning hentries hclass hgroup =>
        have hc : c ∈ q.cx.chain := hchain ▸ List.mem_append_right _ List.mem_cons_self
        have hsame : (q.membersAt c).filter ((q.moveTo inside).isAccessible c.selfType) =
            (q.membersAt c).filter (q.isAccessible c.selfType) :=
          List.filter_congr (haccess c hc (Context.mem_chain_self c) hclass hentries)
        refine .members hentries hclass ?_
        show Meaning.ofList? _ ((q.membersAt c).filter
          ((q.moveTo inside).isAccessible c.selfType)) = _
        rw [hsame]
        exact hgroup

/-! ### Imports -/

theorem settled_moveTo {levels : List ImportLevel}
    (hsame : ∀ level ∈ levels, ∀ explicitOnly,
      (q.moveTo inside).boundBy explicitOnly level = q.boundBy explicitOnly level)
    (leader : Binding) : (q.moveTo inside).settled leader levels = q.settled leader levels := by
  induction levels generalizing leader with
  | nil => rfl
  | cons level outer ih =>
    have ih := ih fun l hl => hsame l (List.mem_cons_of_mem _ hl)
    rw [settled_cons, settled_cons, hsame level List.mem_cons_self]
    simp only [ih]
    rfl

theorem firstImport_inside {levels : List ImportLevel}
    (hsame : ∀ level ∈ levels, ∀ explicitOnly,
      (q.moveTo inside).boundBy explicitOnly level = q.boundBy explicitOnly level)
    (definition : Option Precedence.DefinitionKey) :
    ((q.moveTo inside).firstImport definition levels).1 = (q.firstImport definition levels).1 := by
  induction levels with
  | nil => rfl
  | cons level outer ih =>
    have ih := ih fun l hl => hsame l (List.mem_cons_of_mem _ hl)
    rw [firstImport_cons, firstImport_cons, hsame level List.mem_cons_self, ih]
    rfl

/-- **Where the imports bind the same, a definition stands against them alike.** -/
theorem consultImports_inside (h : inside.AddsScope q.cx)
    (hsame : (q.moveTo inside).SameBindings q) (found : Found) :
    ((q.moveTo inside).consultImports (some found)).result =
      (q.consultImports (some found)).result := by
  rw [consultImports_result, consultImports_result, importLevels_moveTo h.outer h.imported,
    Option.map_some, Option.map_some]
  have hkey : (q.moveTo inside).definitionKey found = q.definitionKey found := rfl
  rw [hkey, firstImport_inside hsame]
  cases himported : (q.firstImport (some (q.definitionKey found)) q.importLevels).1 with
  | none => rfl
  | some i =>
    obtain ⟨before, hsplit, -⟩ := firstImport_split himported
    have houter : ∀ level ∈ i.outer, ∀ explicitOnly,
        (q.moveTo inside).boundBy explicitOnly level = q.boundBy explicitOnly level := by
      intro level hlevel
      refine hsame level ?_
      rw [hsplit]
      exact List.mem_append_right _ (List.mem_cons_of_mem _ hlevel)
    have hsettled := settled_moveTo houter i.binding
    have hunusable : (q.moveTo inside).isUnusable i = q.isUnusable i := rfl
    simp only [resolve, hkey, hunusable]
    cases Precedence.arbitrate (q.definitionKey found) (q.isUnusable i) with
    | definition => rfl
    | imported => exact hsettled
    | ambiguous => rfl

/-! ### Lookups -/

/-- The class around is the same, and so are its constructors. -/
theorem run_inside_of_constructor (h : inside.AddsScope q.cx)
    (hname : q.name.isConstructor = true) : (q.moveTo inside).run.result = q.run.result := by
  have hclass : (q.moveTo inside).cx.enclosingClass = q.cx.enclosingClass := h.enclosingClass
  rw [run_of_constructor hname, run_of_constructor (q := q.moveTo inside) hname]
  unfold constructorResult
  rw [hclass]
  rfl

/-- **A definition found at both contexts is decided alike if the imports bind the same.** -/
theorem run_moveTo_of_found (h : inside.AddsScope q.cx) {found : Found}
    (hinside : (q.moveTo inside).InnermostDefinition found) (hfound : q.InnermostDefinition found)
    (hsame : (q.moveTo inside).SameBindings q) : (q.moveTo inside).run.result = q.run.result := by
  cases hname : q.name.isConstructor with
  | true => exact run_inside_of_constructor h hname
  | false =>
    have hconflict : (q.moveTo inside).conflict? found = q.conflict? found := rfl
    rw [run_eq_verdict hname (definition?_eq_some_iff.mpr hfound),
      run_eq_verdict (q := q.moveTo inside) hname (definition?_eq_some_iff.mpr hinside), hconflict]
    unfold verdict
    rw [consultImports_inside h hsame]
    rfl

theorem follows_moveTo (h : inside.AddsScope q.cx) : (q.moveTo inside).Follows q where
  found _ hfound := innermostDefinition_moveTo h hfound
  kept hnone _ hfound := innermostDefinition_moveTo_iff h hnone hfound
  result _ hinside hfound hsame := run_moveTo_of_found h hinside hfound hsame
  constructors hname := run_inside_of_constructor h hname

end Lookup.Query

namespace Context

/-- **The context for the arguments of a constructor call stands around the class and the templates
next to it. None of what it leaves is on its chain, and its lookups follow those around it, at any
later store.** All of them are taken to end (`Table.Settles`). -/
theorem lookup_constructor_around {cx : Context} (hbuilt : cx.Built)
    (hinside : cx.opensClass = false) (htemplate : cx.enclosingClass.node = .template)
    (u : Universe) (s : Store) :
    ∃ inner templates, cx.SurroundedBy inner templates cx.constructorBase ∧
      (cx.makeConstructor u s).1.chain =
        (cx.makeConstructor u s).1 :: cx.constructorBase.chain ∧
      (∀ c ∈ inner ++ templates, c ∉ (cx.makeConstructor u s).1.chain) ∧
      ∀ (u' : Universe) (name : Name) (qualifies : SymbolId → Bool) (s' : Store),
        ((cx.makeConstructor u s).1.query u' name qualifies s').Follows
          (cx.constructorBase.query u' name qualifies s') := by
  have hadds := addsScope_makeConstructor hinside u s
  obtain ⟨inner, templates, hsurrounded⟩ := hbuilt.grown.exists_surroundedBy htemplate
  refine ⟨inner, templates, hsurrounded, hadds.chain_eq, hsurrounded.notMem_chain hadds, ?_⟩
  intro u' name qualifies s'
  rw [hadds.query]
  exact Lookup.Query.follows_moveTo hadds

end Context

/-! ### Calls in a small program -/

namespace LeftOut

/-- Class 2 with a value 3, a class 4, which has a method 5, and a method 6. -/
def nestedClasses : Table :=
  let t := (Table.initial.addClass .root (.ofWord 9)).2
  let t := ((t.addValue ⟨2⟩ Sample.name ∅).2.addClass ⟨2⟩ (.ofWord 10)).2
  ((t.addMethod ⟨4⟩ (.ofWord 11) ∅).2.addMethod ⟨2⟩ (.ofWord 12) ∅).2

def outerBody : Context := (Sample.root.make .template ⟨2⟩ 1 (Sample.store #[])).1

/-- The body of class 4, directly in that of class 2. -/
def innerBody : Context := (outerBody.make .template ⟨4⟩ 2 (Sample.store #[])).1

def innerMethod : Context := (innerBody.make (.method false) ⟨5⟩ 3 (Sample.store #[])).1

/-- Package 2 with a class 3, which has a method 4, and a value 5 that only the class may use. The
root package has a value 6 of the same name. -/
def restricted : Table :=
  let t := (Table.initial.addPackage .root (.ofWord 9)).2
  let t := ((t.addClass ⟨2⟩ (.ofWord 10)).2.addMethod ⟨3⟩ (.ofWord 11) ∅).2
  let t := ((t.addValue ⟨2⟩ Sample.name ∅).2.addValue .root Sample.name ∅).2
  t.setAccessQualifier ⟨5⟩ ⟨3⟩

def clause : Context := (Sample.root.make .packageClause ⟨2⟩ 1 (Sample.store #[])).1

def body : Context := (clause.make .template ⟨3⟩ 2 (Sample.store #[])).1

def method : Context := (body.make (.method false) ⟨4⟩ 3 (Sample.store #[])).1

/-- A clause of the root package in the method of class 2. -/
def innerClause : Context :=
  let outerMethod := (outerBody.make (.method false) ⟨6⟩ 2 (Sample.store #[])).1
  (outerMethod.make .packageClause .root 3 (Sample.store #[])).1

def clauseBlock : Context := (innerClause.make .block .root 4 (Sample.store #[])).1

end LeftOut

open LeftOut in
/-- A call in a method of a class that is nested in another. -/
theorem Context.lookup_constructor_around_method :
    let u := nestedClasses.toUniverse
    let s := Sample.store #[]
    let k := (innerMethod.makeConstructor u s).1
    ∃ inner templates, innerMethod.SurroundedBy inner templates innerMethod.constructorBase ∧
      k.chain = k :: innerMethod.constructorBase.chain ∧ (∀ c ∈ inner ++ templates, c ∉ k.chain) ∧
      ∀ (u' : Universe) (name : Name) (qualifies : SymbolId → Bool) (s' : Store),
        (k.query u' name qualifies s').Follows
          (innerMethod.constructorBase.query u' name qualifies s') :=
  have hroot : Context.Built Sample.root := .openRoot 0 .root 0 _
  have hmethod : Context.Built innerMethod :=
    ((hroot.make .template ⟨2⟩ 1 _).make .template ⟨4⟩ 2 _).make (.method false) ⟨5⟩ 3 _
  lookup_constructor_around hmethod (by decide) (by decide) _ _

open LeftOut in
/-- **What a constructor call does not see, and what it sees.** A class nested directly in another
is left together with it, so members of the outer class are not found. A member of the package that
only the class may use comes before one further out. The class is not left where a package clause
inside it makes the call. -/
theorem Context.lookup_constructor_left_out :
    let s := Sample.store #[]
    let lookup (u : Universe) (cx : Context) := (cx.lookup u Sample.name (fun _ => true) s).1
    let arguments (u : Universe) (cx : Context) := (cx.makeConstructor u s).1
    let u := nestedClasses.toUniverse
    let v := restricted.toUniverse
    (innerMethod.Built ∧ innerMethod.enclosingClass = innerBody ∧ innerBody.outer = outerBody ∧
      lookup u outerBody = .succeeded (some (.self ⟨2⟩)) (.single ⟨3⟩) ∧
      lookup u (arguments u innerMethod) = .notFound) ∧
    (method.Built ∧ method.enclosingClass = body ∧ body.outer = clause ∧
      lookup v clause = .succeeded none (.single ⟨6⟩) ∧
      lookup v (arguments v method) = .succeeded none (.single ⟨5⟩)) ∧
    (clauseBlock.Built ∧ outerBody ∈ clauseBlock.chain ∧
      lookup u (arguments u clauseBlock) = .succeeded (some (.self ⟨2⟩)) (.single ⟨3⟩)) := by
  have hroot : Context.Built Sample.root := .openRoot 0 .root 0 _
  have houter : Context.Built outerBody := hroot.make .template ⟨2⟩ 1 _
  have hclause : Context.Built clause := hroot.make .packageClause ⟨2⟩ 1 _
  have hmethod : Context.Built innerMethod :=
    (houter.make .template ⟨4⟩ 2 _).make (.method false) ⟨5⟩ 3 _
  have hinner : Context.Built innerClause :=
    (houter.make (.method false) ⟨6⟩ 2 _).make .packageClause .root 3 _
  refine ⟨⟨hmethod, ?_⟩, ⟨(hclause.make .template ⟨3⟩ 2 _).make (.method false) ⟨4⟩ 3 _, ?_⟩,
    ⟨hinner.make .block .root 4 _, ?_⟩⟩
  · decide +kernel
  · decide +kernel
  · decide +kernel

end NameResolution
