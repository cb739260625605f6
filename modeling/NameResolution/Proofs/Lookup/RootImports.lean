import NameResolution.Proofs.Resolution
import NameResolution.Proofs.RootImports

/-!
# Names that root imports give

Every root import is an import of everything at a depth of its own. Where nothing in the unit binds
a name, the innermost of them that binds it is met first, and none of the others competes with it:
they lie further out, and only a name would count there.

* `head?_rootBindings`: of the root imports the innermost that binds the name comes first.
* `run_of_unbound`: where neither a definition nor an import of the unit binds the name, that one is
  meant.
* `Resolution.lookup_rootImports`: over a run, names are given by the last listed root import that
  binds them, and no root import is used or listed as unused.
* `Context.lookup_rootImports_unseen`: root imports do not give the name of constructors, and a
  constructor call right inside the root does not see them.
-/

namespace NameResolution

namespace Lookup

open Precedence

/-- The imports that take effect at the given contexts. -/
def levelsOf (contexts : List Context) : List ImportLevel :=
  contexts.filterMap fun cx => cx.imported.map fun imp => ⟨cx.depth, imp⟩

theorem mem_levelsOf {contexts : List Context} {level : ImportLevel} :
    level ∈ levelsOf contexts ↔
      ∃ c ∈ contexts, c.imported = some level.imp ∧ level.depth = c.depth := by
  unfold levelsOf
  simp only [List.mem_filterMap, Option.map_eq_some_iff]
  constructor
  · rintro ⟨c, hc, imp, himp, rfl⟩
    exact ⟨c, hc, himp, rfl⟩
  · rintro ⟨c, hc, himp, hdepth⟩
    exact ⟨c, hc, level.imp, himp, by rw [← hdepth]⟩

/-! ### The imports above the unit -/

section Preamble

variable {top : Context} {qualifiers : List TypeRef}

theorem levelsOf_innerFrame {cx : Context} {id : ContextId} {ext : Context.Extension} {imp : Import}
    (himported : ext.imported = some imp) (hroot : imp.clause.isRoot = true) :
    levelsOf (Context.nested (cx.innerFrame id ext) cx).chain =
      ⟨cx.depth + 1, imp⟩ :: levelsOf cx.chain := by
  have hdepth := Context.depth_innerFrame_of_isRoot cx id himported hroot
  have hhead : (Context.nested (cx.innerFrame id ext) cx).imported.map
      (fun imp => (⟨(cx.innerFrame id ext).depth, imp⟩ : ImportLevel)) =
        some ⟨cx.depth + 1, imp⟩ := by
    rw [hdepth]
    show ext.imported.map _ = _
    rw [himported]
    rfl
  exact List.filterMap_cons_some hhead

variable (h : Context.Preamble top qualifiers)
include h

/-- The root imports are the levels of the preamble, the one opened last in front. -/
theorem levelsOf_preamble : (levelsOf top.chain).map (·.imp.clause) = qualifiers.map .root := by
  induction h with
  | @root frame himported =>
    have hnone : levelsOf [Context.root frame] = [] :=
      List.filterMap_cons_none (congrArg (Option.map _) himported)
    exact congrArg (List.map _) hnone
  | nested _ _ _ _ himported ih =>
    rw [levelsOf_innerFrame himported rfl, List.map_cons, List.map_cons, ih]

theorem exists_root_of_preamble {level : ImportLevel} (hlevel : level ∈ levelsOf top.chain) :
    ∃ qualifier, level.imp.clause = .root qualifier := by
  have hclause : level.imp.clause ∈ qualifiers.map ImportClause.root := by
    rw [← levelsOf_preamble h]
    exact List.mem_map_of_mem hlevel
  obtain ⟨qualifier, -, hroot⟩ := List.mem_map.mp hclause
  exact ⟨qualifier, hroot.symm⟩

/-- No root import is deeper than the preamble. -/
theorem depth_le_of_preamble : ∀ level ∈ levelsOf top.chain, level.depth ≤ top.depth := by
  induction h with
  | @root frame himported =>
    have hnone : levelsOf (Context.root frame).chain = [] :=
      List.filterMap_cons_none (congrArg (Option.map _) himported)
    rw [hnone]
    exact fun level hlevel => nomatch hlevel
  | @nested cx _ _ id ext _ _ _ _ himported ih =>
    have hdepth := Context.depth_innerFrame_of_isRoot cx id himported rfl
    have htop : (Context.nested (cx.innerFrame id ext) cx).depth = cx.depth + 1 := hdepth
    rw [levelsOf_innerFrame himported rfl, htop]
    exact List.forall_mem_cons.mpr
      ⟨Nat.le_refl _, fun level hlevel => Nat.le_succ_of_le (ih level hlevel)⟩

/-- The root is less deep than any root import. -/
theorem lt_depth_of_preamble {c : Context} (hc : c ∈ top.chain) (hroot : c.isRoot = true) :
    ∀ level ∈ levelsOf top.chain, c.depth < level.depth := by
  induction h with
  | @root frame himported =>
    have hnone : levelsOf (Context.root frame).chain = [] :=
      List.filterMap_cons_none (congrArg (Option.map _) himported)
    rw [hnone]
    exact fun level hlevel => nomatch hlevel
  | nested hpre _ _ _ himported ih =>
    obtain rfl | hc := List.mem_cons.mp hc
    · cases hroot
    · rw [levelsOf_innerFrame himported rfl]
      exact List.forall_mem_cons.mpr ⟨Nat.lt_succ_of_le (hpre.depth_le hc), ih hc⟩

/-- No two root imports share a depth. -/
theorem strict_of_preamble :
    (levelsOf top.chain).Pairwise fun inner outer => outer.depth < inner.depth := by
  induction h with
  | @root frame himported =>
    have hnone : levelsOf (Context.root frame).chain = [] :=
      List.filterMap_cons_none (congrArg (Option.map _) himported)
    rw [hnone]
    exact List.Pairwise.nil
  | nested hpre _ _ _ himported ih =>
    rw [levelsOf_innerFrame himported rfl]
    exact List.pairwise_cons.mpr
      ⟨fun level hlevel => Nat.lt_succ_of_le (depth_le_of_preamble hpre level hlevel), ih⟩

end Preamble

namespace Query

variable {q : Query} {top : Context} {qualifiers : List TypeRef}

/-! ### What a root import binds -/

variable (q)

/-- The accessible and qualifying part of what everything from a qualifier binds to the name. -/
def everythingFrom (qualifier : TypeRef) : Option Meaning :=
  ((ImportClause.root qualifier).importable q.view.program q.name).bind fun meaning =>
    meaning.filter fun sym => q.isAccessible qualifier sym && q.qualifies sym

variable {q}

/-- A root import binds whatever its qualifier has of the name. -/
theorem boundBy_root {level : ImportLevel} {qualifier : TypeRef}
    (h : level.imp.clause = .root qualifier) :
    q.boundBy false level = q.everythingFrom qualifier := by
  have hbind : level.imp.clause.bind? q.view.program q.name false =
      ((ImportClause.root qualifier).importable q.view.program q.name).map (0, ·) := by
    rw [h, ImportClause.bind?]
    show ImportClause.bindFrom _ _ _ [Selector.wildcard] 0 false = _
    rw [ImportClause.bindFrom, ImportClause.bindSelector]
    cases (ImportClause.root qualifier).importable q.view.program q.name <;> rfl
  rw [boundBy, hbind, Option.bind_map, everythingFrom]
  unfold usablePart
  rw [h]
  rfl

/-- No root import names anything. -/
theorem boundBy_root_explicit {level : ImportLevel} {qualifier : TypeRef}
    (h : level.imp.clause = .root qualifier) : q.boundBy true level = none := by
  rw [boundBy, h]
  rfl

/-- A root import is never explicit. -/
theorem isExplicit_root {b : Binding} {qualifier : TypeRef} (h : b.clause = .root qualifier) :
    q.isExplicit b = false := by
  rw [isExplicit, h]
  rfl

variable (q)

/-- The imports above the unit that bind the name, innermost first. -/
def rootBindings (top : Context) : List Binding := q.bindingsOf false (levelsOf top.chain)

/-- The imports of the unit that bind the name, innermost first. -/
def unitBindings (top : Context) : List Binding := q.bindingsOf false (levelsOf (q.cx.inside top))

variable {q}

section Preamble

variable (hpre : Context.Preamble top qualifiers)
include hpre

/-- The innermost root import that binds the name. -/
theorem head?_rootBindings :
    (q.rootBindings top).head?.map (fun b => (b.clause.qualifier, b.meaning)) =
      qualifiers.findSome? fun qualifier => (q.everythingFrom qualifier).map (qualifier, ·) := by
  unfold rootBindings
  induction hpre with
  | @root frame himported =>
    have hnone : levelsOf (Context.root frame).chain = [] :=
      List.filterMap_cons_none (congrArg (Option.map _) himported)
    rw [hnone]
    rfl
  | @nested cx _ _ id ext place qualifier _ _ himported ih =>
    have hbound : q.boundBy false ⟨cx.depth + 1, ⟨place, .root qualifier⟩⟩ =
        q.everythingFrom qualifier := boundBy_root rfl
    rw [levelsOf_innerFrame himported rfl, List.findSome?_cons, ← hbound]
    cases hmeaning : q.boundBy false ⟨cx.depth + 1, ⟨place, .root qualifier⟩⟩ with
    | none =>
      rw [bindingsOf_cons_none hmeaning, ih]
      rfl
    | some meaning =>
      rw [bindingsOf_cons_some hmeaning]
      rfl

theorem bindingsOf_preamble_explicit : q.bindingsOf true (levelsOf top.chain) = [] := by
  refine bindingsOf_eq_nil fun level hlevel => ?_
  obtain ⟨qualifier, hroot⟩ := exists_root_of_preamble hpre hlevel
  exact boundBy_root_explicit hroot

/-- No binding of the preamble is explicit. -/
theorem isExplicit_of_mem_rootBindings {b : Binding} (hb : b ∈ q.rootBindings top) :
    q.isExplicit b = false := by
  obtain ⟨qualifier, hclause⟩ := exists_root_of_preamble hpre (mem_bindingsOf.mp hb).1
  exact isExplicit_root hclause

theorem depth_le_of_mem_rootBindings {b : Binding} (hb : b ∈ q.rootBindings top) :
    b.depth ≤ top.depth :=
  depth_le_of_preamble hpre b.level (mem_bindingsOf.mp hb).1

/-- Each root import that binds the name is alone at its depth. -/
theorem filter_rootBindings {b : Binding} (hb : b ∈ q.rootBindings top) :
    (q.rootBindings top).filter (fun other => other.depth == b.depth) = [b] := by
  have hstrict : (q.rootBindings top).Pairwise fun inner outer => outer.depth < inner.depth := by
    refine (strict_of_preamble hpre).filterMap _ fun inner outer hlt a ha c hc => ?_
    obtain ⟨meaning, -, rfl⟩ := Option.map_eq_some_iff.mp ha
    obtain ⟨meaning', -, rfl⟩ := Option.map_eq_some_iff.mp hc
    exact hlt
  obtain ⟨inner, outer, hsplit⟩ := List.append_of_mem hb
  rw [hsplit, List.pairwise_append, List.pairwise_cons] at hstrict
  obtain ⟨-, ⟨houter, -⟩, hinner⟩ := hstrict
  have hinnerNil : inner.filter (fun other => other.depth == b.depth) = [] :=
    List.filter_eq_nil_iff.mpr fun other hother => by
      simp [Nat.ne_of_gt (hinner other hother b List.mem_cons_self)]
  have houterNil : outer.filter (fun other => other.depth == b.depth) = [] :=
    List.filter_eq_nil_iff.mpr fun other hother => by simp [Nat.ne_of_lt (houter other hother)]
  rw [hsplit, List.filter_append, hinnerNil, List.filter_cons_of_pos (by simp), houterNil]
  rfl

end Preamble

/-! ### Inside the root imports -/

section Inside

variable (hinside : top ∈ q.cx.chain)
include hinside

/-- The imports of the unit come before the root imports. -/
theorem importLevels_eq_append :
    q.importLevels = levelsOf (q.cx.inside top) ++ levelsOf top.chain := by
  have hchain : q.importLevels = levelsOf q.cx.chain := rfl
  rw [hchain, Context.chain_eq_inside_append hinside]
  exact List.filterMap_append

/-- So do the bindings. -/
theorem bindings_eq_append : q.bindings = q.unitBindings top ++ q.rootBindings top := by
  rw [bindings, importLevels_eq_append hinside]
  exact bindingsOf_append ..

/-- The imports of the unit are no less deep than any root import. -/
theorem le_depth_of_unit (hgrown : q.cx.Grown) :
    ∀ level ∈ levelsOf (q.cx.inside top), top.depth ≤ level.depth := by
  intro level hlevel
  obtain ⟨c, hc, -, hdepth⟩ := mem_levelsOf.mp hlevel
  rw [hdepth]
  exact hgrown.le_depth_of_inside hinside hc

/-- An import of the unit is at least as deep as the preamble. -/
theorem le_depth_of_mem_unitBindings (hgrown : q.cx.Grown) {b : Binding}
    (hb : b ∈ q.unitBindings top) : top.depth ≤ b.depth :=
  le_depth_of_unit hinside hgrown b.level (mem_bindingsOf.mp hb).1

variable (hpre : Context.Preamble top qualifiers)
include hpre

/-- Only imports of the unit name anything. -/
theorem namedBindings_eq_unit :
    q.namedBindings = q.bindingsOf true (levelsOf (q.cx.inside top)) := by
  rw [namedBindings, importLevels_eq_append hinside, bindingsOf_append,
    bindingsOf_preamble_explicit hpre, List.append_nil]

/-- Further out than a root import nothing is bound by name. -/
theorem namedBindings_outside (hgrown : q.cx.Grown) {depth : Nat} (hdepth : depth ≤ top.depth) :
    q.namedBindings.filter (fun b => b.depth < depth) = [] := by
  rw [namedBindings_eq_unit hinside hpre, List.filter_eq_nil_iff]
  intro b hb
  have hle : top.depth ≤ b.depth :=
    le_depth_of_unit hinside hgrown b.level (mem_bindingsOf.mp hb).1
  simp only [decide_eq_true_eq]
  omega

/-- Without imports of the unit the innermost root import that binds the name is meant. -/
theorem importVerdict_of_unbound (hgrown : q.cx.Grown) (hunit : q.unitBindings top = [])
    {first : Binding} (hfirst : q.bindings.head? = some first) :
    q.importVerdict first = win first := by
  have hroots := bindings_eq_append hinside
  rw [hunit, List.nil_append] at hroots
  have hmem : first ∈ q.rootBindings top := by
    rw [← hroots]
    exact List.mem_of_mem_head? hfirst
  have hpeers : q.peersAt first.depth = [first] := by
    rw [peersAt, hroots]
    exact filter_rootBindings hpre hmem
  rw [importVerdict, hpeers, namedBindings_outside hinside hpre hgrown
    (depth_le_of_mem_rootBindings hpre hmem)]
  simp [contest, isExplicit_of_mem_rootBindings hpre hmem, judge]

/-- **Where neither a definition nor an import of the unit binds the name, the innermost root import
that does is meant.** -/
theorem run_of_unbound (hgrown : q.cx.Grown) (hname : q.name.isConstructor = false)
    (hnot : ∀ found, ¬ q.InnermostDefinition found) (hunit : q.unitBindings top = []) :
    q.run.result =
      match qualifiers.findSome? fun qualifier => (q.everythingFrom qualifier).map (qualifier, ·) with
      | none => q.failure
      | some (qualifier, meaning) => .succeeded (some qualifier) meaning := by
  have hroots := bindings_eq_append hinside
  rw [hunit, List.nil_append] at hroots
  rw [run_undefined (ordered_of_grown hgrown) hname hnot, ← head?_rootBindings hpre, ← hroots]
  cases hfirst : q.bindings.head? with
  | none => rfl
  | some first => exact importVerdict_of_unbound hinside hpre hgrown hunit hfirst

end Inside

/-- What a root import gives the name as, unless it is left out. -/
def rootBinding? (q : Query) (u : Universe) (imp : RootImport) : Option (TypeRef × Meaning) :=
  (imp.qualifier? u).bind fun qualifier => (q.everythingFrom qualifier).map (qualifier, ·)

theorem findSome?_qualifiers (q : Query) (u : Universe) (imports : List RootImport) :
    ((imports.filterMap (·.qualifier? u)).reverse.findSome? fun qualifier =>
        (q.everythingFrom qualifier).map (qualifier, ·)) =
      imports.reverse.findSome? (q.rootBinding? u) := by
  rw [← List.filterMap_reverse, ← List.head?_filterMap, List.filterMap_filterMap,
    List.head?_filterMap]
  rfl

/-- A failed lookup found nothing, or something that is out of reach. -/
theorem failure_cases (q : Query) :
    q.failure = .notFound ∨ ∃ meaning detail, q.failure = .inaccessible meaning detail := by
  unfold failure
  split
  · exact .inr ⟨_, _, rfl⟩
  · exact .inl rfl

end Query

end Lookup

/-! ### Names inside the root imports -/

namespace Resolution

/-- **Where nothing in the unit binds a name, the last listed root import that does gives it, and no
selector of a root import is ever used or listed as unused.** Contexts that lost the root imports
(`Context.Severed`) see none of them. The lookups are taken to end (`Table.Settles`). -/
theorem lookup_rootImports {s₀ s : Store} {made : List Context} (h : Resolution s made)
    {u : Universe} {session : SessionId} {owner : SymbolId} {scope : ScopeId}
    {imports : List RootImport} {top cx : Context}
    (htop : top = (Context.openRootWith u session owner scope imports s₀).1)
    (hbelow : Context.Below top cx) (hcx : cx ∈ made) :
    (top ∈ cx.chain → ∀ (v : Universe) (name : Name) (qualifies : SymbolId → Bool),
      let q := cx.query v name qualifies s
      name.isConstructor = false → (∀ found, ¬ q.InnermostDefinition found) →
      (∀ c ∈ cx.inside top, ∀ imp ∈ c.imported, q.boundBy false ⟨c.depth, imp⟩ = none) →
      match imports.reverse.findSome? (q.rootBinding? u) with
      | some (qualifier, meaning) =>
        (cx.lookup v name qualifies s).1 = .succeeded (some qualifier) meaning
      | none =>
        (cx.lookup v name qualifies s).1 = .notFound ∨
          ∃ meaning detail, (cx.lookup v name qualifies s).1 = .inaccessible meaning detail) ∧
    (top ∉ cx.chain →
      Context.Severed top cx ∧ ∀ c ∈ cx.chain, c ∈ top.chain → c.imported = none) ∧
    ∀ c ∈ cx.chain, ∀ imp ∈ c.imported, imp.clause.isRoot = true →
      (∀ position, s.isUsed imp.id position = false) ∧
        ∀ id selector, (imp, selector) ∉ s.unusedImports id := by
  have hpre : Context.Preamble top (imports.filterMap (·.qualifier? u)).reverse := by
    rw [htop]
    exact Context.preamble_openRootWith u session owner scope imports s₀
  have hgrown : top.Grown := by
    rw [htop]
    exact (Context.Built.openRootWith ..).grown
  refine ⟨fun hinside v name qualifies => ?_, fun houtside => ?_,
    fun c hc imp himported hroot => h.unitOnly hcx hc himported hroot⟩
  · intro q hname hnot hunit
    have hunbound : q.unitBindings top = [] := by
      refine Lookup.Query.bindingsOf_eq_nil fun level hlevel => ?_
      obtain ⟨c, hc, himported, hdepth⟩ := Lookup.mem_levelsOf.mp hlevel
      have hnone := hunit c hc level.imp himported
      rw [← hdepth] at hnone
      exact hnone
    have hrun := Lookup.Query.run_of_unbound hinside hpre (h.history.built cx hcx).grown hname hnot
      hunbound
    rw [Lookup.Query.findSome?_qualifiers] at hrun
    cases hlast : imports.reverse.findSome? (q.rootBinding? u) with
    | none =>
      rw [hlast] at hrun
      have hlookup : (cx.lookup v name qualifies s).1 = q.failure := hrun
      dsimp only
      rw [hlookup]
      exact q.failure_cases
    | some last =>
      rw [hlast] at hrun
      exact hrun
  · have hsevered := (hbelow.mem_chain_or_severed hpre hgrown).resolve_left houtside
    exact ⟨hsevered, fun c hc habove => hsevered.imported_eq_none hpre hc habove⟩

/-- A block below two root imports that bind the name and one that is left out. -/
theorem lookup_rootImports_block :
    let u := Sample.table.toUniverse
    let imports : List RootImport :=
      [.always (.path ⟨2⟩), .always (.path ⟨4⟩), .contingent (.ofWord 20)]
    let opened := Context.openRootWith u 0 .root 0 imports (Sample.store #[.empty])
    let block := opened.1.makeNewScope .block .root opened.2
    let looked := block.1.lookup u Sample.name (fun _ => true) block.2
    looked.1 = .succeeded (some (.path ⟨4⟩)) (.single ⟨5⟩) ∧
      ∀ position, looked.2.isUsed 1 position = false := by
  intro u imports opened block looked
  have hopened : Resolution opened.2 [opened.1] :=
    .openRootWith (.start rfl (by decide)) u 0 .root 0 imports
  have hblock : Resolution block.2 [block.1, opened.1] :=
    hopened.opening List.mem_cons_self (.newScope .block .root)
  have hbelow : Context.Below opened.1 block.1 := .opening .self (.newScope .block .root) opened.2
  have hlooked : Resolution looked.2 [block.1, opened.1] :=
    hblock.lookup (r := ⟨block.1, u, Sample.name, fun _ => true⟩) List.mem_cons_self
  have hname := (lookup_rootImports hblock rfl hbelow List.mem_cons_self).1 (by decide +kernel) u
    Sample.name (fun _ => true) (by decide +kernel)
    (Lookup.Query.definition?_eq_none_iff_not_exists.mp (by decide +kernel)) (by decide +kernel)
  have hlast : imports.reverse.findSome?
      ((block.1.query u Sample.name (fun _ => true) block.2).rootBinding? u) =
        some (.path ⟨4⟩, .single ⟨5⟩) := by
    decide +kernel
  rw [hlast] at hname
  have hused := (lookup_rootImports hlooked rfl hbelow List.mem_cons_self).2.2 opened.1
    (by decide +kernel) ⟨1, .root (.path ⟨4⟩)⟩ (by decide +kernel) rfl
  exact ⟨hname, hused.1⟩

end Resolution

/-- **Root imports do not give the name of constructors, nor anything to a constructor call right
inside the root.** In both cases the root import binds the name and nothing else does. -/
theorem Context.lookup_rootImports_unseen :
    let holder := Table.initial.addObject .root (.ofWord 9)
    let named := holder.2.addValue holder.1 Sample.name ∅
    let u := (named.2.addMethod holder.1 .constructor ∅).2.toUniverse
    let opened := openRootWith u 0 .root 0 [.always (.path ⟨2⟩)] (Sample.store #[.empty])
    let call := opened.1.makeConstructor u opened.2
    let atRoot := opened.1.query u .constructor (fun _ => true) opened.2
    let inCall := call.1.query u Sample.name (fun _ => true) call.2
    (atRoot.definition? = none ∧ atRoot.everythingFrom (.path ⟨2⟩) = some (.single ⟨4⟩) ∧
      (opened.1.lookup u .constructor (fun _ => true) opened.2).1 = .notFound) ∧
    inCall.definition? = none ∧ inCall.everythingFrom (.path ⟨2⟩) = some (.single ⟨3⟩) ∧
      (call.1.lookup u Sample.name (fun _ => true) call.2).1 = .notFound := by
  decide +kernel

end NameResolution
