import NameResolution.Proofs.Chain
import NameResolution.Lookup

/-!
# What a chain binds to a name

Two things decide a lookup, the innermost definition and the imports that bind the name. Both are
stated here on the chain alone, and the two searches of the lookup are proved to find them:

* `definition?_eq_some_iff`, `definition?_eq_none_iff`: the search outward finds the first context
  that has usable declarations (`InnermostDefinition`), and nothing only if no context has any.
* `mem_bindings`: the bindings are the imports on the chain that bind the name to something usable,
  innermost first. On a built chain their depth never grows (`ordered_of_grown`,
  `bindings_antitone`).
* `firstImport_binding`: the search through the imports finds the first binding among the imports up
  to the first that may not compete with the definition. What it leaves to consult is the rest of
  the list (`firstImport_split`).
* `isExplicit_of_boundBy`: an import that binds the name without the help of a wildcard names it.
-/

namespace NameResolution

theorem Meaning.ofList?_eq_none_iff {owner : SymbolId} {symbols : List SymbolId} :
    Meaning.ofList? owner symbols = none ↔ symbols = [] := by
  match symbols with
  | [] => simp [ofList?]
  | [sym] => simp [ofList?]
  | a :: b :: rest => simp [ofList?]

namespace Lookup

open Precedence

/-- An import in effect and what it binds to the name. -/
structure Binding where
  level : ImportLevel
  meaning : Meaning
deriving DecidableEq, Repr

namespace Binding

abbrev depth (b : Binding) : Nat := b.level.depth

abbrev clause (b : Binding) : ImportClause := b.level.imp.clause

end Binding

namespace Query

variable (q : Query)

/-! ### The innermost definition -/

/-- A context defines the name if its scope has a qualifying entry for it or if it opens a class
with a qualifying member that is accessible. -/
def Defines (c : Context) : Prop :=
  q.entriesAt c ≠ [] ∨
    c.opensClass = true ∧ ∃ sym ∈ q.membersAt c, q.isAccessible c.selfType sym = true

/-- What a context defines the name as: all entries of its scope, and only without entries the
accessible members of its class. -/
inductive DefinedAs : Found → Prop where
  | entries {c : Context} {meaning : Meaning}
      (hgroup : Meaning.ofList? c.owner (q.entriesAt c) = some meaning) :
      DefinedAs ⟨meaning, c, false⟩
  | members {c : Context} {meaning : Meaning} (hnone : q.entriesAt c = [])
      (hclass : c.opensClass = true)
      (hgroup : Meaning.ofList? (q.view.program.classOf c.selfType)
        ((q.membersAt c).filter (q.isAccessible c.selfType)) = some meaning) :
      DefinedAs ⟨meaning, c, true⟩

/-- The definition at the first context outward that defines the name. -/
structure InnermostDefinition (found : Found) : Prop where
  first : ∃ inner outer, q.cx.chain = inner ++ found.cx :: outer ∧ ∀ c ∈ inner, ¬ q.Defines c
  definedAs : q.DefinedAs found

variable {q}

/-- A search at a context fails exactly if it does not define the name. -/
theorem definitionAt?_eq_none_iff {c : Context} : q.definitionAt? c = none ↔ ¬ q.Defines c := by
  unfold definitionAt? Defines
  cases hentries : Meaning.ofList? c.owner (q.entriesAt c) with
  | some meaning =>
    have hne : q.entriesAt c ≠ [] := fun h => by simp [h, Meaning.ofList?] at hentries
    simp [hne]
  | none =>
    have hnil := Meaning.ofList?_eq_none_iff.mp hentries
    by_cases hclass : c.opensClass = true
    · simp [hnil, hclass, memberMeaning?, Meaning.ofList?_eq_none_iff, List.filter_eq_nil_iff]
    · simp [hnil, hclass]

/-- What a search at a context finds, it is defined as. -/
theorem definitionAt?_eq_some_iff {c : Context} {found : Found} :
    q.definitionAt? c = some found ↔ found.cx = c ∧ q.DefinedAs found := by
  unfold definitionAt?
  cases hentries : Meaning.ofList? c.owner (q.entriesAt c) with
  | some meaning =>
    have hne : q.entriesAt c ≠ [] := fun h => by simp [h, Meaning.ofList?] at hentries
    constructor
    · intro h
      cases h
      exact ⟨rfl, .entries hentries⟩
    · rintro ⟨rfl, hdef⟩
      cases hdef with
      | entries hgroup => rw [← hentries, hgroup]
      | members hnone _ _ => exact absurd hnone hne
  | none =>
    have hnil := Meaning.ofList?_eq_none_iff.mp hentries
    constructor
    · intro h
      dsimp only at h
      split at h
      · obtain ⟨meaning, hgroup, rfl⟩ := Option.map_eq_some_iff.mp h
        exact ⟨rfl, .members hnil ‹_› hgroup⟩
      · cases h
    · rintro ⟨rfl, hdef⟩
      cases hdef with
      | entries hgroup => rw [hgroup] at hentries; cases hentries
      | members _ hclass hgroup => simp [hclass, memberMeaning?, hgroup]

/-- The definition found is the innermost one. -/
theorem definition?_eq_some_iff {found : Found} :
    q.definition? = some found ↔ q.InnermostDefinition found := by
  unfold definition?
  rw [List.findSome?_eq_some_iff]
  constructor
  · rintro ⟨inner, c, outer, hchain, hat, hinner⟩
    obtain ⟨rfl, hdef⟩ := definitionAt?_eq_some_iff.mp hat
    exact ⟨⟨inner, outer, hchain, fun c hc => definitionAt?_eq_none_iff.mp (hinner c hc)⟩, hdef⟩
  · rintro ⟨⟨inner, outer, hchain, hinner⟩, hdef⟩
    exact ⟨inner, found.cx, outer, hchain, definitionAt?_eq_some_iff.mpr ⟨rfl, hdef⟩,
      fun c hc => definitionAt?_eq_none_iff.mpr (hinner c hc)⟩

/-- No definition is found exactly if no context around defines the name. -/
theorem definition?_eq_none_iff : q.definition? = none ↔ ∀ c ∈ q.cx.chain, ¬ q.Defines c := by
  unfold definition?
  simp only [List.findSome?_eq_none_iff, definitionAt?_eq_none_iff]

/-- Nothing is found only where there is no innermost definition. -/
theorem definition?_eq_none_iff_not_exists :
    q.definition? = none ↔ ∀ found, ¬ q.InnermostDefinition found := by
  simp only [← definition?_eq_some_iff, Option.eq_none_iff_forall_ne_some, ne_eq]

/-! ### Imports that bind the name -/

variable (q)

/-- The accessible and qualifying declarations an import binds to the name. -/
def boundBy (explicitOnly : Bool) (level : ImportLevel) : Option Meaning :=
  (level.imp.clause.bind? q.view.program q.name explicitOnly).bind fun found =>
    q.usablePart level found.2

/-- Those of the listed imports that bind the name, with what they bind. -/
def bindingsOf (explicitOnly : Bool) (levels : List ImportLevel) : List Binding :=
  levels.filterMap fun level => (q.boundBy explicitOnly level).map (Binding.mk level)

/-- The imports on the chain that bind the name, innermost first. -/
def bindings : List Binding := q.bindingsOf false q.importLevels

/-- The imports on the chain that bind the name by a selector that is no wildcard. -/
def namedBindings : List Binding := q.bindingsOf true q.importLevels

/-- Whether a selector of the import gives the name: the rank of the binding. -/
def isExplicit (b : Binding) : Bool := b.clause.isExplicit q.name

variable {q}

theorem consult_fst (level : ImportLevel) (explicitOnly : Bool) :
    (q.consult level explicitOnly).1 = q.boundBy explicitOnly level := by
  unfold consult boundBy
  cases level.imp.clause.bind? q.view.program q.name explicitOnly <;> rfl

/-- The import levels are the contexts that open an import. -/
theorem mem_importLevels {level : ImportLevel} :
    level ∈ q.importLevels ↔
      ∃ c ∈ q.cx.chain, c.imported = some level.imp ∧ level.depth = c.depth := by
  unfold importLevels
  simp only [List.mem_filterMap, Option.map_eq_some_iff]
  constructor
  · rintro ⟨c, hc, imp, himp, rfl⟩
    exact ⟨c, hc, himp, rfl⟩
  · rintro ⟨c, hc, himp, hdepth⟩
    exact ⟨c, hc, level.imp, himp, by rw [← hdepth]⟩

theorem mem_bindingsOf {explicitOnly : Bool} {levels : List ImportLevel} {b : Binding} :
    b ∈ q.bindingsOf explicitOnly levels ↔
      b.level ∈ levels ∧ q.boundBy explicitOnly b.level = some b.meaning := by
  unfold bindingsOf
  simp only [List.mem_filterMap, Option.map_eq_some_iff]
  constructor
  · rintro ⟨level, hlevel, meaning, hbound, rfl⟩
    exact ⟨hlevel, hbound⟩
  · rintro ⟨hlevel, hbound⟩
    exact ⟨b.level, hlevel, b.meaning, hbound, rfl⟩

/-- A binding is a level with the meaning it gives the name. -/
theorem mem_bindings {b : Binding} :
    b ∈ q.bindings ↔ b.level ∈ q.importLevels ∧ q.boundBy false b.level = some b.meaning :=
  mem_bindingsOf

@[simp] theorem bindingsOf_nil (explicitOnly : Bool) : q.bindingsOf explicitOnly [] = [] := rfl

theorem bindingsOf_cons_none {explicitOnly : Bool} {level : ImportLevel} {levels : List ImportLevel}
    (h : q.boundBy explicitOnly level = none) :
    q.bindingsOf explicitOnly (level :: levels) = q.bindingsOf explicitOnly levels := by
  simp [bindingsOf, h]

theorem bindingsOf_cons_some {explicitOnly : Bool} {level : ImportLevel} {levels : List ImportLevel}
    {meaning : Meaning} (h : q.boundBy explicitOnly level = some meaning) :
    q.bindingsOf explicitOnly (level :: levels) =
      ⟨level, meaning⟩ :: q.bindingsOf explicitOnly levels := by
  simp [bindingsOf, h]

theorem bindingsOf_append (explicitOnly : Bool) (levels more : List ImportLevel) :
    q.bindingsOf explicitOnly (levels ++ more) =
      q.bindingsOf explicitOnly levels ++ q.bindingsOf explicitOnly more :=
  List.filterMap_append

/-- Leaving out imports leaves out their bindings. -/
theorem bindingsOf_filter (explicitOnly : Bool) (keep : ImportLevel → Bool)
    (levels : List ImportLevel) :
    q.bindingsOf explicitOnly (levels.filter keep) =
      (q.bindingsOf explicitOnly levels).filter fun b => keep b.level := by
  induction levels with
  | nil => rfl
  | cons level levels ih =>
    cases hbound : q.boundBy explicitOnly level with
    | none =>
      rw [bindingsOf_cons_none hbound, ← ih, List.filter_cons]
      split
      · exact bindingsOf_cons_none hbound
      · rfl
    | some meaning =>
      rw [bindingsOf_cons_some hbound, List.filter_cons, List.filter_cons, ← ih]
      split
      · exact bindingsOf_cons_some hbound
      · rfl

/-! ### Depth of imports -/

variable (q)

/-- The imports on the chain come in an order in which their depth never grows. -/
def Ordered : Prop := q.importLevels.Pairwise fun inner outer => outer.depth ≤ inner.depth

variable {q}

/-- In a grown context depths decrease on the way out. -/
theorem ordered_of_grown (h : q.cx.Grown) : q.Ordered := by
  refine h.depth_antitone.filterMap _ fun inner outer hle a ha b hb => ?_
  obtain ⟨imp, -, rfl⟩ := Option.map_eq_some_iff.mp ha
  obtain ⟨imp', -, rfl⟩ := Option.map_eq_some_iff.mp hb
  exact hle

/-- Bindings come with the deepest first. -/
theorem bindings_antitone (h : q.Ordered) :
    q.bindings.Pairwise fun inner outer => outer.depth ≤ inner.depth := by
  refine h.filterMap _ fun inner outer hle a ha b hb => ?_
  obtain ⟨meaning, -, rfl⟩ := Option.map_eq_some_iff.mp ha
  obtain ⟨meaning', -, rfl⟩ := Option.map_eq_some_iff.mp hb
  exact hle

/-- The first binding on the chain is as deep as any. -/
theorem depth_le_of_head? (hord : q.Ordered) {first b : Binding}
    (hfirst : q.bindings.head? = some first) (hb : b ∈ q.bindings) : b.depth ≤ first.depth := by
  obtain ⟨rest, hbindings⟩ := List.head?_eq_some_iff.mp hfirst
  have hsorted := bindings_antitone hord
  rw [hbindings] at hsorted hb
  rcases List.mem_cons.mp hb with rfl | hb
  · exact Nat.le_refl _
  · exact List.rel_of_pairwise_cons hsorted hb

/-- Where the depth never grows, the imports deeper than some depth come first. -/
theorem takeWhile_deeper {levels : List ImportLevel}
    (h : levels.Pairwise fun inner outer => outer.depth ≤ inner.depth) (depth : Nat) :
    levels.takeWhile (fun level => depth < level.depth) =
      levels.filter fun level => depth < level.depth := by
  induction levels with
  | nil => rfl
  | cons level levels ih =>
    obtain ⟨hhead, htail⟩ := List.pairwise_cons.mp h
    by_cases hdeeper : depth < level.depth
    · simp [hdeeper, ih htail]
    · have hrest : levels.filter (fun level => depth < level.depth) = [] := by
        refine List.filter_eq_nil_iff.mpr fun outer houter => ?_
        have := hhead outer houter
        simp only [decide_eq_true_eq]
        omega
      simp [hdeeper, hrest]

/-- Where the depth never grows, the imports at the greatest depth come first. -/
theorem peers_append_outer {levels : List ImportLevel} {depth : Nat}
    (h : levels.Pairwise fun inner outer => outer.depth ≤ inner.depth)
    (hle : ∀ level ∈ levels, level.depth ≤ depth) :
    levels.filter (fun level => level.depth == depth) ++
      levels.filter (fun level => level.depth < depth) = levels := by
  induction levels with
  | nil => rfl
  | cons level levels ih =>
    obtain ⟨hhead, htail⟩ := List.pairwise_cons.mp h
    have ih := ih htail fun l hl => hle l (List.mem_cons_of_mem _ hl)
    have hlevel := hle level List.mem_cons_self
    by_cases heq : level.depth = depth
    · simpa [heq] using ih
    · have hlt : ∀ l ∈ level :: levels, l.depth < depth := by
        intro l hl
        rcases List.mem_cons.mp hl with rfl | hl
        · omega
        · have := hhead l hl
          omega
      have hpeers : (level :: levels).filter (fun level => level.depth == depth) = [] :=
        List.filter_eq_nil_iff.mpr fun l hl => by simp [Nat.ne_of_lt (hlt l hl)]
      have houter : (level :: levels).filter (fun level => level.depth < depth) = level :: levels :=
        List.filter_eq_self.mpr fun l hl => by simp [hlt l hl]
      rw [hpeers, houter, List.nil_append]

/-! ### The first import -/

variable (q)

/-- The import with what it binds, apart from those around it. -/
def Imported.binding (i : Imported) : Binding := ⟨i.level, i.meaning⟩

/-- Whether an import may compete with the definition. -/
def admits (definition : Option DefinitionKey) (level : ImportLevel) : Bool :=
  (admissionOf (q.importKey level) definition q.view.unit.isInterop).isAdmitted

variable {q}

/-- One step of the search, its uses left out. -/
theorem firstImport_cons (definition : Option DefinitionKey) (level : ImportLevel)
    (outer : List ImportLevel) :
    (q.firstImport definition (level :: outer)).1 =
      if q.admits definition level then
        match q.boundBy false level with
        | some meaning => some ⟨meaning, level, outer,
            admissionOf (q.importKey level) definition q.view.unit.isInterop⟩
        | none => (q.firstImport definition outer).1
      else none := by
  rw [firstImport, admits, ← consult_fst]
  cases (admissionOf (q.importKey level) definition q.view.unit.isInterop).isAdmitted with
  | false => rfl
  | true =>
    rcases q.consult level false with ⟨_ | meaning, uses⟩
    · rfl
    · rfl

/-- **The search stops at the first import it may not admit, and finds the first binding among
those before it.** -/
theorem firstImport_binding (definition : Option DefinitionKey) (levels : List ImportLevel) :
    (q.firstImport definition levels).1.map Imported.binding =
      (q.bindingsOf false (levels.takeWhile (q.admits definition))).head? := by
  induction levels with
  | nil => rfl
  | cons level outer ih =>
    by_cases hcompetes : q.admits definition level = true
    · rw [List.takeWhile_cons_of_pos hcompetes]
      unfold admits at hcompetes
      unfold firstImport
      simp only [hcompetes, Bool.not_true, Bool.false_eq_true, if_false]
      have hconsult := consult_fst (q := q) level false
      cases hbound : q.boundBy false level with
      | none =>
        rw [bindingsOf_cons_none hbound, ← ih]
        rw [hbound] at hconsult
        split
        · simp_all
        · rfl
      | some meaning =>
        rw [bindingsOf_cons_some hbound]
        rw [hbound] at hconsult
        split
        · simp_all [Imported.binding]
        · simp_all
    · rw [List.takeWhile_cons_of_neg hcompetes]
      unfold admits at hcompetes
      unfold firstImport
      simp [hcompetes]

/-- The import found is the first that binds the name, and neither it nor those before it are kept
out. -/
theorem firstImport_met {definition : Option DefinitionKey} {levels : List ImportLevel}
    {i : Imported} (h : (q.firstImport definition levels).1 = some i) :
    ∃ before, levels = before ++ i.level :: i.outer ∧
      (∀ level ∈ before, q.admits definition level = true ∧ q.boundBy false level = none) ∧
      q.admits definition i.level = true ∧ q.boundBy false i.level = some i.meaning ∧
      i.admission = admissionOf (q.importKey i.level) definition q.view.unit.isInterop := by
  induction levels with
  | nil => cases h
  | cons level outer ih =>
    rw [firstImport_cons] at h
    split at h
    · rename_i hadmitted
      cases hbound : q.boundBy false level with
      | none =>
        rw [hbound] at h
        obtain ⟨before, hsplit, hbefore, hfound⟩ := ih h
        refine ⟨level :: before, by rw [hsplit, List.cons_append], ?_, hfound⟩
        exact List.forall_mem_cons.mpr ⟨⟨hadmitted, hbound⟩, hbefore⟩
      | some meaning =>
        rw [hbound] at h
        cases h
        exact ⟨[], rfl, by simp, hadmitted, hbound, rfl⟩
    · cases h

/-- Imports that bind nothing leave no bindings. -/
theorem bindingsOf_eq_nil {explicitOnly : Bool} {levels : List ImportLevel}
    (h : ∀ level ∈ levels, q.boundBy explicitOnly level = none) :
    q.bindingsOf explicitOnly levels = [] := by
  refine List.filterMap_eq_nil_iff.mpr fun level hlevel => ?_
  rw [h level hlevel]
  rfl

/-- What is left to consult once an import binds the name: none of the imports before it binds the
name, and the rest of the list is as it was. -/
theorem firstImport_split {definition : Option DefinitionKey} {levels : List ImportLevel}
    {i : Imported} (h : (q.firstImport definition levels).1 = some i) :
    ∃ before, levels = before ++ i.level :: i.outer ∧ q.bindingsOf false before = [] ∧
      q.boundBy false i.level = some i.meaning := by
  obtain ⟨before, hsplit, hbefore, -, hbound, -⟩ := firstImport_met h
  exact ⟨before, hsplit, bindingsOf_eq_nil fun level hlevel => (hbefore level hlevel).2, hbound⟩

/-! ### Bindings that a selector names -/

/-- A clause binds a name explicitly only if one of its selectors gives the name. -/
theorem bindFrom_gives {clause : ImportClause} {u : Universe} {name : Name} :
    ∀ {selectors : List Selector} {position : Nat} {found : Nat × Meaning},
      clause.bindFrom u name selectors position true = some found →
        selectors.any (·.gives name.toTerm) = true := by
  intro selectors
  induction selectors with
  | nil => intro position found h; cases h
  | cons selector selectors ih =>
    intro position found h
    rw [List.any_cons, Bool.or_eq_true]
    unfold ImportClause.bindFrom at h
    split at h
    · rename_i meaning heq
      refine Or.inl ?_
      -- With wildcards shut out only a selector with the right new name binds anything.
      cases selector with
      | pick member rename =>
        unfold ImportClause.bindSelector at heq
        dsimp only at heq
        split at heq
        · assumption
        · cases heq
      | hide member => cases heq
      | wildcard => cases heq
    · rw [Bool.true_or] at h
      exact Or.inr (ih h)

/-- **An import that binds the name without a wildcard names it.** -/
theorem isExplicit_of_boundBy {b : Binding} (h : q.boundBy true b.level = some b.meaning) :
    q.isExplicit b = true := by
  obtain ⟨found, hbind, -⟩ := Option.bind_eq_some_iff.mp h
  exact bindFrom_gives hbind

end Query

end Lookup

end NameResolution
