import NameResolution.Proofs.Lookup.Soundness
import NameResolution.Proofs.Lookup.Visibility

/-!
# Import clauses as they are written

The selectors of a clause are tried in order. In a clause as it is written, with wildcards last and
no name given twice, the order among them matters little:

* `ImportClause.Orderly.split_unique`: a name is given at one place at most.
* `ImportClause.Orderly.bindsTo_true_iff`: with wildcards shut out a clause binds what it picks.
* `ImportClause.Orderly.bindsTo_false_iff`: a wildcard binds the names that are neither given nor
  taken away.
-/

namespace NameResolution

theorem Name.toTerm_of_isTerm {name : Name} (h : name.isTerm = true) : name.toTerm = name := by
  obtain ⟨space, index⟩ := name
  cases space with
  | term => rfl
  | type => cases h

namespace Selector

/-- Whether all names in the selector are term names. -/
def isOfTerms : Selector → Bool
  | .pick member rename => member.isTerm && rename.isTerm
  | .hide member => member.isTerm
  | .wildcard => true

theorem any_isWildcard {selectors : List Selector} :
    selectors.any (·.isWildcard) = true ↔ .wildcard ∈ selectors := by
  rw [List.any_eq_true]
  constructor
  · rintro ⟨selector, hmem, hwildcard⟩
    cases selector with
    | wildcard => exact hmem
    | pick | hide => cases hwildcard
  · exact fun hmem => ⟨_, hmem, rfl⟩

end Selector

namespace ImportClause

variable (clause : ImportClause) (u : Universe) (name : Name) (sym : SymbolId)

/-- A clause as it is written: its wildcards come last, no name is given twice, and all names are
term names. -/
structure Orderly : Prop where
  wildcardsLast : ∃ named count, clause.selectors = named ++ List.replicate count .wildcard ∧
    ∀ selector ∈ named, selector.isWildcard = false
  distinct : clause.selectors.Pairwise fun a b =>
    ∀ name, a.gives name = true → b.gives name = false
  ofTerms : ∀ selector ∈ clause.selectors, selector.isOfTerms = true

/-- A declaration is a member of the qualifier under the name and not restricted to its instance. -/
def Importable : Prop :=
  sym ∈ u.members clause.qualifier name ∧ (u.flags sym).contains .instanceOnly = false

/-- The clause binds a group of declarations to the name, and this is one of them. -/
def BindsTo (explicitOnly : Bool) : Prop :=
  ∃ position meaning, clause.bind? u name explicitOnly = some (position, meaning) ∧
    sym ∈ meaning.alternatives

variable {clause u name sym}

/-! ### What is importable -/

theorem importable_iff :
    clause.Importable u name sym ↔
      ∃ meaning, clause.importable u name = some meaning ∧ sym ∈ meaning.alternatives := by
  constructor
  · rintro ⟨hmember, hlocal⟩
    have hmem : sym ∈ (u.members clause.qualifier name).filter fun m =>
        !(u.flags m).contains .instanceOnly := by
      rw [List.mem_filter, hlocal]
      exact ⟨hmember, rfl⟩
    cases hgroup : clause.importable u name with
    | none =>
      rw [importable, Meaning.ofList?_eq_none_iff] at hgroup
      rw [hgroup] at hmem
      cases hmem
    | some meaning =>
      refine ⟨meaning, rfl, ?_⟩
      rw [Meaning.alternatives_of_ofList? hgroup]
      exact hmem
  · rintro ⟨meaning, hgroup, hsym⟩
    exact mem_importable hgroup hsym

theorem not_importable_iff :
    (∀ other, ¬ clause.Importable u name other) ↔ clause.importable u name = none := by
  constructor
  · intro hnone
    rw [importable, Meaning.ofList?_eq_none_iff, List.eq_nil_iff_forall_not_mem]
    intro other hother
    obtain ⟨hmember, hlocal⟩ := List.mem_filter.mp hother
    exact hnone other ⟨hmember, by simpa using hlocal⟩
  · rintro hnone other hother
    obtain ⟨meaning, hgroup, -⟩ := importable_iff.mp hother
    rw [hnone] at hgroup
    cases hgroup

/-! ### What is bound -/

/-- Under a term name a selector that picks binds the member it picks, whatever came before. -/
theorem bindSelector_pick (hterm : name.isTerm = true) (closed : Bool) (member rename : Name) :
    clause.bindSelector u name closed (.pick member rename) =
      if rename = name then clause.importable u member else none := by
  have htype : name.isType = false := by simpa [Name.isTerm] using hterm
  unfold bindSelector
  dsimp only
  rw [Name.toTerm_of_isTerm hterm, htype]
  by_cases heq : rename = name <;> simp [heq]

theorem bindSelector_true_iff (hterm : name.isTerm = true) {selector : Selector}
    {meaning : Meaning} :
    clause.bindSelector u name true selector = some meaning ↔
      ∃ member, selector = .pick member name ∧ clause.importable u member = some meaning := by
  cases selector with
  | pick member rename =>
    rw [bindSelector_pick hterm]
    by_cases heq : rename = name <;> simp [heq]
  | hide member => simp [bindSelector]
  | wildcard => simp [bindSelector]

theorem meaningsFrom_append (first second : List Selector) (closed : Bool) :
    clause.meaningsFrom u name (first ++ second) closed =
      clause.meaningsFrom u name first closed ++
        clause.meaningsFrom u name second (closed || first.any (·.takesAway name.toTerm)) := by
  induction first generalizing closed with
  | nil => simp [meaningsFrom]
  | cons selector first ih =>
    rw [List.cons_append, meaningsFrom, meaningsFrom, ih, List.append_assoc, List.any_cons,
      Bool.or_assoc]

/-- With wildcards shut out, what was taken away has no effect. -/
theorem meaningsFrom_true (selectors : List Selector) :
    clause.meaningsFrom u name selectors true =
      selectors.filterMap (clause.bindSelector u name true) := by
  induction selectors with
  | nil => rfl
  | cons selector rest ih =>
    rw [meaningsFrom, Bool.true_or, ih]
    cases hbind : clause.bindSelector u name true selector <;> simp [hbind]

/-- Nor has it without wildcards. -/
theorem meaningsFrom_of_named {named : List Selector}
    (hnamed : ∀ selector ∈ named, selector.isWildcard = false) (closed : Bool) :
    clause.meaningsFrom u name named closed = clause.meaningsFrom u name named true := by
  induction named generalizing closed with
  | nil => rfl
  | cons selector named ih =>
    obtain ⟨hfirst, hrest⟩ := List.forall_mem_cons.mp hnamed
    have hclosed : clause.bindSelector u name closed selector =
        clause.bindSelector u name true selector := by
      cases selector with
      | pick | hide => rfl
      | wildcard => cases hfirst
    rw [meaningsFrom, meaningsFrom, ih hrest, hclosed, Bool.true_or]

theorem head?_meaningsFrom_wildcards (count : Nat) (closed : Bool) :
    (clause.meaningsFrom u name (List.replicate count .wildcard) closed).head? =
      if closed || count == 0 then none else clause.importable u name := by
  induction count with
  | zero => simp [meaningsFrom]
  | succ count ih =>
    rw [List.replicate_succ, meaningsFrom]
    cases closed with
    | true => simpa [bindSelector, Selector.takesAway] using ih
    | false =>
      cases hgroup : clause.importable u name with
      | none => simpa [bindSelector, Selector.takesAway, hgroup] using ih
      | some meaning => simp [bindSelector, hgroup]

theorem bindsTo_iff {explicitOnly : Bool} :
    clause.BindsTo u name sym explicitOnly ↔
      ∃ meaning, (clause.meaningsFrom u name clause.selectors explicitOnly).head? = some meaning ∧
        sym ∈ meaning.alternatives := by
  rw [← bindFrom_map_snd _ 0]
  constructor
  · rintro ⟨position, meaning, hbind, hsym⟩
    exact ⟨meaning, Option.map_eq_some_iff.mpr ⟨(position, meaning), hbind, rfl⟩, hsym⟩
  · rintro ⟨meaning, hbind, hsym⟩
    obtain ⟨⟨position, _⟩, hfound, rfl⟩ := Option.map_eq_some_iff.mp hbind
    exact ⟨position, _, hfound, hsym⟩

namespace Orderly

/-- After a selector that gives a name no other gives it. -/
theorem not_gives_after (h : clause.Orderly) {before after : List Selector} {a b : Name}
    (hsplit : clause.selectors = before ++ .pick a name :: after) :
    .pick b name ∉ after := by
  intro hmem
  have hdistinct := h.distinct
  rw [hsplit] at hdistinct
  have hafter := (List.pairwise_cons.mp (List.pairwise_append.mp hdistinct).2.1).1
  simpa [Selector.gives] using hafter _ hmem name

/-- Of two selectors that give a name neither comes after the other. -/
theorem between_eq_nil (h : clause.Orderly) {before between after after' : List Selector}
    {a b : Name} (hsplit : clause.selectors = before ++ .pick a name :: after)
    (hrest : .pick a name :: after = between ++ .pick b name :: after') : between = [] := by
  cases between with
  | nil => rfl
  | cons first between =>
    injection hrest with _ hafter
    exact absurd (List.mem_iff_append.mpr ⟨_, _, hafter⟩) (h.not_gives_after hsplit)

/-- A name is given at one place at most. -/
theorem split_unique (h : clause.Orderly) {before after before' after' : List Selector} {a b : Name}
    (hsplit : clause.selectors = before ++ .pick a name :: after)
    (hsplit' : clause.selectors = before' ++ .pick b name :: after') : before = before' ∧ a = b := by
  rcases List.append_eq_append_iff.mp (hsplit.symm.trans hsplit') with
    ⟨between, hbefore, hrest⟩ | ⟨between, hbefore, hrest⟩
  · obtain rfl := h.between_eq_nil hsplit hrest
    injection hrest with hpick
    injection hpick with hmember
    exact ⟨by rw [hbefore, List.append_nil], hmember⟩
  · obtain rfl := h.between_eq_nil hsplit' hrest
    injection hrest with hpick
    injection hpick with hmember
    exact ⟨by rw [hbefore, List.append_nil], hmember.symm⟩

theorem pick_unique (h : clause.Orderly) {a b : Name} (ha : .pick a name ∈ clause.selectors)
    (hb : .pick b name ∈ clause.selectors) : a = b := by
  obtain ⟨before, after, hsplit⟩ := List.append_of_mem ha
  obtain ⟨before', after', hsplit'⟩ := List.append_of_mem hb
  exact (h.split_unique hsplit hsplit').2

/-- What selectors that pick contribute to a term name: at most one group. -/
theorem head?_meaningsFrom_true (h : clause.Orderly) (hterm : name.isTerm = true)
    {meaning : Meaning} :
    (clause.meaningsFrom u name clause.selectors true).head? = some meaning ↔
      ∃ member, .pick member name ∈ clause.selectors ∧
        clause.importable u member = some meaning := by
  have hmem : ∀ other, other ∈ clause.meaningsFrom u name clause.selectors true ↔
      ∃ member, .pick member name ∈ clause.selectors ∧
        clause.importable u member = some other := by
    intro other
    rw [meaningsFrom_true, List.mem_filterMap]
    constructor
    · rintro ⟨selector, hselector, hbind⟩
      obtain ⟨member, rfl, hgroup⟩ := (bindSelector_true_iff hterm).mp hbind
      exact ⟨member, hselector, hgroup⟩
    · rintro ⟨member, hpick, hgroup⟩
      exact ⟨_, hpick, (bindSelector_true_iff hterm).mpr ⟨member, rfl, hgroup⟩⟩
  constructor
  · intro hhead
    exact (hmem meaning).mp (List.mem_of_mem_head? hhead)
  · intro hpick
    obtain ⟨first, rest, hlist⟩ :=
      List.exists_cons_of_ne_nil (List.ne_nil_of_mem ((hmem meaning).mpr hpick))
    have hfirst := (hmem first).mp (hlist ▸ List.mem_cons_self)
    obtain ⟨member, hmember, hgroup⟩ := hpick
    obtain ⟨other, hother, hsame⟩ := hfirst
    obtain rfl := h.pick_unique hmember hother
    rw [hlist, List.head?_cons, ← hsame, hgroup]

/-- A wildcard counts if nothing before binds the name or takes it away. -/
theorem head?_meaningsFrom_false (h : clause.Orderly) (hterm : name.isTerm = true) :
    (clause.meaningsFrom u name clause.selectors false).head? =
      (clause.meaningsFrom u name clause.selectors true).head?.or
        (if clause.selectors.any (·.isWildcard) && !clause.selectors.any (·.takesAway name) then
          clause.importable u name
        else none) := by
  obtain ⟨named, count, hselectors, hnamed⟩ := h.wildcardsLast
  have htaken : clause.selectors.any (·.takesAway name) = named.any (·.takesAway name) := by
    simp [hselectors, Selector.takesAway]
  have hwildcard : clause.selectors.any (·.isWildcard) = (count != 0) := by
    have hnone : named.any (·.isWildcard) = false := by simpa [List.any_eq_false] using hnamed
    rw [hselectors, List.any_append, hnone]
    cases count <;> simp [Selector.isWildcard, List.replicate_succ]
  rw [htaken, hwildcard, hselectors, meaningsFrom_append, meaningsFrom_append, List.head?_append,
    List.head?_append, head?_meaningsFrom_wildcards, head?_meaningsFrom_wildcards,
    meaningsFrom_of_named hnamed false, Name.toTerm_of_isTerm hterm]
  cases named.any (·.takesAway name) <;> cases count <;> simp

/-- **With wildcards shut out a clause binds what its selectors pick.** -/
theorem bindsTo_true_iff (h : clause.Orderly) (hterm : name.isTerm = true) :
    clause.BindsTo u name sym true ↔
      ∃ member, .pick member name ∈ clause.selectors ∧ clause.Importable u member sym := by
  simp only [bindsTo_iff, h.head?_meaningsFrom_true hterm, importable_iff]
  constructor
  · rintro ⟨meaning, ⟨member, hpick, hgroup⟩, hsym⟩
    exact ⟨member, hpick, meaning, hgroup, hsym⟩
  · rintro ⟨member, hpick, meaning, hgroup, hsym⟩
    exact ⟨meaning, ⟨member, hpick, hgroup⟩, hsym⟩

/-- **Otherwise a wildcard binds the names that no selector gives or takes away.** -/
theorem bindsTo_false_iff (h : clause.Orderly) (hterm : name.isTerm = true) :
    clause.BindsTo u name sym false ↔
      (∃ member, .pick member name ∈ clause.selectors ∧ clause.Importable u member sym) ∨
        .wildcard ∈ clause.selectors ∧
          (∀ b ∈ clause.selectors, b.takesAway name = false) ∧
          (∀ member other, .pick member name ∈ clause.selectors →
            ¬ clause.Importable u member other) ∧
          clause.Importable u name sym := by
  rw [← h.bindsTo_true_iff hterm, bindsTo_iff, bindsTo_iff, h.head?_meaningsFrom_false hterm]
  have hnone : (∀ member other, .pick member name ∈ clause.selectors →
      ¬ clause.Importable u member other) ↔
        (clause.meaningsFrom u name clause.selectors true).head? = none := by
    simp only [Option.eq_none_iff_forall_ne_some, ne_eq, h.head?_meaningsFrom_true hterm]
    constructor
    · rintro hfree meaning ⟨member, hpick, hgroup⟩
      have := not_importable_iff.mp fun other => hfree member other hpick
      rw [this] at hgroup
      cases hgroup
    · intro hfree member other hpick hother
      obtain ⟨meaning, hgroup, -⟩ := importable_iff.mp hother
      exact hfree meaning ⟨member, hpick, hgroup⟩
  have htaken : (∀ b ∈ clause.selectors, b.takesAway name = false) ↔
      (!clause.selectors.any (·.takesAway name)) = true := by
    simp [List.any_eq_false]
  rw [hnone, htaken, importable_iff, ← Selector.any_isWildcard]
  cases (clause.meaningsFrom u name clause.selectors true).head? with
  | some meaning => simp
  | none =>
    cases clause.selectors.any (·.isWildcard) <;>
      cases clause.selectors.any (·.takesAway name) <;> simp

/-- After a wildcard come wildcards only. -/
theorem eq_wildcard_of_after (h : clause.Orderly) {before after : List Selector}
    (hsplit : clause.selectors = before ++ .wildcard :: after) : ∀ b ∈ after, b = .wildcard := by
  obtain ⟨named, count, hselectors, hnamed⟩ := h.wildcardsLast
  have hlast : ∀ b ∈ .wildcard :: after, b = .wildcard := by
    intro b hb
    rcases List.append_eq_append_iff.mp (hselectors.symm.trans hsplit) with
      ⟨between, hbefore, hrest⟩ | ⟨between, hbefore, hrest⟩
    · exact List.eq_of_mem_replicate (hrest ▸ List.mem_append_right _ hb)
    · cases between with
      | nil =>
        rw [List.nil_append] at hrest
        exact List.eq_of_mem_replicate (hrest ▸ hb)
      | cons first between =>
        injection hrest with hfirst
        have hwild : .wildcard ∈ named := by
          rw [hbefore, hfirst]
          exact List.mem_append_right _ List.mem_cons_self
        cases hnamed _ hwild
  exact fun b hb => hlast b (List.mem_cons_of_mem _ hb)

/-- Before a selector that picks there is no wildcard. -/
theorem not_isWildcard_of_before (h : clause.Orderly) {before after : List Selector}
    {member name : Name} (hsplit : clause.selectors = before ++ .pick member name :: after) :
    ∀ b ∈ before, b.isWildcard = false := by
  intro b hb
  cases b with
  | wildcard =>
    obtain ⟨first, second, rfl⟩ := List.append_of_mem hb
    rw [List.append_assoc] at hsplit
    cases h.eq_wildcard_of_after hsplit _ (List.mem_append_right _ List.mem_cons_self)
  | pick | hide => rfl

end Orderly

end ImportClause

end NameResolution
