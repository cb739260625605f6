import NameResolution.Proofs.Lookup.Clause

/-!
# The rank of an import

An import counts as naming a name as soon as one of its selectors gives that name, whether or not
the selector picks anything. The binding comes from the first selector that binds anything, which
may be a wildcard. Where the two part, a wildcard has the rank of a named import.

* `bindSelector_true`, `binds_true_iff`: with wildcards shut out a clause binds what the first
  selector that gives the name and picks anything picks (`given`).
* `binds_of_wildcard`, `exists_of_binds`: the place of the selector that binds, and what comes
  before.
* `earnsRank_iff`: the rank is earned unless a wildcard binds the name to something that the
  selectors giving the name do not pick (`Borrows`).
* `Context.lookup_borrowed_rank`: a name that only a wildcard binds, tied with an import that names
  it.
-/

namespace NameResolution

namespace ImportClause

variable (clause : ImportClause) (u : Universe) (name : Name)

/-- The clause binds a group of declarations to the name. -/
def Binds (explicitOnly : Bool) (meaning : Meaning) : Prop :=
  ∃ position, clause.bind? u name explicitOnly = some (position, meaning)

/-- What a selector that gives the name picks, in the namespace of the name. -/
def given : Selector → Option Meaning
  | .pick member rename =>
    if rename = name.toTerm then clause.importable u (if name.isType then member.toType else member)
    else none
  | .hide _ => none
  | .wildcard => none

/-- The clause counts as naming the name only for what it binds without its wildcards. -/
structure EarnsRank : Prop where
  same : ∀ meaning, clause.Binds u name false meaning → clause.isExplicit name = true →
    clause.Binds u name true meaning
  /-- What only a wildcard binds is not named. -/
  wildcard : (∃ meaning, clause.Binds u name false meaning) →
    (∀ meaning, ¬ clause.Binds u name true meaning) → clause.isExplicit name = false

/-- A wildcard binds the name, and some selector gives it: one that picks nothing, or one further on
that picks something else. -/
structure Borrows (meaning : Meaning) : Prop where
  names : ∃ member, .pick member name.toTerm ∈ clause.selectors
  binds : ∃ before after, clause.selectors = before ++ .wildcard :: after ∧
    (∀ selector ∈ before, selector.takesAway name.toTerm = false) ∧
    (∀ selector ∈ before, clause.given u name selector = none) ∧
    clause.importable u name = some meaning ∧
    after.findSome? (clause.given u name) ≠ some meaning

variable {clause u name}

/-! ### Without wildcards -/

theorem isExplicit_iff :
    clause.isExplicit name = true ↔ ∃ member, .pick member name.toTerm ∈ clause.selectors := by
  unfold isExplicit
  rw [List.any_eq_true]
  constructor
  · rintro ⟨selector, hmem, hgives⟩
    cases selector with
    | pick member rename =>
      obtain rfl : rename = name.toTerm := beq_iff_eq.mp hgives
      exact ⟨member, hmem⟩
    | hide | wildcard => cases hgives
  · rintro ⟨member, hmem⟩
    exact ⟨_, hmem, beq_self_eq_true name.toTerm⟩

/-- With wildcards shut out a selector binds what it picks. -/
theorem bindSelector_true (selector : Selector) :
    clause.bindSelector u name true selector = clause.given u name selector := by
  cases selector with
  | pick member rename =>
    unfold bindSelector given
    by_cases heq : rename = name.toTerm <;> simp [heq]
  | hide | wildcard => rfl

/-- Wildcards apart, a selector binds the same whether they are shut out or not. -/
theorem bindSelector_of_given {selector : Selector} {meaning : Meaning}
    (h : clause.given u name selector = some meaning) (closed : Bool) :
    clause.bindSelector u name closed selector = some meaning := by
  rw [← bindSelector_true] at h
  cases selector with
  | pick member rename => exact h
  | hide | wildcard => cases h

theorem binds_iff {explicitOnly : Bool} {meaning : Meaning} :
    clause.Binds u name explicitOnly meaning ↔
      (clause.meaningsFrom u name clause.selectors explicitOnly).head? = some meaning := by
  rw [← bindFrom_map_snd _ 0, Option.map_eq_some_iff]
  constructor
  · rintro ⟨position, hbind⟩
    exact ⟨(position, meaning), hbind, rfl⟩
  · rintro ⟨⟨position, _⟩, hbind, rfl⟩
    exact ⟨position, hbind⟩

/-- **With wildcards shut out the first selector that gives the name and picks anything binds it.**
-/
theorem binds_true_iff {meaning : Meaning} :
    clause.Binds u name true meaning ↔
      clause.selectors.findSome? (clause.given u name) = some meaning := by
  have hgiven : clause.bindSelector u name true = clause.given u name := funext bindSelector_true
  rw [binds_iff, meaningsFrom_true, List.head?_filterMap, hgiven]

/-! ### With wildcards -/

/-- The first binding comes from one of the selectors, and those before it bind nothing. -/
theorem exists_of_head?_meaningsFrom {selectors : List Selector} {closed : Bool} {meaning : Meaning}
    (h : (clause.meaningsFrom u name selectors closed).head? = some meaning) :
    ∃ before selector after, selectors = before ++ selector :: after ∧
      (∀ selector ∈ before, clause.given u name selector = none) ∧
      clause.bindSelector u name (closed || before.any (·.takesAway name.toTerm)) selector =
        some meaning := by
  induction selectors generalizing closed with
  | nil => cases h
  | cons first rest ih =>
    rw [meaningsFrom] at h
    cases hbind : clause.bindSelector u name closed first with
    | some bound =>
      rw [hbind] at h
      obtain rfl : bound = meaning := Option.some.inj h
      exact ⟨[], first, rest, rfl, by simp, by simpa using hbind⟩
    | none =>
      rw [hbind] at h
      obtain ⟨before, selector, after, rfl, hbefore, hselector⟩ := ih h
      have hfirst : clause.given u name first = none := by
        cases hgiven : clause.given u name first with
        | none => rfl
        | some bound =>
          rw [bindSelector_of_given hgiven] at hbind
          cases hbind
      refine ⟨first :: before, selector, after, rfl, ?_, ?_⟩
      · exact List.forall_mem_cons.mpr ⟨hfirst, hbefore⟩
      · rw [List.any_cons, ← Bool.or_assoc]
        exact hselector

/-- Of selectors that pick nothing and take nothing away only the wildcards bind the name. -/
theorem importable_of_mem_meaningsFrom {selectors : List Selector} {closed : Bool}
    (hgiven : ∀ selector ∈ selectors, clause.given u name selector = none) {meaning : Meaning}
    (h : meaning ∈ clause.meaningsFrom u name selectors closed) :
    clause.importable u name = some meaning := by
  induction selectors generalizing closed with
  | nil => cases h
  | cons first rest ih =>
    obtain ⟨hfirst, hrest⟩ := List.forall_mem_cons.mp hgiven
    rw [meaningsFrom, List.mem_append, Option.mem_toList] at h
    rcases h with hbind | hlater
    · cases first with
      | pick member rename =>
        rw [← bindSelector_true] at hfirst
        cases hfirst.symm.trans hbind
      | hide => cases hbind
      | wildcard =>
        cases closed with
        | true => cases hbind
        | false => exact hbind
    · exact ih hrest hlater

/-- A wildcard binds what is not taken away or picked before it. -/
theorem binds_of_wildcard {before after : List Selector} {meaning : Meaning}
    (hsplit : clause.selectors = before ++ .wildcard :: after)
    (htaken : ∀ selector ∈ before, selector.takesAway name.toTerm = false)
    (hgiven : ∀ selector ∈ before, clause.given u name selector = none)
    (hgroup : clause.importable u name = some meaning) : clause.Binds u name false meaning := by
  have hopen : before.any (·.takesAway name.toTerm) = false := by
    simpa [List.any_eq_false] using htaken
  have hbind : clause.bindSelector u name false .wildcard = some meaning := hgroup
  rw [binds_iff, hsplit, meaningsFrom_append, Bool.false_or, hopen, meaningsFrom, hbind]
  -- An earlier wildcard would bind the same.
  cases hbefore : clause.meaningsFrom u name before false with
  | nil => rfl
  | cons first rest =>
    have hmem : first ∈ clause.meaningsFrom u name before false := by
      rw [hbefore]
      exact List.mem_cons_self
    rw [importable_of_mem_meaningsFrom hgiven hmem] at hgroup
    exact hgroup

/-- Selectors that pick nothing do not matter where wildcards are shut out. -/
theorem binds_true_of_split {before rest : List Selector} (hsplit : clause.selectors = before ++ rest)
    (hgiven : ∀ selector ∈ before, clause.given u name selector = none) {meaning : Meaning} :
    clause.Binds u name true meaning ↔ rest.findSome? (clause.given u name) = some meaning := by
  rw [binds_true_iff, hsplit, List.findSome?_append, List.findSome?_eq_none_iff.mpr hgiven,
    Option.none_or]

/-- What a clause binds comes from a selector that picks it or from a wildcard. -/
theorem exists_of_binds {meaning : Meaning} (h : clause.Binds u name false meaning) :
    clause.Binds u name true meaning ∨
      ∃ before after, clause.selectors = before ++ .wildcard :: after ∧
        (∀ selector ∈ before, selector.takesAway name.toTerm = false) ∧
        (∀ selector ∈ before, clause.given u name selector = none) ∧
        clause.importable u name = some meaning := by
  obtain ⟨before, selector, after, hsplit, hbefore, hbind⟩ :=
    exists_of_head?_meaningsFrom (binds_iff.mp h)
  rw [Bool.false_or] at hbind
  cases selector with
  | pick member rename =>
    left
    have hgiven : clause.given u name (.pick member rename) = some meaning := by
      rw [← bindSelector_true]
      exact hbind
    rw [binds_true_of_split hsplit hbefore, List.findSome?_cons, hgiven]
  | hide => cases hbind
  | wildcard =>
    right
    cases htaken : before.any (·.takesAway name.toTerm) with
    | true =>
      rw [htaken] at hbind
      cases hbind
    | false =>
      rw [htaken] at hbind
      exact ⟨before, after, hsplit, by simpa [List.any_eq_false] using htaken, hbefore, hbind⟩

/-! ### When the rank is earned -/

/-- **The rank is earned unless a wildcard borrows it.** -/
theorem earnsRank_iff : clause.EarnsRank u name ↔ ∀ meaning, ¬ clause.Borrows u name meaning := by
  constructor
  · rintro hearns meaning ⟨hnames, before, after, hsplit, htaken, hgiven, hgroup, hother⟩
    have hbinds := hearns.same meaning (binds_of_wildcard hsplit htaken hgiven hgroup)
      (isExplicit_iff.mpr hnames)
    exact hother ((binds_true_of_split hsplit hgiven).mp hbinds)
  · intro hnot
    have hsame : ∀ meaning, clause.Binds u name false meaning → clause.isExplicit name = true →
        clause.Binds u name true meaning := by
      intro meaning hbinds hnamed
      rcases exists_of_binds hbinds with hpicked | ⟨before, after, hsplit, htaken, hgiven, hgroup⟩
      · exact hpicked
      · by_contra hother
        apply hnot meaning
        refine ⟨isExplicit_iff.mp hnamed, before, after, hsplit, htaken, hgiven, hgroup, ?_⟩
        intro hafter
        exact hother ((binds_true_of_split hsplit hgiven).mpr hafter)
    refine ⟨hsame, ?_⟩
    rintro ⟨meaning, hbinds⟩ hnone
    rw [Bool.eq_false_iff]
    intro hnamed
    exact hnone meaning (hsame meaning hbinds hnamed)

end ImportClause

/-! ### A rank that is not earned -/

/-- Gives the name to a member that object 2 lacks, and imports everything else from it. -/
def Sample.missing : ImportClause :=
  ⟨.path ⟨2⟩, [.renamed (.ofWord 12) Sample.name, .wildcard], .dummy, false⟩

/-- **A wildcard has the rank of a selector that picks nothing.** Only the wildcard of the clause
binds the name. Yet the clause ties with an import that names the value of another object, which
outranks the wildcard alone. -/
theorem Context.lookup_borrowed_rank :
    let u := Sample.table.toUniverse
    let s := Sample.store #[]
    let named := (Sample.root.makeImport (Sample.naming ⟨6⟩) s).1
    let lookupInside (clause : ImportClause) :=
      ((named.makeImport clause s).1.lookup u Sample.name (fun _ => true) s).1
    ¬ Sample.missing.EarnsRank u Sample.name ∧
    (Sample.missing.bind? u Sample.name false = some (1, .single ⟨3⟩) ∧
      Sample.missing.bind? u Sample.name true = none ∧
      Sample.missing.isExplicit Sample.name = true) ∧
    lookupInside Sample.missing =
      .ambiguous (.imports Sample.name ⟨.path ⟨2⟩, .dummy, true⟩ ⟨.path ⟨6⟩, .dummy, true⟩) ∧
    lookupInside (Sample.everything ⟨2⟩) = .succeeded (some (.path ⟨6⟩)) (.single ⟨7⟩) := by
  refine ⟨?_, by decide +kernel⟩
  intro hearns
  have hbind : Sample.missing.bind? Sample.table.toUniverse Sample.name true = none := by
    decide +kernel
  have hnone : ∀ meaning,
      ¬ Sample.missing.Binds Sample.table.toUniverse Sample.name true meaning := by
    rintro meaning ⟨position, hsome⟩
    rw [hbind] at hsome
    cases hsome
  exact absurd (hearns.wildcard ⟨.single ⟨3⟩, 1, by decide +kernel⟩ hnone) (by decide +kernel)

end NameResolution
