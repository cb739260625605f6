import NameResolution.Implicit.Level
import NameResolution.Proofs.Lookup.Clause
import NameResolution.Proofs.Overriding

/-!
# Selectors read twice

The selectors of an import clause are read by the lookup of names, which scans them in order, and by
the collection of implicit candidates, which works inward from the last one.

* `Context.mem_importedCandidates`, `ImportClause.Orderly.mem_importedCandidates`: which candidates
  a clause brings in.
* `ImportClause.Orderly.brings_iff_bindsTo`: the two agree on a name and a declaration exactly if it
  is in none of four situations (`ImportClause.Deviates`).
* `ImportClause.Orderly.nodup_importedCandidates`: no candidate is brought in twice.
-/

namespace NameResolution

namespace Selector

/-- Whether the selector is about the member with the name: picks it, under whatever name, or hides
it. -/
def concerns (name : Name) : Selector → Bool
  | .pick member _ | .hide member => member == name
  | .wildcard => false

/-- A selector that is about a member takes its name away, unless it picks it under that name. -/
theorem takesAway_or_pick_of_concerns {name : Name} {selector : Selector}
    (h : selector.concerns name = true) :
    selector.takesAway name = true ∨ selector = .pick name name := by
  cases selector with
  | pick member rename =>
    obtain rfl : member = name := eq_of_beq h
    by_cases heq : rename = member
    · exact Or.inr (heq ▸ rfl)
    · exact Or.inl (by simp [takesAway, heq])
  | hide member => exact Or.inl h
  | wildcard => cases h

/-- A selector that is not about a member leaves its name alone. -/
theorem takesAway_of_not_concerns {name : Name} {selector : Selector}
    (h : selector.concerns name = false) : selector.takesAway name = false := by
  cases selector with
  | pick member rename => exact Bool.and_eq_false_iff.mpr (Or.inl h)
  | hide member => exact h
  | wildcard => rfl

end Selector

namespace ImportClause

variable (clause : ImportClause) (u : Universe) (name : Name) (sym : SymbolId)

/-- How a candidate comes in: a selector gives it the name, or a wildcard lists it. Either way no
selector before is about the name. -/
inductive Brings : Prop where
  | picked {before after : List Selector} {member : Name}
      (hsplit : clause.selectors = before ++ .pick member name :: after)
      (hfree : ∀ b ∈ before, b.concerns name = false)
      (hsym : clause.Importable u member sym)
  | swept (hwildcard : .wildcard ∈ clause.selectors)
      (hfree : ∀ b ∈ clause.selectors, b.concerns name = false)
      (hsym : sym ∈ u.implicitMembers clause.qualifier) (hname : u.name sym = name)

/-- The situations in which the collection and the lookup disagree. -/
inductive Deviates : Prop where
  /-- A selector gives the declaration the name, and one before it is about that name: the name is
  taken away from what follows, explicit selectors included. -/
  | dropped {before after : List Selector} {member : Name} {b : Selector}
      (hsplit : clause.selectors = before ++ .pick member name :: after) (hb : b ∈ before)
      (hconcerns : b.concerns name = true) (hsym : clause.Importable u member sym)
  /-- A selector gives the name to something else, and a wildcard lists the declaration besides. -/
  | overlaid {member : Name} {other : SymbolId} (hpick : .pick member name ∈ clause.selectors)
      (hother : clause.Importable u member other) (hwildcard : .wildcard ∈ clause.selectors)
      (hfree : ∀ b ∈ clause.selectors, b.concerns name = false)
      (hsym : sym ∈ u.implicitMembers clause.qualifier) (hname : u.name sym = name)
  /-- A wildcard lists an implicit member that is not importable: it is restricted to its instance,
  or no member under its name. -/
  | unimportable (hwildcard : .wildcard ∈ clause.selectors)
      (hfree : ∀ b ∈ clause.selectors, b.concerns name = false)
      (hsym : sym ∈ u.implicitMembers clause.qualifier) (hname : u.name sym = name)
      (hnot : ¬ clause.Importable u name sym)
  /-- A wildcard binds a member under its name that is not listed among the implicit ones. -/
  | unlisted (hwildcard : .wildcard ∈ clause.selectors)
      (hfree : ∀ b ∈ clause.selectors, b.concerns name = false)
      (hnone : ∀ member other, .pick member name ∈ clause.selectors →
        ¬ clause.Importable u member other)
      (hsym : clause.Importable u name sym) (hnot : sym ∉ u.implicitMembers clause.qualifier)

variable {clause u name sym}

namespace Orderly

/-! ### Where the two readings agree -/

variable {t : Table}

/-- What is importable under a name has that name. -/
theorem name_of_importable (h : clause.Importable t.toUniverse name sym) : t.name sym = name :=
  Table.name_of_mem_members h.1

/-- Nothing that is importable under a name is picked where no selector is about that name. -/
theorem not_picked_of_free {member : Name} (hpick : .pick member name ∈ clause.selectors)
    (hfree : ∀ b ∈ clause.selectors, b.concerns name = false) (hname : t.name sym = name) :
    ¬ clause.Importable t.toUniverse member sym := by
  intro himportable
  obtain rfl : member = name := (name_of_importable himportable).symm.trans hname
  have hconcerns := hfree _ hpick
  simp [Selector.concerns] at hconcerns

/-- In none of the four situations, what is brought in is bound. -/
theorem bindsTo_of_brings (h : clause.Orderly) (hterm : name.isTerm = true)
    (hnot : ¬ clause.Deviates t.toUniverse name sym)
    (hbrings : clause.Brings t.toUniverse name sym) : clause.BindsTo t.toUniverse name sym false := by
  rw [h.bindsTo_false_iff hterm]
  cases hbrings with
  | @picked before after member hsplit hfree hsym =>
    exact Or.inl ⟨member, List.mem_iff_append.mpr ⟨_, _, hsplit⟩, hsym⟩
  | swept hwildcard hfree hsym hname =>
    refine Or.inr ⟨hwildcard, fun b hb => Selector.takesAway_of_not_concerns (hfree b hb),
      fun member other hpick hother => ?_, ?_⟩
    · exact hnot (.overlaid hpick hother hwildcard hfree hsym hname)
    · by_contra himportable
      exact hnot (.unimportable hwildcard hfree hsym hname himportable)

/-- In none of the four situations, what is bound is brought in. -/
theorem brings_of_bindsTo (h : clause.Orderly) (hterm : name.isTerm = true)
    (hnot : ¬ clause.Deviates t.toUniverse name sym)
    (hbinds : clause.BindsTo t.toUniverse name sym false) : clause.Brings t.toUniverse name sym := by
  rcases (h.bindsTo_false_iff hterm).mp hbinds with
    ⟨member, hpick, hsym⟩ | ⟨hwildcard, htaken, hnone, hsym⟩
  · obtain ⟨before, after, hsplit⟩ := List.append_of_mem hpick
    refine .picked hsplit (fun b hb => ?_) hsym
    by_contra hconcerns
    exact hnot (.dropped hsplit hb (eq_true_of_ne_false hconcerns) hsym)
  · have hfree : ∀ b ∈ clause.selectors, b.concerns name = false := by
      intro b hb
      by_contra hconcerns
      rcases Selector.takesAway_or_pick_of_concerns (eq_true_of_ne_false hconcerns) with hb' | rfl
      · exact absurd (htaken b hb) (by simp [hb'])
      · exact hnone name sym hb hsym
    by_cases hlisted : sym ∈ t.toUniverse.implicitMembers clause.qualifier
    · exact .swept hwildcard hfree hlisted (name_of_importable hsym)
    · exact absurd (.unlisted hwildcard hfree hnone hsym hlisted) hnot

/-- In each of the four situations one reading has the declaration and the other has not. -/
theorem not_deviates_of_iff (h : clause.Orderly) (hterm : name.isTerm = true)
    (hiff : clause.Brings t.toUniverse name sym ↔ clause.BindsTo t.toUniverse name sym false) :
    ¬ clause.Deviates t.toUniverse name sym := by
  rw [h.bindsTo_false_iff hterm] at hiff
  intro hdeviates
  cases hdeviates with
  | @dropped before after member b hsplit hb hconcerns hsym =>
    have hpick : .pick member name ∈ clause.selectors := List.mem_iff_append.mpr ⟨_, _, hsplit⟩
    cases hiff.mpr (Or.inl ⟨member, hpick, hsym⟩) with
    | picked hsplit' hfree _ =>
      obtain ⟨rfl, -⟩ := h.split_unique hsplit hsplit'
      exact absurd hconcerns (by simp [hfree b hb])
    | swept _ hfree _ _ =>
      have hmem : b ∈ clause.selectors := by
        rw [hsplit]
        exact List.mem_append_left _ hb
      exact absurd hconcerns (by simp [hfree b hmem])
  | @overlaid member other hpick hother hwildcard hfree hsym hname =>
    rcases hiff.mp (.swept hwildcard hfree hsym hname) with
      ⟨_, hpick', hsym'⟩ | ⟨-, -, hnone, -⟩
    · exact not_picked_of_free hpick' hfree hname hsym'
    · exact hnone member other hpick hother
  | unimportable hwildcard hfree hsym hname hnot =>
    rcases hiff.mp (.swept hwildcard hfree hsym hname) with
      ⟨_, hpick', hsym'⟩ | ⟨-, -, -, himportable⟩
    · exact not_picked_of_free hpick' hfree hname hsym'
    · exact hnot himportable
  | unlisted hwildcard hfree hnone hsym hnot =>
    have htaken : ∀ b ∈ clause.selectors, b.takesAway name = false := fun b hb =>
      Selector.takesAway_of_not_concerns (hfree b hb)
    cases hiff.mpr (Or.inr ⟨hwildcard, htaken, hnone, hsym⟩) with
    | @picked before after member hsplit _ hsym' =>
      have hpick : .pick member name ∈ clause.selectors := List.mem_iff_append.mpr ⟨_, _, hsplit⟩
      exact hnone member sym hpick hsym'
    | swept _ _ hlisted _ => exact hnot hlisted

/-- **What a clause brings in is what it binds, exactly in none of the four situations.** -/
theorem brings_iff_bindsTo (h : clause.Orderly) (hterm : name.isTerm = true) :
    (clause.Brings t.toUniverse name sym ↔ clause.BindsTo t.toUniverse name sym false) ↔
      ¬ clause.Deviates t.toUniverse name sym :=
  ⟨h.not_deviates_of_iff hterm, fun hnot =>
    ⟨h.bindsTo_of_brings hterm hnot, h.brings_of_bindsTo hterm hnot⟩⟩

end Orderly

end ImportClause

/-! ### Candidates -/

namespace Context

variable {cx : Context} {u : Universe} {s : Store} {clause : ImportClause} {members : List SymbolId}
  {c : Candidate}

theorem mem_candidates {symbols : List SymbolId} {pre : TypeRef} {isImported : Bool} :
    c ∈ cx.candidates u s symbols pre isImported ↔
      c.pre = pre ∧ c.sym ∈ symbols ∧ u.name c.sym = c.name ∧
        cx.qualifiesAs u s c.name c.sym pre isImported = true := by
  unfold candidates
  rw [List.mem_map]
  constructor
  · rintro ⟨sym, hsym, rfl⟩
    obtain ⟨hmem, hqualifies⟩ := List.mem_filter.mp hsym
    exact ⟨rfl, hmem, rfl, hqualifies⟩
  · rintro ⟨rfl, hmem, hname, hqualifies⟩
    refine ⟨c.sym, List.mem_filter.mpr ⟨hmem, ?_⟩, ?_⟩
    · rw [hname]
      exact hqualifies
    · rw [hname]

theorem mem_pickedCandidates {name : Name} :
    c ∈ cx.pickedCandidates u s clause name ↔
      c.pre = clause.qualifier ∧ c.name = name ∧ clause.BindsTo u name c.sym true ∧
        cx.qualifiesAs u s name c.sym clause.qualifier true = true := by
  unfold pickedCandidates ImportClause.BindsTo
  cases clause.bind? u name true with
  | none => simp
  | some found =>
    dsimp only
    rw [List.mem_map]
    constructor
    · rintro ⟨sym, hsym, rfl⟩
      obtain ⟨hmem, hqualifies⟩ := List.mem_filter.mp hsym
      exact ⟨rfl, rfl, ⟨found.1, found.2, rfl, hmem⟩, hqualifies⟩
    · rintro ⟨hpre, rfl, ⟨position, meaning, heq, hmem⟩, hqualifies⟩
      cases heq
      refine ⟨c.sym, List.mem_filter.mpr ⟨hmem, hqualifies⟩, ?_⟩
      rw [← hpre]

variable (cx u s clause members) in
/-- The candidates a selector brings in if no name is taken away. -/
def contributed : Selector → List Candidate
  | .pick _ rename => cx.pickedCandidates u s clause rename
  | .hide _ => []
  | .wildcard => cx.candidates u s members clause.qualifier true

/-- **A candidate is brought in by a selector** that no wildcard and no selector about its name
comes before. -/
theorem mem_importedCandidates {selectors : List Selector} :
    c ∈ cx.importedCandidates u s clause members selectors ↔
      ∃ before selector after, selectors = before ++ selector :: after ∧
        (∀ b ∈ before, b.isWildcard = false ∧ b.concerns c.name = false) ∧
        c ∈ cx.contributed u s clause members selector := by
  induction selectors with
  | nil =>
    refine iff_of_false List.not_mem_nil ?_
    rintro ⟨before, selector, after, hsplit, -⟩
    exact absurd hsplit.symm (by simp)
  | cons first rest ih =>
    -- The first selector brings the candidate in, or lets it through from the rest.
    have hstep : c ∈ cx.importedCandidates u s clause members (first :: rest) ↔
        c ∈ cx.contributed u s clause members first ∨
          (first.isWildcard = false ∧ first.concerns c.name = false) ∧
            c ∈ cx.importedCandidates u s clause members rest := by
      have hkept : ∀ member, (c.name != member) = true ↔ (member == c.name) = false := fun member => by
        rw [bne_iff_ne, beq_eq_false_iff_ne, ne_comm]
      cases first with
      | pick member rename =>
        simp only [importedCandidates, contributed, Selector.isWildcard, Selector.concerns,
          List.mem_append, List.mem_filter, hkept, true_and, and_comm]
      | hide member =>
        simp only [importedCandidates, contributed, Selector.isWildcard, Selector.concerns,
          List.mem_filter, hkept, true_and, and_comm, List.not_mem_nil, false_or]
      | wildcard => simp [importedCandidates, contributed, Selector.isWildcard]
    rw [hstep, ih]
    constructor
    · rintro (hfirst | ⟨hpassed, before, selector, after, rfl, hbefore, hc⟩)
      · exact ⟨[], first, rest, rfl, fun _ hb => absurd hb List.not_mem_nil, hfirst⟩
      · exact ⟨first :: before, selector, after, rfl,
          List.forall_mem_cons.mpr ⟨hpassed, hbefore⟩, hc⟩
    · rintro ⟨before, selector, after, hsplit, hbefore, hc⟩
      cases before with
      | nil =>
        cases hsplit
        exact Or.inl hc
      | cons b before =>
        cases hsplit
        obtain ⟨hpassed, hbefore⟩ := List.forall_mem_cons.mp hbefore
        exact Or.inr ⟨hpassed, before, selector, after, rfl, hbefore, hc⟩

end Context

namespace ImportClause.Orderly

variable {clause : ImportClause} {u : Universe} {cx : Context} {s : Store} {members : List SymbolId}
  {c : Candidate}

/-- **The candidates of a clause** are what it brings in, as far as it qualifies. -/
theorem mem_importedCandidates (h : clause.Orderly) (hterm : c.name.isTerm = true)
    (hmembers : .wildcard ∈ clause.selectors → members = u.implicitMembers clause.qualifier) :
    c ∈ cx.importedCandidates u s clause members clause.selectors ↔
      c.pre = clause.qualifier ∧ cx.qualifiesAs u s c.name c.sym clause.qualifier true = true ∧
        clause.Brings u c.name c.sym := by
  rw [Context.mem_importedCandidates]
  constructor
  · rintro ⟨before, selector, after, hsplit, hbefore, hc⟩
    have hselector : selector ∈ clause.selectors := List.mem_iff_append.mpr ⟨_, _, hsplit⟩
    cases selector with
    | pick member rename =>
      obtain ⟨hpre, rfl, hbinds, hqualifies⟩ := Context.mem_pickedCandidates.mp hc
      obtain ⟨other, hother, hsym⟩ := (h.bindsTo_true_iff hterm).mp hbinds
      obtain rfl := h.pick_unique hselector hother
      exact ⟨hpre, hqualifies, .picked hsplit (fun b hb => (hbefore b hb).2) hsym⟩
    | hide member => cases hc
    | wildcard =>
      obtain ⟨hpre, hsym, hname, hqualifies⟩ := Context.mem_candidates.mp hc
      rw [hmembers hselector] at hsym
      refine ⟨hpre, hqualifies, .swept hselector (fun b hb => ?_) hsym hname⟩
      rw [hsplit, List.mem_append, List.mem_cons] at hb
      rcases hb with hb | rfl | hb
      · exact (hbefore b hb).2
      · rfl
      · rw [h.eq_wildcard_of_after hsplit b hb]
        rfl
  · rintro ⟨hpre, hqualifies, hbrings⟩
    cases hbrings with
    | @picked before after member hsplit hfree hsym =>
      have hpick : .pick member c.name ∈ clause.selectors := List.mem_iff_append.mpr ⟨_, _, hsplit⟩
      have hbinds := (h.bindsTo_true_iff hterm).mpr ⟨member, hpick, hsym⟩
      exact ⟨before, _, after, hsplit,
        fun b hb => ⟨h.not_isWildcard_of_before hsplit b hb, hfree b hb⟩,
        Context.mem_pickedCandidates.mpr ⟨hpre, rfl, hbinds, hqualifies⟩⟩
    | swept hwildcard hfree hsym hname =>
      obtain ⟨named, count, hselectors, hnamed⟩ := h.wildcardsLast
      cases count with
      | zero =>
        rw [hselectors, List.replicate_zero, List.append_nil] at hwildcard
        cases hnamed _ hwildcard
      | succ count =>
        refine ⟨named, .wildcard, List.replicate count .wildcard, hselectors,
          fun b hb => ⟨hnamed b hb, hfree b ?_⟩, ?_⟩
        · rw [hselectors]
          exact List.mem_append_left _ hb
        · rw [← hmembers hwildcard] at hsym
          exact Context.mem_candidates.mpr ⟨hpre, hsym, hname, hqualifies⟩

/-! ### No candidate twice -/

/-- Candidates from different declarations are different. -/
theorem nodup_map {symbols : List SymbolId} (h : symbols.Nodup) (name : SymbolId → Name)
    (pre : TypeRef) : (symbols.map fun sym => (⟨name sym, pre, sym⟩ : Candidate)).Nodup :=
  h.map fun _ _ heq => congrArg Candidate.sym heq

theorem nodup_pickedCandidates {t : Table} (ht : t.Listed) (name : Name) :
    (cx.pickedCandidates t.toUniverse s clause name).Nodup := by
  unfold Context.pickedCandidates
  cases hbind : clause.bind? t.toUniverse name true with
  | none => exact List.nodup_nil
  | some found =>
    obtain ⟨original, hgroup⟩ := importable_of_bindFrom hbind
    have hnodup : found.2.alternatives.Nodup := by
      rw [Meaning.alternatives_of_ofList? hgroup]
      exact (Table.nodup_members ht clause.qualifier original).filter _
    exact nodup_map (hnodup.filter _) (fun _ => name) clause.qualifier

/-- **No candidate is brought in twice.** -/
theorem nodup_importedCandidates (h : clause.Orderly) {t : Table} (ht : t.Listed)
    (hmembers : members.Nodup) :
    (cx.importedCandidates t.toUniverse s clause members clause.selectors).Nodup := by
  suffices hsuffix : ∀ selectors before, clause.selectors = before ++ selectors →
      (cx.importedCandidates t.toUniverse s clause members selectors).Nodup from
    hsuffix clause.selectors [] rfl
  intro selectors
  induction selectors with
  | nil => exact fun _ _ => List.nodup_nil
  | cons selector rest ih =>
    intro before hsplit
    have hrest := ih (before ++ [selector]) (by rw [hsplit, List.append_assoc]; rfl)
    have hselector : selector ∈ clause.selectors := List.mem_iff_append.mpr ⟨_, _, hsplit⟩
    cases selector with
    | pick member rename =>
      refine List.nodup_append.mpr ⟨nodup_pickedCandidates ht rename, hrest.filter _, ?_⟩
      rintro c hpicked _ hlater rfl
      obtain ⟨hlater, hkept⟩ := List.mem_filter.mp hlater
      obtain ⟨-, rfl, hbinds, -⟩ := Context.mem_pickedCandidates.mp hpicked
      have hterm : c.name.isTerm = true := (Bool.and_eq_true_iff.mp (h.ofTerms _ hselector)).2
      -- What is picked has the name of the member, which is kept from what follows.
      obtain ⟨other, hother, hsym⟩ := (h.bindsTo_true_iff hterm).mp hbinds
      obtain rfl := h.pick_unique hselector hother
      obtain ⟨between, again, after, hrestsplit, -, hc⟩ := Context.mem_importedCandidates.mp hlater
      cases again with
      | pick again rename =>
        obtain ⟨-, heq, -, -⟩ := Context.mem_pickedCandidates.mp hc
        rw [← heq] at hrestsplit
        exact h.not_gives_after hsplit (List.mem_iff_append.mpr ⟨_, _, hrestsplit⟩)
      | hide => cases hc
      | wildcard =>
        obtain ⟨-, -, hname, -⟩ := Context.mem_candidates.mp hc
        exact bne_iff_ne.mp hkept (hname.symm.trans (name_of_importable hsym))
    | hide member => exact hrest.filter _
    | wildcard => exact nodup_map (hmembers.filter _) t.toUniverse.name clause.qualifier

end ImportClause.Orderly

end NameResolution
