import NameResolution.Proofs.Queue.Accounts

/-!
# The order of a flush

A flush is to hand over what is pending by place, what has no place last, and equal places in order
of arrival (`Arranged NoLater place?`). It sorts by a number, and what has no place gets the last
number there is. A diagnostic may start there.

* `arranged_flush`: a flush is arranged by the sort key.
* `arranged_place?_iff`: it is arranged by place unless something without a place arrived before
  something that starts at the last number (`Misplaced`).
* `Run.flush_arranged`: so it is for every queue, which starts afresh.
* `flush_misplaced`: a warning without a place that stays before an error at the last one.
-/

namespace NameResolution.DiagnosticQueue

/-- Where a diagnostic starts, if it has a primary span. -/
def place? (d : Diagnostic) : Option UInt32 := d.primarySpan?.map (·.start)

/-- Places in order; what has none comes last. -/
def NoLater : Option UInt32 → Option UInt32 → Prop
  | _, none => True
  | none, some _ => False
  | some a, some b => a ≤ b

/-- The same diagnostics in the order of a key, those with equal keys in order of arrival. -/
structure Arranged {κ : Type} [DecidableEq κ] (le : κ → κ → Prop) (key : Diagnostic → κ)
    (pending result : List Diagnostic) : Prop where
  perm : result.Perm pending
  sorted : result.Pairwise fun d e => le (key d) (key e)
  stable : ∀ k, result.filter (key · = k) = pending.filter (key · = k)

/-- Something without a place arrived before something that starts at the last number. -/
def Misplaced (pending : List Diagnostic) : Prop :=
  ∃ d e, [d, e].Sublist pending ∧ place? d = none ∧ place? e = some 0xFFFFFFFF

variable {settings : Settings} {q : DiagnosticQueue} {offers : List Offer}
  {pending result : List Diagnostic} {d e : Diagnostic}

theorem sortKey_eq (d : Diagnostic) : sortKey d = (place? d).getD 0xFFFFFFFF := rfl

/-! ### By the sort key -/

/-- **A flush is arranged by the sort key.** -/
theorem arranged_flush (q : DiagnosticQueue) :
    Arranged (· ≤ ·) sortKey q.pending q.flush.1 := by
  have htrans : ∀ a b c : Diagnostic, decide (sortKey a ≤ sortKey b) = true →
      decide (sortKey b ≤ sortKey c) = true → decide (sortKey a ≤ sortKey c) = true := by
    simp only [decide_eq_true_eq]
    exact fun _ _ _ => UInt32.le_trans
  have htotal : ∀ a b : Diagnostic,
      (decide (sortKey a ≤ sortKey b) || decide (sortKey b ≤ sortKey a)) = true := by
    simp only [Bool.or_eq_true, decide_eq_true_eq]
    exact fun _ _ => UInt32.le_total _ _
  have hperm : q.flush.1.Perm q.pending := List.mergeSort_perm _ _
  refine ⟨hperm, ?_, fun k => ?_⟩
  · have hsorted := List.pairwise_mergeSort htrans htotal q.pending
    simp only [decide_eq_true_eq] at hsorted
    exact hsorted
  · -- What has the key `k` is in order already, so that sorting keeps it as it stands.
    have hequal : (q.pending.filter (sortKey · = k)).Pairwise
        fun a b => decide (sortKey a ≤ sortKey b) = true := by
      refine List.pairwise_of_forall_mem_list fun a ha b hb => ?_
      have hak := (List.mem_filter.mp ha).2
      have hbk := (List.mem_filter.mp hb).2
      simp only [decide_eq_true_eq] at hak hbk ⊢
      rw [hak, hbk]
      exact UInt32.le_refl _
    have hkept : (q.pending.filter (sortKey · = k)).Sublist q.flush.1 :=
      List.sublist_mergeSort htrans htotal hequal List.filter_sublist
    have hsub := hkept.filter fun d => decide (sortKey d = k)
    simp only [List.filter_filter, Bool.and_self] at hsub
    exact (hsub.eq_of_length (hperm.filter _).length_eq.symm).symm

/-! ### By place -/

/-- Order by place is finer than order by the sort key. -/
theorem Arranged.stable_place? (h : Arranged (· ≤ ·) sortKey pending result)
    (k : Option UInt32) :
    result.filter (place? · = k) = pending.filter (place? · = k) := by
  have hfiner : ∀ l : List Diagnostic, l.filter (place? · = k) =
      (l.filter (sortKey · = k.getD 0xFFFFFFFF)).filter (place? · = k) := by
    intro l
    rw [List.filter_filter]
    refine List.filter_congr fun d _ => ?_
    by_cases hd : place? d = k <;> simp [sortKey_eq, hd]
  rw [hfiner result, hfiner pending, h.stable]

/-- Out of place can only be what has no place and what starts at the last number. -/
theorem noLater_of_sortKey_le (h : sortKey d ≤ sortKey e) :
    NoLater (place? d) (place? e) ∨ place? d = none ∧ place? e = some 0xFFFFFFFF := by
  rw [sortKey_eq, sortKey_eq] at h
  cases hd : place? d with
  | none =>
    cases he : place? e with
    | none => exact Or.inl trivial
    | some b =>
      rw [hd, he] at h
      have hlast : b ≤ 0xFFFFFFFF := UInt32.le_iff_toNat_le.mpr (Nat.le_of_lt_succ b.toNat_lt)
      exact Or.inr ⟨rfl, congrArg some (UInt32.le_antisymm hlast h)⟩
  | some a =>
    cases he : place? e with
    | none => exact Or.inl trivial
    | some b =>
      rw [hd, he] at h
      exact Or.inl h

/-- **What is arranged by the sort key is arranged by place unless something is misplaced.** -/
theorem Arranged.place?_iff (h : Arranged (· ≤ ·) sortKey pending result) :
    Arranged NoLater place? pending result ↔ ¬ Misplaced pending := by
  -- The last place and no place at all have the same key, and those with this key keep their order.
  have hlast : ∀ d e, place? d = none → place? e = some 0xFFFFFFFF →
      ([d, e].Sublist result ↔ [d, e].Sublist pending) := by
    intro d e hd he
    have hpair : ∀ l : List Diagnostic, [d, e].Sublist l ↔
        [d, e].Sublist (l.filter (sortKey · = 0xFFFFFFFF)) := by
      intro l
      constructor
      · intro hsub
        have hfiltered := hsub.filter fun d => decide (sortKey d = 0xFFFFFFFF)
        simpa [sortKey_eq, hd, he] using hfiltered
      · exact fun hsub => hsub.trans List.filter_sublist
    rw [hpair result, hpair pending, h.stable]
  constructor
  · rintro hplaced ⟨d, e, hsub, hd, he⟩
    have hbefore := List.pairwise_iff_forall_sublist.mp hplaced.sorted ((hlast d e hd he).mpr hsub)
    rw [hd, he] at hbefore
    exact hbefore
  · intro hfine
    refine ⟨h.perm, List.pairwise_iff_forall_sublist.mpr fun {d e} hsub => ?_, h.stable_place?⟩
    have hle := List.pairwise_iff_forall_sublist.mp h.sorted hsub
    refine (noLater_of_sortKey_le hle).resolve_right fun ⟨hd, he⟩ => ?_
    exact hfine ⟨d, e, (hlast d e hd he).mp hsub, hd, he⟩

/-- **A flush starts the queue afresh and hands over what is pending by place, unless something is
misplaced.** What has no place is then among what starts at the last number, in order of arrival. -/
theorem Run.flush_arranged (h : Run settings q offers) :
    q.flush.2 = { settings, hash := q.hash } ∧ Arranged (· ≤ ·) sortKey q.pending q.flush.1 ∧
      (Arranged NoLater place? q.pending q.flush.1 ↔ ¬ Misplaced q.pending) :=
  ⟨h.ledger.flush_eq, arranged_flush q, (arranged_flush q).place?_iff⟩

/-! ### The last number -/

def unplaced : Diagnostic := (Diagnostic.warning .unusedImport).withMessage "unused import"

/-- An error at the end of the longest source there is. -/
def atTheEnd : Diagnostic :=
  (Diagnostic.error .notFound).pointingAt ⟨0xFFFFFFFF, 0xFFFFFFFF⟩ "here"

/-- The error arrives first and is handed over first. -/
theorem Run.flush_arranged_last :
    let q := ((({} : DiagnosticQueue).add atTheEnd).2.add unplaced).2
    let offers : List Offer := [⟨atTheEnd, true⟩, ⟨unplaced, true⟩]
    Run {} q offers ∧ q.flush.2 = {} ∧ Arranged NoLater place? q.pending q.flush.1 := by
  intro q offers
  have hrun : Run {} q offers := ((Run.fresh _).offer atTheEnd).offer unplaced
  obtain ⟨hfresh, -, hplaced⟩ := hrun.flush_arranged
  refine ⟨hrun, hfresh, hplaced.mpr ?_⟩
  rintro ⟨d, e, hsub, hd, he⟩
  have hpending : q.pending = [atTheEnd, unplaced] := by decide +kernel
  rw [hpending] at hsub
  obtain ⟨rfl, rfl⟩ : d = atTheEnd ∧ e = unplaced := by
    simpa using hsub.eq_of_length rfl
  cases hd

/-- **What has no place does not always come last.** The warning arrives first and stays first. -/
theorem flush_misplaced :
    let q := ((({} : DiagnosticQueue).add unplaced).2.add atTheEnd).2
    Run {} q [⟨unplaced, true⟩, ⟨atTheEnd, true⟩] ∧ place? unplaced = none ∧
      place? atTheEnd = some 0xFFFFFFFF ∧ q.flush.1 = [unplaced, atTheEnd] ∧
      ¬ Arranged NoLater place? q.pending q.flush.1 := by
  intro q
  have hpending : q.pending = [unplaced, atTheEnd] := by decide +kernel
  -- The two have the same sort key, so they are in order as they are.
  have hflush : q.flush.1 = [unplaced, atTheEnd] := by
    rw [← hpending]
    exact List.mergeSort_of_pairwise (by decide +kernel)
  refine ⟨((Run.fresh _).offer unplaced).offer atTheEnd, rfl, rfl, hflush, fun hplaced => ?_⟩
  have hsorted := hplaced.sorted
  rw [hflush] at hsorted
  exact List.rel_of_pairwise_cons hsorted (List.mem_singleton_self atTheEnd)

end NameResolution.DiagnosticQueue
