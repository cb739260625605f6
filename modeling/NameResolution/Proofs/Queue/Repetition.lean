import NameResolution.Proofs.Queue.Accounts

/-!
# Repeated errors

With deduplication on, an error that repeats an accepted one is refused. The limit is looked at
before the repetition, so the queue may take the repeated error for the first one beyond the limit
(`FirstBeyond`) and leave the notice.

* `Run.add_repeated`: this is all that a repeated error can change.
* `add_repeated_beyond`: one error, offered twice to a queue that accepts one.
-/

namespace NameResolution.DiagnosticQueue

variable {settings : Settings} {q : DiagnosticQueue} {offers : List Offer} {d : Diagnostic}
  {noticed : Bool} {pending : List Diagnostic} {limit : Nat}

/-- The limit has been reached, and no error was offered since. -/
def FirstBeyond (limit : Nat) (offers : List Offer) (d : Diagnostic) : Prop :=
  Within limit offers ∧ Overruns limit offers d

theorem Arrivals.noticed_eq_false_iff (h : Arrivals limit offers noticed pending) :
    noticed = false ↔ Within limit offers := by
  cases h with
  | within hwithin => exact iff_of_true rfl hwithin
  | @beyond before after o _ hover _ =>
    have hinit : before ++ [o] <+: before ++ o :: after := ⟨after, by simp⟩
    exact iff_of_false Bool.noConfusion fun hwithin => hwithin before o hinit hover

/-- An error that repeats an accepted one is refused, and the notice is all that may come of it. -/
theorem Ledger.add_eq (h : Ledger settings q offers) (hdedup : settings.deduplicate = true)
    (herror : d.isError = true) (hrepeats : ∃ e ∈ acceptedErrors offers, Repeats d e) :
    q.add d = (false, if q.limitReached then q.refuse d else q) := by
  have hseen : key q.hash d ∈ q.seen := by
    obtain ⟨e, he, hrepeat⟩ := hrepeats
    exact h.key_mem_seen_iff.mpr ⟨e, he, hrepeat.collide q.hash⟩
  have hdedup' : q.settings.deduplicate = true := h.kept ▸ hdedup
  unfold add
  cases q.limitReached <;> simp [herror, hdedup', hseen]

/-- **A repeated error is refused and changes nothing,** but for the notice if it is the first error
beyond the limit. -/
theorem Run.add_repeated (h : Run settings q offers) (hdedup : settings.deduplicate = true)
    (herror : d.isError = true) (hrepeats : ∃ e ∈ acceptedErrors offers, Repeats d e) :
    (q.add d).1 = false ∧
      (¬ FirstBeyond settings.errorLimit offers d → (q.add d).2 = q) ∧
      (FirstBeyond settings.errorLimit offers d → (q.add d).2 =
        { q with
          pending := q.pending ++
            [limitNotice settings.errorLimit (d.primarySpan?.getD .dummy)]
          noticed := true }) := by
  have hnoticed := h.ledger.arrivals.noticed_eq_false_iff
  have hlimit := h.ledger.overruns_iff herror
  rw [h.ledger.add_eq hdedup herror hrepeats]
  refine ⟨rfl, fun hnot => ?_, fun hfirst => ?_⟩
  · unfold FirstBeyond at hnot
    rw [← hnoticed, hlimit] at hnot
    unfold refuse
    cases hreached : q.limitReached with
    | false => rfl
    | true =>
      have hbefore : q.noticed = true := by simpa [hreached] using hnot
      simp [hbefore]
  · have hreached := hlimit.mp hfirst.2
    have hbefore := hnoticed.mpr hfirst.1
    simp [hreached, refuse, hbefore, h.ledger.kept]

/-- The queue is full and has said so. -/
theorem Run.add_repeated_noticed :
    let settings : Settings := ⟨1, true⟩
    let first := missing 0 "a"
    let second := missing 7 "b"
    let q := ((({ settings } : DiagnosticQueue).add first).2.add second).2
    let offers : List Offer := [⟨first, true⟩, ⟨second, false⟩]
    Run settings q offers ∧ settings.deduplicate = true ∧ first.isError = true ∧
      (∃ e ∈ acceptedErrors offers, Repeats first e) ∧ q.limitReached = true ∧
      q.add first = (false, q) := by
  intro settings first second q offers
  have hrun : Run settings q offers := ((Run.fresh _).offer first).offer second
  have hrepeats : ∃ e ∈ acceptedErrors offers, Repeats first e :=
    ⟨first, by decide +kernel, rfl, rfl⟩
  obtain ⟨hrefused, hunchanged, -⟩ := hrun.add_repeated rfl rfl hrepeats
  have hlater : ¬ FirstBeyond settings.errorLimit offers first := by
    rintro ⟨hwithin, -⟩
    rw [← hrun.ledger.arrivals.noticed_eq_false_iff] at hwithin
    exact absurd hwithin (by decide +kernel)
  exact ⟨hrun, rfl, rfl, hrepeats, by decide +kernel, Prod.ext hrefused (hunchanged hlater)⟩

/-- **The error that fills the queue leaves the notice when it is repeated.** -/
theorem add_repeated_beyond :
    let settings : Settings := ⟨1, true⟩
    let error := missing 3 "x"
    let q := (({ settings } : DiagnosticQueue).add error).2
    Run settings q [⟨error, true⟩] ∧ settings.deduplicate = true ∧ error.isError = true ∧
      (∃ e ∈ acceptedErrors [⟨error, true⟩], Repeats error e) ∧
      q.pending = [error] ∧ (q.add error).1 = false ∧
      (q.add error).2.pending = [error, limitNotice 1 ⟨3, 4⟩] := by
  intro settings error q
  have hrepeats : ∃ e ∈ acceptedErrors [⟨error, true⟩], Repeats error e :=
    ⟨error, by decide +kernel, rfl, rfl⟩
  exact ⟨(Run.fresh _).offer error, rfl, rfl, hrepeats, by decide +kernel, by decide +kernel,
    by decide +kernel⟩

end NameResolution.DiagnosticQueue
