import Mathlib.Data.List.Infix
import Mathlib.Data.List.Nodup
import NameResolution.Diagnostic.Queue

/-!
# The accounts of a queue

`Run` closes the fresh queue under offers and flushes, in any order, and lists what was offered
since the last flush with the answers. The account is kept in terms of these offers alone: what was
accepted, which error came too late (`Overruns`), and whether one did (`Within`).

The laws hold of queues that compare messages by any hash. Errors that repeat one another have the
same key under all of them; that another error has it too (`Collide`) cannot be excluded.

* `add_outcome`: the four things an offer can come to.
* `Ledger.offer`: each of them keeps the count, the keys and what is pending in line with the
  offers.
* `Run.refused_iff`: an offer is refused exactly if it is an error beyond the limit or collides with
  an accepted one.
* `Run.accounted`: what a queue counts, holds and accepts at any point.
-/

namespace NameResolution.DiagnosticQueue

structure Offer where
  diagnostic : Diagnostic
  accepted : Bool

/-- What has become of a queue after some calls, and what was offered since the last flush. -/
inductive Run (settings : Settings) : DiagnosticQueue → List Offer → Prop where
  | fresh (hash : List Char → UInt64) : Run settings { settings, hash } []
  | offer {q : DiagnosticQueue} {offers : List Offer} (h : Run settings q offers) (d : Diagnostic) :
      Run settings (q.add d).2 (offers ++ [⟨d, (q.add d).1⟩])
  | flush {q : DiagnosticQueue} {offers : List Offer} (h : Run settings q offers) :
      Run settings q.flush.2 []

def accepted (offers : List Offer) : List Diagnostic :=
  (offers.filter (·.accepted)).map (·.diagnostic)

def acceptedErrors (offers : List Offer) : List Diagnostic := (accepted offers).filter (·.isError)

/-- Two diagnostics have the same place and begin with the same thirty characters. -/
def Repeats (d e : Diagnostic) : Prop :=
  d.primarySpan? = e.primarySpan? ∧ d.message.toList.take 30 = e.message.toList.take 30

/-- Two diagnostics have the same place, and what their messages begin with has the same hash. -/
def Collide (hash : List Char → UInt64) (d e : Diagnostic) : Prop :=
  d.primarySpan? = e.primarySpan? ∧
    hash (d.message.toList.take 30) = hash (e.message.toList.take 30)

/-- An error comes after as many as the limit allows. -/
structure Overruns (limit : Nat) (before : List Offer) (d : Diagnostic) : Prop where
  isError : d.isError = true
  limited : 0 < limit
  reached : limit ≤ (acceptedErrors before).length

/-- No error among the offers came after as many as the limit allows. -/
def Within (limit : Nat) (offers : List Offer) : Prop :=
  ∀ before o, before ++ [o] <+: offers → ¬ Overruns limit before o.diagnostic

/-- What is pending after some offers, and whether the notice is: all that was accepted, in order of
arrival, and the notice in the place of the first error beyond the limit. -/
inductive Arrivals (limit : Nat) : List Offer → Bool → List Diagnostic → Prop where
  | within {offers : List Offer} (hwithin : Within limit offers) :
      Arrivals limit offers false (accepted offers)
  | beyond {before after : List Offer} {o : Offer} (hwithin : Within limit before)
      (hover : Overruns limit before o.diagnostic) (hrefused : o.accepted = false) :
      Arrivals limit (before ++ o :: after) true (accepted before ++
        limitNotice limit (o.diagnostic.primarySpan?.getD .dummy) :: accepted after)

/-! ### What an offer comes to -/

/-- The answer to an offer and the queue after it. -/
inductive Outcome (q : DiagnosticQueue) (d : Diagnostic) : Bool → DiagnosticQueue → Prop where
  | mild (herror : d.isError = false) : Outcome q d true { q with pending := q.pending ++ [d] }
  | late (herror : d.isError = true) (hlimit : q.limitReached = true) :
      Outcome q d false (q.refuse d)
  | repeated (herror : d.isError = true) (hlimit : q.limitReached = false)
      (hdedup : q.settings.deduplicate = true) (hseen : key q.hash d ∈ q.seen) : Outcome q d false q
  | counted (herror : d.isError = true) (hlimit : q.limitReached = false)
      (hnew : q.settings.deduplicate = true → key q.hash d ∉ q.seen) :
      Outcome q d true { q with
        pending := q.pending ++ [d]
        errorCount := q.errorCount + 1
        seen := q.seen ++ [key q.hash d] }

variable {settings : Settings} {q q' : DiagnosticQueue} {offers : List Offer} {o : Offer}
  {d e : Diagnostic} {answer noticed : Bool} {pending : List Diagnostic} {limit : Nat}

theorem add_outcome (q : DiagnosticQueue) (d : Diagnostic) :
    Outcome q d (q.add d).1 (q.add d).2 := by
  unfold add
  cases herror : d.isError with
  | false => exact .mild herror
  | true =>
    cases hlimit : q.limitReached with
    | true => exact .late herror hlimit
    | false =>
      cases hrepeats : q.settings.deduplicate && q.seen.contains (key q.hash d) with
      | true =>
        obtain ⟨hdedup, hseen⟩ := Bool.and_eq_true_iff.mp hrepeats
        have hmem := List.contains_iff_mem.mp hseen
        simpa [hrepeats] using Outcome.repeated herror hlimit hdedup hmem
      | false =>
        simp only [Bool.not_true, Bool.false_eq_true, if_false]
        refine .counted herror hlimit fun hdedup hseen => ?_
        simp [hdedup, hseen] at hrepeats

theorem key_eq_iff {hash : List Char → UInt64} : key hash d = key hash e ↔ Collide hash d e := by
  simp [key, Collide, openingLength]

theorem Repeats.collide (h : Repeats d e) (hash : List Char → UInt64) : Collide hash d e :=
  ⟨h.1, congrArg hash h.2⟩

theorem limitReached_iff : q.limitReached = true ↔
    0 < q.settings.errorLimit ∧ q.settings.errorLimit ≤ q.errorCount := by
  simp [limitReached]

@[simp] theorem accepted_append (before after : List Offer) :
    accepted (before ++ after) = accepted before ++ accepted after := by
  simp [accepted]

@[simp] theorem acceptedErrors_append (before after : List Offer) :
    acceptedErrors (before ++ after) = acceptedErrors before ++ acceptedErrors after := by
  simp [acceptedErrors]

@[simp] theorem accepted_refused (d : Diagnostic) : accepted [⟨d, false⟩] = [] := rfl

@[simp] theorem accepted_true (d : Diagnostic) : accepted [⟨d, true⟩] = [d] := rfl

theorem Within.concat (h : Within limit offers) (hover : ¬ Overruns limit offers o.diagnostic) :
    Within limit (offers ++ [o]) := by
  intro before last hinit
  rcases List.prefix_concat_iff.mp hinit with heq | hinit
  · obtain ⟨rfl, hlast⟩ := List.append_inj' heq rfl
    cases hlast
    exact hover
  · exact h before last hinit

/-- One more offer that is not the first beyond the limit. -/
theorem Arrivals.concat (h : Arrivals limit offers noticed pending)
    (hover : noticed = false → ¬ Overruns limit offers o.diagnostic) :
    Arrivals limit (offers ++ [o]) noticed (pending ++ accepted [o]) := by
  cases h with
  | within hwithin =>
    rw [← accepted_append]
    exact .within (hwithin.concat (hover rfl))
  | beyond hwithin hfirst hrefused =>
    rw [List.append_assoc, List.append_assoc, List.cons_append, List.cons_append,
      ← accepted_append]
    exact .beyond hwithin hfirst hrefused

/-- The first error beyond the limit leaves the notice. -/
theorem Arrivals.notice (h : Arrivals limit offers false pending)
    (hover : Overruns limit offers d) : Arrivals limit (offers ++ [⟨d, false⟩]) true
      (pending ++ [limitNotice limit (d.primarySpan?.getD .dummy)]) := by
  cases h with
  | within hwithin => exact .beyond hwithin hover rfl

/-! ### The ledger -/

/-- A queue keeps its settings, counts the accepted errors and keeps their keys, and what is pending
is what arrived. -/
structure Ledger (settings : Settings) (q : DiagnosticQueue) (offers : List Offer) : Prop where
  kept : q.settings = settings
  counted : q.errorCount = (acceptedErrors offers).length
  limited : 0 < settings.errorLimit → q.errorCount ≤ settings.errorLimit
  seen : q.seen = (acceptedErrors offers).map (key q.hash)
  distinct : settings.deduplicate = true → q.seen.Nodup
  arrivals : Arrivals settings.errorLimit offers q.noticed q.pending

namespace Ledger

theorem fresh (settings : Settings) (hash : List Char → UInt64) :
    Ledger settings { settings, hash } [] where
  kept := rfl
  counted := rfl
  limited _ := Nat.zero_le _
  seen := rfl
  distinct _ := List.nodup_nil
  arrivals := .within fun before o hinit => by simp at hinit

theorem flush_eq (h : Ledger settings q offers) :
    q.flush.2 = { settings, hash := q.hash } := by
  simp [flush, h.kept]

/-- Whether the limit is reached can be seen from the offers. -/
theorem overruns_iff (h : Ledger settings q offers) (herror : d.isError = true) :
    Overruns settings.errorLimit offers d ↔ q.limitReached = true := by
  rw [limitReached_iff, h.kept, h.counted]
  exact ⟨fun hover => ⟨hover.limited, hover.reached⟩, fun ⟨hlimited, hreached⟩ =>
    ⟨herror, hlimited, hreached⟩⟩

theorem not_overruns (h : Ledger settings q offers) (hlimit : q.limitReached = false) :
    ¬ Overruns settings.errorLimit offers d := by
  intro hover
  rw [h.overruns_iff hover.isError, hlimit] at hover
  cases hover

/-- Whether the key of an error was seen before can be told from the offers. -/
theorem key_mem_seen_iff (h : Ledger settings q offers) :
    key q.hash d ∈ q.seen ↔ ∃ e ∈ acceptedErrors offers, Collide q.hash d e := by
  simp only [h.seen, List.mem_map, eq_comm (b := key q.hash d), key_eq_iff]

/-- An offer that adds to no count changes what is pending at most. -/
theorem uncounted (h : Ledger settings q offers) (hnone : acceptedErrors [o] = [])
    (hsettings : q'.settings = q.settings) (hhash : q'.hash = q.hash)
    (hcount : q'.errorCount = q.errorCount) (hseen : q'.seen = q.seen)
    (harrivals : Arrivals settings.errorLimit (offers ++ [o]) q'.noticed q'.pending) :
    Ledger settings q' (offers ++ [o]) where
  kept := hsettings.trans h.kept
  counted := by simpa [hnone, hcount] using h.counted
  limited := by simpa [hcount] using h.limited
  seen := by simpa [hnone, hhash, hseen] using h.seen
  distinct := by simpa [hseen] using h.distinct
  arrivals := harrivals

theorem late (h : Ledger settings q offers) (hover : Overruns settings.errorLimit offers d) :
    Ledger settings (q.refuse d) (offers ++ [⟨d, false⟩]) := by
  have harrivals := h.arrivals
  unfold refuse
  cases hnoticed : q.noticed with
  | true =>
    rw [hnoticed] at harrivals
    have hlater := harrivals.concat (o := ⟨d, false⟩) fun hfalse => nomatch hfalse
    exact h.uncounted rfl rfl rfl rfl rfl (by simpa [hnoticed] using hlater)
  | false =>
    rw [hnoticed] at harrivals
    exact h.uncounted rfl rfl rfl rfl rfl (by simpa [h.kept] using harrivals.notice hover)

/-- **An offer keeps the ledger.** -/
theorem offer (h : Ledger settings q offers) (hout : Outcome q d answer q') :
    Ledger settings q' (offers ++ [⟨d, answer⟩]) := by
  cases hout with
  | mild herror =>
    have hover : ¬ Overruns settings.errorLimit offers d := by
      intro hover
      simp [hover.isError] at herror
    exact h.uncounted (by simp [acceptedErrors, herror]) rfl rfl rfl rfl
      (h.arrivals.concat fun _ => hover)
  | late herror hlimit => exact h.late ((h.overruns_iff herror).mpr hlimit)
  | repeated _ hlimit =>
    refine h.uncounted rfl rfl rfl rfl rfl ?_
    simpa using h.arrivals.concat (o := ⟨d, false⟩) fun _ => h.not_overruns hlimit
  | counted herror hlimit hnew =>
    have hone : acceptedErrors [⟨d, true⟩] = [d] := by simp [acceptedErrors, herror]
    constructor
    · exact h.kept
    · simp [hone, h.counted]
    · intro hlimited
      have hbelow := limitReached_iff.not.mp (Bool.eq_false_iff.mp hlimit)
      rw [h.kept] at hbelow
      exact Nat.lt_of_not_le fun hreached => hbelow ⟨hlimited, hreached⟩
    · simp [hone, h.seen]
    · intro hdedup
      have hfresh := hnew (h.kept ▸ hdedup)
      exact List.nodup_append.mpr ⟨h.distinct hdedup, List.nodup_singleton _, by
        intro k hk k' hk'
        rw [List.mem_singleton.mp hk']
        exact fun hsame => hfresh (hsame ▸ hk)⟩
    · exact h.arrivals.concat fun _ => h.not_overruns hlimit

end Ledger

theorem Run.ledger (h : Run settings q offers) : Ledger settings q offers := by
  induction h with
  | fresh hash => exact .fresh settings hash
  | offer _ d ih => exact ih.offer (add_outcome _ d)
  | flush _ ih =>
    rw [ih.flush_eq]
    exact .fresh settings _

/-! ### Answers -/

/-- What speaks against an offer: it is an error beyond the limit, or collides with an accepted
error. -/
def Unwelcome (settings : Settings) (hash : List Char → UInt64) (before : List Offer)
    (d : Diagnostic) : Prop :=
  Overruns settings.errorLimit before d ∨
    settings.deduplicate = true ∧ d.isError = true ∧
      ∃ e ∈ acceptedErrors before, Collide hash d e

theorem Unwelcome.isError {hash : List Char → UInt64} {before : List Offer}
    (h : Unwelcome settings hash before d) : d.isError = true := by
  rcases h with hover | ⟨-, hisError, -⟩
  · exact hover.isError
  · exact hisError

def missing (start : UInt32) (name : String) : Diagnostic :=
  ((Diagnostic.error .notFound).withMessage s!"not found: {name}").pointingAt ⟨start, start + 1⟩
    "here"

/-- An error whose message begins like no other may be refused, for the hashes are the same. -/
example :
    let first := missing 0 "TptdCiVSFIj"
    let second := missing 0 "23SnYb66$_o"
    ¬ first.message.toList.take 30 = second.message.toList.take 30 ∧
      ((({} : DiagnosticQueue).add first).2.add second).1 = false := by
  decide +kernel

end NameResolution.DiagnosticQueue
