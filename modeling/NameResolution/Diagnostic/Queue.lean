import NameResolution.Diagnostic
import NameResolution.Diagnostic.SipHash

/-!
# The diagnostic queue

The queue collects diagnostics up to an error limit, drops errors that repeat an earlier one, and
hands everything over in source order when flushed. The first error beyond the limit is replaced by
one notice that says so.
-/

namespace NameResolution

namespace DiagnosticQueue

structure Settings where
  /-- The number of errors accepted before a flush; zero for no limit. -/
  errorLimit : Nat := 10
  /-- Whether an error that repeats an earlier one is dropped. -/
  deduplicate : Bool := true
deriving DecidableEq, Repr

def Settings.unlimited : Settings := ⟨0, false⟩

/-- What makes two errors repetitions: the place, and the hash of how the message begins. Messages
that begin differently may have the same hash. -/
structure Key where
  span : Option Span
  opening : UInt64
deriving DecidableEq, Repr

/-- The number of message characters that count for a repetition. -/
def openingLength : Nat := 30

def key (hash : List Char → UInt64) (d : Diagnostic) : Key :=
  ⟨d.primarySpan?, hash (d.message.toList.take openingLength)⟩

end DiagnosticQueue

/-- Diagnostics waiting to be handed over, in order of arrival. -/
structure DiagnosticQueue where
  settings : DiagnosticQueue.Settings := {}
  /-- What messages are compared by. -/
  hash : List Char → UInt64 := sipHash
  pending : List Diagnostic := []
  /-- The number of errors accepted since the last flush. -/
  errorCount : Nat := 0
  /-- The keys of the errors accepted since the last flush. -/
  seen : List DiagnosticQueue.Key := []
  /-- Whether the notice about the limit has been queued. -/
  noticed : Bool := false

namespace DiagnosticQueue

instance : Repr DiagnosticQueue :=
  ⟨fun q => reprPrec (q.settings, q.pending, q.errorCount, q.seen, q.noticed)⟩

def limitReached (q : DiagnosticQueue) : Bool :=
  0 < q.settings.errorLimit && q.settings.errorLimit ≤ q.errorCount

/-- The notice that stands for the first error beyond the limit. -/
def limitNotice (limit : Nat) (span : Span) : Diagnostic :=
  (Diagnostic.error .tooManyErrors).withMessage s!"aborting due to {limit} previous errors"
    |>.pointingAt span "error limit reached here"

/-- Refuses an error because the limit is reached, leaving the notice the first time. -/
def refuse (q : DiagnosticQueue) (d : Diagnostic) : DiagnosticQueue :=
  if q.noticed then q
  else
    let notice := limitNotice q.settings.errorLimit (d.primarySpan?.getD Span.dummy)
    { q with pending := q.pending ++ [notice], noticed := true }

/-- Offers a diagnostic to the queue; the answer says whether it was accepted. -/
def add (q : DiagnosticQueue) (d : Diagnostic) : Bool × DiagnosticQueue :=
  if !d.isError then (true, { q with pending := q.pending ++ [d] })
  else if q.limitReached then (false, q.refuse d)
  else if q.settings.deduplicate && q.seen.contains (key q.hash d) then (false, q)
  else
    (true, { q with
      pending := q.pending ++ [d]
      errorCount := q.errorCount + 1
      seen := q.seen ++ [key q.hash d] })

/-- The place of a diagnostic in a flush: where it starts, and last if it is nowhere. -/
def sortKey (d : Diagnostic) : UInt32 := (d.primarySpan?.map (·.start)).getD 0xFFFFFFFF

/-- Hands over everything pending by place, equal places in order of arrival, and starts afresh. -/
def flush (q : DiagnosticQueue) : List Diagnostic × DiagnosticQueue :=
  (q.pending.mergeSort (fun a b => decide (sortKey a ≤ sortKey b)),
    { settings := q.settings, hash := q.hash })

end DiagnosticQueue

end NameResolution
