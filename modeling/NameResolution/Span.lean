/-!
# Source spans

A span is a pair of byte offsets, the second one exclusive.
-/

namespace NameResolution

structure Span where
  start : UInt32
  stop : UInt32
deriving DecidableEq, Repr

namespace Span

/-- The span of what has no place in the source. -/
def dummy : Span := ⟨0, 0⟩

instance : Inhabited Span := ⟨dummy⟩

/-- The number of bytes covered; none if the span ends before it starts. -/
def length? (span : Span) : Option UInt32 :=
  if span.start ≤ span.stop then some (span.stop - span.start) else none

def isEmpty (span : Span) : Bool := span.start == span.stop

def isDummy (span : Span) : Bool := span.start == 0 && span.stop == 0

/-- The least span that covers both. -/
def merge (a b : Span) : Span := ⟨min a.start b.start, max a.stop b.stop⟩

/-- The span as text, `start..stop`. -/
def describe (span : Span) : String := s!"{span.start.toNat}..{span.stop.toNat}"

end Span

end NameResolution
