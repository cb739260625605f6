import NameResolution.Name
import NameResolution.TypeRef

/-!
# Implicit candidates

A context contributes at most one level of candidates. The level is cached per round in the slot of
the context.
-/

namespace NameResolution

/-- A symbol that may serve as an implicit value, selected from a prefix under a name. -/
structure Candidate where
  name : Name
  pre : TypeRef
  sym : SymbolId
deriving DecidableEq, Repr

/-- What is known of the implicit level of a context. -/
inductive LevelSlot where
  | absent
  /-- The level is being collected; whoever asks meanwhile sees no candidates. -/
  | inProgress
  /-- The level as collected in a round. -/
  | collected (round : UInt32) (level : List Candidate)
deriving DecidableEq, Repr

end NameResolution
