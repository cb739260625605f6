import NameResolution.Implicit.Level

/-!
# Implicit candidates in effect

`implicitLevel` is the level of one context, cached for the round; `implicitLevels` are those of a
context and all around it. The implicit members of a type are asked for in a monad, since whoever
answers may ask for implicit levels again. A level that is asked for while it is being collected is
empty, and that answer is not kept.
-/

namespace NameResolution

/-- Answers which implicit members a type has; answering may change the store. -/
abbrev MemberOracle (m : Type → Type) := TypeRef → StateT Store m (List SymbolId)

def Universe.oracle {m : Type → Type} [Monad m] (u : Universe) : MemberOracle m :=
  fun ty => pure (u.implicitMembers ty)

namespace Context

variable {m : Type → Type} [Monad m] (cx : Context) (u : Universe) (ask : MemberOracle m)

def setLevel (level : LevelSlot) (s : Store) : Store :=
  s.modifyState cx.id fun c => { c with level }

/-- Collects the level of the context and keeps it for the given round. -/
def collectLevel (round : UInt32) : StateT Store m (List Candidate) := do
  modify (cx.setLevel .inProgress)
  let source := cx.levelSource u (← get)
  let members ← match source.request? with
    | some ty => ask ty
    | none => pure []
  match cx.collect u (← get) members source with
  | some level =>
    modify (cx.setLevel (.collected round level))
    return level
  | none =>
    modify (cx.setLevel .absent)
    return []

/-- The level of the context alone, as kept for the current round or else collected now. -/
def implicitLevel : StateT Store m (List Candidate) := do
  let s ← get
  let round := (s.session cx.session).round
  match (s.stateOf cx.id).level with
  | .inProgress => return []
  | .absent => cx.collectLevel u ask round
  | .collected kept level => if kept = round then return level else cx.collectLevel u ask round

/-- The levels of the context and all around it that are not empty, innermost first. -/
def implicitLevels : StateT Store m (List (List Candidate)) := do
  let levels ← cx.chain.mapM fun c => c.implicitLevel u ask
  return levels.filter fun level => !level.isEmpty

/--
An oracle that first asks for the level of `cx` and notes its size. It is its own oracle for that
question, so many times over as the number says; as the level is then in progress, two is enough.
-/
def askingOracle (cx : Context) (u : Universe) : Nat → MemberOracle (StateM (List Nat))
  | 0 => u.oracle
  | depth + 1 => fun ty => do
    let level ← cx.implicitLevel u (askingOracle cx u depth)
    modifyThe (List Nat) (· ++ [level.length])
    return u.implicitMembers ty

/-- The oracle that asks for the level of `cx` whenever it is asked itself. -/
def reentrantOracle (cx : Context) (u : Universe) : MemberOracle (StateM (List Nat)) :=
  cx.askingOracle u 2

end Context

end NameResolution
