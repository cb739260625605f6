import NameResolution.Context.Construction

/-!
# Attempts

Computations that run with modes changed for their duration, and computations that are tried first
without implicit conversions in a silent copy, then with them if that reported errors.
-/

namespace NameResolution

namespace Context

variable {m : Type → Type} [Monad m] {α : Type} (cx : Context)

/-- Runs a computation at the context with modes turned on and off; the modes of before come back
afterwards. -/
def withModes (enable disable : Modes) (body : Context → StateT Store m α) :
    StateT Store m α := do
  let saved := cx.modes (← get)
  modify (cx.setModes (saved.adjust enable disable))
  let result ← body cx
  modify (cx.setModes saved)
  return result

/-- Hands the warnings of a reporter on to the reporter of the context and drops all it holds. -/
def adoptWarnings (source : Reporter) (s : Store) : Store :=
  let target := cx.reporter s
  let channels := (source.warnings s.channels).foldl
    (fun channels report => target.warning report channels) s.channels
  { s with channels := source.clear channels }

/--
Runs an attempt, which is told whether it is the second one. With implicit conversions off it runs
once, here. Otherwise it runs in an implicit copy; if that reported no error, its warnings are
handed on and its value stands. If it did, its reports are dropped and the attempt runs here again.
-/
def tryTwice (attempt : Context → Bool → StateT Store m α) : StateT Store m α := do
  if (cx.hasMode .implicitsEnabled (← get)) = false then attempt cx false
  else
    let copy ← modifyGet (cx.implicitCopy false)
    let first ← attempt copy false
    let s ← get
    let used := copy.reporter s
    if used.hasErrors s.channels then
      modify fun s => s.modifyChannels used.clear
      cx.withModes (.ofList [.secondTry]) ∅ fun cx => attempt cx true
    else
      modify (cx.adoptWarnings used)
      return first

def isDivergence (report : Reported) : Bool := report.diagnostic.code == .divergentSearch

/--
Reports the divergence buffered by a search in preference to another diagnostic, and removes all
divergences from the buffer. While the context buffers itself a divergence stays where it is.
-/
def divergenceOr (search : Reporter) (fallback : Diagnostic) (s : Store) :
    Except Abort Unit × Store :=
  match search.firstError? isDivergence s.channels with
  | none => cx.issue fallback s
  | some report =>
    if (cx.reporter s).isBuffering then (.ok (), s)
    else
      cx.issue report.diagnostic
        (s.modifyChannels (search.retainErrors fun r => !isDivergence r))

end Context

end NameResolution
