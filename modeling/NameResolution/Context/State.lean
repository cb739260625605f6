import NameResolution.Store

/-!
# The changing part of a context

Modes, the reporter, and the scratch lists of inference, read from and written to the store.
-/

namespace NameResolution

namespace Context

variable (cx : Context)

/-! ### Modes -/

def modes (s : Store) : Modes := (s.stateOf cx.id).modes

def setModes (modes : Modes) (s : Store) : Store := s.modifyState cx.id fun c => { c with modes }

def assignModes (given : Modes) (on : Bool) (s : Store) : Store :=
  cx.setModes ((cx.modes s).assign given on) s

/-- Keeps only the sticky modes, for synthetic contexts not nested in the construct around them. -/
def keepSticky (s : Store) : Store := cx.setModes (cx.modes s).onlySticky s

def hasMode (mode : Mode) (s : Store) : Bool := (cx.modes s).contains mode

/-! ### Reporter -/

def reporter (s : Store) : Reporter := (s.stateOf cx.id).reporter

def setReporter (reporter : Reporter) (s : Store) : Store :=
  s.modifyState cx.id fun c => { c with reporter }

/-- Buffers from here on, keeping what was buffered so far. -/
def bufferErrors (s : Store) : Store := cx.setReporter (cx.reporter s).toBuffering s

/-- Reports immediately from here on, sending out what was buffered. -/
def reportImmediately (s : Store) : Store :=
  let (reporter, s) := s.onChannels (cx.reporter s).toImmediate
  cx.setReporter reporter s

def issue (d : Diagnostic) (s : Store) : Except Abort Unit × Store :=
  s.onChannels ((cx.reporter s).issue ⟨d, cx.owner⟩)

def error (d : Diagnostic) (s : Store) : Except Abort Unit × Store :=
  s.onChannels ((cx.reporter s).error ⟨d, cx.owner⟩)

def warning (d : Diagnostic) (s : Store) : Store :=
  s.modifyChannels ((cx.reporter s).warning ⟨d, cx.owner⟩)

def warnings (ds : List Diagnostic) (s : Store) : Store := ds.foldl (fun s d => cx.warning d s) s

def ambiguity (d : Diagnostic) (s : Store) : Store :=
  s.modifyChannels
    ((cx.reporter s).ambiguity ⟨d, cx.owner⟩ (cx.hasMode .ambiguousErrors s))

/-! ### Inference -/

/-- Type parameters that still await inference, in order of arrival. -/
def undetermined (s : Store) : List SymbolId := (s.stateOf cx.id).undetermined

def pushUndetermined (param : SymbolId) (s : Store) : Store :=
  s.modifyState cx.id fun c => { c with undetermined := c.undetermined ++ [param] }

def takeUndetermined (s : Store) : List SymbolId × Store :=
  (cx.undetermined s, s.modifyState cx.id fun c => { c with undetermined := [] })

def saveBounds (param : SymbolId) (bounds : TypeRef) (s : Store) : Store :=
  s.modifyState cx.id fun c => { c with savedBounds := (param, bounds) :: c.savedBounds }

/-- Takes the remembered bounds, most recent first. -/
def takeBounds (s : Store) : List (SymbolId × TypeRef) × Store :=
  ((s.stateOf cx.id).savedBounds, s.modifyState cx.id fun c => { c with savedBounds := [] })

def describe (s : Store) : String :=
  "Context \x7b node: " ++ cx.node.describe ++ ", owner: " ++ cx.owner.describe ++
    ", depth: " ++ toString cx.depth ++ ", modes: " ++ (cx.modes s).describe ++ ", .. \x7d"

end Context

end NameResolution
