import NameResolution.Import
import NameResolution.Reporting

/-!
# Sessions

A session is what all contexts of one compilation unit share: the unit, the settings, the sink, the
round that dates implicit levels, the phase, and the imports of the unit.
-/

namespace NameResolution

/-- What to do when an inherited member hides a definition of an enclosing scope. -/
inductive EnclosingPolicy where
  /-- Take the inherited member. -/
  | allow
  /-- Take it and warn. -/
  | warn
  /-- Reject the reference as ambiguous. -/
  | error
deriving DecidableEq, Repr

def EnclosingPolicy.describe : EnclosingPolicy → String
  | .allow => "Allow"
  | .warn => "Warn"
  | .error => "Error"

structure Settings where
  enclosing : EnclosingPolicy := .warn
  /-- Whether to warn when an import is preferred to a foreign definition at its depth or deeper. -/
  compatWarnings : Bool := true
  /-- Whether to report import selectors that were never used. -/
  unusedImports : Bool := false
deriving DecidableEq, Repr

namespace Settings

/-- Every check at its strictest. -/
def strict : Settings := ⟨.error, true, true⟩

def describe (settings : Settings) : String :=
  "ResolveConfig \x7b enclosing_ambiguity: " ++ settings.enclosing.describe ++
    ", compat_warnings: " ++ toString settings.compatWarnings ++
    ", warn_unused_imports: " ++ toString settings.unusedImports ++ " \x7d"

end Settings

inductive SourceKind where
  | native
  /-- The other language, read for interoperability. -/
  | interop
deriving DecidableEq, Repr

def SourceKind.describe : SourceKind → String
  | .native => "Native"
  | .interop => "Interop"

structure CompilationUnit where
  id : UnitId
  kind : SourceKind
deriving DecidableEq, Repr

namespace CompilationUnit

/-- Whether the unit is in the other language. -/
def isInterop (unit : CompilationUnit) : Bool := unit.kind == .interop

def describe (unit : CompilationUnit) : String :=
  "CompilationUnit \x7b id: UnitId(" ++ toString unit.id.number ++ "), kind: " ++
    unit.kind.describe ++ " \x7d"

end CompilationUnit

/-- The phase of compilation that resolution runs in. -/
inductive Phase where
  | namer
  | typer
  /-- Types are erased; protected access is no longer enforced. -/
  | erasure
deriving DecidableEq, Repr

namespace Phase

def isErased (phase : Phase) : Bool := phase == .erasure

def describe : Phase → String
  | .namer => "Namer"
  | .typer => "Typer"
  | .erasure => "Erasure"

end Phase

/-- What the contexts of one unit share. -/
structure Session where
  unit : CompilationUnit
  settings : Settings := {}
  sink : SinkId
  /-- The kind of reporter that root contexts start with. -/
  rootReporter : ReporterKind := .immediate
  round : UInt32 := 1
  phase : Phase := .typer
  /-- The imports of the unit in order of appearance. -/
  imports : List Import := []
deriving Repr

namespace Session

/-- Starts a new round; the count wraps around. -/
def nextRound (session : Session) : Session := { session with round := session.round + 1 }

def record (session : Session) (added : Import) : Session :=
  { session with imports := session.imports ++ [added] }

def describe (session : Session) : String :=
  "Session \x7b unit: " ++ session.unit.describe ++ ", config: " ++ session.settings.describe ++
    ", round: " ++ toString session.round.toNat ++ ", phase: " ++ session.phase.describe ++
    ", .. \x7d"

end Session

end NameResolution
