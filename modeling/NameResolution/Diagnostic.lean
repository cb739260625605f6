import NameResolution.Span

/-!
# Diagnostics

A diagnostic has a code, a severity, a message, labelled spans and notes. `Diagnostic.text` is the
form in which it is shown.
-/

namespace NameResolution

/-- What a diagnostic is about. -/
inductive DiagnosticCode where
  /-- No declaration has the name. -/
  | notFound
  /-- A declaration has the name and may not be used here. -/
  | inaccessible
  /-- Two imports bind the name to different declarations. -/
  | importedTwice
  /-- The name is both defined in an enclosing scope and imported. -/
  | definedAndImported
  /-- An inherited member conflicts with a lexically enclosing definition. -/
  | inheritedAndEnclosing
  /-- The search for an implicit value diverged. -/
  | divergentSearch
  /-- No implicit value was found. -/
  | noImplicitValue
  /-- Too many errors were reported. -/
  | tooManyErrors
  /-- An import selector was never used. -/
  | unusedImport
  /-- An inherited member was preferred to a lexically enclosing definition. -/
  | inheritedPreferred
  /-- An import was preferred to a definition of another unit. -/
  | importPreferred
deriving DecidableEq, Repr

namespace DiagnosticCode

/-- The identifier of a code. -/
def text : DiagnosticCode → String
  | notFound => "E3001"
  | inaccessible => "E3002"
  | importedTwice => "E3003"
  | definedAndImported => "E3004"
  | inheritedAndEnclosing => "E3005"
  | divergentSearch => "E3006"
  | noImplicitValue => "E3007"
  | tooManyErrors => "E9002"
  | unusedImport => "W3001"
  | inheritedPreferred => "W3002"
  | importPreferred => "W3003"

def all : List DiagnosticCode :=
  [notFound, inaccessible, importedTwice, definedAndImported, inheritedAndEnclosing,
    divergentSearch, noImplicitValue, tooManyErrors, unusedImport, inheritedPreferred,
    importPreferred]

def ofText? (id : String) : Option DiagnosticCode := all.find? (·.text == id)

/-- Errors of name resolution itself. -/
def isResolution : DiagnosticCode → Bool
  | notFound | inaccessible | importedTwice | definedAndImported | inheritedAndEnclosing
  | divergentSearch | noImplicitValue => true
  | _ => false

/-- Codes that say a reference is ambiguous. -/
def isAmbiguity : DiagnosticCode → Bool
  | importedTwice | definedAndImported | inheritedAndEnclosing | inheritedPreferred => true
  | _ => false

/-- Codes that are not about the program under resolution. -/
def isInternal : DiagnosticCode → Bool
  | tooManyErrors => true
  | _ => false

def isWarning : DiagnosticCode → Bool
  | unusedImport | inheritedPreferred | importPreferred => true
  | _ => false

end DiagnosticCode

inductive Severity where
  | error
  | warning
  | note
deriving DecidableEq, Repr

def Severity.text : Severity → String
  | .error => "error"
  | .warning => "warning"
  | .note => "note"

/-- A span with a message; the primary ones say where the diagnostic is. -/
structure Label where
  span : Span
  message : String
  isPrimary : Bool
deriving DecidableEq, Repr

/-- One line of a diagnostic for a label. -/
def Label.text (label : Label) : String :=
  let marker := if label.isPrimary then "-->" else "   "
  s!"\n  {marker} {label.span.describe}: {label.message}"

/-- A message about the program, with the places and notes that explain it. -/
structure Diagnostic where
  code : DiagnosticCode
  severity : Severity
  message : String := ""
  labels : List Label := []
  notes : List String := []
deriving DecidableEq, Repr

namespace Diagnostic

def error (code : DiagnosticCode) : Diagnostic := { code, severity := .error }

def warning (code : DiagnosticCode) : Diagnostic := { code, severity := .warning }

def withMessage (d : Diagnostic) (message : String) : Diagnostic := { d with message }

/-- Adds a primary label after the others. -/
def pointingAt (d : Diagnostic) (span : Span) (message : String) : Diagnostic :=
  { d with labels := d.labels ++ [⟨span, message, true⟩] }

/-- Adds a secondary label after the others. -/
def relatedTo (d : Diagnostic) (span : Span) (message : String) : Diagnostic :=
  { d with labels := d.labels ++ [⟨span, message, false⟩] }

def withNote (d : Diagnostic) (note : String) : Diagnostic := { d with notes := d.notes ++ [note] }

def asWarning (d : Diagnostic) : Diagnostic := { d with severity := .warning }

/-- The span of the first primary label. -/
def primarySpan? (d : Diagnostic) : Option Span := (d.labels.find? (·.isPrimary)).map (·.span)

def isError (d : Diagnostic) : Bool := d.severity == .error

def isWarning (d : Diagnostic) : Bool := d.severity == .warning

/-- The diagnostic as shown: a head line, a line per label, a line per note. -/
def text (d : Diagnostic) : String :=
  let head := s!"{d.severity.text} [{d.code.text}]: {d.message}"
  let labels := String.join (d.labels.map Label.text)
  let notes := String.join (d.notes.map fun note => s!"\n  = note: {note}")
  head ++ labels ++ notes

end Diagnostic

end NameResolution
