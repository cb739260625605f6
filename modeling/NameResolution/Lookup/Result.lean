import NameResolution.Diagnostic
import NameResolution.Import
import NameResolution.Wording

/-!
# Results of lookups

What a name turns out to mean, and the diagnostics for names that mean nothing usable.
-/

namespace NameResolution

/-- Two bindings of a name that precedence cannot order. -/
inductive Ambiguity where
  /-- Two imports of equal rank bind different declarations. -/
  | imports (name : Name) (first second : ImportSite)
  /-- A definition of an enclosing scope and an import of equal standing. -/
  | definedAndImported (name : Name) (owner : SymbolId) (imported : ImportSite)
  /-- An inherited member hides a definition of an enclosing scope. -/
  | withEnclosing (name : Name) (inherited enclosing : SymbolId)
deriving DecidableEq, Repr

namespace Ambiguity

def name : Ambiguity → Name
  | imports name .. | definedAndImported name .. | withEnclosing name .. => name

def code : Ambiguity → DiagnosticCode
  | imports .. => .importedTwice
  | definedAndImported .. => .definedAndImported
  | withEnclosing .. => .inheritedAndEnclosing

/-- The error for an ambiguous reference at a span. -/
def diagnostic (u : Universe) (names : Interner) (ambiguity : Ambiguity) (span : Span) :
    Diagnostic :=
  let name := names.text ambiguity.name
  let base := (Diagnostic.error ambiguity.code).pointingAt span "ambiguous reference"
  match ambiguity with
  | imports _ first second =>
    let firstText := u.typeText names first.qualifier
    let secondText := u.typeText names second.qualifier
    base.withMessage
        s!"reference to `{name}` is ambiguous: it is imported twice in the same scope"
      |>.relatedTo first.span s!"imported from {firstText}"
      |>.relatedTo second.span s!"and from {secondText}"
  | definedAndImported _ owner imported =>
    let ownerText := u.pathText names owner
    let qualifierText := u.typeText names imported.qualifier
    base.withMessage
        (s!"reference to `{name}` is ambiguous: it is both defined in {ownerText}" ++
          s!" and imported subsequently from {qualifierText}")
      |>.relatedTo imported.span "imported here"
  | withEnclosing _ inherited enclosing =>
    let enclosingText := u.pathText names (u.owner enclosing)
    let inheritedText := u.simpleText names (u.owner inherited)
    base.withMessage
        (s!"reference to `{name}` is ambiguous: it is both defined in the enclosing" ++
          s!" {enclosingText} and inherited in {inheritedText}")
      |>.withNote
        s!"write `this.{name}` to select the inherited member, or qualify the enclosing one"

end Ambiguity

/-- What a name means at a context. -/
inductive LookupResult where
  /-- It denotes declarations, to be selected from the qualifier if there is one. -/
  | succeeded (qualifier : Option TypeRef) (meaning : Meaning)
  | ambiguous (ambiguity : Ambiguity)
  /-- It denotes declarations that may not be used here, for the given reason. -/
  | inaccessible (meaning : Meaning) (detail : String)
  | notFound
deriving DecidableEq, Repr

namespace LookupResult

/-- Whether the name denotes something usable. -/
def isSuccess : LookupResult → Bool
  | succeeded .. => true
  | _ => false

/-- The declarations found, usable or not. -/
def meaning? : LookupResult → Option Meaning
  | succeeded _ meaning | inaccessible meaning _ => some meaning
  | ambiguous _ | notFound => none

/-- The symbol meant, absent unless the name denotes something usable. -/
def symbol : LookupResult → SymbolId
  | succeeded _ meaning => meaning.first
  | _ => .absent

/-- The prefix to select the result from. -/
def qualifier? : LookupResult → Option TypeRef
  | succeeded qualifier _ => qualifier
  | _ => none

def ambiguity? : LookupResult → Option Ambiguity
  | ambiguous ambiguity => some ambiguity
  | _ => none

/-- The error for a reference to `name` at a span; none if it succeeded. -/
def diagnostic? (u : Universe) (names : Interner) (name : Name) (span : Span) :
    LookupResult → Option Diagnostic
  | succeeded .. => none
  | ambiguous ambiguity => some (ambiguity.diagnostic u names span)
  | inaccessible _ detail =>
    let text := names.text name
    some ((Diagnostic.error .inaccessible).withMessage s!"`{text}` is not accessible from here"
      |>.pointingAt span "inaccessible" |>.withNote detail)
  | notFound =>
    let text := names.text name
    some ((Diagnostic.error .notFound).withMessage s!"not found: {text}"
      |>.pointingAt span "not found in this scope")

end LookupResult

end NameResolution
