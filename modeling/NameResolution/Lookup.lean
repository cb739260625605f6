import NameResolution.Access
import NameResolution.Lookup.Result
import NameResolution.Precedence

/-!
# Lookup of unqualified names

What a name means at a context. The contexts are searched outward for a definition: entries of each
scope, and at each class the accessible members of its self type. Then the imports in effect are
consulted, innermost first, as far as they can compete with the definition. Precedence decides
between the two, and among the imports.

Looking up changes nothing. An `Answer` lists, with the result, what the lookup leaves behind:
selectors of imports that it used and warnings to report. An answer is what a lookup comes to if it
ends; it may not where owners run in a circle.
-/

namespace NameResolution

namespace Lookup

open Precedence

/-- A name to look up, where, and what declarations count. -/
structure Query where
  view : View
  cx : Context
  name : Name
  /-- Declarations that fail this test are invisible. -/
  qualifies : SymbolId → Bool

/-- A definition found on the way outward. -/
structure Found where
  meaning : Meaning
  /-- The context whose scope or class holds it. -/
  cx : Context
  /-- Whether it is a member of the class and no entry of the scope. -/
  isMember : Bool
deriving DecidableEq, Repr

/-- An import in effect, with the depth of its context. -/
structure ImportLevel where
  depth : Nat
  imp : Import
deriving DecidableEq, Repr

/-- A selector of an import by its position. -/
structure Use where
  importId : Nat
  position : Nat
deriving DecidableEq, Repr

/-- The use of a selector; none for imports above the unit, which nobody expects to be used. -/
def ImportLevel.usesOf (level : ImportLevel) (position : Nat) : List Use :=
  if level.imp.clause.isRoot then [] else [⟨level.imp.id, position⟩]

/-- The result of a lookup and what it leaves behind. -/
structure Answer where
  result : LookupResult
  uses : List Use := []
  warnings : List Diagnostic := []
deriving DecidableEq, Repr

namespace Query

variable (q : Query)

/-! ### Definitions -/

/-- The qualifying entries of the scope of a context. -/
def entriesAt (cx : Context) : List SymbolId := (q.view.entered cx.scope q.name).filter q.qualifies

/-- The qualifying members of the self type of a context, accessible or not. -/
def membersAt (cx : Context) : List SymbolId :=
  (q.view.program.members cx.selfType q.name).filter q.qualifies

/-- Whether a symbol selected from `pre` may be used where the name is looked up. -/
def isAccessible (pre : TypeRef) (sym : SymbolId) : Bool :=
  q.view.isAccessible q.cx sym pre false

/-- The accessible members of the self type of a class context, as one group. -/
def memberMeaning? (cx : Context) : Option Meaning :=
  Meaning.ofList? (q.view.program.classOf cx.selfType)
    ((q.membersAt cx).filter (q.isAccessible cx.selfType))

/-- What a single context defines: entries of its scope, else accessible members of its class. -/
def definitionAt? (cx : Context) : Option Found :=
  match Meaning.ofList? cx.owner (q.entriesAt cx) with
  | some meaning => some ⟨meaning, cx, false⟩
  | none =>
    if cx.opensClass then (q.memberMeaning? cx).map fun meaning => ⟨meaning, cx, true⟩
    else none

def definition? : Option Found := q.cx.chain.findSome? q.definitionAt?

/-- The members of a class context that hold the name although none of them is accessible, with the
reason for the first. -/
def blockedAt? (cx : Context) : Option (Meaning × String) :=
  if cx.opensClass && (q.entriesAt cx).isEmpty && (q.memberMeaning? cx).isNone then
    match q.membersAt cx with
    | [] => none
    | first :: rest =>
      let detail := match q.view.denial? q.cx first cx.selfType false with
        | some denial => denial.text q.view.program q.view.names
        | none => ""
      (Meaning.ofList? (q.view.program.classOf cx.selfType) (first :: rest)).map
        fun meaning => (meaning, detail)
  else none

/-- The result when nothing usable has the name: the innermost inaccessible members, if any. -/
def failure : LookupResult :=
  match q.cx.chain.findSome? q.blockedAt? with
  | some (meaning, detail) => .inaccessible meaning detail
  | none => .notFound

/-- Whether a definition is foreign: a package owns it and another unit declares it. -/
def isForeign (meaning : Meaning) : Bool :=
  meaning.any fun sym =>
    (q.view.program.flags (q.view.program.owner sym)).isPackage &&
      q.view.program.unit sym != some q.view.unit.id

/-- What precedence reads of a definition. -/
def definitionKey (found : Found) : DefinitionKey :=
  ⟨found.cx.depth, q.isForeign found.meaning⟩

/-! ### Inherited members against enclosing definitions -/

/-- Whether two symbols stand for the same type by stable paths or aliases. -/
def isSameStable (a : SymbolId) (aPre : TypeRef) (b : SymbolId) (bPre : TypeRef) : Bool :=
  let stable (sym : SymbolId) := (q.view.program.flags sym).containsAny [.stable, .isAlias]
  stable a && stable b &&
    q.view.program.isSameType (q.view.program.memberType aPre a) (q.view.program.memberType bPre b)

/-- What a context offers as an enclosing definition: the first qualifying entry of its scope, or if
the scope has no entry at all under the name, the first qualifying member its class declares. -/
def enclosingCandidateAt? (cx : Context) : Option SymbolId :=
  let entries := q.view.entered cx.scope q.name
  let candidates :=
    if entries.isEmpty && cx.opensClass then q.view.program.declared cx.selfType q.name else entries
  candidates.find? q.qualifies

/-- What a context defines in the unit of the session, with the self type it is seen through. -/
def enclosingAt? (cx : Context) : Option (SymbolId × TypeRef) :=
  match q.enclosingCandidateAt? cx with
  | some sym =>
    if q.view.program.unit sym = some q.view.unit.id then some (sym, cx.selfType) else none
  | none => none

/-- The inherited member found and the enclosing definition it hides, if it does hide one. -/
def conflict? (found : Found) : Option (SymbolId × SymbolId) :=
  let inherited := found.meaning.first
  if !found.isMember || q.view.program.owner inherited == found.cx.owner then none
  else
    match (found.cx.chain.drop 1).findSome? q.enclosingAt? with
    | none => none
    | some (enclosing, pre) =>
      let isSame :=
        enclosing == inherited || q.isSameStable inherited found.cx.selfType enclosing pre
      if isSame then none else some (inherited, enclosing)

/-- What the policy makes of a conflict with an enclosing definition. -/
inductive EnclosingCheck where
  | passed (warnings : List Diagnostic)
  | rejected (ambiguity : Ambiguity)

/-- The warning that an inherited member was preferred. -/
def inheritedWarning (ambiguity : Ambiguity) : Diagnostic :=
  { (ambiguity.diagnostic q.view.program q.view.names .dummy).asWarning with
    code := .inheritedPreferred }

/-- Checks a definition against the enclosing ones, as the policy says. -/
def checkEnclosing (found : Found) : EnclosingCheck :=
  match q.conflict? found with
  | none => .passed []
  | some (inherited, enclosing) =>
    let ambiguity := Ambiguity.withEnclosing q.name inherited enclosing
    match q.view.settings.enclosing with
    | .allow => .passed []
    | .warn => .passed [q.inheritedWarning ambiguity]
    | .error => .rejected ambiguity

/-! ### Imports -/

def importLevels : List ImportLevel :=
  q.cx.chain.filterMap fun cx => cx.imported.map fun imp => ⟨cx.depth, imp⟩

def importKey (level : ImportLevel) : ImportKey :=
  ⟨level.depth, level.imp.clause.isExplicit q.name⟩

/-- The accessible and qualifying part of what an import binds to the name. -/
def usablePart (level : ImportLevel) (meaning : Meaning) : Option Meaning :=
  meaning.filter fun sym =>
    q.isAccessible level.imp.clause.qualifier sym && q.qualifies sym

/-- What an import binds to the name that is usable, and the selector this uses. A selector counts
as used also when nothing it binds is usable. -/
def consult (level : ImportLevel) (explicitOnly : Bool) : Option Meaning × List Use :=
  match level.imp.clause.bind? q.view.program q.name explicitOnly with
  | none => (none, [])
  | some (position, meaning) => (q.usablePart level meaning, level.usesOf position)

/-- The innermost import that binds the name and those around it. -/
structure Imported where
  meaning : Meaning
  level : ImportLevel
  outer : List ImportLevel
  admission : Admission
deriving DecidableEq, Repr

/-- Consults imports in order until one binds the name or may not compete with the definition. -/
def firstImport (definition : Option DefinitionKey) :
    List ImportLevel → Option Imported × List Use
  | [] => (none, [])
  | level :: outer =>
    let admission := admissionOf (q.importKey level) definition q.view.unit.isInterop
    if !admission.isAdmitted then (none, [])
    else
      match q.consult level false with
      | (some meaning, uses) => (some ⟨meaning, level, outer, admission⟩, uses)
      | (none, uses) =>
        let (imported, more) := firstImport definition outer
        (imported, uses ++ more)

/-- Whether two imports bind the same: the same declarations, one name from the same qualifier, or
aliases without parameters that stand for one type. -/
def isEquivalent (a : ImportLevel) (da : Meaning) (b : ImportLevel) (db : Meaning) : Bool :=
  let p := q.view.program
  let (qa, qb) := (a.imp.clause.qualifier, b.imp.clause.qualifier)
  let (sa, sb) := (da.first, db.first)
  let monomorphic (sym : SymbolId) := (p.flags sym).contains .monomorphic
  da == db ||
    (p.isSameType qa qb && p.name sa == p.name sb) ||
    (q.name.isType && monomorphic sa && monomorphic sb &&
      p.isSameType (p.memberType qa sa) (p.memberType qb sb))

/-- Settles which import is meant, given the one that leads so far and those around it. -/
def settle (leader : ImportLevel) (meaning : Meaning) :
    List ImportLevel → LookupResult × List Use
  | [] => (.succeeded (some leader.imp.clause.qualifier) meaning, [])
  | level :: outer =>
    let inner := q.importKey leader
    let other := q.importKey level
    if !keepsLooking inner other then
      (.succeeded (some leader.imp.clause.qualifier) meaning, [])
    else
      match q.consult level (needsExplicit inner other) with
      | (none, uses) =>
        let (result, more) := settle leader meaning outer
        (result, uses ++ more)
      | (some rival, uses) =>
        match compareImports inner other with
        | .inner =>
          let (result, more) := settle leader meaning outer
          (result, uses ++ more)
        | .outer =>
          let (result, more) := settle level rival outer
          (result, uses ++ more)
        | .tie =>
          if q.isEquivalent leader meaning level rival then
            let (result, more) := settle leader meaning outer
            (result, uses ++ more)
          else
            (.ambiguous (.imports q.name (leader.imp.clause.site q.name)
              (level.imp.clause.site q.name)), uses)

/-! ### The decision -/

/-- The result for a definition: a member of a class is selected from the self type. -/
def definitionResult (found : Found) : LookupResult :=
  let sym := found.meaning.first
  let ownerFlags := q.view.program.flags (q.view.program.owner sym)
  let isSelected := ownerFlags.isClass && !ownerFlags.isPackage &&
    !(q.view.program.flags sym).contains .typeParam
  .succeeded (if isSelected then some found.cx.enclosingClass.selfType else none) found.meaning

/-- Whether an imported symbol cannot stand for a definition of the same name. -/
def isUnusable (imported : Imported) : Bool :=
  (q.view.program.flags imported.meaning.first).containsAny [.erroneous, .isConstructor]

/-- The warning that an import was preferred to a foreign definition. -/
def importWarning (found : Found) (level : ImportLevel) : Diagnostic :=
  let name := q.view.names.text q.name
  let qualifier := q.view.program.typeText q.view.names level.imp.clause.qualifier
  let owner := q.view.program.typeText q.view.names
    (.path (q.view.program.owner found.meaning.first))
  (Diagnostic.warning .importPreferred).withMessage
      (s!"import of `{name}` from {qualifier} shadows the definition in {owner}" ++
        " from another compilation unit")
    |>.pointingAt level.imp.clause.span "this import now takes precedence"

/-- The warnings due when an import is preferred to a foreign definition. -/
def preferenceWarnings (found : Found) (imported : Imported) : List Diagnostic :=
  if imported.admission == .admittedForeign && q.view.settings.compatWarnings then
    [q.importWarning found imported.level]
  else []

/-- Decides between the definition found and the import that binds the name. -/
def resolve (found : Option Found) (imported : Option Imported) : Answer :=
  match found, imported with
  | none, none => { result := q.failure }
  | some f, none => { result := q.definitionResult f }
  | none, some i =>
    let (result, uses) := q.settle i.level i.meaning i.outer
    { result, uses }
  | some f, some i =>
    match arbitrate (q.definitionKey f) (q.isUnusable i) with
    | .definition => { result := q.definitionResult f }
    | .imported =>
      let (result, uses) := q.settle i.level i.meaning i.outer
      { result, uses, warnings := q.preferenceWarnings f i }
    | .ambiguous =>
      { result := .ambiguous (.definedAndImported q.name
          (q.view.program.owner f.meaning.first) (i.level.imp.clause.site q.name)) }

/-- Consults the imports and decides, once the definition is known. -/
def consultImports (found : Option Found) : Answer :=
  let (imported, uses) := q.firstImport (found.map q.definitionKey) q.importLevels
  let answer := q.resolve found imported
  { answer with uses := uses ++ answer.uses }

/-- The constructors of the enclosing class: only what the class declares itself counts. -/
def constructorResult : LookupResult :=
  let pre := q.cx.enclosingClass.selfType
  let widened := q.view.program.widen pre
  let declared := (q.view.program.declared widened q.name).filter q.qualifies
  match Meaning.ofList? (q.view.program.classOf widened) declared with
  | some meaning => .succeeded (some pre) meaning
  | none => .notFound

/-- What the name means. -/
def run : Answer :=
  if q.name.isConstructor then { result := q.constructorResult }
  else
    match q.definition? with
    | none => q.consultImports none
    | some found =>
      match q.checkEnclosing found with
      | .rejected ambiguity => { result := .ambiguous ambiguity }
      | .passed warnings =>
        let answer := q.consultImports (some found)
        { answer with warnings := warnings ++ answer.warnings }

end Query

end Lookup

namespace Store

def recordUses (s : Store) (uses : List Lookup.Use) : Store :=
  uses.foldl (fun s use => s.recordUse use.importId use.position) s

end Store

namespace Context

variable (cx : Context)

def query (u : Universe) (name : Name) (qualifies : SymbolId → Bool) (s : Store) : Lookup.Query :=
  ⟨cx.view u s, cx, name, qualifies⟩

/-- Looks a name up, noting the selectors used and reporting the warnings. -/
def lookup (u : Universe) (name : Name) (qualifies : SymbolId → Bool) (s : Store) :
    LookupResult × Store :=
  let answer := (cx.query u name qualifies s).run
  (answer.result, cx.warnings answer.warnings (s.recordUses answer.uses))

/-- Reports a lookup that failed: an ambiguity as the modes say, anything else as an error. -/
def reportLookup (u : Universe) (name : Name) (span : Span) (result : LookupResult) (s : Store) :
    Except Abort Unit × Store :=
  match result.diagnostic? u s.names name span with
  | none => (.ok (), s)
  | some d =>
    if result.ambiguity?.isSome then (.ok (), cx.ambiguity d s) else cx.error d s

end Context

end NameResolution
