import NameResolution.Span
import NameResolution.Meaning
import NameResolution.Universe

/-!
# Imports

An import clause makes members of its qualifier available under names given by its selectors.
`ImportClause.bind?` says what a clause binds to a name, and through which selector.
-/

namespace NameResolution

/-- One selector of an import clause. All names in it are term names. -/
inductive Selector where
  /-- Imports a member under a name, which may be its own. -/
  | pick (member rename : Name)
  /-- Excludes a member from a wildcard that follows. -/
  | hide (member : Name)
  /-- Imports every member not picked or hidden before. -/
  | wildcard
deriving DecidableEq, Repr

namespace Selector

def named (name : Name) : Selector := .pick name.toTerm name.toTerm

def renamed (member rename : Name) : Selector := .pick member.toTerm rename.toTerm

def hidden (name : Name) : Selector := .hide name.toTerm

def isWildcard : Selector → Bool
  | .wildcard => true
  | _ => false

def isHide : Selector → Bool
  | .hide _ => true
  | _ => false

/-- Whether the selector gives the term name `term` to a member. -/
def gives (term : Name) : Selector → Bool
  | .pick _ rename => rename == term
  | _ => false

/-- Whether the selector takes the member named `term` away from a wildcard that follows. -/
def takesAway (term : Name) : Selector → Bool
  | .pick member rename => member == term && rename != term
  | .hide member => member == term
  | .wildcard => false

end Selector

/-- Where a binding was imported, for messages. -/
structure ImportSite where
  qualifier : TypeRef
  span : Span
  /-- Whether a selector names the binding. -/
  explicit : Bool
deriving DecidableEq, Repr

/-- A qualifier and the selectors that say what is imported from it. -/
structure ImportClause where
  qualifier : TypeRef
  selectors : List Selector
  span : Span
  /-- Whether the clause stands above the unit instead of in it. -/
  isRoot : Bool := false
deriving DecidableEq, Repr

namespace ImportClause

/-- Everything from a qualifier. -/
def everything (qualifier : TypeRef) (span : Span) : ImportClause :=
  ⟨qualifier, [.wildcard], span, false⟩

/-- Everything from a qualifier, above the unit. -/
def root (qualifier : TypeRef) : ImportClause :=
  { everything qualifier .dummy with isRoot := true }

variable (clause : ImportClause)

/-- Whether a selector gives the name, in whichever namespace. -/
def isExplicit (name : Name) : Bool := clause.selectors.any (·.gives name.toTerm)

/-- The clause as the origin of a binding of the name. -/
def site (name : Name) : ImportSite := ⟨clause.qualifier, clause.span, clause.isExplicit name⟩

/-- The members of the qualifier with a name, those restricted to their instance left out. -/
def importable (u : Universe) (name : Name) : Option Meaning :=
  Meaning.ofList? (u.classOf clause.qualifier)
    ((u.members clause.qualifier name).filter fun m => !(u.flags m).contains .instanceOnly)

/-- What one selector binds to the name; a wildcard binds nothing once `closed`. -/
def bindSelector (u : Universe) (name : Name) (closed : Bool) : Selector → Option Meaning
  | .pick member rename =>
    if rename == name.toTerm then
      clause.importable u (if name.isType then member.toType else member)
    else none
  | .hide _ => none
  | .wildcard => if closed then none else clause.importable u name

/--
What the listed selectors bind to the name, and the position of the one that does, counted from
`position`. Wildcards bind nothing if `closed`, nor after a selector that takes the name away.
-/
def bindFrom (u : Universe) (name : Name) :
    List Selector → Nat → Bool → Option (Nat × Meaning)
  | [], _, _ => none
  | selector :: rest, position, closed =>
    match clause.bindSelector u name closed selector with
    | some meaning => some (position, meaning)
    | none => bindFrom u name rest (position + 1) (closed || selector.takesAway name.toTerm)

/--
What the clause binds to the name and the position of the binding selector, the first that binds
anything. With `explicitOnly`, wildcards do not count.
-/
def bind? (u : Universe) (name : Name) (explicitOnly : Bool) : Option (Nat × Meaning) :=
  clause.bindFrom u name clause.selectors 0 explicitOnly

end ImportClause

/-- A clause at one place of a unit. Equal clauses at different places are different imports. -/
structure Import where
  id : Nat
  clause : ImportClause
deriving DecidableEq, Repr

end NameResolution
