import NameResolution.Name
import NameResolution.TypeRef

/-!
# The universe of declarations

Resolution creates and changes no declaration; it asks a `Universe`. The questions about single
declarations and about types are its fields; access boundaries and owner chains are derived from
them.

Owners are followed outward until there is none. Where they run in a circle that would go on for
ever, so `owners` stops after as many steps as there can be declarations: what is said of lookups
and of access is about searches that end (`Table.Settles`), as all do where there is no circle.
-/

namespace NameResolution

/-- Answers to every question that resolution asks about declarations and types. -/
structure Universe where
  /-- A bound on the number of declarations an owner chain can pass through. -/
  size : Nat
  name : SymbolId → Name
  /-- The declaration that owns a symbol; absent for the root package. -/
  owner : SymbolId → SymbolId
  flags : SymbolId → Flags
  /-- The place a qualified access modifier names, or absent. -/
  accessQualifier : SymbolId → SymbolId
  /-- The unit that declares a symbol; none if it was loaded from compiled code. -/
  unit : SymbolId → Option UnitId
  /-- The object of a class and the class of an object. -/
  companion : SymbolId → SymbolId
  /-- A symbol followed by all it overrides, nearest first. -/
  overrideChain : SymbolId → List SymbolId
  /-- The object whose members a package shares, or absent. -/
  packageObject : SymbolId → SymbolId
  /-- Whether the signature of a symbol is complete. -/
  isComplete : SymbolId → Bool
  /-- The symbol known under a fixed name, or absent. -/
  wellKnown : Name → SymbolId
  /-- Members of a type with a name, inherited ones included. -/
  members : TypeRef → Name → List SymbolId
  /-- Members with a name that the class of a type declares itself. -/
  declared : TypeRef → Name → List SymbolId
  /-- The implicit members of a type. -/
  implicitMembers : TypeRef → List SymbolId
  /-- The class of a type, or absent. -/
  classOf : TypeRef → SymbolId
  /-- Whether a class derives from another or is the same. -/
  isSubclass : SymbolId → SymbolId → Bool
  isSubtype : TypeRef → TypeRef → Bool
  isSameType : TypeRef → TypeRef → Bool
  /-- The type of a symbol as a member of a prefix; for an alias, what it stands for. -/
  memberType : TypeRef → SymbolId → TypeRef
  /-- A singleton or self type widened to its class. -/
  widen : TypeRef → TypeRef

namespace Universe

variable (u : Universe)

/-- The symbols met on the way outward from `sym`, itself first, at most as many as the number
says. -/
def ownersWithin : Nat → SymbolId → List SymbolId
  | 0, _ => []
  | limit + 1, sym =>
    if sym.isPresent then sym :: ownersWithin limit (u.owner sym) else []

/-- A symbol followed by its owner, the owner of that one, and so on. A chain that ends is listed to
its end; one that runs in a circle, where the search for an owner need not end, is cut once it is
longer than any that does. -/
def owners (sym : SymbolId) : List SymbolId := u.ownersWithin (u.size + 1) sym

/-- Whether `ancestor` is `sym` or owns it, directly or not. -/
def isOwnedBy (sym ancestor : SymbolId) : Bool := (u.owners sym).contains ancestor

/--
The declaration that bounds who may access `sym`: the owner of what is private or local to a block,
else the place its modifier names, else the owner of what is protected, else the root package.
-/
def accessBoundary (sym : SymbolId) : SymbolId :=
  let flags := u.flags sym
  let owner := u.owner sym
  if flags.contains .isPrivate || (owner.isPresent && (u.flags owner).isTerm) then owner
  else if (u.accessQualifier sym).isPresent then u.accessQualifier sym
  else if flags.contains .isProtected then owner
  else .root

end Universe

end NameResolution
