import NameResolution.Universe
import NameResolution.Table.Hierarchy

/-!
# The universe of a table

Answers to the questions about types from the declarations of a table: aliases are followed, self
types and values widened to their classes, members found along the linearization.
-/

namespace NameResolution

namespace Table

variable (t : Table)

/-- Follows one alias link, if the type is an alias with a known target. -/
def unalias? : TypeRef → Option TypeRef
  | .named s => if (t.flags s).contains .isAlias then t.info? s else none
  | _ => none

/-- Follows at most the given number of alias links. -/
def dealiasWithin : Nat → TypeRef → TypeRef
  | 0, ty => ty
  | links + 1, ty =>
    match t.unalias? ty with
    | some target => dealiasWithin links target
    | none => ty

/-- The number of alias links that are followed at most; chains are short, cycles are cut here. -/
def aliasLimit : Nat := 16

/-- What an alias stands for; any other type itself. -/
def dealias (ty : TypeRef) : TypeRef := t.dealiasWithin aliasLimit ty

/-- The self type of a class and the singleton type of a value, widened; any other type itself. -/
def widen (ty : TypeRef) : TypeRef :=
  match ty with
  | .self s => if (t.flags s).contains .isClass then .named s else ty
  | .path s => if (t.flags s).isTerm then (t.info? s).getD ty else ty
  | _ => ty

/-- The class of a type, absent if it has none. -/
def classOf (ty : TypeRef) : SymbolId := ((t.widen (t.dealias ty)).symbol?).getD .absent

/-- Members with a name that the class of a type declares itself. -/
def declared (ty : TypeRef) (name : Name) : List SymbolId :=
  (t.declaredMembers (t.classOf ty)).filter fun m => t.name m == name

/-- Members of a type with a name; a package has no others than it declares. -/
def members (ty : TypeRef) (name : Name) : List SymbolId :=
  if (t.flags (t.classOf ty)).isPackage then t.declared ty name
  else t.collectMembers (t.classOf ty) fun d => d.name == name

def implicitMembers (ty : TypeRef) : List SymbolId :=
  let sym := t.classOf ty
  if (t.flags sym).isPackage then
    (t.declaredMembers sym).filter fun m => (t.flags m).contains .implicit
  else t.collectMembers sym fun d => d.flags.contains .implicit

/--
Whether two types are the same once aliases are followed. A package or an object is denoted both by
its self type and by its path; an erroneous type is the same as none.
-/
def isSameType (a b : TypeRef) : Bool :=
  match t.dealias a, t.dealias b with
  | .noPrefix, .noPrefix => true
  | .self x, .self y | .path x, .path y | .named x, .named y => x == y
  | .self x, .path y | .path x, .self y =>
    x == y && ((t.flags x).isPackage || (t.flags x).isObject)
  | _, _ => false

/-- Whether two types are the same, or the class of the first derives from the second. -/
def isSubtype (sub sup : TypeRef) : Bool :=
  t.isSameType sub sup ||
    match t.widen (t.dealias sub), t.dealias sup with
    | .named a, .named b | .self a, .named b => t.isSubclass a b
    | _, _ => false

/-- The type of a symbol; for an alias what it stands for. The prefix plays no part. -/
def memberType (_pre : TypeRef) (sym : SymbolId) : TypeRef :=
  let flags := t.flags sym
  let plain : TypeRef :=
    if flags.isObject || flags.isPackage || (flags.isTerm && flags.contains .stable) then .path sym
    else if flags.isType then .named sym
    else (t.info? sym).getD (.path sym)
  if flags.contains .isAlias then
    match t.info? sym with
    | some target => t.dealias target
    | none => plain
  else plain

/-- Everything that resolution asks, answered from the table. -/
def toUniverse : Universe where
  size := t.declarations.size
  name := t.name
  owner := t.owner
  flags := t.flags
  accessQualifier s := ((t.find? s).map (·.accessQualifier)).getD .absent
  unit s := (t.find? s).bind (·.unit)
  companion s := ((t.find? s).map (·.companion)).getD .absent
  overrideChain := t.overrideChain
  packageObject s := ((t.find? s).map (·.packageObject)).getD .absent
  isComplete s := ((t.find? s).map (·.isComplete)).getD false
  wellKnown name := ((t.wellKnown.find? fun entry => entry.1 == name).map (·.2)).getD .absent
  members := t.members
  declared := t.declared
  implicitMembers := t.implicitMembers
  classOf := t.classOf
  isSubclass := t.isSubclass
  isSubtype := t.isSubtype
  isSameType := t.isSameType
  memberType := t.memberType
  widen := t.widen

end Table

end NameResolution
