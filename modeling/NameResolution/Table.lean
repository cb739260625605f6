import NameResolution.Name
import NameResolution.TypeRef

/-!
# The symbol table

A `Table` holds declarations by their symbol, the root package first. Tables grow by `add` and its
variants and are edited by the setters; a setter on a symbol that is not declared changes nothing.
-/

namespace NameResolution

/-- What a table knows of one declaration. -/
structure Declaration where
  name : Name
  owner : SymbolId
  flags : Flags
  accessQualifier : SymbolId := .absent
  unit : Option UnitId := none
  companion : SymbolId := .absent
  /-- What the declaration overrides, nearest first. -/
  overrides : List SymbolId := []
  /-- The direct superclasses. -/
  parents : List SymbolId := []
  /-- The declared members, in order of definition. -/
  members : List SymbolId := []
  /-- What an alias stands for; the declared type of a value. -/
  info : Option TypeRef := none
  packageObject : SymbolId := .absent
  isComplete : Bool := true
deriving DecidableEq, Repr

/-- Declarations by symbol, and the symbols known under fixed names. -/
structure Table where
  declarations : Array Declaration
  wellKnown : List (Name × SymbolId) := []
deriving Repr

namespace Table

/-- The table of the root package alone. -/
def initial : Table :=
  ⟨#[{ name := .root, owner := .absent, flags := .ofList [.package, .stable] }], []⟩

instance : Inhabited Table := ⟨initial⟩

variable (t : Table)

def find? (sym : SymbolId) : Option Declaration :=
  match sym.index with
  | 0 => none
  | i + 1 => t.declarations[i]?

def modify (sym : SymbolId) (change : Declaration → Declaration) : Table :=
  match sym.index with
  | 0 => t
  | i + 1 => { t with declarations := t.declarations.modify i change }

def next : SymbolId := ⟨t.declarations.size + 1⟩

/-- Declares a symbol in the unit of its owner and lists it among the owner's members. -/
def add (owner : SymbolId) (name : Name) (flags : Flags) : SymbolId × Table :=
  let unit := (t.find? owner).bind (·.unit)
  let grown : Table :=
    { t with declarations := t.declarations.push { name, owner, flags, unit } }
  (t.next, grown.modify owner fun d => { d with members := d.members ++ [t.next] })

/-- Declares a package, a stable term. -/
def addPackage (owner : SymbolId) (name : Name) : SymbolId × Table :=
  t.add owner name.toTerm (.ofList [.package, .stable])

/-- Declares a class, a type without parameters. -/
def addClass (owner : SymbolId) (name : Name) : SymbolId × Table :=
  t.add owner name.toType (.ofList [.isClass, .monomorphic])

/-- Declares a singleton object, a stable term. -/
def addObject (owner : SymbolId) (name : Name) : SymbolId × Table :=
  t.add owner name.toTerm (.ofList [.object, .stable])

/-- Declares an immutable value with further flags. -/
def addValue (owner : SymbolId) (name : Name) (extra : Flags) : SymbolId × Table :=
  t.add owner name.toTerm (.ofList [.stable] ∪ extra)

def addMethod (owner : SymbolId) (name : Name) (extra : Flags) : SymbolId × Table :=
  t.add owner name.toTerm (.ofList [.method] ∪ extra)

/-- Records what an alias stands for, or the type of a value. -/
def setInfo (sym : SymbolId) (info : TypeRef) : Table :=
  t.modify sym fun d => { d with info := some info }

def addAlias (owner : SymbolId) (name : Name) (target : TypeRef) : SymbolId × Table :=
  let (sym, grown) := t.add owner name.toType (.ofList [.type, .isAlias, .monomorphic])
  (sym, grown.setInfo sym target)

/-- Moves a symbol to a unit, or to compiled code. -/
def setUnit (sym : SymbolId) (unit : Option UnitId) : Table :=
  t.modify sym fun d => { d with unit }

def setFlags (sym : SymbolId) (flags : Flags) : Table := t.modify sym fun d => { d with flags }

def addFlags (sym : SymbolId) (extra : Flags) : Table :=
  t.modify sym fun d => { d with flags := d.flags ∪ extra }

def setAccessQualifier (sym place : SymbolId) : Table :=
  t.modify sym fun d => { d with accessQualifier := place }

def linkCompanions (a b : SymbolId) : Table :=
  (t.modify a fun d => { d with companion := b }).modify b fun d => { d with companion := a }

def addParent (sym parent : SymbolId) : Table :=
  t.modify sym fun d => { d with parents := d.parents ++ [parent] }

def addOverride (sym overridden : SymbolId) : Table :=
  t.modify sym fun d => { d with overrides := d.overrides ++ [overridden] }

def setComplete (sym : SymbolId) (isComplete : Bool) : Table :=
  t.modify sym fun d => { d with isComplete }

def setPackageObject (sym object : SymbolId) : Table :=
  t.modify sym fun d => { d with packageObject := object }

/-- Makes a symbol known under a fixed name, in place of any other. -/
def setWellKnown (name : Name) (sym : SymbolId) : Table :=
  { t with wellKnown := (name, sym) :: t.wellKnown }

/-- The name of a symbol; the empty text if it is not declared. -/
def name (sym : SymbolId) : Name := ((t.find? sym).map (·.name)).getD .empty

def owner (sym : SymbolId) : SymbolId := ((t.find? sym).map (·.owner)).getD .absent

def flags (sym : SymbolId) : Flags := ((t.find? sym).map (·.flags)).getD ∅

/-- The declared members of a symbol, in order of definition. -/
def declaredMembers (sym : SymbolId) : List SymbolId :=
  ((t.find? sym).map (·.members)).getD []

def parents (sym : SymbolId) : List SymbolId := ((t.find? sym).map (·.parents)).getD []

/-- What a symbol overrides directly, nearest first. -/
def overrides (sym : SymbolId) : List SymbolId := ((t.find? sym).map (·.overrides)).getD []

/-- What an alias stands for or the type of a value, if recorded. -/
def info? (sym : SymbolId) : Option TypeRef := (t.find? sym).bind (·.info)

end Table

end NameResolution
