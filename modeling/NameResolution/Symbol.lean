import NameResolution.SwitchSet

/-!
# Symbols

A symbol is a handle to a declaration. Zero stands for the absence of a symbol and one for the root
package. The `Flags` of a declaration are the properties that resolution reads.
-/

namespace NameResolution

/-- A handle to a declaration. -/
structure SymbolId where
  index : Nat
deriving DecidableEq, Repr

namespace SymbolId

def absent : SymbolId := ⟨0⟩

def root : SymbolId := ⟨1⟩

instance : Inhabited SymbolId := ⟨absent⟩

/-- Whether there is a symbol at all; it need not be declared anywhere. -/
def isPresent (sym : SymbolId) : Bool := sym.index != 0

def describe (sym : SymbolId) : String :=
  if sym = absent then "SymbolId(none)"
  else if sym = root then "SymbolId(root)"
  else s!"SymbolId({sym.index})"

end SymbolId

/-- A compilation unit, that is, a source file. -/
structure UnitId where
  number : Nat
deriving DecidableEq, Repr

inductive Flag where
  /-- Eligible for implicit search. -/
  | implicit
  | isProtected
  | isPrivate
  /-- Restricted to the receiver instance. -/
  | instanceOnly
  | package
  /-- Singleton object; its symbol doubles as its class. -/
  | object
  | isClass
  /-- Abstract type member or type alias. -/
  | type
  | method
  | isConstructor
  | typeParam
  | param
  /-- Type alias or stable value forwarding to another path. -/
  | isAlias
  /-- Placeholder left behind by an earlier error. -/
  | erroneous
  /-- Stable identifier: a package, an object or an immutable value. -/
  | stable
  /-- Declared in a source of the other language. -/
  | interop
  | isLazy
  /-- Type without type parameters. -/
  | monomorphic
  | synthetic
deriving DecidableEq, Repr

instance : Switch Flag where
  all := [.implicit, .isProtected, .isPrivate, .instanceOnly, .package, .object, .isClass, .type,
    .method, .isConstructor, .typeParam, .param, .isAlias, .erroneous, .stable, .interop, .isLazy,
    .monomorphic, .synthetic]
  position
    | .implicit => 0
    | .isProtected => 1
    | .isPrivate => 2
    | .instanceOnly => 3
    | .package => 8
    | .object => 9
    | .isClass => 10
    | .type => 11
    | .method => 12
    | .isConstructor => 13
    | .typeParam => 14
    | .param => 15
    | .isAlias => 16
    | .erroneous => 20
    | .stable => 21
    | .interop => 22
    | .isLazy => 23
    | .monomorphic => 24
    | .synthetic => 25
  label
    | .implicit => "IMPLICIT"
    | .isProtected => "PROTECTED"
    | .isPrivate => "PRIVATE"
    | .instanceOnly => "LOCAL"
    | .package => "PACKAGE"
    | .object => "MODULE"
    | .isClass => "CLASS"
    | .type => "TYPE"
    | .method => "METHOD"
    | .isConstructor => "CONSTRUCTOR"
    | .typeParam => "TYPE_PARAM"
    | .param => "PARAM"
    | .isAlias => "ALIAS"
    | .erroneous => "ERROR"
    | .stable => "STABLE"
    | .interop => "JAVA_DEFINED"
    | .isLazy => "LAZY"
    | .monomorphic => "MONOMORPHIC"
    | .synthetic => "SYNTHETIC"

abbrev Flags := SwitchSet Flag

namespace Flags

/-- Class or object: anything with a self type and members. -/
def isClass (flags : Flags) : Bool := flags.containsAny [.isClass, .object]

def isPackage (flags : Flags) : Bool := flags.contains .package

def isObject (flags : Flags) : Bool := flags.contains .object

/-- Values, methods and parameters: what is not in the type namespace and owns no members. -/
def isTerm (flags : Flags) : Bool :=
  !flags.containsAny [.package, .object, .isClass, .type, .typeParam]

/-- Classes, type members and type parameters. -/
def isType (flags : Flags) : Bool := flags.containsAny [.isClass, .type, .typeParam]

/-- Whether an earlier error left this declaration behind. -/
def isErroneous (flags : Flags) : Bool := flags.contains .erroneous

end Flags

end NameResolution
