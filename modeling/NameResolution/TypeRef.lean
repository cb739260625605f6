import NameResolution.Symbol

/-!
# Type references

The part of the type language that name resolution reads.
-/

namespace NameResolution

/-- A reference to a type or a prefix. -/
inductive TypeRef where
  /-- No prefix: a local reference. -/
  | noPrefix
  /-- The self type of a class, object or package. -/
  | self (sym : SymbolId)
  /-- The singleton type of a stable path. -/
  | path (sym : SymbolId)
  /-- A class or a type alias by name. -/
  | named (sym : SymbolId)
  /-- An erroneous type. -/
  | error
deriving DecidableEq, Repr

namespace TypeRef

/-- The symbol the type is about, if there is one. -/
def symbol? : TypeRef → Option SymbolId
  | self s | path s | named s => some s
  | noPrefix | error => none

def isSelf : TypeRef → Bool
  | self _ => true
  | _ => false

def isNoPrefix : TypeRef → Bool
  | noPrefix => true
  | _ => false

end TypeRef

end NameResolution
