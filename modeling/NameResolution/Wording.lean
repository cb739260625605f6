import NameResolution.Name.Interner
import NameResolution.Universe

/-!
# Symbols and types in messages

How messages refer to declarations: by simple name, by dotted path from the root package, and types
by the declaration they are about.
-/

namespace NameResolution

namespace Universe

variable (u : Universe) (names : Interner)

def simpleText (sym : SymbolId) : String :=
  if sym.isPresent then names.text (u.name sym) else "<none>"

/-- The symbols on the dotted path of a symbol, innermost first; the root package is not on it. -/
def pathSymbols (sym : SymbolId) : List SymbolId := (u.owners sym).takeWhile (· != .root)

/-- The dotted path of a symbol; its simple name if there is nothing on the path. -/
def pathText (sym : SymbolId) : String :=
  match (u.pathSymbols sym).reverse with
  | [] => u.simpleText names sym
  | outermost :: rest =>
    String.intercalate "." ((outermost :: rest).map fun s => names.text (u.name s))

def typeText : TypeRef → String
  | .noPrefix => "<noprefix>"
  | .error => "<error>"
  | .self sym => u.simpleText names sym ++ ".this"
  | .path sym | .named sym => u.pathText names sym

end Universe

end NameResolution
