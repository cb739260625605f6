import NameResolution.Symbol

/-!
# Meanings

What a name denotes at one place: one symbol, or several declarations of the same name.
-/

namespace NameResolution

/-- The declarations a name denotes at one place. -/
inductive Meaning where
  | single (sym : SymbolId)
  /-- Several declarations of one name at one nesting level. -/
  | overloaded (owner : SymbolId) (alternatives : List SymbolId)
deriving DecidableEq, Repr

namespace Meaning

/-- Groups declarations under their owner; none if there are none. -/
def ofList? (owner : SymbolId) : List SymbolId → Option Meaning
  | [] => none
  | [sym] => some (.single sym)
  | symbols => some (.overloaded owner symbols)

def alternatives : Meaning → List SymbolId
  | .single sym => [sym]
  | .overloaded _ symbols => symbols

/-- The owner the group is listed under; absent for a single symbol. -/
def owner : Meaning → SymbolId
  | .single _ => .absent
  | .overloaded owner _ => owner

/-- The first declaration, absent if the group is empty. -/
def first (d : Meaning) : SymbolId := d.alternatives.head?.getD .absent

/-- Whether the group has the form of an overload group. -/
def isOverloaded : Meaning → Bool
  | .single _ => false
  | .overloaded .. => true

/-- The group of the declarations that pass a test; none if none does. -/
def filter (d : Meaning) (keep : SymbolId → Bool) : Option Meaning :=
  ofList? d.owner (d.alternatives.filter keep)

def any (d : Meaning) (test : SymbolId → Bool) : Bool := d.alternatives.any test

/-- Grouping loses and reorders nothing. -/
theorem alternatives_of_ofList? {owner : SymbolId} {symbols : List SymbolId} {d : Meaning}
    (h : ofList? owner symbols = some d) : d.alternatives = symbols := by
  match symbols with
  | [] => simp [ofList?] at h
  | [sym] => simp [ofList?] at h; subst h; rfl
  | a :: b :: rest => simp [ofList?] at h; subst h; rfl

end Meaning

end NameResolution
