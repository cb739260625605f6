/-!
# Names

A name is an index into the table of texts together with the namespace it is read in: `x` the value
and `x` the type share a text and are different names. As a word, a name is its index with the top
bit set for the type namespace.
-/

namespace NameResolution

inductive Namespace where
  | term
  | type
deriving DecidableEq, Repr

/-- The number of texts that names can tell apart. -/
def Name.capacity : Nat := 0x80000000

/-- An identifier: a text by its index, read in one namespace. -/
structure Name where
  space : Namespace
  index : Fin Name.capacity
deriving DecidableEq, Repr

namespace Name

def maxIndex : Nat := capacity - 1

/-- The term name of the `i`-th text, if names reach that far. -/
def ofIndex? (i : Nat) : Option Name :=
  if h : i < capacity then some ⟨.term, ⟨i, h⟩⟩ else none

/-- The term name of the `i`-th text; indices wrap around beyond the largest one. -/
def ofIndex (i : Nat) : Name where
  space := .term
  index := ⟨i % capacity, Nat.mod_lt _ (by decide)⟩

/-- The name a word stands for: the top bit is the namespace, the rest the index. -/
def ofWord (word : UInt32) : Name where
  space := if word.toNat < capacity then .term else .type
  index := ⟨word.toNat % capacity, Nat.mod_lt _ (by decide)⟩

def toWord (name : Name) : UInt32 :=
  match name.space with
  | .term => UInt32.ofNat name.index
  | .type => UInt32.ofNat (capacity + name.index)

/-- Names are ordered as their words: term names first, each namespace by index. -/
instance : Ord Name := ⟨fun a b => compare a.toWord b.toWord⟩

def isType (name : Name) : Bool := name.space == .type

def isTerm (name : Name) : Bool := !name.isType

def toType (name : Name) : Name := { name with space := .type }

def toTerm (name : Name) : Name := { name with space := .term }

/-- The same text in the other namespace. -/
def companion (name : Name) : Name := if name.isType then name.toTerm else name.toType

/-- The texts every table starts with, in index order. -/
def reserved : List String :=
  ["", "<init>", "_", "<root>", "<empty>", "this", "package", "<error>"]

/-- The empty text, name of declarations that have none. -/
def empty : Name := ⟨.term, ⟨0, by decide⟩⟩

def constructor : Name := ⟨.term, ⟨1, by decide⟩⟩

def wildcard : Name := ⟨.term, ⟨2, by decide⟩⟩

def root : Name := ⟨.term, ⟨3, by decide⟩⟩

/-- Whether this is the name of constructors; the type name of that text is not. -/
def isConstructor (name : Name) : Bool := name == constructor

/-- Whether this is the wildcard text, in either namespace. -/
def isWildcard (name : Name) : Bool := name.toTerm == wildcard

instance : Inhabited Name := ⟨empty⟩

def describe (name : Name) : String :=
  let space := match name.space with
    | .term => "term"
    | .type => "type"
  s!"Name({space}, {name.index.val})"

@[simp] theorem toType_toTerm (name : Name) : name.toTerm.toType = name.toType := rfl

@[simp] theorem toTerm_toType (name : Name) : name.toType.toTerm = name.toTerm := rfl

end Name

end NameResolution
