import NameResolution.Name

/-!
# The table of texts

An `Interner` numbers texts in order of first arrival, after the reserved ones. Interning a text
again gives the name it got the first time; looking a name up gives its text back, in either
namespace. Tables are shared by handles: a `SharedInterner` refers to a table among all `Interners`,
and its clones refer to the same one.
-/

namespace NameResolution

/-- A numbering of texts, in both directions; the reserved ones come first. -/
structure Interner where
  /-- The index of each text, the newest first. -/
  indices : List (String × Nat)
  /-- The texts by index. -/
  texts : Array String
deriving Repr

/-- Why a text cannot be given a name. -/
inductive InternError where
  /-- The table already holds `count` texts, as many as names can tell apart. -/
  | overflow (count : Nat)
deriving DecidableEq, Repr

def InternError.message : InternError → String
  | .overflow count =>
    s!"interner exceeded capacity: {count} strings, max is {Name.maxIndex} (0x7FFFFFFF)"

namespace Interner

/-- The number of texts, the reserved ones included. -/
def size (table : Interner) : Nat := table.texts.size

/-- The table with one more text, under the next index. -/
def record (table : Interner) (text : String) : Interner :=
  ⟨(text, table.size) :: table.indices, table.texts.push text⟩

/-- The table of the reserved texts. -/
def initial : Interner := Name.reserved.foldl record ⟨[], #[]⟩

instance : Inhabited Interner := ⟨initial⟩

def isFresh (table : Interner) : Bool := table.size ≤ Name.reserved.length

/-- Gives a text the next index, if names reach that far. -/
def add (table : Interner) (text : String) : Except InternError (Name × Interner) :=
  if table.size ≤ Name.maxIndex then .ok (.ofIndex table.size, table.record text)
  else .error (.overflow table.size)

/-- The term name of a text, adding the text if it is new. -/
def intern (table : Interner) (text : String) : Except InternError (Name × Interner) :=
  match table.indices.lookup text with
  | some i => .ok (.ofIndex i, table)
  | none => table.add text

/-- The type name of a text, adding the text if it is new. -/
def internType (table : Interner) (text : String) : Except InternError (Name × Interner) :=
  (table.intern text).map fun (name, after) => (name.toType, after)

/-- The text of a name, in either namespace. -/
def text (table : Interner) (name : Name) : String :=
  table.texts[name.index.val]?.getD "<unknown>"

end Interner

abbrev InternerId := Nat

structure Interners where
  tables : Array Interner := #[]
deriving Repr

namespace Interners

def tableAt (all : Interners) (id : InternerId) : Interner := all.tables[id]?.getD .initial

def setTable (all : Interners) (id : InternerId) (table : Interner) : Interners :=
  { all with tables := all.tables.modify id fun _ => table }

end Interners

/-- A handle: the table to use. -/
structure SharedInterner where
  table : InternerId
deriving DecidableEq, Repr

namespace SharedInterner

/-- A handle on a fresh table. -/
def create (all : Interners) : SharedInterner × Interners :=
  (⟨all.tables.size⟩, { all with tables := all.tables.push .initial })

variable (handle : SharedInterner)

def clone : SharedInterner := handle

def read (all : Interners) : Interner := all.tableAt handle.table

/-- The name an operation finds for a text in the table, which the operation may extend. If it fails
the table stays as it was. -/
def update (operation : Interner → Except InternError (Name × Interner)) (all : Interners) :
    Except InternError Name × Interners :=
  match operation (handle.read all) with
  | .ok (name, after) => (.ok name, all.setTable handle.table after)
  | .error error => (.error error, all)

def intern (text : String) (all : Interners) : Except InternError Name × Interners :=
  handle.update (·.intern text) all

def internType (text : String) (all : Interners) : Except InternError Name × Interners :=
  handle.update (·.internType text) all

end SharedInterner

end NameResolution
