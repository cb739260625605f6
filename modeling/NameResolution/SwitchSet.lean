/-!
# Sets of named switches in a word

A `Switch` type is an enumeration whose members each own one bit of a 32-bit word. A `SwitchSet` is
a word read as a set of such members. Declaration flags and context modes are both of this kind.
-/

namespace NameResolution

/-- An enumeration of switches, each with a bit of its own. -/
class Switch (α : Type) where
  /-- Every switch, in declaration order. -/
  all : List α
  /-- The bit that stands for a switch. -/
  position : α → Nat
  /-- The word a switch is listed under. -/
  label : α → String

/-- A set of switches, as the word of their bits. -/
structure SwitchSet (α : Type) where
  bits : BitVec 32
deriving DecidableEq, Repr

namespace SwitchSet

variable {α : Type}

def empty : SwitchSet α := ⟨0⟩

instance : EmptyCollection (SwitchSet α) := ⟨empty⟩
instance : Inhabited (SwitchSet α) := ⟨empty⟩

def union (s t : SwitchSet α) : SwitchSet α := ⟨s.bits ||| t.bits⟩

def inter (s t : SwitchSet α) : SwitchSet α := ⟨s.bits &&& t.bits⟩

def diff (s t : SwitchSet α) : SwitchSet α := ⟨s.bits &&& ~~~t.bits⟩

instance : Union (SwitchSet α) := ⟨union⟩
instance : Inter (SwitchSet α) := ⟨inter⟩
instance : SDiff (SwitchSet α) := ⟨diff⟩

/-- Whether every switch on in `t` is on in `s`. -/
def includes (s t : SwitchSet α) : Bool := s.bits &&& t.bits == t.bits

/-- Turns all switches of `t` on, or all of them off. -/
def assign (s t : SwitchSet α) (on : Bool) : SwitchSet α := if on then s ∪ t else s \ t

variable [Switch α]

def ofList (xs : List α) : SwitchSet α :=
  ⟨xs.foldl (fun word x => word ||| BitVec.twoPow 32 (Switch.position x)) 0⟩

def full : SwitchSet α := ofList Switch.all

/-- Reads a word, dropping the bits that stand for no switch. -/
def ofBits (word : BitVec 32) : SwitchSet α := ⟨word &&& (full : SwitchSet α).bits⟩

def contains (s : SwitchSet α) (x : α) : Bool := s.bits.getLsbD (Switch.position x)

def containsAny (s : SwitchSet α) (xs : List α) : Bool := xs.any s.contains

def insert (s : SwitchSet α) (x : α) : SwitchSet α := s ∪ ofList [x]

def erase (s : SwitchSet α) (x : α) : SwitchSet α := s \ ofList [x]

/-- The labels of the switches that are on, in declaration order. -/
def labels (s : SwitchSet α) : List String := (Switch.all.filter s.contains).map Switch.label

@[simp] theorem contains_empty (x : α) : (∅ : SwitchSet α).contains x = false := by
  simp [contains, EmptyCollection.emptyCollection, empty]

@[simp] theorem contains_union (s t : SwitchSet α) (x : α) :
    (s ∪ t).contains x = (s.contains x || t.contains x) := by
  simp [contains, Union.union, union]

@[simp] theorem contains_inter (s t : SwitchSet α) (x : α) :
    (s ∩ t).contains x = (s.contains x && t.contains x) := by
  simp [contains, Inter.inter, inter]

@[simp] theorem contains_diff (s t : SwitchSet α) (x : α) :
    (s \ t).contains x = (s.contains x && !t.contains x) := by
  show (s.bits &&& ~~~t.bits).getLsbD (Switch.position x) = _
  rw [BitVec.getLsbD_and, BitVec.getLsbD_not]
  cases hx : s.bits.getLsbD (Switch.position x) with
  | false => simp [contains, hx]
  | true => simp [contains, hx, BitVec.lt_of_getLsbD hx]

end SwitchSet

end NameResolution
