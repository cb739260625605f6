import NameResolution.Table

/-!
# Inheritance

Walks over the parent and override links of a table. Both kinds of links may form cycles and may
name symbols that are not declared; each walk lists a symbol once and is bounded by the number of
links, which is all it can follow.
-/

namespace NameResolution

namespace Table

variable (t : Table)

def parentLinks : Nat := (t.declarations.toList.flatMap (·.parents)).length

def overrideLinks : Nat := (t.declarations.toList.flatMap (·.overrides)).length

/--
The classes reached from a stack of pending ones, depth first, those already `seen` left out. The
number bounds the steps; each step takes one class off the stack.
-/
def linearizeFrom : Nat → List SymbolId → List SymbolId → List SymbolId
  | 0, _, _ => []
  | _ + 1, [], _ => []
  | steps + 1, c :: pending, seen =>
    if !c.isPresent || seen.contains c then linearizeFrom steps pending seen
    else c :: linearizeFrom steps (t.parents c ++ pending) (c :: seen)

/-- A class followed by its ancestors: depth first, parents in order of declaration, each once. -/
def linearization (sym : SymbolId) : List SymbolId :=
  t.linearizeFrom (t.parentLinks + 1) [sym] []

/-- Whether a class is another or has it among its ancestors. -/
def isSubclass (sub base : SymbolId) : Bool :=
  sub.isPresent && base.isPresent && (t.linearization sub).contains base

/--
The symbols reached along override links from a queue of pending ones that are already `listed`.
The number bounds the steps; each step takes one symbol off the queue.
-/
def overridesFrom : Nat → List SymbolId → List SymbolId → List SymbolId
  | 0, _, listed => listed
  | _ + 1, [], listed => listed
  | steps + 1, s :: pending, listed =>
    let fresh := (t.overrides s).foldl (fun fresh o =>
      if listed.contains o || fresh.contains o then fresh else fresh ++ [o]) []
    overridesFrom steps (pending ++ fresh) (listed ++ fresh)

/-- A symbol followed by all it overrides, directly or not, nearest first and each once. -/
def overrideChain (sym : SymbolId) : List SymbolId :=
  t.overridesFrom (t.overrideLinks + 1) [sym] [sym]

/-- Members found so far on a walk up the ancestors, and what they override. -/
structure Harvest where
  members : List SymbolId := []
  overridden : List SymbolId := []

/-- Takes a member in, unless it is unwanted, overridden, or private and inherited. -/
def Harvest.take (wanted : Declaration → Bool) (inherited : Bool) (found : Harvest)
    (member : SymbolId) : Harvest :=
  match t.find? member with
  | none => found
  | some d =>
    if !wanted d || found.overridden.contains member || (inherited && d.flags.contains .isPrivate)
    then found
    else ⟨found.members ++ [member], found.overridden ++ d.overrides⟩

def Harvest.takeAll (wanted : Declaration → Bool) (inherited : Bool) (found : Harvest)
    (sym : SymbolId) : Harvest :=
  (t.declaredMembers sym).foldl (Harvest.take t wanted inherited) found

/--
The wanted members of a class and its ancestors, those of the class first. Private members of
ancestors and members overridden by one found before are left out.
-/
def collectMembers (sym : SymbolId) (wanted : Declaration → Bool) : List SymbolId :=
  match t.linearization sym with
  | [] => []
  | own :: ancestors =>
    let found := Harvest.takeAll t wanted false {} own
    (ancestors.foldl (Harvest.takeAll t wanted true) found).members

end Table

end NameResolution
