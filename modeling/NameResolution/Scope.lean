import NameResolution.Name
import NameResolution.Symbol

/-!
# Scopes

A scope holds the declarations of one nesting level in the order they were entered. Entering a name
again makes an overload group; nothing is ever removed. Names are looked up in an index that keeps,
for every name, the positions of its entries; a scope carries the proof that the two agree
(`Scope.Indexed`), so a position of the index always has an entry.
-/

namespace NameResolution

/-! ### Indices -/

/-- The positions kept for every name, in groups of one name each. -/
abbrev NameIndex : Type := List (Name × List Nat)

namespace NameIndex

def positions (index : NameIndex) (name : Name) : List Nat := (index.lookup name).getD []

/-- Adds a position to those of a name, as the last one. -/
def note (index : NameIndex) (name : Name) (position : Nat) : NameIndex :=
  match index with
  | [] => [(name, [position])]
  | group :: rest =>
    if name = group.1 then (name, group.2 ++ [position]) :: rest
    else group :: note rest name position

theorem lookup_note (index : NameIndex) (name asked : Name) (position : Nat) :
    (index.note name position).lookup asked =
      if name = asked then some (index.positions name ++ [position]) else index.lookup asked := by
  induction index with
  | nil =>
    by_cases hasked : name = asked
    · simp [note, positions, hasked]
    · simp [note, hasked, Ne.symm hasked]
  | cons group rest ih =>
    obtain ⟨key, old⟩ := group
    by_cases hkey : name = key
    · subst hkey
      by_cases hasked : name = asked
      · simp [note, positions, hasked]
      · simp [note, List.lookup_cons, hasked, beq_false_of_ne (Ne.symm hasked)]
    · have hpositions : positions ((key, old) :: rest) name = positions rest name := by
        simp [positions, List.lookup_cons, beq_false_of_ne hkey]
      rw [note, if_neg hkey, List.lookup_cons, List.lookup_cons, ih, hpositions]
      by_cases hasked : name = asked
      · simp [← hasked, beq_false_of_ne hkey]
      · simp [hasked]

theorem mem_keys_note {index : NameIndex} {name key : Name} {position : Nat}
    (h : key ∈ (index.note name position).map (·.1)) : key = name ∨ key ∈ index.map (·.1) := by
  induction index with
  | nil => exact .inl (List.mem_singleton.mp h)
  | cons group rest ih =>
    unfold note at h
    split at h
    · next hkey =>
      obtain rfl | hrest := List.mem_cons.mp h
      · exact .inl rfl
      · exact .inr (List.mem_cons_of_mem _ hrest)
    · obtain rfl | hrest := List.mem_cons.mp h
      · exact .inr List.mem_cons_self
      · exact (ih hrest).imp id (List.mem_cons_of_mem _)

/-- Every name keeps a single group. -/
theorem nodup_keys_note {index : NameIndex} (h : (index.map (·.1)).Nodup) (name : Name)
    (position : Nat) : ((index.note name position).map (·.1)).Nodup := by
  induction index with
  | nil => exact List.nodup_cons.mpr ⟨List.not_mem_nil, List.nodup_nil⟩
  | cons group rest ih =>
    obtain ⟨hgroup, hrest⟩ := List.nodup_cons.mp h
    unfold note
    split
    · next hkey => exact List.nodup_cons.mpr ⟨hkey ▸ hgroup, hrest⟩
    · next hkey =>
      refine List.nodup_cons.mpr ⟨fun hmem => ?_, ih hrest⟩
      exact (mem_keys_note hmem).elim (fun heq => hkey heq.symm) hgroup

end NameIndex

/-! ### Agreement with the entries -/

namespace Scope

/-- The positions of a name in a list of entries. -/
def positionsOf (entries : List (Name × SymbolId)) (name : Name) : List Nat :=
  (entries.zipIdx.filter fun entry => entry.1.1 == name).map (·.2)

theorem positionsOf_append (entries : List (Name × SymbolId)) (entered asked : Name)
    (sym : SymbolId) :
    positionsOf (entries ++ [(entered, sym)]) asked =
      positionsOf entries asked ++ if entered = asked then [entries.length] else [] := by
  by_cases h : entered = asked <;> simp [positionsOf, List.zipIdx_append, h]

/-- The positions of a name are those where it was entered. -/
theorem mem_positionsOf {entries : List (Name × SymbolId)} {name : Name} {position : Nat} :
    position ∈ positionsOf entries name ↔ ∃ sym, entries[position]? = some (name, sym) := by
  simp [positionsOf, List.mem_zipIdx_iff_getElem?]

/-- The symbol of the entry at a position, if there is one. -/
def symbolIn? (entries : List (Name × SymbolId)) (position : Nat) : Option SymbolId :=
  entries[position]?.map (·.2)

/-- The symbols at the positions of a name are those entered under it. -/
theorem map_positionsOf (entries : List (Name × SymbolId)) (name : Name) :
    (positionsOf entries name).map (symbolIn? entries) =
      ((entries.filter fun entry => entry.1 == name).map (·.2)).map some := by
  have hread : ∀ entry ∈ entries.zipIdx.filter fun entry => entry.1.1 == name,
      symbolIn? entries entry.2 = some entry.1.2 := by
    intro entry hentry
    have hat := List.mem_zipIdx_iff_getElem?.mp (List.mem_filter.mp hentry).1
    rw [symbolIn?, hat, Option.map_some]
  calc (positionsOf entries name).map (symbolIn? entries)
      = (entries.zipIdx.filter fun entry => entry.1.1 == name).map
          (fun entry => some entry.1.2) := by
        rw [positionsOf, List.map_map]
        exact List.map_congr_left hread
    _ = ((entries.filter fun entry => entry.1 == name).map (·.2)).map some := by
        conv => rhs; rw [← List.zipIdx_map_fst 0 entries, List.filter_map]
        rw [List.map_map, List.map_map]
        rfl

/-- An index has a group for every name that was entered and for no other: its positions. -/
structure Indexed (entries : List (Name × SymbolId)) (index : NameIndex) : Prop where
  single : (index.map (·.1)).Nodup
  lookup_eq_some_iff : ∀ name group, index.lookup name = some group ↔
    group = positionsOf entries name ∧ group ≠ []

variable {entries : List (Name × SymbolId)} {index : NameIndex}

theorem Indexed.nil : Indexed [] [] where
  single := List.nodup_nil
  lookup_eq_some_iff name group := by simp [positionsOf]

theorem Indexed.positions_eq (h : Indexed entries index) (name : Name) :
    index.positions name = positionsOf entries name := by
  unfold NameIndex.positions
  cases hgroup : index.lookup name with
  | some group => exact ((h.lookup_eq_some_iff name group).mp hgroup).1
  | none =>
    -- A name without a group was not entered.
    by_cases hnil : positionsOf entries name = []
    · exact hnil.symm
    · rw [(h.lookup_eq_some_iff name _).mpr ⟨rfl, hnil⟩] at hgroup
      cases hgroup

/-- **Noting the position of a new entry keeps the index in agreement.** -/
theorem Indexed.note (h : Indexed entries index) (name : Name) (sym : SymbolId) :
    Indexed (entries ++ [(name, sym)]) (index.note name entries.length) where
  single := NameIndex.nodup_keys_note h.single name entries.length
  lookup_eq_some_iff asked group := by
    rw [NameIndex.lookup_note, positionsOf_append]
    by_cases hasked : name = asked
    · subst hasked
      rw [if_pos rfl, if_pos rfl, h.positions_eq, Option.some.injEq]
      constructor
      · rintro rfl
        exact ⟨rfl, List.append_ne_nil_of_right_ne_nil _ (List.cons_ne_nil _ _)⟩
      · rintro ⟨rfl, -⟩
        rfl
    · rw [if_neg hasked, if_neg hasked, List.append_nil]
      exact h.lookup_eq_some_iff asked group

theorem Indexed.lt_length (h : Indexed entries index) {name : Name} {position : Nat}
    (hposition : position ∈ index.positions name) : position < entries.length := by
  rw [h.positions_eq] at hposition
  obtain ⟨sym, hat⟩ := mem_positionsOf.mp hposition
  exact (List.getElem?_eq_some_iff.mp hat).1

end Scope

/-! ### Scopes -/

/-- The declarations of one nesting level, in order of entry. -/
structure Scope where
  entries : Array (Name × SymbolId) := #[]
  /-- The positions of the entries, by name. -/
  index : NameIndex := []
  indexed : Scope.Indexed entries.toList index := by exact Scope.Indexed.nil
deriving DecidableEq, Repr

namespace Scope

def empty : Scope := {}

instance : Inhabited Scope := ⟨empty⟩

def enter (scope : Scope) (name : Name) (sym : SymbolId) : Scope where
  entries := scope.entries.push (name, sym)
  index := scope.index.note name scope.entries.size
  indexed := by
    rw [Array.toList_push]
    exact scope.indexed.note name sym

def enterAll (scope : Scope) (entries : List (Name × SymbolId)) : Scope :=
  entries.foldl (fun scope entry => scope.enter entry.1 entry.2) scope

/-- The declaration at a position kept for a name. -/
def symbolAt (scope : Scope) (name : Name)
    (position : { position // position ∈ scope.index.positions name }) : SymbolId :=
  have hposition : position.val < scope.entries.size := scope.indexed.lt_length position.property
  scope.entries[position.val].2

/-- Everything entered under a name, in order of entry. -/
def lookupAll (scope : Scope) (name : Name) : List SymbolId :=
  (scope.index.positions name).attach.map (scope.symbolAt name)

/-- What was entered first under a name. -/
def lookup? (scope : Scope) (name : Name) : Option SymbolId :=
  (scope.index.positions name).attach.head?.map (scope.symbolAt name)

def contains (scope : Scope) (name : Name) : Bool := (scope.index.lookup name).isSome

def size (scope : Scope) : Nat := scope.entries.size

def isEmpty (scope : Scope) : Bool := scope.entries.isEmpty

theorem some_symbolAt (scope : Scope) (name : Name)
    (position : { position // position ∈ scope.index.positions name }) :
    some (scope.symbolAt name position) = symbolIn? scope.entries.toList position.val := by
  have hposition := scope.indexed.lt_length position.property
  rw [symbolIn?, List.getElem?_eq_getElem hposition]
  rfl

/-- The index finds what a search of the entries finds. -/
theorem lookupAll_eq (scope : Scope) (name : Name) :
    scope.lookupAll name =
      (scope.entries.toList.filter fun entry => entry.1 == name).map (·.2) := by
  apply List.map_inj_right (fun _ _ => Option.some.inj) |>.mp
  calc (scope.lookupAll name).map some
      = (scope.index.positions name).attach.map
          (fun position => symbolIn? scope.entries.toList position.val) := by
        rw [lookupAll, List.map_map]
        exact List.map_congr_left fun position _ => scope.some_symbolAt name position
    _ = (positionsOf scope.entries.toList name).map (symbolIn? scope.entries.toList) := by
        rw [← scope.indexed.positions_eq]
        exact List.attach_map_val
    _ = ((scope.entries.toList.filter fun entry => entry.1 == name).map (·.2)).map some :=
        map_positionsOf ..

/-- A new entry comes last under its own name and leaves the others alone. -/
@[simp] theorem lookupAll_enter (scope : Scope) (entered asked : Name) (sym : SymbolId) :
    (scope.enter entered sym).lookupAll asked =
      scope.lookupAll asked ++ if entered = asked then [sym] else [] := by
  rw [lookupAll_eq, lookupAll_eq]
  by_cases h : entered = asked <;> simp [enter, h]

theorem lookupAll_enterAll (scope : Scope) (entries : List (Name × SymbolId)) (name : Name) :
    (scope.enterAll entries).lookupAll name =
      scope.lookupAll name ++ (entries.filter fun entry => entry.1 == name).map (·.2) := by
  induction entries generalizing scope with
  | nil => exact (List.append_nil _).symm
  | cons entry rest ih =>
    show ((scope.enter entry.1 entry.2).enterAll rest).lookupAll name = _
    rw [ih, lookupAll_enter, List.append_assoc, List.filter_cons]
    by_cases hname : entry.1 = name <;> simp [hname]

end Scope

end NameResolution
