import Mathlib.Data.List.Nodup
import NameResolution.Table

/-!
# Tables that come about

`Table.Built` closes the initial table under every operation on tables, in any order and with any
symbols: unknown owners, cycles of parents and repeated links are not ruled out. What no sequence of
operations can break is that a declaration is listed by its owner alone, and once (`Built.listed`).
-/

namespace NameResolution.Table

/-! ### Looking up after a change -/

/-- A change of one declaration shows at that symbol only. -/
theorem find?_modify (t : Table) (sym other : SymbolId) (change : Declaration → Declaration) :
    (t.modify sym change).find? other =
      if other = sym then (t.find? other).map change else t.find? other := by
  obtain ⟨_ | i⟩ := sym
  · -- Nothing is declared at zero, so both sides are what was there before.
    by_cases h : other = ⟨0⟩
    · subst h
      rfl
    · simp [modify, h]
  · obtain ⟨_ | j⟩ := other
    · simp [find?]
    · simp only [modify, find?, Array.getElem?_modify, SymbolId.mk.injEq, Nat.add_right_cancel_iff]
      by_cases h : i = j
      · simp [h]
      · simp [h, Ne.symm h]

/-- The table with one more declaration, which nothing lists so far. -/
def declare (t : Table) (d : Declaration) : Table :=
  { t with declarations := t.declarations.push d }

/-- A new declaration is found at the next symbol, and the others where they were. -/
theorem find?_declare (t : Table) (d : Declaration) (sym : SymbolId) :
    (t.declare d).find? sym = if sym = t.next then some d else t.find? sym := by
  obtain ⟨_ | i⟩ := sym
  · simp [find?, next]
  · simp only [declare, find?, next, Array.getElem?_push, SymbolId.mk.injEq,
      Nat.add_right_cancel_iff]

theorem find?_next (t : Table) : t.find? t.next = none := by
  simp [find?, next]

/-- Adding declares the symbol and lists it with its owner. -/
theorem add_eq (t : Table) (owner : SymbolId) (name : Name) (flags : Flags) :
    t.add owner name flags =
      (t.next, (t.declare { name, owner, flags, unit := (t.find? owner).bind (·.unit) }).modify
        owner fun d => { d with members := d.members ++ [t.next] }) := rfl

/-! ### Building -/

/-- The tables that exist: what the operations make of the initial one, in any order. -/
inductive Built : Table → Prop where
  | initial : Built .initial
  | add {t : Table} (h : Built t) (owner : SymbolId) (name : Name) (flags : Flags) :
      Built (t.add owner name flags).2
  | setInfo {t : Table} (h : Built t) (sym : SymbolId) (info : TypeRef) : Built (t.setInfo sym info)
  | setUnit {t : Table} (h : Built t) (sym : SymbolId) (unit : Option UnitId) :
      Built (t.setUnit sym unit)
  | setFlags {t : Table} (h : Built t) (sym : SymbolId) (flags : Flags) :
      Built (t.setFlags sym flags)
  | addFlags {t : Table} (h : Built t) (sym : SymbolId) (extra : Flags) :
      Built (t.addFlags sym extra)
  | setAccessQualifier {t : Table} (h : Built t) (sym place : SymbolId) :
      Built (t.setAccessQualifier sym place)
  | linkCompanions {t : Table} (h : Built t) (a b : SymbolId) : Built (t.linkCompanions a b)
  | addParent {t : Table} (h : Built t) (sym parent : SymbolId) : Built (t.addParent sym parent)
  | addOverride {t : Table} (h : Built t) (sym overridden : SymbolId) :
      Built (t.addOverride sym overridden)
  | setComplete {t : Table} (h : Built t) (sym : SymbolId) (isComplete : Bool) :
      Built (t.setComplete sym isComplete)
  | setPackageObject {t : Table} (h : Built t) (sym object : SymbolId) :
      Built (t.setPackageObject sym object)
  | setWellKnown {t : Table} (h : Built t) (name : Name) (sym : SymbolId) :
      Built (t.setWellKnown name sym)

/-- Whatever a declaration lists is declared, owned by it, and listed once. -/
def Listed (t : Table) : Prop :=
  ∀ sym d, t.find? sym = some d →
    d.members.Nodup ∧ ∀ m ∈ d.members, ∃ e, t.find? m = some e ∧ e.owner = sym

/-- In a new table every declaration is listed with its owner. -/
theorem listed_initial : Listed .initial := by
  intro sym d h
  obtain ⟨_ | _ | i⟩ := sym
  · cases h
  · cases h
    exact ⟨List.nodup_nil, fun m hm => nomatch hm⟩
  · cases h

/-- Changes that touch neither owners nor lists of members keep the lists right. -/
theorem Listed.modify {t : Table} (h : t.Listed) (sym : SymbolId)
    {change : Declaration → Declaration} (howner : ∀ d, (change d).owner = d.owner)
    (hmembers : ∀ d, (change d).members = d.members) : (t.modify sym change).Listed := by
  -- Every declaration has the owner and the members it had before.
  have hold : ∀ s e, (t.modify sym change).find? s = some e →
      ∃ d, t.find? s = some d ∧ e.members = d.members := by
    intro s e he
    rw [find?_modify] at he
    split at he
    · obtain ⟨d, hd, rfl⟩ := Option.map_eq_some_iff.mp he
      exact ⟨d, hd, hmembers d⟩
    · exact ⟨e, he, rfl⟩
  have hnew : ∀ s d, t.find? s = some d →
      ∃ e, (t.modify sym change).find? s = some e ∧ e.owner = d.owner := by
    intro s d hd
    rw [find?_modify, hd]
    split
    · exact ⟨change d, rfl, howner d⟩
    · exact ⟨d, rfl, rfl⟩
  intro s e he
  obtain ⟨d, hd, hlist⟩ := hold s e he
  obtain ⟨hnodup, hall⟩ := h s d hd
  rw [hlist]
  constructor
  · exact hnodup
  · intro m hm
    obtain ⟨f, hf, howned⟩ := hall m hm
    obtain ⟨g, hg, hsame⟩ := hnew m f hf
    exact ⟨g, hg, hsame.trans howned⟩

theorem ne_next_of_find? {t : Table} {m : SymbolId} {d : Declaration} (h : t.find? m = some d) :
    m ≠ t.next := by
  rintro rfl
  rw [find?_next] at h
  cases h

/-- Declaring a symbol leaves the owners of the others. -/
theorem owner_add_of_find? {t : Table} {m : SymbolId} {d : Declaration} (h : t.find? m = some d)
    (owner : SymbolId) (name : Name) (flags : Flags) :
    ∃ e, (t.add owner name flags).2.find? m = some e ∧ e.owner = d.owner := by
  simp only [add_eq, find?_modify, find?_declare, if_neg (ne_next_of_find? h), h]
  split
  · exact ⟨_, rfl, rfl⟩
  · exact ⟨d, rfl, rfl⟩

theorem owner_add_next (t : Table) (owner : SymbolId) (name : Name) (flags : Flags) :
    ∃ e, (t.add owner name flags).2.find? t.next = some e ∧ e.owner = owner := by
  simp only [add_eq, find?_modify, find?_declare, if_true]
  split
  · exact ⟨_, rfl, rfl⟩
  · exact ⟨_, rfl, rfl⟩

/-- A new declaration goes to the end of the list of its owner, which may be itself. -/
theorem Listed.add {t : Table} (h : t.Listed) (owner : SymbolId) (name : Name) (flags : Flags) :
    (t.add owner name flags).2.Listed := by
  -- Before the new symbol is listed, the lists are those of the old table.
  have hdeclared : ∀ new : Declaration, new.members = [] → ∀ s d,
      (t.declare new).find? s = some d →
        d.members.Nodup ∧ ∀ m ∈ d.members, ∃ e, t.find? m = some e ∧ e.owner = s := by
    intro new hnew s d hd
    rw [find?_declare] at hd
    split at hd
    · cases hd
      simp [hnew]
    · exact h s d hd
  intro s d hd
  rw [add_eq] at hd
  simp only [find?_modify] at hd
  split at hd
  · rename_i hs
    obtain ⟨old, hold, rfl⟩ := Option.map_eq_some_iff.mp hd
    obtain ⟨hnodup, hall⟩ := hdeclared _ rfl s old hold
    constructor
    · rw [List.nodup_append]
      refine ⟨hnodup, List.nodup_singleton _, ?_⟩
      intro m hm n hn
      obtain ⟨e, he, -⟩ := hall m hm
      rw [List.mem_singleton.mp hn]
      exact ne_next_of_find? he
    · intro m hm
      rcases List.mem_append.mp hm with hm | hm
      · obtain ⟨e, he, howned⟩ := hall m hm
        obtain ⟨f, hf, hsame⟩ := owner_add_of_find? he owner name flags
        exact ⟨f, hf, hsame.trans howned⟩
      · rw [List.mem_singleton.mp hm, hs]
        exact owner_add_next t owner name flags
  · obtain ⟨hnodup, hall⟩ := hdeclared _ rfl s d hd
    constructor
    · exact hnodup
    · intro m hm
      obtain ⟨e, he, howned⟩ := hall m hm
      obtain ⟨f, hf, hsame⟩ := owner_add_of_find? he owner name flags
      exact ⟨f, hf, hsame.trans howned⟩

/-- **A declaration is listed by its owner alone, and once.** -/
theorem Built.listed {t : Table} (h : t.Built) : t.Listed := by
  induction h with
  | initial => exact listed_initial
  | add _ owner name flags ih => exact ih.add owner name flags
  | @linkCompanions t _ a b ih =>
    have hfirst : (t.modify a fun d => { d with companion := b }).Listed :=
      ih.modify a (fun _ => rfl) fun _ => rfl
    exact hfirst.modify b (fun _ => rfl) fun _ => rfl
  | setWellKnown _ name sym ih => exact ih
  | setInfo _ sym info ih => exact ih.modify sym (fun _ => rfl) fun _ => rfl
  | setUnit _ sym unit ih => exact ih.modify sym (fun _ => rfl) fun _ => rfl
  | setFlags _ sym flags ih => exact ih.modify sym (fun _ => rfl) fun _ => rfl
  | addFlags _ sym extra ih => exact ih.modify sym (fun _ => rfl) fun _ => rfl
  | setAccessQualifier _ sym place ih => exact ih.modify sym (fun _ => rfl) fun _ => rfl
  | addParent _ sym parent ih => exact ih.modify sym (fun _ => rfl) fun _ => rfl
  | addOverride _ sym overridden ih => exact ih.modify sym (fun _ => rfl) fun _ => rfl
  | setComplete _ sym isComplete ih => exact ih.modify sym (fun _ => rfl) fun _ => rfl
  | setPackageObject _ sym object ih => exact ih.modify sym (fun _ => rfl) fun _ => rfl

/-! ### Declared members -/

/-- No member is listed twice. -/
theorem Listed.nodup_declaredMembers {t : Table} (h : t.Listed) (sym : SymbolId) :
    (t.declaredMembers sym).Nodup := by
  unfold declaredMembers
  cases hd : t.find? sym with
  | none => exact List.nodup_nil
  | some d => exact (h sym d hd).1

/-- A class owns the members it lists. -/
theorem Listed.owner_of_mem {t : Table} (h : t.Listed) {sym m : SymbolId}
    (hm : m ∈ t.declaredMembers sym) : t.owner m = sym := by
  unfold declaredMembers at hm
  cases hd : t.find? sym with
  | none =>
    rw [hd] at hm
    cases hm
  | some d =>
    rw [hd] at hm
    obtain ⟨e, he, howned⟩ := (h sym d hd).2 m hm
    simp [owner, he, howned]

end NameResolution.Table
