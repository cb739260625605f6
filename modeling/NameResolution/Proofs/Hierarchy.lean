import Mathlib.Algebra.BigOperators.Fin
import Mathlib.Logic.Relation
import NameResolution.Table.Hierarchy

/-!
# Ancestors

The walk over the parent links takes one class off its stack in every step and is cut after as many
steps as there are links. No class is lost by the cut: a class is expanded once, so what is pushed
in the course of a walk never exceeds the links that were not yet followed (`linksOutside_cons`).

* `mem_linearization`: the linearization of a class consists of the class and of its ancestors,
  whatever cycles the links form.
* `nodup_linearization`, `linearization_eq_cons`: each is listed once, the class itself first.
* `isSubclass_iff`: the test for base classes asks who is reached.
-/

namespace NameResolution.Table

variable (t : Table)

/-- A symbol is reached from a class over parent links, itself included. -/
def Inherits (sub base : SymbolId) : Prop :=
  Relation.ReflTransGen (fun c parent => parent ∈ t.parents c) sub base

/-- The parent links of the declarations that were not met so far. -/
def linksOutside (seen : List SymbolId) : Nat :=
  ∑ i ∈ Finset.range t.declarations.size,
    if (⟨i + 1⟩ : SymbolId) ∈ seen then 0 else (t.parents ⟨i + 1⟩).length

variable {t}

theorem isPresent_iff {sym : SymbolId} : sym.isPresent = true ↔ sym ≠ .absent := by
  cases sym
  simp [SymbolId.isPresent, SymbolId.absent]

theorem parents_eq_nil {sym : SymbolId} (h : t.declarations.size < sym.index) :
    t.parents sym = [] := by
  obtain ⟨_ | i⟩ := sym
  · rfl
  · have hnone : t.declarations[i]? = none := Array.getElem?_eq_none (Nat.le_of_lt_succ h)
    simp [parents, find?, hnone]

/-! ### Links that are left to follow -/

theorem linksOutside_nil : t.linksOutside [] = t.parentLinks := by
  have hparents : ∀ i : Fin t.declarations.toList.length,
      (t.parents ⟨i + 1⟩).length = (t.declarations.toList[i].parents).length := by
    intro i
    have hi : t.declarations[i.val]? = some t.declarations.toList[i] := by
      simp
    simp only [parents, find?, hi, Option.map_some, Option.getD_some]
  simp only [linksOutside, List.not_mem_nil, if_false, parentLinks, List.length_flatMap,
    ← Array.length_toList, Finset.sum_range, hparents]
  exact Fin.sum_univ_fun_getElem t.declarations.toList fun d => d.parents.length

/-- Meeting a class takes its links off those that are left. -/
theorem linksOutside_cons {c : SymbolId} {seen : List SymbolId} (hpresent : c.isPresent = true)
    (hnew : c ∉ seen) :
    t.linksOutside seen = (t.parents c).length + t.linksOutside (c :: seen) := by
  have hown : (∑ i ∈ Finset.range t.declarations.size,
      if i + 1 = c.index then (t.parents ⟨i + 1⟩).length else 0) = (t.parents c).length := by
    by_cases hdecl : t.declarations.size < c.index
    · rw [parents_eq_nil hdecl]
      apply Finset.sum_eq_zero
      intro i hi
      apply if_neg
      have := Finset.mem_range.mp hi
      omega
    · have hpos : c.index - 1 + 1 = c.index := by
        have : c.index ≠ 0 := by simpa [SymbolId.isPresent] using hpresent
        omega
      rw [Finset.sum_eq_single (c.index - 1)]
      · rw [if_pos hpos, hpos]
      · intro i _ hi
        exact if_neg (by omega)
      · intro hout
        have := Finset.mem_range.not.mp hout
        omega
  rw [← hown, linksOutside, linksOutside, ← Finset.sum_add_distrib]
  apply Finset.sum_congr rfl
  intro i _
  by_cases hi : (⟨i + 1⟩ : SymbolId) = c
  · subst hi
    simp [hnew]
  · have hindex : i + 1 ≠ c.index := fun h => hi (by cases c; simpa using h)
    simp [hi, hindex]

/-! ### The walk -/

/-- A class that is absent or was seen is passed over. -/
theorem linearizeFrom_cons_skip {steps : Nat} {c : SymbolId} {pending seen : List SymbolId}
    (h : c.isPresent = false ∨ c ∈ seen) :
    t.linearizeFrom (steps + 1) (c :: pending) seen = t.linearizeFrom steps pending seen := by
  rcases h with h | h <;> simp [linearizeFrom, h]

/-- A new class is listed, and its parents come before what is pending. -/
theorem linearizeFrom_cons_new {steps : Nat} {c : SymbolId} {pending seen : List SymbolId}
    (hpresent : c.isPresent = true) (hnew : c ∉ seen) :
    t.linearizeFrom (steps + 1) (c :: pending) seen =
      c :: t.linearizeFrom steps (t.parents c ++ pending) (c :: seen) := by
  simp [linearizeFrom, hpresent, hnew]

/-- A step either drops the next class or lists it. -/
theorem dropped_or_listed (c : SymbolId) (seen : List SymbolId) :
    (c.isPresent = false ∨ c ∈ seen) ∨ c.isPresent = true ∧ c ∉ seen := by
  cases c.isPresent <;> simp [em]

/-- Only what is present and was not met before is listed. -/
theorem new_of_mem_linearizeFrom {steps : Nat} {pending seen : List SymbolId} {a : SymbolId}
    (ha : a ∈ t.linearizeFrom steps pending seen) : a.isPresent = true ∧ a ∉ seen := by
  induction steps generalizing pending seen with
  | zero => cases ha
  | succ steps ih =>
    cases pending with
    | nil => cases ha
    | cons c pending =>
      rcases dropped_or_listed c seen with hskip | ⟨hpresent, hnew⟩
      · rw [linearizeFrom_cons_skip hskip] at ha
        exact ih ha
      · rw [linearizeFrom_cons_new hpresent hnew] at ha
        rcases List.mem_cons.mp ha with rfl | ha
        · exact ⟨hpresent, hnew⟩
        · obtain ⟨hpresent, hnew⟩ := ih ha
          exact ⟨hpresent, fun h => hnew (List.mem_cons_of_mem _ h)⟩

/-- No class is listed twice. -/
theorem nodup_linearizeFrom (steps : Nat) (pending seen : List SymbolId) :
    (t.linearizeFrom steps pending seen).Nodup := by
  induction steps generalizing pending seen with
  | zero => exact List.nodup_nil
  | succ steps ih =>
    cases pending with
    | nil => exact List.nodup_nil
    | cons c pending =>
      rcases dropped_or_listed c seen with hskip | ⟨hpresent, hnew⟩
      · rw [linearizeFrom_cons_skip hskip]
        exact ih pending seen
      · rw [linearizeFrom_cons_new hpresent hnew, List.nodup_cons]
        constructor
        · intro h
          exact (new_of_mem_linearizeFrom h).2 List.mem_cons_self
        · exact ih _ _

/-- Whatever is listed is reached from a class on the stack. -/
theorem inherits_of_mem_linearizeFrom {steps : Nat} {pending seen : List SymbolId} {a : SymbolId}
    (ha : a ∈ t.linearizeFrom steps pending seen) : ∃ c ∈ pending, t.Inherits c a := by
  induction steps generalizing pending seen with
  | zero => cases ha
  | succ steps ih =>
    cases pending with
    | nil => cases ha
    | cons c pending =>
      rcases dropped_or_listed c seen with hskip | ⟨hpresent, hnew⟩
      · rw [linearizeFrom_cons_skip hskip] at ha
        obtain ⟨d, hd, hreach⟩ := ih ha
        exact ⟨d, List.mem_cons_of_mem _ hd, hreach⟩
      · rw [linearizeFrom_cons_new hpresent hnew] at ha
        rcases List.mem_cons.mp ha with rfl | ha
        · exact ⟨a, List.mem_cons_self, .refl⟩
        · obtain ⟨d, hd, hreach⟩ := ih ha
          rcases List.mem_append.mp hd with hd | hd
          · exact ⟨c, List.mem_cons_self, hreach.head hd⟩
          · exact ⟨d, List.mem_cons_of_mem _ hd, hreach⟩

/-- What the walk lists, together with what was met before it, holds every class on the stack and
is closed under parents. The steps suffice as long as they are no fewer than the classes on the
stack and the links that are left. -/
theorem closed_linearizeFrom {steps : Nat} {pending seen : List SymbolId}
    (hsteps : pending.length + t.linksOutside seen ≤ steps) :
    (∀ c ∈ pending, c.isPresent = true → c ∈ seen ∨ c ∈ t.linearizeFrom steps pending seen) ∧
      ∀ c ∈ t.linearizeFrom steps pending seen, ∀ parent ∈ t.parents c,
        parent.isPresent = true → parent ∈ seen ∨ parent ∈ t.linearizeFrom steps pending seen := by
  induction steps generalizing pending seen with
  | zero =>
    have hnil : pending = [] := List.eq_nil_of_length_eq_zero (by omega)
    subst hnil
    simp [linearizeFrom]
  | succ steps ih =>
    cases pending with
    | nil => simp [linearizeFrom]
    | cons c pending =>
      rw [List.length_cons] at hsteps
      rcases dropped_or_listed c seen with hskip | ⟨hpresent, hnew⟩
      · have hfewer : pending.length + t.linksOutside seen ≤ steps := by omega
        obtain ⟨hstack, hclosed⟩ := ih hfewer
        rw [linearizeFrom_cons_skip hskip]
        constructor
        · intro d hd hdpresent
          rcases List.mem_cons.mp hd with rfl | hd
          · rcases hskip with habsent | hmet
            · rw [habsent] at hdpresent
              cases hdpresent
            · exact Or.inl hmet
          · exact hstack d hd hdpresent
        · exact hclosed
      · have hlinks := linksOutside_cons (t := t) hpresent hnew
        have hfewer : (t.parents c ++ pending).length + t.linksOutside (c :: seen) ≤ steps := by
          rw [List.length_append]
          omega
        obtain ⟨hstack, hclosed⟩ := ih hfewer
        rw [linearizeFrom_cons_new hpresent hnew]
        -- What counted as met while the rest was walked is met or listed now.
        have hmove : ∀ d, d ∈ c :: seen ∨
            d ∈ t.linearizeFrom steps (t.parents c ++ pending) (c :: seen) →
            d ∈ seen ∨ d ∈ c :: t.linearizeFrom steps (t.parents c ++ pending) (c :: seen) := by
          simp only [List.mem_cons]
          tauto
        constructor
        · intro d hd hdpresent
          rcases List.mem_cons.mp hd with rfl | hd
          · exact Or.inr List.mem_cons_self
          · exact hmove d (hstack d (List.mem_append_right _ hd) hdpresent)
        · intro d hd parent hparent hppresent
          rcases List.mem_cons.mp hd with rfl | hd
          · exact hmove parent (hstack parent (List.mem_append_left _ hparent) hppresent)
          · exact hmove parent (hclosed d hd parent hparent hppresent)

/-! ### The linearization -/

theorem nodup_linearization (sym : SymbolId) : (t.linearization sym).Nodup :=
  nodup_linearizeFrom _ _ _

/-- **The linearization lists the class and its ancestors.** -/
theorem mem_linearization {sym base : SymbolId} :
    base ∈ t.linearization sym ↔ base.isPresent = true ∧ t.Inherits sym base := by
  constructor
  · intro h
    obtain ⟨c, hc, hreach⟩ := inherits_of_mem_linearizeFrom h
    rw [List.mem_singleton.mp hc] at hreach
    exact ⟨(new_of_mem_linearizeFrom h).1, hreach⟩
  · rintro ⟨hpresent, hreach⟩
    have hsteps : [sym].length + t.linksOutside [] ≤ t.parentLinks + 1 := by
      rw [linksOutside_nil, List.length_singleton]
      omega
    obtain ⟨hstack, hclosed⟩ := closed_linearizeFrom hsteps
    simp only [List.not_mem_nil, false_or] at hstack hclosed
    -- Along the path every class is listed, for only what is present has parents.
    induction hreach with
    | refl => exact hstack sym List.mem_cons_self hpresent
    | @tail c base hreach hlink ih =>
      have hc : c.isPresent = true := by
        rw [isPresent_iff]
        rintro rfl
        cases hlink
      exact hclosed c (ih hc) base hlink hpresent

theorem linearization_eq_nil {sym : SymbolId} (h : sym.isPresent = false) :
    t.linearization sym = [] := by
  rw [linearization, linearizeFrom_cons_skip (Or.inl h)]
  cases t.parentLinks <;> rfl

/-- A linearization starts with the class itself. -/
theorem linearization_eq_cons {sym : SymbolId} (h : sym.isPresent = true) :
    ∃ ancestors, t.linearization sym = sym :: ancestors :=
  ⟨_, linearizeFrom_cons_new h List.not_mem_nil⟩

/-! ### Base classes -/

/-- A subclass inherits from its base. -/
theorem isSubclass_iff {sym base : SymbolId} : t.isSubclass sym base = true ↔
    sym.isPresent = true ∧ base.isPresent = true ∧ t.Inherits sym base := by
  unfold isSubclass
  rw [Bool.and_eq_true, Bool.and_eq_true, List.contains_iff_mem, mem_linearization, and_assoc]
  exact and_congr_right fun _ => ⟨fun ⟨_, h⟩ => h, fun h => ⟨h.1, h⟩⟩

theorem isSubclass_trans {sym base last : SymbolId} (h : t.isSubclass sym base = true)
    (hbase : t.isSubclass base last = true) : t.isSubclass sym last = true := by
  obtain ⟨hsym, -, hreach⟩ := isSubclass_iff.mp h
  obtain ⟨-, hlast, hreach'⟩ := isSubclass_iff.mp hbase
  exact isSubclass_iff.mpr ⟨hsym, hlast, hreach.trans hreach'⟩

end NameResolution.Table
