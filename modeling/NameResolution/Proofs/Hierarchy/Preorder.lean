import Mathlib.Algebra.Order.BigOperators.Group.Finset
import NameResolution.Proofs.Hierarchy

/-!
# Ancestors in order

The walk up the ancestors keeps one stack for the whole hierarchy and asks of a class whether it was
met only when the class comes off the stack. What it lists is the depth-first preorder all the same:
each class, then all that is new above its first parent, then all that is new above its second.

* `Unwinds`: the walk without a bound on its steps, and `unwinds_iff`: it ends, whatever cycles the
  links form, with the linearization.
* `Preorder`: depth-first preorder, one class and what is above it at a time.
* `Preorder.unwinds`: the stack unwinds in preorder.
* `subclass_reachability`: linearizations and the test for base classes in terms of reachability.
-/

namespace NameResolution.Table

variable (t : Table)

/-- The walk from a stack of pending classes and those met before, and what it lists. It drops a
class that is absent or was met, and lists any other and puts its parents on the stack. -/
inductive Unwinds : List SymbolId → List SymbolId → List SymbolId → Prop where
  | done {met : List SymbolId} : Unwinds [] met []
  | drop {c : SymbolId} {pending met listed : List SymbolId}
      (hskip : c.isPresent = false ∨ c ∈ met) (h : Unwinds pending met listed) :
      Unwinds (c :: pending) met listed
  | list {c : SymbolId} {pending met listed : List SymbolId} (hpresent : c.isPresent = true)
      (hnew : c ∉ met) (h : Unwinds (t.parents c ++ pending) (c :: met) listed) :
      Unwinds (c :: pending) met (c :: listed)

/-- The depth-first preorder above a sequence of classes, those left out that were met before: a
class, all above it in preorder over its parents, then the rest of the sequence. -/
inductive Preorder : List SymbolId → List SymbolId → List SymbolId → Prop where
  | nil {met : List SymbolId} : Preorder met [] []
  | skip {c : SymbolId} {met rest listed : List SymbolId} (hskip : c.isPresent = false ∨ c ∈ met)
      (h : Preorder met rest listed) : Preorder met (c :: rest) listed
  | visit {c : SymbolId} {met rest above after : List SymbolId} (hpresent : c.isPresent = true)
      (hnew : c ∉ met) (habove : Preorder (met ++ [c]) (t.parents c) above)
      (hafter : Preorder (met ++ c :: above) rest after) :
      Preorder met (c :: rest) (c :: above ++ after)

/-- What a list has to be to linearize a class. -/
structure Linearizes (sym : SymbolId) (listed : List SymbolId) : Prop where
  /-- The walk from the class ends with this list and no other. -/
  ends : ∀ found, t.Unwinds [sym] [] found ↔ found = listed
  /-- A class that is present comes first. -/
  first : sym.isPresent = true → listed.head? = some sym
  /-- Nothing is listed twice. -/
  distinct : listed.Nodup
  /-- The list holds the class, if it is present, and whoever is present among its ancestors. -/
  reached : ∀ base, base ∈ listed ↔ base.isPresent = true ∧ t.Inherits sym base
  /-- The list is in depth-first preorder, parents in order of declaration. -/
  ordered : ∀ found, t.Preorder [] [sym] found ↔ found = listed

variable {t} {sym : SymbolId} {met pending rest listed other : List SymbolId}

/-! ### The walk without a bound -/

theorem Unwinds.unique (h : t.Unwinds pending met listed) (h' : t.Unwinds pending met other) :
    listed = other := by
  induction h generalizing other with
  | done =>
    cases h'
    rfl
  | drop hskip _ ih =>
    cases h' with
    | drop _ h' => exact ih h'
    | list hpresent hnew _ => simp [hpresent, hnew] at hskip
  | list hpresent hnew _ ih =>
    cases h' with
    | drop hskip _ => simp [hpresent, hnew] at hskip
    | list _ _ h' => rw [ih h']

/-- The walk ends within as many steps as there are classes on the stack and links left. -/
theorem unwinds_linearizeFrom {steps : Nat}
    (hsteps : pending.length + t.linksOutside met ≤ steps) :
    t.Unwinds pending met (t.linearizeFrom steps pending met) := by
  induction steps generalizing pending met with
  | zero =>
    have hnil : pending = [] := List.eq_nil_of_length_eq_zero (by omega)
    subst hnil
    exact .done
  | succ steps ih =>
    cases pending with
    | nil => exact .done
    | cons c pending =>
      rw [List.length_cons] at hsteps
      rcases dropped_or_listed c met with hskip | ⟨hpresent, hnew⟩
      · rw [linearizeFrom_cons_skip hskip]
        exact .drop hskip (ih (by omega))
      · have hlinks := linksOutside_cons (t := t) hpresent hnew
        rw [linearizeFrom_cons_new hpresent hnew]
        refine .list hpresent hnew (ih ?_)
        rw [List.length_append]
        omega

/-- **The walk ends with the linearization.** -/
theorem unwinds_iff : t.Unwinds [sym] [] listed ↔ listed = t.linearization sym := by
  have hends : t.Unwinds [sym] [] (t.linearization sym) :=
    unwinds_linearizeFrom (by rw [linksOutside_nil, List.length_singleton, Nat.add_comm])
  constructor
  · exact fun h => h.unique hends
  · rintro rfl
    exact hends

/-! ### Preorder -/

/-- **A stack unwinds in preorder:** first what is above the classes on top, then the rest. -/
theorem Preorder.unwinds {found stack tail : List SymbolId} (h : t.Preorder met rest listed)
    (hmet : ∀ a, a ∈ found ↔ a ∈ met) (htail : t.Unwinds stack (listed.reverse ++ found) tail) :
    t.Unwinds (rest ++ stack) found (listed ++ tail) := by
  induction h generalizing found stack tail with
  | nil => exact htail
  | @skip c met rest listed hskip _ ih =>
    rw [← hmet] at hskip
    exact .drop hskip (ih hmet htail)
  | @visit c met rest above after hpresent hnew _ _ ihabove ihafter =>
    have hmet' : ∀ a, a ∈ c :: found ↔ a ∈ met ++ [c] := by
      simp [hmet, or_comm]
    have hmet'' : ∀ a, a ∈ above.reverse ++ c :: found ↔ a ∈ met ++ c :: above := by
      intro a
      simp only [List.mem_append, List.mem_reverse, List.mem_cons, hmet]
      tauto
    have hrest : t.Unwinds (rest ++ stack) (above.reverse ++ c :: found) (after ++ tail) := by
      apply ihafter hmet''
      simpa using htail
    have hunwound := ihabove hmet' hrest
    rw [← hmet] at hnew
    simpa using Unwinds.list hpresent hnew hunwound

theorem linksOutside_le (h : ∀ a ∈ met, a ∈ other) : t.linksOutside other ≤ t.linksOutside met := by
  apply Finset.sum_le_sum
  intro i _
  by_cases hi : (⟨i + 1⟩ : SymbolId) ∈ met
  · rw [if_pos hi, if_pos (h _ hi)]
  · rw [if_neg hi]
    split
    · exact Nat.zero_le _
    · exact Nat.le_refl _

/-- Every sequence of classes has a preorder: with every class met there are fewer links left. -/
theorem exists_preorder (met rest : List SymbolId) : ∃ listed, t.Preorder met rest listed := by
  induction hleft : rest.length + t.linksOutside met using Nat.strong_induction_on
    generalizing met rest with
  | _ left ih =>
    cases rest with
    | nil => exact ⟨[], .nil⟩
    | cons c rest =>
      rw [List.length_cons] at hleft
      rcases dropped_or_listed c met with hskip | ⟨hpresent, hnew⟩
      · obtain ⟨listed, h⟩ := ih _ (by omega) met rest rfl
        exact ⟨listed, .skip hskip h⟩
      · have hlinks := linksOutside_cons (t := t) hpresent hnew
        have hfewer : t.linksOutside (met ++ [c]) ≤ t.linksOutside (c :: met) :=
          linksOutside_le fun a ha => by simpa [or_comm] using ha
        obtain ⟨above, habove⟩ := ih _ (by omega) (met ++ [c]) (t.parents c) rfl
        have hmore : t.linksOutside (met ++ c :: above) ≤ t.linksOutside met :=
          linksOutside_le fun a ha => List.mem_append_left _ ha
        obtain ⟨after, hafter⟩ := ih _ (by omega) (met ++ c :: above) rest rfl
        exact ⟨c :: above ++ after, .visit hpresent hnew habove hafter⟩

/-- **The linearization is the depth-first preorder.** -/
theorem preorder_iff : t.Preorder [] [sym] listed ↔ listed = t.linearization sym := by
  have hlists : ∀ found, t.Preorder [] [sym] found → found = t.linearization sym := by
    intro found h
    have hdone : t.Unwinds [] (found.reverse ++ []) [] := .done
    have hunwound := h.unwinds (fun _ => Iff.rfl) hdone
    simpa [unwinds_iff] using hunwound
  constructor
  · exact hlists listed
  · rintro rfl
    obtain ⟨found, h⟩ := exists_preorder (t := t) [] [sym]
    rw [← hlists found h]
    exact h

/-! ### Subclassing -/

theorem linearizes (t : Table) (sym : SymbolId) : t.Linearizes sym (t.linearization sym) where
  ends _ := unwinds_iff
  first hpresent := by
    obtain ⟨ancestors, hcons⟩ := linearization_eq_cons (t := t) hpresent
    rw [hcons, List.head?_cons]
  distinct := nodup_linearization sym
  reached _ := mem_linearization
  ordered _ := preorder_iff

/-- **Subclassing is reachability.** The walk up the ancestors ends for every class and every table,
and lists the class and its ancestors, once each, in depth-first preorder. So a class derives from
another exactly if it reaches it, which every class that is present does itself, and whoever derives
from a class derives from all that it derives from. -/
theorem subclass_reachability (t : Table) :
    (∀ sym, t.Linearizes sym (t.linearization sym)) ∧
      (∀ sub base, t.isSubclass sub base = true ↔
        sub.isPresent = true ∧ base.isPresent = true ∧ t.Inherits sub base) ∧
      (∀ sym, sym.isPresent = true → t.isSubclass sym sym = true) ∧
      ∀ sub base last, t.isSubclass sub base = true → t.isSubclass base last = true →
        t.isSubclass sub last = true := by
  refine ⟨t.linearizes, fun _ _ => isSubclass_iff, ?_, fun _ _ _ => isSubclass_trans⟩
  intro sym hpresent
  exact isSubclass_iff.mpr ⟨hpresent, hpresent, .refl⟩

/-- Classes 2 to 4. The first derives from the second twice, from no class, from one that is not
declared and from the third; the second from the third, and the third from the first. -/
def tangledTable : Table :=
  let t := (initial.addClass .root (.ofWord 9)).2
  let t := (t.addClass .root (.ofWord 10)).2
  let t := (t.addClass .root (.ofWord 11)).2
  let links : List (Nat × Nat) := [(2, 3), (2, 0), (2, 9), (2, 3), (2, 4), (3, 4), (4, 2)]
  links.foldl (fun t link => t.addParent ⟨link.1⟩ ⟨link.2⟩) t

theorem subclass_reachability_tangled :
    let t := tangledTable
    t.Linearizes ⟨2⟩ [⟨2⟩, ⟨3⟩, ⟨4⟩, ⟨9⟩] ∧ t.isSubclass ⟨3⟩ ⟨3⟩ = true ∧
      t.isSubclass ⟨3⟩ ⟨2⟩ = true ∧ t.isSubclass ⟨2⟩ ⟨9⟩ = true ∧ t.isSubclass ⟨3⟩ ⟨9⟩ = true := by
  intro t
  obtain ⟨hlinearizes, -, hself, htrans⟩ := subclass_reachability t
  have hlisted : t.linearization ⟨2⟩ = [⟨2⟩, ⟨3⟩, ⟨4⟩, ⟨9⟩] := by decide +kernel
  have hback : t.isSubclass ⟨3⟩ ⟨2⟩ = true := by decide +kernel
  have hbeyond : t.isSubclass ⟨2⟩ ⟨9⟩ = true := by decide +kernel
  refine ⟨hlisted ▸ hlinearizes ⟨2⟩, hself ⟨3⟩ rfl, hback, hbeyond, ?_⟩
  exact htrans ⟨3⟩ ⟨2⟩ ⟨9⟩ hback hbeyond

end NameResolution.Table
