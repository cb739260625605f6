import Mathlib.Data.Fintype.Pigeonhole
import Mathlib.Order.Interval.Finset.Nat
import NameResolution.Proofs.Access.Encapsulation

/-!
# Ownership

Whether a symbol is owned by another, whether a context lies within a boundary and what the path of
a symbol is are found by going outward from owner to owner, as long as there is a symbol and it does
not settle the question. `Universe.Walk` is that search without a bound. Nothing in a table keeps
owners from forming a circle, for a declaration may go into an owner that is not declared yet.

* `Walk.length_le`, `Walk.owners_eq`: the owners the library lists are all that a search which ends
  can pass, whatever circles there are elsewhere.
* `Walk.isOwnedBy_eq`, `Walk.isWithin_eq`, `Walk.pathSymbols_eq`: so the library answers as the
  search does.
* `exists_iterate_owner_iff`: the way outward ends unless it runs in a circle.
* `exists_closesCircle`: the declaration of a circle that was made last closed it.
* `OwnersFirst.not_circular`: there is no circle where owners are declared before what they own.
* `settles_iff`: exactly when the searches end, for one symbol and for a whole table.
* `settles_circle`: two packages that own each other.
-/

namespace NameResolution

namespace Universe

variable (u : Universe)

/-- A search outward from a symbol ends at `last`, where there is no symbol or where it `stops`. It
has passed the symbols before that, innermost first. -/
inductive Walk (stops : SymbolId → Bool) : SymbolId → List SymbolId → SymbolId → Prop where
  | absent {sym : SymbolId} (hpresent : sym.isPresent = false) : Walk stops sym [] sym
  | stop {sym : SymbolId} (hpresent : sym.isPresent = true) (hstops : stops sym = true) :
      Walk stops sym [] sym
  | outward {sym last : SymbolId} {passed : List SymbolId} (hpresent : sym.isPresent = true)
      (hstops : stops sym = false) (rest : Walk stops (u.owner sym) passed last) :
      Walk stops sym (sym :: passed) last

/-- On the way outward from a symbol there is one that lies in its own owner. -/
def Circular (sym : SymbolId) : Prop :=
  ∃ s, u.LiesIn sym s ∧ s.isPresent = true ∧ u.LiesIn (u.owner s) s

/-- Where the search for a boundary stops: at the boundary, and for a symbol of the other language
at a package. -/
def stopsWithin (sym boundary s : SymbolId) : Bool :=
  s == boundary || ((u.flags sym).contains .interop && (u.flags s).isPackage)

variable {u} {stops : SymbolId → Bool} {sym last s : SymbolId} {passed : List SymbolId}

/-! ### One search -/

theorem Walk.stops_last (h : u.Walk stops sym passed last) (hpresent : last.isPresent = true) :
    stops last = true := by
  induction h with
  | absent habsent =>
    rw [habsent] at hpresent
    cases hpresent
  | stop _ hstops => exact hstops
  | outward _ _ _ ih => exact ih hpresent

theorem Walk.stops_passed (h : u.Walk stops sym passed last) (hs : s ∈ passed) :
    s.isPresent = true ∧ stops s = false := by
  induction h with
  | absent => cases hs
  | stop => cases hs
  | outward hpresent hstops _ ih =>
    rcases List.mem_cons.mp hs with rfl | hs
    · exact ⟨hpresent, hstops⟩
    · exact ih hs

/-- A search takes one course. -/
theorem Walk.passed_unique {other : SymbolId} {passed' : List SymbolId}
    (h : u.Walk stops sym passed last) (h' : u.Walk stops sym passed' other) :
    passed = passed' := by
  induction h generalizing passed' with
  | absent habsent =>
    cases h' with
    | absent | stop => rfl
    | outward hpresent => simp [habsent] at hpresent
  | stop _ hstops =>
    cases h' with
    | absent | stop => rfl
    | outward _ hgoes => simp [hstops] at hgoes
  | outward hpresent hgoes _ ih =>
    cases h' with
    | absent habsent => simp [hpresent] at habsent
    | stop _ hstops => simp [hgoes] at hstops
    | outward _ _ rest => rw [ih rest]

/-- From each symbol it passes the search goes on as if begun there. -/
theorem Walk.of_mem (h : u.Walk stops sym passed last) (hs : s ∈ passed) :
    ∃ rest, u.Walk stops (u.owner s) rest last ∧ rest.length < passed.length := by
  induction h with
  | absent => cases hs
  | stop => cases hs
  | outward _ _ rest ih =>
    rcases List.mem_cons.mp hs with rfl | hs
    · exact ⟨_, rest, Nat.lt_succ_self _⟩
    · obtain ⟨shorter, hwalk, hlength⟩ := ih hs
      exact ⟨shorter, hwalk, Nat.lt_succ_of_lt hlength⟩

/-- A search that comes back to a symbol never ends. -/
theorem Walk.nodup (h : u.Walk stops sym passed last) : passed.Nodup := by
  induction h with
  | absent => exact List.nodup_nil
  | stop => exact List.nodup_nil
  | outward _ _ rest ih =>
    rw [List.nodup_cons]
    constructor
    · intro hback
      obtain ⟨shorter, hwalk, hlength⟩ := rest.of_mem hback
      rw [rest.passed_unique hwalk] at hlength
      exact Nat.lt_irrefl _ hlength
    · exact ih

/-- A search ends if and only if the way outward comes to a symbol where it does. -/
theorem exists_walk_iff : (∃ passed last, u.Walk stops sym passed last) ↔
    ∃ n, (u.owner^[n] sym).isPresent = false ∨ stops (u.owner^[n] sym) = true := by
  constructor
  · rintro ⟨passed, last, h⟩
    induction h with
    | absent hpresent => exact ⟨0, Or.inl hpresent⟩
    | stop _ hstops => exact ⟨0, Or.inr hstops⟩
    | outward _ _ _ ih =>
      obtain ⟨n, hn⟩ := ih
      exact ⟨n + 1, hn⟩
  · rintro ⟨n, hn⟩
    induction n generalizing sym with
    | zero =>
      cases hpresent : sym.isPresent with
      | false => exact ⟨[], sym, .absent hpresent⟩
      | true => exact ⟨[], sym, .stop hpresent (hn.resolve_left (by simp [hpresent]))⟩
    | succ n ih =>
      cases hpresent : sym.isPresent with
      | false => exact ⟨[], sym, .absent hpresent⟩
      | true =>
        cases hstops : stops sym with
        | true => exact ⟨[], sym, .stop hpresent hstops⟩
        | false =>
          obtain ⟨passed, last, rest⟩ := ih hn
          exact ⟨sym :: passed, last, .outward hpresent hstops rest⟩

/-- The owners that are listed begin with what the search passes, if the limit allows. -/
theorem Walk.ownersWithin_eq (h : u.Walk stops sym passed last) {limit : Nat}
    (hlimit : passed.length ≤ limit) :
    u.ownersWithin limit sym = passed ++ u.ownersWithin (limit - passed.length) last := by
  induction h generalizing limit with
  | absent | stop => simp
  | outward hpresent _ _ ih =>
    obtain _ | limit := limit
    · simp at hlimit
    · rw [List.length_cons, Nat.add_le_add_iff_right] at hlimit
      simp [ownersWithin, hpresent, ih hlimit]

/-! ### Circles -/

theorem liesIn_congr {v : Universe} (h : ∀ s, u.owner s = v.owner s) : u.LiesIn = v.LiesIn := by
  unfold LiesIn
  rw [funext h]

theorem eq_absent_of_liesIn (h : u.LiesIn .absent s) : s = .absent := by
  obtain heq | ⟨_, ⟨hpresent, -⟩, -⟩ := h.cases_head
  · exact heq.symm
  · cases hpresent

theorem liesIn_iterate {n : Nat} (h : ∀ k < n, (u.owner^[k] sym).isPresent = true) :
    u.LiesIn sym (u.owner^[n] sym) := by
  induction n with
  | zero => exact .refl
  | succ n ih =>
    have hbefore : u.LiesIn sym (u.owner^[n] sym) := ih fun k hk => h k (Nat.lt_succ_of_lt hk)
    rw [Function.iterate_succ_apply']
    exact hbefore.tail ⟨h n (Nat.lt_succ_self n), rfl⟩

/-- A way outward that comes to a symbol twice runs in a circle. -/
theorem circular_of_iterate_eq (hpresent : ∀ n, (u.owner^[n] sym).isPresent = true) {i j : Nat}
    (hij : i < j) (hsame : u.owner^[i] sym = u.owner^[j] sym) : u.Circular sym := by
  have hshift : ∀ k, u.owner^[k] (u.owner (u.owner^[i] sym)) = u.owner^[k + (i + 1)] sym := by
    intro k
    rw [Function.iterate_add_apply, Function.iterate_succ_apply']
  have hback : u.owner^[j - (i + 1)] (u.owner (u.owner^[i] sym)) = u.owner^[i] sym := by
    rw [hshift, Nat.sub_add_cancel hij, hsame]
  refine ⟨u.owner^[i] sym, liesIn_iterate fun k _ => hpresent k, hpresent i, ?_⟩
  have hcircle : u.LiesIn (u.owner (u.owner^[i] sym))
      (u.owner^[j - (i + 1)] (u.owner (u.owner^[i] sym))) := by
    refine liesIn_iterate fun k _ => ?_
    rw [hshift]
    exact hpresent _
  rwa [hback] at hcircle

/-- The way outward passes all that a symbol lies in. -/
theorem Walk.mem_of_liesIn (h : u.Walk (fun _ => false) sym passed last) (hs : u.LiesIn sym s)
    (hpresent : s.isPresent = true) : s ∈ passed := by
  induction hs using Relation.ReflTransGen.head_induction_on generalizing passed with
  | refl =>
    cases h with
    | absent habsent => simp [habsent] at hpresent
    | stop _ hstops => cases hstops
    | outward => exact List.mem_cons_self
  | head hstep _ ih =>
    obtain ⟨hthere, rfl⟩ := hstep
    cases h with
    | absent habsent => simp [habsent] at hthere
    | stop _ hstops => cases hstops
    | outward _ _ rest => exact List.mem_cons_of_mem _ (ih rest)

theorem Walk.not_circular (h : u.Walk (fun _ => false) sym passed last) : ¬ u.Circular sym := by
  rintro ⟨s, hs, hpresent, hback⟩
  obtain ⟨rest, hwalk, -⟩ := h.of_mem (h.mem_of_liesIn hs hpresent)
  have hwhole : u.Walk (fun _ => false) s (s :: rest) last := .outward hpresent rfl hwalk
  exact (List.nodup_cons.mp hwhole.nodup).1 (hwalk.mem_of_liesIn hback hpresent)

/-- Unless it ends where there is no symbol, a search passes only what has an owner; and all but the
last it passes has one in any case. -/
theorem Walk.owner_isPresent (h : u.Walk stops sym passed last) :
    (last.isPresent = true → ∀ s ∈ passed, (u.owner s).isPresent = true) ∧
      ∀ s ∈ passed.dropLast, (u.owner s).isPresent = true := by
  induction h with
  | absent => simp
  | stop => simp
  | outward hpresent _ rest ih =>
    obtain ⟨hall, hinit⟩ := ih
    cases rest with
    | absent habsent => simp [habsent]
    | stop hthere => simp [hthere]
    | outward hthere =>
      rw [List.dropLast_cons_of_ne_nil (List.cons_ne_nil _ _)]
      simp only [List.mem_cons, forall_eq_or_imp] at hall ⊢
      exact ⟨fun hlast => ⟨hthere, hall hlast⟩, hthere, hinit⟩

/-! ### Searches in a table -/

variable {t : Table}

/-- Only what is declared has an owner. -/
theorem isDeclared_of_owner (h : (t.owner s).isPresent = true) :
    s.isPresent = true ∧ s.index ≤ t.declarations.size := by
  obtain ⟨_ | i⟩ := s
  · cases h
  · constructor
    · simp [SymbolId.isPresent]
    · by_contra hbeyond
      have hnone : t.declarations[i]? = none :=
        Array.getElem?_eq_none (Nat.le_of_lt_succ (Nat.lt_of_not_le hbeyond))
      simp [Table.owner, Table.find?, hnone, SymbolId.isPresent, SymbolId.absent] at h

theorem length_le_of_declared {syms : List SymbolId} (hnodup : syms.Nodup)
    (h : ∀ s ∈ syms, (t.owner s).isPresent = true) : syms.length ≤ t.declarations.size := by
  have hindices : (syms.map (·.index)).Nodup :=
    hnodup.map fun a b hab => congrArg SymbolId.mk hab
  have hsub : (syms.map (·.index)).toFinset ⊆ Finset.Icc 1 t.declarations.size := by
    intro i hi
    obtain ⟨s, hs, rfl⟩ := List.mem_map.mp (List.mem_toFinset.mp hi)
    obtain ⟨hpresent, hle⟩ := isDeclared_of_owner (h s hs)
    have hne : s.index ≠ 0 := by simpa [SymbolId.isPresent] using hpresent
    exact Finset.mem_Icc.mpr ⟨by omega, hle⟩
  calc syms.length = (syms.map (·.index)).toFinset.card := by
        rw [List.toFinset_card_of_nodup hindices, List.length_map]
    _ ≤ t.declarations.size := by simpa using Finset.card_le_card hsub

/-- A search that ends passes what is declared, each once, and perhaps one symbol that is not. -/
theorem Walk.length_le (h : t.toUniverse.Walk stops sym passed last) :
    passed.length ≤ t.declarations.size + 1 ∧
      (last.isPresent = true → passed.length ≤ t.declarations.size) := by
  obtain ⟨hall, hinit⟩ := h.owner_isPresent
  constructor
  · have hlength := length_le_of_declared (h.nodup.sublist (List.dropLast_sublist _)) hinit
    rw [List.length_dropLast] at hlength
    omega
  · exact fun hlast => length_le_of_declared h.nodup (hall hlast)

/-- **The owners that are listed are all a search can pass**, and where it stopped comes next. -/
theorem Walk.owners_eq (h : t.toUniverse.Walk stops sym passed last) :
    t.toUniverse.owners sym = passed ∧ last.isPresent = false ∨
      ∃ after, t.toUniverse.owners sym = passed ++ last :: after ∧ last.isPresent = true := by
  obtain ⟨hlength, hdeclared⟩ := h.length_le
  have howners : t.toUniverse.owners sym = passed ++
      t.toUniverse.ownersWithin (t.declarations.size + 1 - passed.length) last :=
    h.ownersWithin_eq hlength
  cases hpresent : last.isPresent with
  | false =>
    have hnone : ∀ limit, t.toUniverse.ownersWithin limit last = [] := by
      intro limit
      cases limit <;> simp [ownersWithin, hpresent]
    rw [hnone, List.append_nil] at howners
    exact Or.inl ⟨howners, rfl⟩
  | true =>
    have hmore : t.declarations.size + 1 - passed.length =
        t.declarations.size - passed.length + 1 := by
      have := hdeclared hpresent
      omega
    rw [hmore, ownersWithin, if_pos hpresent] at howners
    exact Or.inr ⟨_, howners, rfl⟩

/-- **Whether a symbol is owned by another is answered as the search does.** -/
theorem Walk.isOwnedBy_eq {ancestor : SymbolId}
    (h : t.toUniverse.Walk (· == ancestor) sym passed last) :
    t.toUniverse.isOwnedBy sym ancestor = last.isPresent := by
  have hpassed : ancestor ∉ passed := by
    intro hmem
    simpa using (h.stops_passed hmem).2
  unfold isOwnedBy
  rcases h.owners_eq with ⟨howners, hpresent⟩ | ⟨after, howners, hpresent⟩
  · simp [howners, hpassed, hpresent]
  · obtain rfl : last = ancestor := eq_of_beq (h.stops_last hpresent)
    simp [howners, hpresent]

/-- **Whether a context lies within a boundary is answered as the search does.** -/
theorem Walk.isWithin_eq {v : View} (hv : v.program = t.toUniverse) {cx : Context}
    {boundary : SymbolId}
    (h : t.toUniverse.Walk (t.toUniverse.stopsWithin sym boundary) cx.owner passed last) :
    v.isWithin cx sym boundary = (last.isPresent && last == boundary) := by
  have hpassed : ∀ s ∈ passed, s ≠ boundary ∧
      ((t.toUniverse.flags sym).contains .interop = true →
        (t.toUniverse.flags s).isPackage = false) := by
    intro s hs
    simpa [stopsWithin] using (h.stops_passed hs).2
  have hnot : boundary ∉ passed := fun hmem => (hpassed boundary hmem).1 rfl
  unfold View.isWithin
  dsimp only
  rw [hv]
  cases hinterop : (t.toUniverse.flags sym).contains .interop with
  | false =>
    rcases h.owners_eq with ⟨howners, hpresent⟩ | ⟨after, howners, hpresent⟩
    · simp [howners, hnot, hpresent]
    · obtain rfl : last = boundary := by
        simpa [stopsWithin, hinterop] using h.stops_last hpresent
      simp [howners, hpresent]
  | true =>
    have hopen : ∀ s ∈ passed, (!(t.toUniverse.flags s).isPackage) = true := by
      intro s hs
      simp [(hpassed s hs).2 hinterop]
    have hnone : passed.find? (fun s => (t.toUniverse.flags s).isPackage) = none := by
      simpa using hopen
    rcases h.owners_eq with ⟨howners, hpresent⟩ | ⟨after, howners, hpresent⟩
    · have hbefore : passed.takeWhile (fun s => !(t.toUniverse.flags s).isPackage) = passed :=
        List.takeWhile_eq_self_iff.mpr hopen
      simp [howners, hbefore, hnone, hnot, hpresent]
    · rw [howners, List.takeWhile_append_of_pos hopen, List.find?_append, hnone]
      cases hpackage : (t.toUniverse.flags last).isPackage with
      | true => simp [hnot, hpackage, hpresent]
      | false =>
        obtain rfl : last = boundary := by
          simpa [stopsWithin, hpackage] using h.stops_last hpresent
        simp [hpackage, hpresent]

/-- **The path of a symbol consists of what the search passes.** -/
theorem Walk.pathSymbols_eq (h : t.toUniverse.Walk (· == .root) sym passed last) :
    t.toUniverse.pathSymbols sym = passed := by
  have hpassed : ∀ s ∈ passed, (s != .root) = true := by
    intro s hs
    simpa using (h.stops_passed hs).2
  unfold pathSymbols
  rcases h.owners_eq with ⟨howners, -⟩ | ⟨after, howners, hpresent⟩
  · rw [howners]
    exact List.takeWhile_eq_self_iff.mpr hpassed
  · have hroot : last = .root := eq_of_beq (h.stops_last hpresent)
    rw [howners, List.takeWhile_append_of_pos hpassed]
    simp [hroot]

/-! ### Circles in a table -/

/-- **The way outward ends unless it runs in a circle.** -/
theorem exists_iterate_owner_iff :
    (∃ n, t.toUniverse.owner^[n] sym = .absent) ↔ ¬ t.toUniverse.Circular sym := by
  constructor
  · rintro ⟨n, hn⟩
    have hends : ∃ passed last, t.toUniverse.Walk (fun _ => false) sym passed last :=
      exists_walk_iff.mpr ⟨n, Or.inl (congrArg SymbolId.isPresent hn)⟩
    obtain ⟨passed, last, h⟩ := hends
    exact h.not_circular
  · intro hopen
    by_contra hnever
    have hpresent : ∀ n, (t.toUniverse.owner^[n] sym).isPresent = true :=
      fun n => Table.isPresent_iff.mpr fun hn => hnever ⟨n, hn⟩
    -- All symbols on the way are declared, so two of them are the same.
    have hindex : ∀ n, (t.toUniverse.owner^[n] sym).index < t.declarations.size + 1 := by
      intro n
      have howner : (t.owner (t.toUniverse.owner^[n] sym)).isPresent = true :=
        Function.iterate_succ_apply' t.owner n sym ▸ hpresent (n + 1)
      exact Nat.lt_succ_of_le (isDeclared_of_owner howner).2
    obtain ⟨i, j, hne, hsame⟩ := Finite.exists_ne_map_eq_of_infinite
      fun n => (⟨_, hindex n⟩ : Fin (t.declarations.size + 1))
    have heq : t.toUniverse.owner^[i] sym = t.toUniverse.owner^[j] sym :=
      congrArg SymbolId.mk (Fin.mk.inj hsame)
    rcases Nat.lt_or_gt_of_ne hne with hij | hji
    · exact hopen (circular_of_iterate_eq hpresent hij heq)
    · exact hopen (circular_of_iterate_eq hpresent hji heq.symm)

end Universe

namespace Table

/-! ### What closes a circle -/

/-- The table as it was when `sym` was declared, as far as owners go. -/
def before (t : Table) (sym : SymbolId) : Table :=
  { t with declarations := t.declarations.take (sym.index - 1) }

/-- When `sym` was declared, the way outward from its owner led to `sym`: the owner was `sym`
itself, or declared before in what became `sym`. -/
def ClosesCircle (t : Table) (sym : SymbolId) : Prop :=
  sym.isPresent = true ∧ (t.before sym).toUniverse.LiesIn (t.owner sym) sym

/-- Every search outward from a symbol ends, and with the answer of the library. -/
structure Settles (t : Table) (sym : SymbolId) : Prop where
  outward : ∃ n, t.owner^[n] sym = .absent
  ownedBy : ∀ ancestor, ∃ passed last, t.toUniverse.Walk (· == ancestor) sym passed last ∧
    t.toUniverse.isOwnedBy sym ancestor = last.isPresent
  within : ∀ (v : View) (cx : Context), v.program = t.toUniverse → cx.owner = sym →
    ∀ member boundary, ∃ passed last,
      t.toUniverse.Walk (t.toUniverse.stopsWithin member boundary) sym passed last ∧
        v.isWithin cx member boundary = (last.isPresent && last == boundary)
  path : ∃ last, t.toUniverse.Walk (· == .root) sym (t.toUniverse.pathSymbols sym) last

variable {t : Table} {sym s : SymbolId}

theorem owner_before (t : Table) (sym s : SymbolId) :
    (t.before sym).owner s = if s.index < sym.index then t.owner s else .absent := by
  obtain ⟨_ | i⟩ := s
  · split <;> rfl
  · simp only [owner, before, find?, Array.take_eq_extract, Array.getElem?_extract]
    by_cases hi : i < t.declarations.size
    · have hiff : i < min (sym.index - 1) t.declarations.size ↔ i + 1 < sym.index := by omega
      by_cases h : i + 1 < sym.index <;> simp [hiff, h]
    · simp [hi]

/-- What lies in a symbol already then does so still. -/
theorem liesIn_of_before {a b : SymbolId} (h : (t.before sym).toUniverse.LiesIn a b)
    (hpresent : b.isPresent = true) : t.toUniverse.LiesIn a b := by
  induction h using Relation.ReflTransGen.head_induction_on with
  | refl => exact .refl
  | @head s _ hstep hrest ih =>
    obtain ⟨hthere, rfl⟩ := hstep
    have howner := owner_before t sym s
    split at howner
    · exact .head ⟨hthere, howner.symm⟩ ih
    · have hlies : (t.before sym).toUniverse.LiesIn ((t.before sym).owner s) b := hrest
      rw [howner] at hlies
      exact absurd (Universe.eq_absent_of_liesIn hlies) (isPresent_iff.mp hpresent)

theorem ClosesCircle.circular (h : t.ClosesCircle sym) : t.toUniverse.Circular sym :=
  ⟨sym, .refl, h.1, liesIn_of_before h.2 h.1⟩

/-- A symbol that lies in its own owner closed the circle, or one on the circle was declared
later. -/
theorem closesCircle_or_later (hpresent : s.isPresent = true)
    (hback : t.toUniverse.LiesIn (t.owner s) s) :
    t.ClosesCircle s ∨ ∃ a, s.index < a.index ∧ a.isPresent = true ∧
      t.toUniverse.LiesIn (t.owner a) a := by
  by_cases hlater : ∃ a, s.index < a.index ∧ a.isPresent = true ∧
      t.toUniverse.LiesIn (t.owner a) a
  · exact Or.inr hlater
  · refine Or.inl ⟨hpresent, ?_⟩
    have hround : ∀ a, t.toUniverse.LiesIn a s → t.toUniverse.LiesIn s a →
        (t.before s).toUniverse.LiesIn a s := by
      intro a ha hsa
      induction ha using Relation.ReflTransGen.head_induction_on with
      | refl => exact .refl
      | @head a next hstep hrest ih =>
        by_cases hsame : a = s
        · rw [hsame]
          exact .refl
        · have hcircle : t.toUniverse.LiesIn (t.owner a) a := by
            rw [show t.owner a = next from hstep.2]
            exact hrest.trans hsa
          have hindex : a.index < s.index := by
            rcases Nat.lt_trichotomy a.index s.index with hlt | heq | hgt
            · exact hlt
            · exact absurd (congrArg SymbolId.mk heq) hsame
            · exact absurd ⟨a, hgt, hstep.1, hcircle⟩ hlater
          have howner : (t.before s).owner a = next := by
            rw [owner_before, if_pos hindex]
            exact hstep.2
          exact .head ⟨hstep.1, howner⟩ (ih (hsa.tail hstep))
    exact hround _ hback (.single ⟨hpresent, rfl⟩)

/-- **Every circle was closed by a declaration**, the last of those on it. -/
theorem exists_closesCircle (h : t.toUniverse.Circular sym) : ∃ s, t.ClosesCircle s := by
  obtain ⟨s, -, hpresent, hback⟩ := h
  -- A later symbol on the circle has fewer symbols after it.
  induction hleft : t.declarations.size - s.index using Nat.strong_induction_on generalizing s with
  | _ left ih =>
    rcases closesCircle_or_later hpresent hback with hcloses | ⟨a, hlater, hthere, hcircle⟩
    · exact ⟨s, hcloses⟩
    · have howner : (t.owner a).isPresent = true := by
        rw [isPresent_iff]
        intro habsent
        rw [habsent] at hcircle
        exact isPresent_iff.mp hthere (Universe.eq_absent_of_liesIn hcircle)
      have hdeclared := (Universe.isDeclared_of_owner howner).2
      exact ih _ (by omega) a hthere hcircle rfl

/-! ### When the searches end -/

theorem settles_iff_not_circular : t.Settles sym ↔ ¬ t.toUniverse.Circular sym := by
  constructor
  · exact fun h => Universe.exists_iterate_owner_iff.mp h.outward
  · intro hopen
    obtain ⟨n, hn⟩ := Universe.exists_iterate_owner_iff.mpr hopen
    have hends : ∀ stops, ∃ passed last, t.toUniverse.Walk stops sym passed last := fun stops =>
      Universe.exists_walk_iff.mpr ⟨n, Or.inl (congrArg SymbolId.isPresent hn)⟩
    constructor
    · exact ⟨n, hn⟩
    · intro ancestor
      obtain ⟨passed, last, h⟩ := hends (· == ancestor)
      exact ⟨passed, last, h, h.isOwnedBy_eq⟩
    · intro v cx hv hcx member boundary
      obtain ⟨passed, last, h⟩ := hends (t.toUniverse.stopsWithin member boundary)
      refine ⟨passed, last, h, ?_⟩
      subst hcx
      exact h.isWithin_eq hv
    · obtain ⟨passed, last, h⟩ := hends (· == .root)
      rw [h.pathSymbols_eq]
      exact ⟨last, h⟩

theorem forall_settles_iff : (∀ sym, t.Settles sym) ↔ ∀ sym, ¬ t.ClosesCircle sym := by
  constructor
  · exact fun h sym hcloses => settles_iff_not_circular.mp (h sym) hcloses.circular
  · intro h sym
    refine settles_iff_not_circular.mpr fun hcircular => ?_
    obtain ⟨s, hcloses⟩ := exists_closesCircle hcircular
    exact h s hcloses

/-! ### Owners declared first -/

/-- Every symbol was declared after its owner, or has none. -/
def OwnersFirst (t : Table) : Prop :=
  ∀ i (h : i < t.declarations.size), t.declarations[i].owner.index ≤ i

instance (t : Table) : Decidable t.OwnersFirst :=
  inferInstanceAs (Decidable (∀ i (_ : i < t.declarations.size), t.declarations[i].owner.index ≤ i))

/-- On the way outward the indices fall. -/
theorem OwnersFirst.index_owner_lt (h : t.OwnersFirst) (hpresent : s.isPresent = true) :
    (t.owner s).index < s.index := by
  obtain ⟨_ | i⟩ := s
  · cases hpresent
  · by_cases hi : i < t.declarations.size
    · have howner : t.owner ⟨i + 1⟩ = t.declarations[i].owner := by simp [owner, find?, hi]
      rw [howner]
      exact Nat.lt_succ_of_le (h i hi)
    · have howner : t.owner ⟨i + 1⟩ = .absent := by simp [owner, find?, hi]
      rw [howner]
      exact Nat.succ_pos i

/-- **Where owners are declared first there is no circle.** -/
theorem OwnersFirst.not_circular (h : t.OwnersFirst) (sym : SymbolId) :
    ¬ t.toUniverse.Circular sym := by
  have hfalls : ∀ {a b}, t.toUniverse.LiesIn a b → b.index ≤ a.index := by
    intro a b hlies
    induction hlies with
    | refl => exact Nat.le_refl _
    | tail _ hstep ih =>
      obtain ⟨hthere, rfl⟩ := hstep
      exact (Nat.le_of_lt (h.index_owner_lt hthere)).trans ih
  rintro ⟨s, -, hthere, hback⟩
  exact Nat.not_le_of_gt (h.index_owner_lt hthere) (hfalls hback)

/-! ### Declaring -/

variable {owner : SymbolId} {name : Name} {flags : Flags}

theorem owner_add : (t.add owner name flags).2.owner s =
    if s = t.next then owner else t.owner s := by
  simp only [Table.owner, add_eq, find?_modify, find?_declare]
  split_ifs <;> simp [Function.comp_def]

/-- What is not declared yet has no owner. -/
theorem owner_eq_absent (h : t.next.index ≤ s.index) : t.owner s = .absent := by
  by_contra howner
  have hdeclared := (Universe.isDeclared_of_owner (isPresent_iff.mpr howner)).2
  exact absurd (Nat.lt_of_lt_of_le (Nat.lt_succ_self _) h) (Nat.not_lt_of_le hdeclared)

theorem not_closesCircle (h : t.owner sym = .absent) : ¬ t.ClosesCircle sym := by
  rintro ⟨hpresent, hlies⟩
  rw [h] at hlies
  exact isPresent_iff.mp hpresent (Universe.eq_absent_of_liesIn hlies)

/-- Up to the symbol that a declaration gets, the table was the same before it. -/
theorem liesIn_before_add (h : sym.index ≤ t.next.index) :
    ((t.add owner name flags).2.before sym).toUniverse.LiesIn =
      (t.before sym).toUniverse.LiesIn := by
  refine Universe.liesIn_congr fun a => ?_
  change ((t.add owner name flags).2.before sym).owner a = (t.before sym).owner a
  rw [owner_before, owner_before]
  by_cases ha : a.index < sym.index
  · have hne : a ≠ t.next := by
      rintro rfl
      exact absurd h (Nat.not_le_of_lt ha)
    rw [if_pos ha, if_pos ha, owner_add, if_neg hne]
  · rw [if_neg ha, if_neg ha]

theorem liesIn_before_next : (t.before t.next).toUniverse.LiesIn = t.toUniverse.LiesIn := by
  refine Universe.liesIn_congr fun a => ?_
  change (t.before t.next).owner a = t.owner a
  rw [owner_before]
  split
  · rfl
  · exact (owner_eq_absent (Nat.le_of_not_lt ‹_›)).symm

/-- **A declaration closes a circle exactly if the way outward from its owner leads to the symbol it
gets**; the circles closed before stay. -/
theorem closesCircle_add : (t.add owner name flags).2.ClosesCircle sym ↔
    t.ClosesCircle sym ∨ sym = t.next ∧ t.toUniverse.LiesIn owner t.next := by
  rcases Nat.lt_trichotomy sym.index t.next.index with hlt | heq | hgt
  · have hne : sym ≠ t.next := by
      rintro rfl
      exact Nat.lt_irrefl _ hlt
    simp [ClosesCircle, liesIn_before_add (Nat.le_of_lt hlt), owner_add, hne]
  · obtain rfl : sym = t.next := congrArg SymbolId.mk heq
    have hnone : ¬ t.ClosesCircle t.next := not_closesCircle (owner_eq_absent (Nat.le_refl _))
    have hpresent : t.next.isPresent = true := by simp [next, SymbolId.isPresent]
    rw [or_iff_right hnone]
    simp [ClosesCircle, liesIn_before_add (Nat.le_refl _), liesIn_before_next, owner_add, hpresent]
  · have hne : sym ≠ t.next := by
      rintro rfl
      exact Nat.lt_irrefl _ hgt
    have hbefore : t.owner sym = .absent := owner_eq_absent (Nat.le_of_lt hgt)
    have hafter : (t.add owner name flags).2.owner sym = .absent := by
      rw [owner_add, if_neg hne, hbefore]
    simp [not_closesCircle hbefore, not_closesCircle hafter, hne]

/-- **The searches outward from a symbol end exactly if its way outward runs in no circle,** and all
searches in a table exactly if no declaration closed one. A declaration does so exactly if the way
outward from its owner leads to the symbol it gets. -/
theorem settles_iff (t : Table) :
    (∀ sym, t.Settles sym ↔ ¬ t.toUniverse.Circular sym) ∧
      ((∀ sym, t.Settles sym) ↔ ∀ sym, ¬ t.ClosesCircle sym) ∧
      ∀ owner name flags, (∀ sym, (t.add owner name flags).2.Settles sym) ↔
        (∀ sym, t.Settles sym) ∧ ¬ t.toUniverse.LiesIn owner t.next := by
  refine ⟨fun _ => settles_iff_not_circular, forall_settles_iff, fun owner name flags => ?_⟩
  rw [forall_settles_iff, forall_settles_iff]
  simp only [closesCircle_add, not_or, forall_and, not_and, forall_eq]

/-! ### Two packages that own each other -/

/-- Packages 2 and 3. The first was declared in what became the second, the second in the first. -/
def circleTable : Table :=
  ((initial.addPackage ⟨3⟩ (.ofWord 9)).2.addPackage ⟨2⟩ (.ofWord 10)).2

/-- **No owner can be counted on to be outermost.** The operations on tables build a circle of
owners. Each package is found to be owned by the other, the way outward from one never ends, and
neither does a search that stops at none of the two. -/
theorem settles_circle :
    let t := circleTable
    let u := t.toUniverse
    t.Built ∧ u.isOwnedBy ⟨2⟩ ⟨3⟩ = true ∧ u.isOwnedBy ⟨3⟩ ⟨2⟩ = true ∧
      (∀ n, t.owner^[n] ⟨2⟩ ≠ .absent) ∧
      ∀ stops, stops ⟨2⟩ = false → stops ⟨3⟩ = false →
        ¬ ∃ passed last, u.Walk stops ⟨2⟩ passed last := by
  intro t u
  have hround : ∀ n, t.owner^[n] ⟨2⟩ = ⟨2⟩ ∨ t.owner^[n] ⟨2⟩ = ⟨3⟩ := by
    intro n
    induction n with
    | zero => exact Or.inl rfl
    | succ n ih =>
      rw [Function.iterate_succ_apply']
      rcases ih with h | h <;> rw [h]
      · exact Or.inr (by decide +kernel)
      · exact Or.inl (by decide +kernel)
  refine ⟨(Built.initial.add _ _ _).add _ _ _, by decide +kernel, by decide +kernel, ?_, ?_⟩
  · intro n hn
    rcases hround n with h | h <;> rw [h] at hn <;> cases hn
  · intro stops hfirst hsecond hends
    obtain ⟨n, hn⟩ := Universe.exists_walk_iff.mp hends
    have howner : u.owner^[n] ⟨2⟩ = t.owner^[n] ⟨2⟩ := rfl
    rw [howner] at hn
    rcases hround n with h | h <;> rw [h] at hn <;>
      simp [SymbolId.isPresent, hfirst, hsecond] at hn

end Table

end NameResolution
