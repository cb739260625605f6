import Mathlib.Data.List.Nodup
import Mathlib.Logic.Relation
import Mathlib.Order.Lattice.Nat
import NameResolution.Table.Hierarchy

/-!
# Override chains

The chain of a symbol is scanned from its front while it grows at its back by what the symbols it
scans override. Each symbol enters it once, so the scan ends whatever cycles the links form, and the
symbols enter it by their distance from the first one.

* `Scans`: the scan without a bound on its steps, and `scans_iff`: it ends with the chain.
* `Sweep`: what holds throughout the scan. The symbols that were not scanned yet are at most one
  link apart in their distance, which `Sweep.next` needs to keep the whole chain in order.
* `overrideChain_nearest_first`: what the chain of a symbol consists of, and in which order.
-/

namespace NameResolution.Table

variable (t : Table)

/-- A number of override links that lead from one symbol to another. -/
inductive OverridePath (sym : SymbolId) : Nat → SymbolId → Prop where
  | start : OverridePath sym 0 sym
  | link {n : Nat} {a b : SymbolId} (h : OverridePath sym n a) (hlink : b ∈ t.overrides a) :
      OverridePath sym (n + 1) b

/-- The length of a shortest path of override links. -/
noncomputable def overrideDistance (sym a : SymbolId) : Nat := sInf {n | t.OverridePath sym n a}

/-- Adds a symbol at the end of a chain unless it is listed. -/
def enlist (chain : List SymbolId) (o : SymbolId) : List SymbolId :=
  if o ∈ chain then chain else chain ++ [o]

/-- The scan of a chain from a position on, and what becomes of the chain. What the symbol at the
position overrides is enlisted before the scan goes on to the next position. -/
inductive Scans : Nat → List SymbolId → List SymbolId → Prop where
  | done {position : Nat} {chain : List SymbolId} (hend : chain.length ≤ position) :
      Scans position chain chain
  | next {position : Nat} {s : SymbolId} {chain found : List SymbolId}
      (hat : chain[position]? = some s)
      (h : Scans (position + 1) ((t.overrides s).foldl enlist chain) found) :
      Scans position chain found

/-- What a list has to be to hold a symbol and all it overrides, nearest first. -/
structure ListsOverridden (sym : SymbolId) (chain : List SymbolId) : Prop where
  /-- The scan from the symbol ends with this list and no other. -/
  ends : ∀ found, t.Scans 0 [sym] found ↔ found = chain
  /-- The symbol itself comes first, present or not. -/
  first : chain.head? = some sym
  /-- Nothing is listed twice. -/
  distinct : chain.Nodup
  /-- The list holds exactly what override links lead to. -/
  reached : ∀ a, a ∈ chain ↔ Relation.ReflTransGen (fun o m => m ∈ t.overrides o) sym a
  /-- No symbol is nearer than one listed before it. -/
  nearest : chain.Pairwise fun a b => t.overrideDistance sym a ≤ t.overrideDistance sym b

variable {t} {sym a : SymbolId} {n : Nat}

/-! ### Paths and distances -/

theorem overridePath_iff : (∃ n, t.OverridePath sym n a) ↔
    Relation.ReflTransGen (fun o m => m ∈ t.overrides o) sym a := by
  constructor
  · rintro ⟨n, h⟩
    induction h with
    | start => exact .refl
    | link _ hlink ih => exact ih.tail hlink
  · intro h
    induction h with
    | refl => exact ⟨0, .start⟩
    | tail _ hlink ih =>
      obtain ⟨n, h⟩ := ih
      exact ⟨n + 1, h.link hlink⟩

theorem OverridePath.distance_le (h : t.OverridePath sym n a) : t.overrideDistance sym a ≤ n :=
  Nat.sInf_le h

theorem OverridePath.shortest (h : t.OverridePath sym n a) :
    t.OverridePath sym (t.overrideDistance sym a) a :=
  Nat.sInf_mem (s := {n | t.OverridePath sym n a}) ⟨n, h⟩

/-- Whatever is overridden stands among the links. -/
theorem mem_links_of_mem_overrides {s : SymbolId} (h : a ∈ t.overrides s) :
    a ∈ t.declarations.toList.flatMap (·.overrides) := by
  obtain ⟨_ | i⟩ := s
  · cases h
  · have hfind : t.find? ⟨i + 1⟩ = t.declarations[i]? := rfl
    rw [overrides, hfind] at h
    cases hdecl : t.declarations[i]? with
    | none => simp [hdecl] at h
    | some d =>
      rw [hdecl] at h
      exact List.mem_flatMap.mpr ⟨d, Array.mem_toList_iff.mpr (Array.mem_of_getElem? hdecl), h⟩

/-! ### Enlisting -/

theorem mem_foldl_enlist {chain os : List SymbolId} :
    a ∈ os.foldl enlist chain ↔ a ∈ chain ∨ a ∈ os := by
  induction os generalizing chain with
  | nil => simp
  | cons o os ih =>
    have hfirst : a ∈ enlist chain o ↔ a ∈ chain ∨ a = o := by
      unfold enlist
      split
      · exact ⟨Or.inl, fun h => h.elim id fun heq => heq ▸ ‹o ∈ chain›⟩
      · rw [List.mem_append, List.mem_singleton]
    rw [List.foldl_cons, ih, hfirst, List.mem_cons, or_assoc]

theorem nodup_foldl_enlist {chain : List SymbolId} (h : chain.Nodup) (os : List SymbolId) :
    (os.foldl enlist chain).Nodup := by
  induction os generalizing chain with
  | nil => exact h
  | cons o os ih =>
    apply ih
    unfold enlist
    split
    · exact h
    · exact h.append (List.nodup_singleton o) (List.disjoint_singleton.mpr ‹o ∉ chain›)

/-- What enlisting adds to a chain is what the chain did not list. -/
theorem mem_fresh_iff {os chain fresh : List SymbolId} (hdistinct : chain.Nodup)
    (hfresh : os.foldl enlist chain = chain ++ fresh) : a ∈ fresh ↔ a ∈ os ∧ a ∉ chain := by
  have hmem : a ∈ chain ++ fresh ↔ a ∈ chain ∨ a ∈ os := by rw [← hfresh, mem_foldl_enlist]
  have hnodup : (chain ++ fresh).Nodup := hfresh ▸ nodup_foldl_enlist hdistinct os
  constructor
  · intro ha
    have hnew : a ∉ chain := fun hold => (List.nodup_append.mp hnodup).2.2 a hold a ha rfl
    exact ⟨(hmem.mp (List.mem_append_right _ ha)).resolve_left hnew, hnew⟩
  · rintro ⟨ha, hnew⟩
    exact (List.mem_append.mp (hmem.mpr (Or.inr ha))).resolve_left hnew

/-- Looking for new symbols first and adding them together comes to the same. -/
theorem foldl_enlist_append (os chain fresh : List SymbolId) :
    os.foldl enlist (chain ++ fresh) = chain ++ os.foldl (fun fresh o =>
      if chain.contains o || fresh.contains o then fresh else fresh ++ [o]) fresh := by
  induction os generalizing fresh with
  | nil => rfl
  | cons o os ih =>
    rw [List.foldl_cons, List.foldl_cons, enlist]
    by_cases hlisted : o ∈ chain ++ fresh
    · have hskip : (chain.contains o || fresh.contains o) = true := by simpa using hlisted
      rw [if_pos hlisted, if_pos hskip, ih]
    · have hnew : ¬ (chain.contains o || fresh.contains o) = true := by simpa using hlisted
      rw [if_neg hlisted, if_neg hnew, List.append_assoc, ih]

theorem overridesFrom_cons (steps : Nat) (s : SymbolId) (pending chain : List SymbolId) :
    ∃ fresh, (t.overrides s).foldl enlist chain = chain ++ fresh ∧
      t.overridesFrom (steps + 1) (s :: pending) chain =
        t.overridesFrom steps (pending ++ fresh) (chain ++ fresh) := by
  refine ⟨_, ?_, rfl⟩
  have hadd := foldl_enlist_append (t.overrides s) chain []
  rwa [List.append_nil] at hadd

/-! ### What holds throughout the scan -/

/-- How far a scan has got: what was scanned, and what is listed after it. -/
structure Sweep (t : Table) (sym : SymbolId) (scanned pending : List SymbolId) : Prop where
  distinct : (scanned ++ pending).Nodup
  first : (scanned ++ pending).head? = some sym
  reached : ∀ a ∈ scanned ++ pending, ∃ n, t.OverridePath sym n a
  /-- What a scanned symbol overrides is listed. -/
  closed : ∀ s ∈ scanned, ∀ o ∈ t.overrides s, o ∈ scanned ++ pending
  sorted : (scanned ++ pending).Pairwise fun a b =>
    t.overrideDistance sym a ≤ t.overrideDistance sym b
  /-- Nothing listed is more than one link farther than what is to be scanned. -/
  level : ∀ a ∈ pending, ∀ b ∈ scanned ++ pending,
    t.overrideDistance sym b ≤ t.overrideDistance sym a + 1

namespace Sweep

variable {scanned pending : List SymbolId}

theorem start (t : Table) (sym : SymbolId) : t.Sweep sym [] [sym] where
  distinct := List.nodup_singleton sym
  first := rfl
  reached a ha := by
    rw [List.mem_singleton.mp ha]
    exact ⟨0, .start⟩
  closed _ hs := absurd hs List.not_mem_nil
  sorted := List.pairwise_singleton _ sym
  level a ha b hb := by
    rw [List.mem_singleton.mp ha, List.mem_singleton.mp hb]
    exact Nat.le_succ _

/-- A path out of the list leaves it at a symbol that is to be scanned. -/
theorem listed_or_beyond (h : t.Sweep sym scanned pending) (hpath : t.OverridePath sym n a) :
    a ∈ scanned ++ pending ∨ ∃ b ∈ pending, t.overrideDistance sym b < n := by
  induction hpath with
  | start => exact Or.inl (List.mem_of_head? h.first)
  | @link n a b hpath hlink ih =>
    rcases ih with hlisted | ⟨c, hc, hnear⟩
    · rcases List.mem_append.mp hlisted with hscanned | hpending
      · exact Or.inl (h.closed a hscanned b hlink)
      · exact Or.inr ⟨a, hpending, Nat.lt_succ_of_le hpath.distance_le⟩
    · exact Or.inr ⟨c, hc, Nat.lt_succ_of_lt hnear⟩

variable {s : SymbolId} {fresh : List SymbolId}

/-- The first symbol to be scanned is the nearest of those that are. -/
theorem distance_le_of_pending (h : t.Sweep sym scanned (s :: pending)) :
    ∀ b ∈ s :: pending, t.overrideDistance sym s ≤ t.overrideDistance sym b := by
  have hpending := (List.pairwise_append.mp h.sorted).2.1
  exact List.forall_mem_cons.mpr ⟨Nat.le_refl _, (List.pairwise_cons.mp hpending).1⟩

/-- What a scanned symbol adds to the list is one link farther than it. -/
theorem distance_fresh (h : t.Sweep sym scanned (s :: pending)) {o : SymbolId}
    (hlink : o ∈ t.overrides s) (hnew : o ∉ scanned ++ s :: pending) :
    t.overrideDistance sym o = t.overrideDistance sym s + 1 := by
  obtain ⟨n, hpath⟩ := h.reached s (List.mem_append_right _ List.mem_cons_self)
  have hfar : t.OverridePath sym (t.overrideDistance sym s + 1) o := hpath.shortest.link hlink
  apply Nat.le_antisymm hfar.distance_le
  rcases h.listed_or_beyond hfar.shortest with hlisted | ⟨b, hb, hnear⟩
  · exact absurd hlisted hnew
  · exact Nat.lt_of_le_of_lt (h.distance_le_of_pending b hb) hnear

/-- **Scanning one more symbol keeps the list in order.** -/
theorem next (h : t.Sweep sym scanned (s :: pending))
    (hfresh : (t.overrides s).foldl enlist (scanned ++ s :: pending) =
      scanned ++ s :: pending ++ fresh) :
    t.Sweep sym (scanned ++ [s]) (pending ++ fresh) := by
  have hlisted : scanned ++ [s] ++ (pending ++ fresh) = scanned ++ s :: pending ++ fresh := by simp
  have hadded := fun o => mem_fresh_iff (a := o) h.distinct hfresh
  have hdistance : ∀ o ∈ fresh, t.overrideDistance sym o = t.overrideDistance sym s + 1 :=
    fun o ho => h.distance_fresh ((hadded o).mp ho).1 ((hadded o).mp ho).2
  have hs : s ∈ s :: pending := List.mem_cons_self
  have hwithin : ∀ b ∈ scanned ++ s :: pending ++ fresh,
      t.overrideDistance sym b ≤ t.overrideDistance sym s + 1 := by
    intro b hb
    rcases List.mem_append.mp hb with hold | hnew
    · exact h.level s hs b hold
    · exact Nat.le_of_eq (hdistance b hnew)
  refine ⟨?distinct, ?first, ?reached, ?closed, ?sorted, ?level⟩ <;> rw [hlisted]
  case distinct =>
    rw [← hfresh]
    exact nodup_foldl_enlist h.distinct _
  case first =>
    rw [List.head?_append, h.first]
    rfl
  case reached =>
    intro a ha
    rcases List.mem_append.mp ha with hold | hnew
    · exact h.reached a hold
    · obtain ⟨n, hpath⟩ := h.reached s (List.mem_append_right _ hs)
      exact ⟨n + 1, hpath.link ((hadded a).mp hnew).1⟩
  case closed =>
    intro c hc o ho
    rcases List.mem_append.mp hc with hold | hc
    · exact List.mem_append_left _ (h.closed c hold o ho)
    · rw [List.mem_singleton.mp hc] at ho
      rw [← hfresh]
      exact mem_foldl_enlist.mpr (Or.inr ho)
  case sorted =>
    refine List.pairwise_append.mpr ⟨h.sorted, ?_, ?_⟩
    · refine List.pairwise_of_forall_mem_list fun a ha b hb => ?_
      rw [hdistance a ha, hdistance b hb]
    · intro a ha b hb
      rw [hdistance b hb]
      exact h.level s hs a ha
  case level =>
    intro a ha b hb
    have hfarther : t.overrideDistance sym s ≤ t.overrideDistance sym a := by
      rcases List.mem_append.mp ha with hold | hnew
      · exact h.distance_le_of_pending a (List.mem_cons_of_mem _ hold)
      · rw [hdistance a hnew]
        exact Nat.le_succ _
    exact Nat.le_trans (hwithin b hb) (Nat.succ_le_succ hfarther)

/-- Besides the first symbol only what stands among the links is ever listed. -/
theorem length_le (h : t.Sweep sym scanned pending) :
    (scanned ++ pending).length ≤ t.overrideLinks + 1 := by
  have hsub : scanned ++ pending ⊆ sym :: t.declarations.toList.flatMap (·.overrides) := by
    intro a ha
    obtain ⟨n, hpath⟩ := h.reached a ha
    cases hpath with
    | start => exact List.mem_cons_self
    | link _ hlink => exact List.mem_cons_of_mem _ (mem_links_of_mem_overrides hlink)
  exact h.distinct.length_le_of_subset hsub

/-! ### The scan as a whole -/

/-- Within as many steps as there are links left the scan comes to its end. -/
theorem scanned_all {steps : Nat} (h : t.Sweep sym scanned pending)
    (hsteps : t.overrideLinks + 1 ≤ scanned.length + steps) :
    let chain := t.overridesFrom steps pending (scanned ++ pending)
    t.Scans scanned.length (scanned ++ pending) chain ∧ t.Sweep sym chain [] := by
  induction steps generalizing scanned pending with
  | zero =>
    have hlength := h.length_le
    have hnil : pending = [] := by
      apply List.eq_nil_of_length_eq_zero
      rw [List.length_append] at hlength
      omega
    subst hnil
    rw [List.append_nil]
    exact ⟨.done (Nat.le_refl _), h⟩
  | succ steps ih =>
    cases pending with
    | nil =>
      rw [List.append_nil]
      exact ⟨.done (Nat.le_refl _), h⟩
    | cons s pending =>
      obtain ⟨fresh, hfresh, hrest⟩ :=
        overridesFrom_cons (t := t) steps s pending (scanned ++ s :: pending)
      have hlisted : scanned ++ [s] ++ (pending ++ fresh) = scanned ++ s :: pending ++ fresh := by
        simp
      have hlength : (scanned ++ [s]).length = scanned.length + 1 := List.length_append
      obtain ⟨hscans, hsweep⟩ := ih (h.next hfresh) (by omega)
      rw [hlisted, hlength, ← hrest] at hscans
      rw [hlisted, ← hrest] at hsweep
      have hat : (scanned ++ s :: pending)[scanned.length]? = some s := by simp
      exact ⟨.next hat (hfresh ▸ hscans), hsweep⟩

end Sweep

theorem Scans.unique {position : Nat} {chain found other : List SymbolId}
    (h : t.Scans position chain found) (h' : t.Scans position chain other) : found = other := by
  induction h generalizing other with
  | done hend =>
    cases h' with
    | done => rfl
    | next hat _ => exact absurd (List.getElem?_eq_some_iff.mp hat).1 (Nat.not_lt_of_le hend)
  | next hat _ ih =>
    cases h' with
    | done hend => exact absurd (List.getElem?_eq_some_iff.mp hat).1 (Nat.not_lt_of_le hend)
    | next hat' h' =>
      obtain rfl := Option.some.inj (hat.symm.trans hat')
      exact ih h'

theorem scans_overrideChain (t : Table) (sym : SymbolId) :
    t.Scans 0 [sym] (t.overrideChain sym) ∧ t.Sweep sym (t.overrideChain sym) [] :=
  (Sweep.start t sym).scanned_all (Nat.le_of_eq (Nat.zero_add _).symm)

/-- **The scan ends with the override chain.** -/
theorem scans_iff {found : List SymbolId} :
    t.Scans 0 [sym] found ↔ found = t.overrideChain sym := by
  constructor
  · exact fun h => h.unique (scans_overrideChain t sym).1
  · rintro rfl
    exact (scans_overrideChain t sym).1

/-- **The override chain holds a symbol and all it overrides, nearest first.** The scan ends for
every symbol and every table; the chain starts with the symbol, lists what override links lead to
and nothing else, each once, by the length of the shortest path. -/
theorem overrideChain_nearest_first (t : Table) (sym : SymbolId) :
    t.ListsOverridden sym (t.overrideChain sym) := by
  have hsweep := (scans_overrideChain t sym).2
  have hchain : t.overrideChain sym ++ [] = t.overrideChain sym := List.append_nil _
  refine ⟨fun _ => scans_iff, hchain ▸ hsweep.first, hchain ▸ hsweep.distinct, fun a => ?_,
    hchain ▸ hsweep.sorted⟩
  rw [← overridePath_iff]
  constructor
  · exact fun ha => hsweep.reached a (List.mem_append_left _ ha)
  · rintro ⟨n, hpath⟩
    rcases hsweep.listed_or_beyond hpath with hlisted | ⟨_, hpending, -⟩
    · rwa [hchain] at hlisted
    · cases hpending

/-- Methods 2 to 5. The first overrides the second and the third, the second overrides the fourth,
the third overrides the first and the absent symbol, and the fourth one that is not declared. -/
def crossedTable : Table :=
  let t := [9, 10, 11, 12].foldl (fun t word => (t.addMethod .root (.ofWord word) ∅).2) initial
  let links : List (Nat × Nat) := [(2, 3), (2, 4), (3, 5), (4, 2), (4, 0), (5, 9)]
  links.foldl (fun t link => t.addOverride ⟨link.1⟩ ⟨link.2⟩) t

theorem overrideChain_nearest_first_crossed :
    crossedTable.ListsOverridden ⟨2⟩ [⟨2⟩, ⟨3⟩, ⟨4⟩, ⟨5⟩, ⟨0⟩, ⟨9⟩] := by
  have hchain : crossedTable.overrideChain ⟨2⟩ = [⟨2⟩, ⟨3⟩, ⟨4⟩, ⟨5⟩, ⟨0⟩, ⟨9⟩] := by decide +kernel
  exact hchain ▸ overrideChain_nearest_first crossedTable ⟨2⟩

end NameResolution.Table
