import Mathlib.Data.List.Nodup
import NameResolution.Proofs.Declarations
import NameResolution.Proofs.Hierarchy
import NameResolution.Table.Universe

/-!
# Overridden members

A class offers the declarations of its own and of its ancestors, except what is private to an
ancestor. Of these it should keep what no other of them overrides, directly or through a chain of
overrides. The walk that collects members meets them in the order of the linearization and leaves
out what a member taken before overrides directly.

* `collectMembers_eq_sift`: the walk is one pass over the list of all that is offered.
* `mem_sift_iff`: what the pass lets through.
* `collects`: nothing is listed twice, nothing is listed that is not offered, and nothing that
  should be kept is lost. What is listed beyond that is ruled out exactly if overriders come first
  (`OverridersFirst`).
* `overridden_through_chain_listed`: in a line of three classes they do not.
-/

namespace NameResolution.Table

variable (t : Table)

/-- A declaration overrides another, directly or through a chain of overrides. -/
def Overrides (overrider overridden : SymbolId) : Prop :=
  Relation.TransGen (fun o m => m ∈ t.overrides o) overrider overridden

/-- A wanted declaration of a class or of an ancestor, and not private to an ancestor. -/
def Offers (sym : SymbolId) (wanted : Declaration → Bool) (m : SymbolId) : Prop :=
  ∃ c d, c.isPresent = true ∧ t.Inherits sym c ∧ m ∈ t.declaredMembers c ∧ t.find? m = some d ∧
    wanted d = true ∧ (d.flags.contains .isPrivate = true → c = sym)

/-- A wanted declaration that the class offers and that no other rival it offers overrides. -/
def Keeps (sym : SymbolId) (wanted rival : Declaration → Bool) (m : SymbolId) : Prop :=
  t.Offers sym wanted m ∧ ∀ r, t.Offers sym rival r → r ≠ m → ¬ t.Overrides r m

/-! ### One pass over what is offered -/

/-- Whether a declaration that the class `c` lists is wanted and not private to an ancestor. -/
def isOffered (sym : SymbolId) (wanted : Declaration → Bool) (c m : SymbolId) : Bool :=
  match t.find? m with
  | none => false
  | some d => wanted d && (c == sym || !d.flags.contains .isPrivate)

/-- All that a class offers, in the order of the linearization. -/
def offered (sym : SymbolId) (wanted : Declaration → Bool) : List SymbolId :=
  (t.linearization sym).flatMap fun c => (t.declaredMembers c).filter (t.isOffered sym wanted c)

/-- Drops from a list what is overridden already or directly overridden by an earlier element that
is not dropped itself. -/
def sift : List SymbolId → List SymbolId → List SymbolId
  | _, [] => []
  | overridden, m :: rest =>
    if m ∈ overridden then sift overridden rest
    else m :: sift (overridden ++ t.overrides m) rest

/-- Every overridden member that the class would offer is directly overridden by one that is kept
and comes before it. -/
def OverridersFirst (sym : SymbolId) (wanted rival : Declaration → Bool) : Prop :=
  ∀ m, t.Offers sym wanted m → (∃ r, t.Offers sym rival r ∧ r ≠ m ∧ t.Overrides r m) →
    ∃ s, t.Keeps sym wanted rival s ∧ m ∈ t.overrides s ∧ [s, m].Sublist (t.offered sym wanted)

variable {t}

theorem mem_offered {sym m : SymbolId} {wanted : Declaration → Bool} :
    m ∈ t.offered sym wanted ↔ t.Offers sym wanted m := by
  simp only [offered, List.mem_flatMap, List.mem_filter, mem_linearization, Offers]
  constructor
  · rintro ⟨c, ⟨hpresent, hreach⟩, hlisted, hoffered⟩
    unfold isOffered at hoffered
    split at hoffered
    · cases hoffered
    · rename_i d hd
      simp only [Bool.and_eq_true, Bool.or_eq_true, beq_iff_eq, Bool.not_eq_true'] at hoffered
      refine ⟨c, d, hpresent, hreach, hlisted, hd, hoffered.1, ?_⟩
      intro hprivate
      rcases hoffered.2 with h | h
      · exact h
      · rw [h] at hprivate
        cases hprivate
  · rintro ⟨c, d, hpresent, hreach, hlisted, hd, hwanted, hprivate⟩
    refine ⟨c, ⟨hpresent, hreach⟩, hlisted, ?_⟩
    simp only [isOffered, hd, hwanted, Bool.true_and, Bool.or_eq_true, beq_iff_eq,
      Bool.not_eq_true']
    by_cases h : c = sym
    · exact Or.inl h
    · exact Or.inr (Bool.eq_false_iff.mpr fun hp => h (hprivate hp))

/-- Each class is met once and lists its own declarations once. -/
theorem nodup_offered (h : t.Listed) (sym : SymbolId) (wanted : Declaration → Bool) :
    (t.offered sym wanted).Nodup := by
  rw [offered, List.nodup_flatMap]
  constructor
  · intro c _
    exact (h.nodup_declaredMembers c).filter _
  · apply (nodup_linearization sym).imp
    intro c other hne m hc hother
    have hfirst := h.owner_of_mem (List.mem_filter.mp hc).1
    have hsecond := h.owner_of_mem (List.mem_filter.mp hother).1
    exact hne (hfirst.symm.trans hsecond)

/-! ### The walk is the pass -/

variable (t)

def Harvest.push (found : Harvest) (m : SymbolId) : Harvest :=
  if m ∈ found.overridden then found
  else ⟨found.members ++ [m], found.overridden ++ t.overrides m⟩

variable {t}

theorem members_foldl_push (found : Harvest) (ms : List SymbolId) :
    (ms.foldl (Harvest.push t) found).members = found.members ++ t.sift found.overridden ms := by
  induction ms generalizing found with
  | nil => simp [sift]
  | cons m ms ih =>
    rw [List.foldl_cons, ih, sift, Harvest.push]
    split
    · rfl
    · simp

theorem take_eq_push {sym c : SymbolId} {wanted : Declaration → Bool} (found : Harvest)
    (m : SymbolId) :
    Harvest.take t wanted (c != sym) found m =
      if t.isOffered sym wanted c m then Harvest.push t found m else found := by
  unfold Harvest.take isOffered Harvest.push overrides
  cases t.find? m with
  | none => rfl
  | some d =>
    by_cases hm : m ∈ found.overridden <;> by_cases hc : c = sym <;>
      cases hwanted : wanted d <;> cases hprivate : d.flags.contains .isPrivate <;>
        simp [hm, hc, hwanted, hprivate]

theorem takeAll_eq_foldl_push {sym c : SymbolId} {wanted : Declaration → Bool} (found : Harvest) :
    Harvest.takeAll t wanted (c != sym) found c =
      ((t.declaredMembers c).filter (t.isOffered sym wanted c)).foldl (Harvest.push t) found := by
  unfold Harvest.takeAll
  rw [List.foldl_filter]
  exact congrFun (congrFun (congrArg List.foldl (funext fun found => funext fun m =>
    take_eq_push found m)) found) _

/-- **The walk up the ancestors is one pass over all that is offered.** -/
theorem collectMembers_eq_sift (sym : SymbolId) (wanted : Declaration → Bool) :
    t.collectMembers sym wanted = t.sift [] (t.offered sym wanted) := by
  have hall := members_foldl_push (t := t) {} (t.offered sym wanted)
  rw [offered, List.foldl_flatMap] at hall
  unfold collectMembers
  cases hclasses : t.linearization sym with
  | nil => simp [offered, hclasses, sift]
  | cons own ancestors =>
    have hown : own = sym := by
      have hpresent : sym.isPresent = true := by
        cases h : sym.isPresent with
        | true => rfl
        | false =>
          rw [linearization_eq_nil h] at hclasses
          cases hclasses
      obtain ⟨rest, hcons⟩ := linearization_eq_cons (t := t) hpresent
      rw [hcons] at hclasses
      cases hclasses
      rfl
    have hnodup := nodup_linearization (t := t) sym
    rw [hclasses, List.nodup_cons] at hnodup
    -- The first class is the class itself; all others are inherited from.
    have hinherited : ∀ found, ancestors.foldl (Harvest.takeAll t wanted true) found =
        ancestors.foldl (fun found c => ((t.declaredMembers c).filter
          (t.isOffered sym wanted c)).foldl (Harvest.push t) found) found := by
      intro found
      apply List.foldl_ext
      intro found c hc
      have hne : (c != sym) = true := by
        rw [bne_iff_ne, ← hown]
        rintro rfl
        exact hnodup.1 hc
      rw [← takeAll_eq_foldl_push, hne]
    have hfirst : ∀ found, Harvest.takeAll t wanted false found own =
        ((t.declaredMembers own).filter (t.isOffered sym wanted own)).foldl
          (Harvest.push t) found := by
      intro found
      rw [← takeAll_eq_foldl_push, hown, bne_self_eq_false]
    rw [hclasses, List.foldl_cons] at hall
    simp only [hinherited, hfirst, hall, offered, hclasses, List.nil_append]

/-! ### What the pass lets through -/

theorem sift_sublist (overridden ms : List SymbolId) : (t.sift overridden ms).Sublist ms := by
  induction ms generalizing overridden with
  | nil => exact List.Sublist.refl _
  | cons m ms ih =>
    rw [sift]
    split
    · exact (ih _).cons _
    · exact (ih _).cons_cons _

/-- **The pass lets through** what is not overridden from the start and not directly overridden by
anything before it that the pass lets through. -/
theorem mem_sift_iff {overridden ms : List SymbolId} (hnodup : ms.Nodup) {m : SymbolId} :
    m ∈ t.sift overridden ms ↔ m ∈ ms ∧ m ∉ overridden ∧
      ∀ s ∈ t.sift overridden ms, [s, m].Sublist ms → m ∉ t.overrides s := by
  induction ms generalizing overridden with
  | nil => simp [sift]
  | cons a ms ih =>
    obtain ⟨hnew, hrest⟩ := List.nodup_cons.mp hnodup
    have hlater : ∀ o, ∀ s ∈ t.sift o ms, s ≠ a := by
      rintro o s hs rfl
      exact hnew ((sift_sublist o ms).subset hs)
    by_cases ha : a ∈ overridden
    · rw [sift, if_pos ha, ih hrest]
      constructor
      · rintro ⟨hm, hout, hfree⟩
        refine ⟨List.mem_cons_of_mem _ hm, hout, ?_⟩
        intro s hs hbefore
        rcases List.cons_sublist_cons'.mp hbefore with h | ⟨rfl, -⟩
        · exact hfree s hs h
        · exact absurd rfl (hlater _ _ hs)
      · rintro ⟨hm, hout, hfree⟩
        rcases List.mem_cons.mp hm with rfl | hm
        · exact absurd ha hout
        · exact ⟨hm, hout, fun s hs hbefore => hfree s hs (hbefore.cons _)⟩
    · rw [sift, if_neg ha]
      by_cases hma : m = a
      · subst hma
        -- Nothing comes before the first element.
        refine iff_of_true List.mem_cons_self ⟨List.mem_cons_self, ha, ?_⟩
        intro s _ hbefore
        rcases List.cons_sublist_cons'.mp hbefore with h | ⟨-, h⟩
        · exact absurd (h.subset (by simp)) hnew
        · exact absurd (h.subset (by simp)) hnew
      · rw [List.mem_cons, or_iff_right hma, ih hrest]
        constructor
        · rintro ⟨hm, hout, hfree⟩
          simp only [List.mem_append, not_or] at hout
          refine ⟨List.mem_cons_of_mem _ hm, hout.1, ?_⟩
          intro s hs hbefore
          rcases List.mem_cons.mp hs with rfl | hs
          · exact hout.2
          · rcases List.cons_sublist_cons'.mp hbefore with h | ⟨rfl, -⟩
            · exact hfree s hs h
            · exact absurd rfl (hlater _ _ hs)
        · rintro ⟨hm, hout, hfree⟩
          have hm : m ∈ ms := (List.mem_cons.mp hm).resolve_left hma
          have hfirst : m ∉ t.overrides a := hfree a List.mem_cons_self
            (List.cons_sublist_cons.mpr (List.singleton_sublist.mpr hm))
          refine ⟨hm, by simp [hout, hfirst], ?_⟩
          intro s hs hbefore
          exact hfree s (List.mem_cons_of_mem _ hs) (hbefore.cons _)

/-! ### What is listed -/

variable (t)

/-- What is true of a list of the wanted members of a class, whatever the overrides, and when it
holds nothing but what the class keeps. -/
structure Collects (listed : List SymbolId) (sym : SymbolId) (wanted rival : Declaration → Bool) :
    Prop where
  nodup : listed.Nodup
  offered : ∀ m ∈ listed, t.Offers sym wanted m
  complete : ∀ m, t.Keeps sym wanted rival m → m ∈ listed
  exact_iff : (∀ m, m ∈ listed ↔ t.Keeps sym wanted rival m) ↔ t.OverridersFirst sym wanted rival

variable {t}

theorem mem_collectMembers (h : t.Listed) {sym m : SymbolId} {wanted : Declaration → Bool} :
    m ∈ t.collectMembers sym wanted ↔ t.Offers sym wanted m ∧
      ∀ s ∈ t.collectMembers sym wanted, [s, m].Sublist (t.offered sym wanted) →
        m ∉ t.overrides s := by
  rw [collectMembers_eq_sift, mem_sift_iff (nodup_offered h sym wanted), mem_offered]
  simp

/-- What nothing overrides is listed. -/
theorem mem_collectMembers_of_keeps (h : t.Listed) {sym m : SymbolId}
    {wanted rival : Declaration → Bool} (hrival : ∀ d, wanted d = true → rival d = true)
    (hkept : t.Keeps sym wanted rival m) : m ∈ t.collectMembers sym wanted := by
  obtain ⟨hoffered, hfree⟩ := hkept
  refine (mem_collectMembers h).mpr ⟨hoffered, ?_⟩
  intro s hs hbefore hover
  obtain ⟨c, d, hpresent, hreach, hlisted, hd, hwanted, hprivate⟩ := ((mem_collectMembers h).mp hs).1
  have hne : s ≠ m := by
    rintro rfl
    exact absurd (hbefore.nodup (nodup_offered h sym wanted)) (by simp)
  exact hfree s ⟨c, d, hpresent, hreach, hlisted, hd, hrival d hwanted, hprivate⟩ hne (.single hover)

/-- **The walk collects all that the class keeps, and nothing else exactly if overriders come
first.** -/
theorem collects (h : t.Listed) (sym : SymbolId) {wanted rival : Declaration → Bool}
    (hrival : ∀ d, wanted d = true → rival d = true) :
    t.Collects (t.collectMembers sym wanted) sym wanted rival where
  nodup := by
    rw [collectMembers_eq_sift]
    exact (sift_sublist _ _).nodup (nodup_offered h sym wanted)
  offered := by
    intro m hm
    exact ((mem_collectMembers h).mp hm).1
  complete := by
    intro m hm
    exact mem_collectMembers_of_keeps h hrival hm
  exact_iff := by
    constructor
    · intro hexact m hoffered hover
      have hout : m ∉ t.collectMembers sym wanted := by
        intro hm
        obtain ⟨r, hr, hne, hrm⟩ := hover
        exact ((hexact m).mp hm).2 r hr hne hrm
      -- What is left out is overridden by something listed before it, which is kept.
      rw [mem_collectMembers h] at hout
      push Not at hout
      obtain ⟨s, hs, hbefore, hsm⟩ := hout hoffered
      exact ⟨s, (hexact s).mp hs, hsm, hbefore⟩
    · intro hfirst m
      constructor
      · intro hm
        obtain ⟨hoffered, hfree⟩ := (mem_collectMembers h).mp hm
        refine ⟨hoffered, ?_⟩
        intro r hr hne hrm
        obtain ⟨s, hs, hsm, hbefore⟩ := hfirst m hoffered ⟨r, hr, hne, hrm⟩
        exact hfree s (mem_collectMembers_of_keeps h hrival hs) hbefore hsm
      · intro hm
        exact mem_collectMembers_of_keeps h hrival hm

theorem nodup_members (h : t.Listed) (ty : TypeRef) (name : Name) : (t.members ty name).Nodup := by
  unfold members
  split
  · exact (h.nodup_declaredMembers _).filter _
  · exact (collects h _ fun _ hwanted => hwanted).nodup

theorem nodup_implicitMembers (h : t.Listed) (ty : TypeRef) : (t.implicitMembers ty).Nodup := by
  unfold implicitMembers
  dsimp only
  split
  · exact (h.nodup_declaredMembers _).filter _
  · exact (collects h _ fun _ hwanted => hwanted).nodup

/-- **Members and implicit members of a class**: all that it keeps, each once, and nothing else
exactly if overriders come first. A member has rivals of its own name, an implicit member has all
members for rivals. -/
theorem members_collected (hbuilt : t.Built) {ty : TypeRef}
    (hclass : (t.flags (t.classOf ty)).isPackage = false) (name : Name) :
    t.Collects (t.members ty name) (t.classOf ty) (fun d => d.name == name)
        (fun d => d.name == name) ∧
      t.Collects (t.implicitMembers ty) (t.classOf ty) (fun d => d.flags.contains .implicit)
        (fun _ => true) := by
  have hmembers : t.members ty name = t.collectMembers (t.classOf ty) fun d => d.name == name := by
    simp [members, hclass]
  have himplicit : t.implicitMembers ty =
      t.collectMembers (t.classOf ty) fun d => d.flags.contains .implicit := by
    simp [implicitMembers, hclass]
  rw [hmembers, himplicit]
  exact ⟨collects hbuilt.listed _ fun _ h => h, collects hbuilt.listed _ fun _ _ => rfl⟩

/-! ### A line of three classes -/

namespace Lineage

def name : Name := .ofWord 8

/-- Classes 2, 3 and 4, each below the one before it. -/
def classes : Table :=
  let names : List Name := [.ofWord 9, .ofWord 10, .ofWord 11]
  let t := names.foldl (fun t c => (t.addClass .root c).2) Table.initial
  (t.addParent ⟨3⟩ ⟨2⟩).addParent ⟨4⟩ ⟨3⟩

/-- Their values 5, 6 and 7, each overriding the one before it. -/
def table : Table :=
  let owners : List SymbolId := [⟨2⟩, ⟨3⟩, ⟨4⟩]
  let t := owners.foldl (fun t c => (t.addValue c name ∅).2) classes
  (t.addOverride ⟨6⟩ ⟨5⟩).addOverride ⟨7⟩ ⟨6⟩

theorem built_classes : classes.Built :=
  .addParent (.addParent (.add (.add (.add .initial _ _ _) _ _ _) _ _ _) _ _) _ _

theorem built_table : table.Built :=
  .addOverride (.addOverride (.add (.add (.add built_classes _ _ _) _ _ _) _ _ _) _ _) _ _

end Lineage

/-- What the class in the middle of the line keeps is listed. -/
theorem members_collected_middle :
    Lineage.table.Collects (Lineage.table.members (.self ⟨3⟩) Lineage.name) ⟨3⟩
        (fun d => d.name == Lineage.name) (fun d => d.name == Lineage.name) ∧
      Lineage.table.Collects (Lineage.table.implicitMembers (.self ⟨3⟩)) ⟨3⟩
        (fun d => d.flags.contains .implicit) (fun _ => true) :=
  members_collected Lineage.built_table (by decide +kernel) Lineage.name

/-- **A member overridden through a chain is listed.** The last class overrides the value of the
middle one, which is left out; what that one overrides in turn is not. -/
theorem overridden_through_chain_listed :
    let t := Lineage.table
    let named : Declaration → Bool := fun d => d.name == Lineage.name
    (t.Built ∧ ∀ i < t.declarations.size, ∀ m ∈ t.parents ⟨i + 1⟩ ++ t.overrides ⟨i + 1⟩,
      m.index < i + 1) ∧
    t.members (.self ⟨4⟩) Lineage.name = [⟨7⟩, ⟨5⟩] ∧ ¬ t.Keeps ⟨4⟩ named named ⟨5⟩ := by
  refine ⟨⟨Lineage.built_table, by decide +kernel⟩, by decide +kernel, ?_⟩
  rintro ⟨-, hfree⟩
  have hlast : Lineage.table.Offers ⟨4⟩ (fun d => d.name == Lineage.name) ⟨7⟩ :=
    mem_offered.mp (by decide +kernel)
  have hdirect : (⟨6⟩ : SymbolId) ∈ Lineage.table.overrides ⟨7⟩ := by decide +kernel
  have hnext : (⟨5⟩ : SymbolId) ∈ Lineage.table.overrides ⟨6⟩ := by decide +kernel
  exact hfree ⟨7⟩ hlast (by decide) (.tail (.single hdirect) hnext)

end NameResolution.Table
