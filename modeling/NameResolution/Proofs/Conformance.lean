import NameResolution.Proofs.Hierarchy
import NameResolution.Table.Universe

/-!
# Conformance of types

Two relations between types: they are the same, or the first is a subtype of the second. Both look
at what the types stand for. `Agree` says when two such types denote the same, and
`derivingClass?` which class is asked for a base class on the way to a proper supertype.

* `isSameType_iff`, `isSubtype_iff`: the two tests in these terms.
* `Agree.symm`, `Agree.trans`: the laws of the parts.
* `lawful`: the tests are an equivalence and a preorder that contains it, but for one thing. An
  object or a package is denoted by its self type and by its path, and only the self type is asked
  for its base classes. The theorem says of each law where this gets in its way (`Overlooked`).
* `path_not_isSubtype`: an object that is not found to conform to its own superclass.
-/

namespace NameResolution.Table

variable (t : Table)

/-- A package or an object, the one instance of itself. -/
def IsSingleton (sym : SymbolId) : Prop :=
  ((t.flags sym).isPackage || (t.flags sym).isObject) = true

/-- Two types that are no aliases denote the same, which an erroneous type never does. -/
inductive Agree : TypeRef → TypeRef → Prop where
  | refl {ty : TypeRef} (hproper : ty ≠ .error) : Agree ty ty
  | selfPath {sym : SymbolId} (h : t.IsSingleton sym) : Agree (.self sym) (.path sym)
  | pathSelf {sym : SymbolId} (h : t.IsSingleton sym) : Agree (.path sym) (.self sym)

/-- The class whose base classes are the proper supertypes of a type. -/
def derivingClass? (ty : TypeRef) : Option SymbolId :=
  match t.widen (t.dealias ty) with
  | .named sym | .self sym => some sym
  | _ => none

/-- The first type is the path of a package or an object, and the second a base class of it. -/
def Overlooked (sub sup : TypeRef) : Prop :=
  ∃ sym base, t.dealias sub = .path sym ∧ t.IsSingleton sym ∧ t.dealias sup = .named base ∧
    t.isSubclass sym base = true

variable {t} {a b c : TypeRef} {sym base : SymbolId}

/-! ### Denoting the same -/

namespace Agree

theorem symm (h : t.Agree a b) : t.Agree b a := by
  cases h with
  | refl hproper => exact .refl hproper
  | selfPath hsym => exact .pathSelf hsym
  | pathSelf hsym => exact .selfPath hsym

theorem trans (hab : t.Agree a b) (hbc : t.Agree b c) : t.Agree a c := by
  cases hab with
  | refl => exact hbc
  | selfPath hsym =>
    cases hbc with
    | refl => exact .selfPath hsym
    | pathSelf => exact .refl fun h => nomatch h
  | pathSelf hsym =>
    cases hbc with
    | refl => exact .pathSelf hsym
    | selfPath => exact .refl fun h => nomatch h

/-- A class by name denotes the same as no other type. -/
theorem eq_named (h : t.Agree a (.named base)) : a = .named base := by
  cases h
  rfl

end Agree

theorem isSameType_iff : t.isSameType a b = true ↔ t.Agree (t.dealias a) (t.dealias b) := by
  unfold isSameType
  generalize t.dealias a = x, t.dealias b = y
  constructor
  · intro h
    split at h
    · exact .refl fun h => nomatch h
    · obtain rfl := eq_of_beq h
      exact .refl fun h => nomatch h
    · obtain rfl := eq_of_beq h
      exact .refl fun h => nomatch h
    · obtain rfl := eq_of_beq h
      exact .refl fun h => nomatch h
    · obtain ⟨hsame, hsym⟩ := Bool.and_eq_true_iff.mp h
      obtain rfl := eq_of_beq hsame
      exact .selfPath hsym
    · obtain ⟨hsame, hsym⟩ := Bool.and_eq_true_iff.mp h
      obtain rfl := eq_of_beq hsame
      exact .pathSelf hsym
    · cases h
  · intro h
    cases h with
    | refl hproper => cases x <;> simp at hproper ⊢
    | selfPath hsym => exact Bool.and_eq_true_iff.mpr ⟨beq_self_eq_true _, hsym⟩
    | pathSelf hsym => exact Bool.and_eq_true_iff.mpr ⟨beq_self_eq_true _, hsym⟩

/-! ### Supertypes -/

theorem isSubtype_iff : t.isSubtype a b = true ↔ t.isSameType a b = true ∨
    ∃ sym base, t.derivingClass? a = some sym ∧ t.dealias b = .named base ∧
      t.isSubclass sym base = true := by
  unfold isSubtype derivingClass?
  rw [Bool.or_eq_true]
  refine or_congr_right ?_
  cases t.widen (t.dealias a) <;> cases t.dealias b <;> simp

/-- The path of a package or an object is not widened, so no class is asked. -/
theorem derivingClass?_path (hpath : t.dealias a = .path sym) (hsym : t.IsSingleton sym) :
    t.derivingClass? a = none := by
  have hterm : (t.flags sym).isTerm = false := by
    simp only [IsSingleton, Bool.or_eq_true, Flags.isPackage, Flags.isObject] at hsym
    rcases hsym with h | h <;> simp [Flags.isTerm, SwitchSet.containsAny, h]
  unfold derivingClass?
  rw [hpath]
  simp [widen, hterm]

theorem derivingClass?_self (hself : t.dealias a = .self sym) : t.derivingClass? a = some sym := by
  unfold derivingClass?
  rw [hself, widen]
  by_cases hclass : (t.flags sym).contains .isClass <;> simp [hclass]

theorem derivingClass?_named (hnamed : t.dealias a = .named sym) :
    t.derivingClass? a = some sym := by
  unfold derivingClass?
  rw [hnamed]
  rfl

/-- What is overlooked is not found to be a subtype. -/
theorem Overlooked.not_isSubtype (h : t.Overlooked a b) : ¬ t.isSubtype a b = true := by
  obtain ⟨sym, base, hpath, hsym, hnamed, -⟩ := h
  rw [isSubtype_iff, isSameType_iff, hpath, hnamed, derivingClass?_path hpath hsym]
  rintro (hagree | ⟨_, _, hnone, -⟩)
  · cases hagree.eq_named
  · cases hnone

/-! ### Supertypes, those that are overlooked among them -/

/-- A type is found to be a subtype, or should have been. -/
def Conforms (t : Table) (sub sup : TypeRef) : Prop :=
  t.isSubtype sub sup = true ∨ t.Overlooked sub sup

theorem Conforms.isSubtype_iff (h : t.Conforms a b) :
    t.isSubtype a b = true ↔ ¬ t.Overlooked a b :=
  ⟨fun hfound hmissed => hmissed.not_isSubtype hfound, h.resolve_right⟩

theorem conforms_of_derivingClass? (hclass : t.derivingClass? a = some sym)
    (hnamed : t.dealias b = .named base) (hsubclass : t.isSubclass sym base = true) :
    t.Conforms a b :=
  Or.inl (Table.isSubtype_iff.mpr (Or.inr ⟨sym, base, hclass, hnamed, hsubclass⟩))

theorem conforms_of_agree (h : t.Agree (t.dealias a) (t.dealias b)) : t.Conforms a b :=
  Or.inl (Table.isSubtype_iff.mpr (Or.inl (isSameType_iff.mpr h)))

/-- **Types that denote the same conform to the same types.** -/
theorem Conforms.of_agree (h : t.Agree (t.dealias a) (t.dealias b)) (hbc : t.Conforms b c) :
    t.Conforms a c := by
  rcases hbc with hfound | ⟨sym, base, hpath, hsym, hnamed, hsubclass⟩
  · rcases Table.isSubtype_iff.mp hfound with hsame | ⟨sym, base, hclass, hnamed, hsubclass⟩
    · exact conforms_of_agree (h.trans (isSameType_iff.mp hsame))
    · generalize hx : t.dealias a = x, hy : t.dealias b = y at h
      cases h with
      | refl =>
        have hown : t.derivingClass? a = some sym := by
          rw [← hclass, derivingClass?, derivingClass?, hx, hy]
        exact conforms_of_derivingClass? hown hnamed hsubclass
      | selfPath hsym =>
        -- no class was asked for the path
        rw [derivingClass?_path hy hsym] at hclass
        cases hclass
      | pathSelf hsym =>
        obtain rfl := Option.some.inj ((derivingClass?_self hy).symm.trans hclass)
        exact Or.inr ⟨_, base, hx, hsym, hnamed, hsubclass⟩
  · rw [hpath] at h
    generalize hx : t.dealias a = x at h
    cases h with
    | refl => exact Or.inr ⟨sym, base, hx, hsym, hnamed, hsubclass⟩
    | selfPath => exact conforms_of_derivingClass? (derivingClass?_self hx) hnamed hsubclass

/-- A class by name conforms only to classes by name, and these are base classes of all it is a base
class of. -/
theorem Conforms.base_of_named (h : t.Conforms a b) (hnamed : t.dealias a = .named base) :
    ∃ last, t.dealias b = .named last ∧
      ∀ sym, t.isSubclass sym base = true → t.isSubclass sym last = true := by
  rcases h with hfound | ⟨_, _, hpath, -⟩
  · rcases Table.isSubtype_iff.mp hfound with hsame | ⟨sym, last, hclass, hlast, hsubclass⟩
    · have hagree := (isSameType_iff.mp hsame).symm
      rw [hnamed] at hagree
      exact ⟨base, hagree.eq_named, fun _ h => h⟩
    · obtain rfl := Option.some.inj ((derivingClass?_named hnamed).symm.trans hclass)
      exact ⟨last, hlast, fun _ h => isSubclass_trans h hsubclass⟩
  · rw [hnamed] at hpath
    cases hpath

theorem Conforms.trans (hab : t.Conforms a b) (hbc : t.Conforms b c) : t.Conforms a c := by
  rcases hab with hfound | ⟨sym, base, hpath, hsym, hnamed, hsubclass⟩
  · rcases Table.isSubtype_iff.mp hfound with hsame | ⟨sym, base, hclass, hnamed, hsubclass⟩
    · exact hbc.of_agree (isSameType_iff.mp hsame)
    · obtain ⟨last, hlast, hfurther⟩ := hbc.base_of_named hnamed
      exact conforms_of_derivingClass? hclass hlast (hfurther sym hsubclass)
  · obtain ⟨last, hlast, hfurther⟩ := hbc.base_of_named hnamed
    exact Or.inr ⟨sym, last, hpath, hsym, hlast, hfurther sym hsubclass⟩

/-- What is overlooked is overlooked under every type that denotes the same base class. -/
theorem Overlooked.of_agree (h : t.Overlooked a b) (hagree : t.Agree (t.dealias b) (t.dealias c)) :
    t.Overlooked a c := by
  obtain ⟨sym, base, hpath, hsym, hnamed, hsubclass⟩ := h
  rw [hnamed] at hagree
  exact ⟨sym, base, hpath, hsym, hagree.symm.eq_named, hsubclass⟩

/-! ### The laws -/

/-- The laws of sameness and conformance. Where the path of a package or an object stands for the
first type, the base classes it is not asked for are the exceptions, and there are no others. -/
structure Lawful (t : Table) : Prop where
  same_refl : ∀ a, t.dealias a ≠ .error → t.isSameType a a = true
  same_symm : ∀ a b, t.isSameType a b = true → t.isSameType b a = true
  same_trans : ∀ a b c, t.isSameType a b = true → t.isSameType b c = true → t.isSameType a c = true
  subtype_of_same : ∀ a b, t.isSameType a b = true → t.isSubtype a b = true
  subtype_refl : ∀ a, t.dealias a ≠ .error → t.isSubtype a a = true
  subtype_trans : ∀ a b c, t.isSubtype a b = true → t.isSubtype b c = true →
    (t.isSubtype a c = true ↔ ¬ t.Overlooked a c)
  /-- The second type may be replaced by one that is the same. -/
  congr_right : ∀ a b c, t.isSameType b c = true → t.isSubtype a b = t.isSubtype a c
  /-- So may the first. -/
  congr_left : ∀ a b c, t.isSameType a b = true →
    (t.isSubtype a c = t.isSubtype b c ↔ (t.Overlooked a c ↔ t.Overlooked b c))
  /-- A package or an object and its path have the same supertypes. -/
  singleton : ∀ sym c, t.IsSingleton sym →
    (t.isSubtype (.self sym) c = t.isSubtype (.path sym) c ↔ ¬ t.Overlooked (.path sym) c)

theorem isSameType_symm (h : t.isSameType a b = true) : t.isSameType b a = true :=
  isSameType_iff.mpr (isSameType_iff.mp h).symm

/-- The first type may be replaced by one that is the same, unless the path of a package or an
object is overlooked on one side only. -/
theorem isSubtype_congr_left (h : t.isSameType a b = true) :
    t.isSubtype a c = t.isSubtype b c ↔ (t.Overlooked a c ↔ t.Overlooked b c) := by
  have hagree := isSameType_iff.mp h
  have hconforms : t.Conforms a c ↔ t.Conforms b c :=
    ⟨.of_agree hagree.symm, .of_agree hagree⟩
  have hfound : ∀ x, t.isSubtype x c = true ↔ t.Conforms x c ∧ ¬ t.Overlooked x c := by
    intro x
    constructor
    · exact fun hx => ⟨Or.inl hx, fun hmissed => hmissed.not_isSubtype hx⟩
    · exact fun hx => hx.1.resolve_right hx.2
  have hmissed : ∀ x, t.Overlooked x c → t.Conforms x c := fun x => Or.inr
  rw [Bool.eq_iff_iff, hfound a, hfound b, hconforms]
  have ha := hmissed a
  have hb := hmissed b
  tauto

/-- **Sameness is an equivalence and conformance a preorder that contains it,** but for the base
classes that the path of a package or an object is not asked for. -/
theorem lawful (t : Table) : t.Lawful where
  same_refl a hproper := isSameType_iff.mpr (.refl hproper)
  same_symm a b := isSameType_symm
  same_trans a b c hab hbc := isSameType_iff.mpr
    ((isSameType_iff.mp hab).trans (isSameType_iff.mp hbc))
  subtype_of_same a b h := isSubtype_iff.mpr (Or.inl h)
  subtype_refl a hproper := isSubtype_iff.mpr (Or.inl (isSameType_iff.mpr (.refl hproper)))
  subtype_trans a b c hab hbc := (Conforms.trans (Or.inl hab) (Or.inl hbc)).isSubtype_iff
  congr_right a b c h := by
    have hagree := isSameType_iff.mp h
    have hreplace : ∀ {x y}, t.Agree (t.dealias x) (t.dealias y) → t.isSubtype a x = true →
        t.isSubtype a y = true := by
      intro x y hxy hax
      have hay : t.Conforms a y := Conforms.trans (Or.inl hax) (conforms_of_agree hxy)
      exact hay.isSubtype_iff.mpr fun hmissed => (hmissed.of_agree hxy.symm).not_isSubtype hax
    exact Bool.eq_iff_iff.mpr ⟨hreplace hagree, hreplace hagree.symm⟩
  congr_left a b c h := isSubtype_congr_left h
  singleton sym c hsym := by
    have hself : ¬ t.Overlooked (.self sym) c := by
      rintro ⟨_, _, hpath, -⟩
      cases hpath
    have hsame : t.isSameType (.self sym) (.path sym) = true := isSameType_iff.mpr (.selfPath hsym)
    rw [isSubtype_congr_left hsame]
    exact ⟨fun h hmissed => hself (h.mpr hmissed), fun h => iff_of_false hself h⟩

/-! ### An object below a class -/

/-- Class 2, and object 3 below it. -/
def objectTable : Table :=
  (((initial.addClass .root (.ofWord 9)).2.addObject .root (.ofWord 10)).2).addParent ⟨3⟩ ⟨2⟩

/-- **An object is not found to conform to its superclass by its path.** Its self type is, and the
two are the same type. -/
theorem path_not_isSubtype :
    let t := objectTable
    (t.dealias (.path ⟨3⟩) ≠ .error ∧ t.dealias (.self ⟨3⟩) ≠ .error ∧
      t.dealias (.named ⟨2⟩) ≠ .error) ∧
      t.isSameType (.path ⟨3⟩) (.self ⟨3⟩) = true ∧ t.isSubtype (.path ⟨3⟩) (.self ⟨3⟩) = true ∧
      t.isSubtype (.self ⟨3⟩) (.named ⟨2⟩) = true ∧
      t.isSubtype (.path ⟨3⟩) (.named ⟨2⟩) = false := by
  decide +kernel

end NameResolution.Table
