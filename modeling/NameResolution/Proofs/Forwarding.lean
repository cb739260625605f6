import Mathlib.Logic.Function.Iterate
import NameResolution.Table.Universe

/-!
# Aliases and values

An alias forwards to what it stands for, and the path of a value to the declared type of the value.
Questions about a type follow as many aliases in a row as `aliasLimit` says and then one value.

* `dealias_of_unaliased`: a row of aliases within the limit is followed to its end.
* `SameAnswers.of_classOf`: every question about members is a question about the class.
* `answers_forwarded`: up to the limit questions see through aliases, and through a value whose
  declared type forwards no further.
* `class_not_forwarded`: a longer row of aliases, and a value whose declared type is an alias.
-/

namespace NameResolution.Table

variable (t : Table)

/-- The symbol is an alias of a type. -/
structure IsAliasOf (sym : SymbolId) (target : TypeRef) : Prop where
  isAlias : (t.flags sym).contains .isAlias = true
  target : t.info? sym = some target

/-- The symbol is a stable value of a declared type. -/
structure IsValueOf (sym : SymbolId) (declared : TypeRef) : Prop where
  isTerm : (t.flags sym).isTerm = true
  isStable : (t.flags sym).contains .stable = true
  declared : t.info? sym = some declared

/-- Follows one link: from an alias to what it stands for, from a value to its declared type. -/
def forward? : TypeRef → Option TypeRef
  | .path sym => if (t.flags sym).isTerm then t.info? sym else none
  | ty => t.unalias? ty

/-- So many aliases in a row lead from the first type to the second, which is none. -/
def Unaliased (links : Nat) (ty last : TypeRef) : Prop :=
  (Option.bind · t.unalias?)^[links] (some ty) = some last ∧ t.unalias? last = none

/-- Every question about two types has the same answer. -/
structure SameAnswers (a b : TypeRef) : Prop where
  classOf : t.classOf a = t.classOf b
  members : ∀ name, t.members a name = t.members b name
  declared : ∀ name, t.declared a name = t.declared b name
  implicitMembers : t.implicitMembers a = t.implicitMembers b

variable {t} {ty last : TypeRef} {sym : SymbolId} {links : Nat}

/-- What a type has as members depends on its class alone. -/
theorem SameAnswers.of_classOf {a b : TypeRef} (h : t.classOf a = t.classOf b) :
    t.SameAnswers a b where
  classOf := h
  members name := by
    unfold Table.members Table.declared
    rw [h]
  declared name := by
    unfold Table.declared
    rw [h]
  implicitMembers := by
    unfold Table.implicitMembers
    rw [h]

/-! ### Rows of aliases -/

theorem dealiasWithin_eq_self (h : t.unalias? ty = none) (limit : Nat) :
    t.dealiasWithin limit ty = ty := by
  cases limit with
  | zero => rfl
  | succ limit => simp [dealiasWithin, h]

/-- A row of aliases no longer than the limit is followed to its end. -/
theorem dealiasWithin_of_unaliased {limit : Nat} (h : t.Unaliased links ty last)
    (hlimit : links ≤ limit) : t.dealiasWithin limit ty = last := by
  obtain ⟨hrow, hlast⟩ := h
  induction links generalizing ty limit with
  | zero =>
    obtain rfl := Option.some.inj hrow
    exact dealiasWithin_eq_self hlast limit
  | succ links ih =>
    obtain ⟨limit, rfl⟩ : ∃ fewer, limit = fewer + 1 := ⟨limit - 1, by omega⟩
    rw [Function.iterate_succ_apply, Option.bind_some] at hrow
    cases hnext : t.unalias? ty with
    | none =>
      -- a row that has ended goes nowhere
      have hended : (Option.bind · t.unalias?)^[links] none = none :=
        Function.iterate_fixed rfl links
      rw [hnext, hended] at hrow
      cases hrow
    | some next =>
      rw [hnext] at hrow
      unfold dealiasWithin
      rw [hnext]
      exact ih (Nat.le_of_succ_le_succ hlimit) hrow

theorem dealias_of_unaliased (h : t.Unaliased links ty last) (hlimit : links ≤ aliasLimit) :
    t.dealias ty = last :=
  dealiasWithin_of_unaliased h hlimit

/-- An alias adds a link to the row of what it stands for. -/
theorem IsAliasOf.unaliased {target : TypeRef} (h : t.IsAliasOf sym target)
    (hrow : t.Unaliased links target last) : t.Unaliased (links + 1) (.named sym) last := by
  have hnext : t.unalias? (.named sym) = some target := by
    simp [unalias?, h.isAlias, h.target]
  refine ⟨?_, hrow.2⟩
  rw [Function.iterate_succ_apply, Option.bind_some, hnext]
  exact hrow.1

/-! ### Values -/

theorem unalias?_of_forward? (h : t.forward? ty = none) : t.unalias? ty = none := by
  cases ty with
  | path sym => rfl
  | _ => exact h

/-- A type that forwards no further is about its class. -/
theorem symbol?_widen (h : t.forward? ty = none) : (t.widen ty).symbol? = ty.symbol? := by
  cases ty with
  | self sym =>
    unfold widen
    dsimp only
    split <;> rfl
  | path sym =>
    unfold widen
    dsimp only
    split
    · rename_i hterm
      have hinfo : t.info? sym = none := by simpa [forward?, hterm] using h
      rw [hinfo]
      rfl
    · rfl
  | noPrefix | named sym | error => rfl

theorem classOf_of_forward?_eq_none (h : t.forward? ty = none) :
    t.classOf ty = ty.symbol?.getD .absent := by
  unfold classOf dealias
  rw [dealiasWithin_eq_self (unalias?_of_forward? h), symbol?_widen h]

/-- From a type that is no alias a question follows one more link, if there is one. -/
theorem widen_of_forward? {next : TypeRef} (h : t.unalias? ty = none)
    (hnext : t.forward? ty = some next) : t.widen ty = next := by
  cases ty with
  | path sym =>
    have hvalue : (t.flags sym).isTerm = true ∧ t.info? sym = some next := by
      simpa [forward?] using hnext
    simp [widen, hvalue.1, hvalue.2]
  | _ => simp [forward?, h] at hnext

/-- **Questions see through a row of aliases and a value after it.** -/
theorem classOf_of_unaliased {mid : TypeRef} (hrow : t.Unaliased links ty mid)
    (hlimit : links ≤ aliasLimit) (hmid : mid = last ∨ t.forward? mid = some last)
    (hlast : t.forward? last = none) : t.classOf ty = t.classOf last := by
  rw [classOf_of_forward?_eq_none hlast]
  unfold classOf
  rw [dealias_of_unaliased hrow hlimit]
  rcases hmid with rfl | hnext
  · rw [symbol?_widen hlast]
  · rw [widen_of_forward? hrow.2 hnext]

/-- **Questions see through aliases and values.** Of an alias whose target heads a row of aliases
shorter than the limit, every question is answered as of the target. Of a value whose declared type
forwards no further, it is answered as of this type. So a row of aliases within the limit, and a
value after it, are seen through to the type they lead to. -/
theorem answers_forwarded (t : Table) :
    (∀ sym target links last, t.IsAliasOf sym target → t.Unaliased links target last →
      links < aliasLimit → t.SameAnswers (.named sym) target) ∧
    (∀ sym declared, t.IsValueOf sym declared → t.forward? declared = none →
      t.SameAnswers (.path sym) declared) ∧
    (∀ ty links mid last, t.Unaliased links ty mid → links ≤ aliasLimit →
      mid = last ∨ t.forward? mid = some last → t.forward? last = none →
      t.SameAnswers ty last) := by
  refine ⟨fun sym target links last halias hrow hlimit => ?_,
    fun sym declared hvalue hlast => ?_, fun ty links mid last hrow hlimit hmid hlast => ?_⟩
  · refine .of_classOf ?_
    unfold classOf
    rw [dealias_of_unaliased hrow (Nat.le_of_lt hlimit),
      dealias_of_unaliased (halias.unaliased hrow) hlimit]
  · have hnext : t.forward? (.path sym) = some declared := by
      simp [forward?, hvalue.isTerm, hvalue.declared]
    exact .of_classOf (classOf_of_unaliased ⟨rfl, rfl⟩ (Nat.zero_le _) (Or.inr hnext) hlast)
  · exact .of_classOf (classOf_of_unaliased hrow hlimit hmid hlast)

/-! ### Seventeen aliases -/

/-- Class 2 and a row of aliases, each of the one before it: 3 to 19. Value 20 is of the class, and
value 21 of the first alias. Alias 22 is of value 20. -/
def rowTable : Table :=
  let word (n : Nat) : Name := .ofWord (.ofNat (n + 7))
  let t := (List.range 17).foldl (fun t i => (t.addAlias .root (word (i + 1)) (.named ⟨i + 2⟩)).2)
    (initial.addClass .root (word 0)).2
  let t := ((t.addValue .root (word 18) ∅).2.addValue .root (word 19) ∅).2
  let t := (t.setInfo ⟨20⟩ (.named ⟨2⟩)).setInfo ⟨21⟩ (.named ⟨3⟩)
  (t.addAlias .root (word 20) (.path ⟨20⟩)).2

/-- The longest row that is followed: from alias 18, and from alias 22 on to the class of its
value. -/
theorem answers_forwarded_row :
    let t := rowTable
    (t.IsAliasOf ⟨18⟩ (.named ⟨17⟩) ∧ t.Unaliased 15 (.named ⟨17⟩) (.named ⟨2⟩) ∧
      t.SameAnswers (.named ⟨18⟩) (.named ⟨17⟩)) ∧
    (t.IsValueOf ⟨20⟩ (.named ⟨2⟩) ∧ t.SameAnswers (.path ⟨20⟩) (.named ⟨2⟩)) ∧
    (t.Unaliased 1 (.named ⟨22⟩) (.path ⟨20⟩) ∧ t.SameAnswers (.named ⟨22⟩) (.named ⟨2⟩)) := by
  intro t
  have halias : t.IsAliasOf ⟨18⟩ (.named ⟨17⟩) := ⟨by decide +kernel, by decide +kernel⟩
  have hrow : t.Unaliased 15 (.named ⟨17⟩) (.named ⟨2⟩) := ⟨by decide +kernel, by decide +kernel⟩
  have hvalue : t.IsValueOf ⟨20⟩ (.named ⟨2⟩) :=
    ⟨by decide +kernel, by decide +kernel, by decide +kernel⟩
  have hshort : t.Unaliased 1 (.named ⟨22⟩) (.path ⟨20⟩) := ⟨by decide +kernel, by decide +kernel⟩
  have hclass : t.forward? (.named ⟨2⟩) = none := by decide +kernel
  obtain ⟨haliases, hvalues, hrows⟩ := answers_forwarded t
  exact ⟨⟨halias, hrow, haliases _ _ _ _ halias hrow (by decide)⟩,
    ⟨hvalue, hvalues _ _ hvalue hclass⟩,
    ⟨hshort, hrows _ _ _ _ hshort (by decide) (Or.inr (by decide +kernel)) hclass⟩⟩

/-- **A row longer than the limit is cut, and so is one that follows a value.** Alias 19 heads
seventeen aliases and is answered as the last of them. Value 21 has an alias for its declared type
and is answered as this alias. Both lead to the class in the end. -/
theorem class_not_forwarded :
    let t := rowTable
    (t.IsAliasOf ⟨19⟩ (.named ⟨18⟩) ∧ t.Unaliased 16 (.named ⟨18⟩) (.named ⟨2⟩) ∧
      t.classOf (.named ⟨18⟩) = ⟨2⟩ ∧ t.classOf (.named ⟨19⟩) = ⟨3⟩) ∧
    (t.IsValueOf ⟨21⟩ (.named ⟨3⟩) ∧ t.Unaliased 1 (.named ⟨3⟩) (.named ⟨2⟩) ∧
      t.classOf (.named ⟨3⟩) = ⟨2⟩ ∧ t.classOf (.path ⟨21⟩) = ⟨3⟩) ∧
    t.forward? (.named ⟨2⟩) = none :=
  ⟨⟨⟨by decide +kernel, by decide +kernel⟩, ⟨by decide +kernel, by decide +kernel⟩,
      by decide +kernel⟩,
    ⟨⟨by decide +kernel, by decide +kernel, by decide +kernel⟩,
      ⟨by decide +kernel, by decide +kernel⟩, by decide +kernel⟩,
    by decide +kernel⟩

end NameResolution.Table
