import NameResolution.Proofs.Access.Instance

/-!
# Protected members that override

A protected symbol beyond its boundary is open from a subclass, and each symbol it overrides may
open it. On its own, such a target asks for an enclosing class that derives from the class declaring
the target (`View.Opens`). The check runs through the targets, but asks about the class declaring
the overriding symbol every time.

* `View.denial?_eq_none_iff_of_isProtected`: a protected symbol may be used if it is open from a
  subclass, or if one of the other ways to it is (`View.Barred`).
* `View.granted_of_opens_iff`: a symbol that a target opens may be used exactly if it is not
  overlooked, as happens where the class that opens the target does not derive from the class of the
  overriding symbol.
* `View.denied_overriding`: a class that may use its own member, but not what overrides it.
-/

namespace NameResolution

namespace View

variable (v : View) (cx : Context)

/-- What a protected symbol that is overridden allows by itself: the prefix conforms to the
innermost class around that derives from the one that declares it. For types any prefix will do. -/
def Opens (target : SymbolId) (pre : TypeRef) : Prop :=
  ∃ c, v.SubclassAround cx (v.program.owner target) c ∧
    ((v.program.flags target).isType = true ∨ v.conformsTo pre c.owner = true)

/-- No way but that from a subclass leads to a protected symbol: there is a prefix, which is neither
the superclass nor a self type; types are not erased; and the context is outside the boundary. -/
structure Barred (sym : SymbolId) (pre : TypeRef) (throughSuper : Bool) : Prop where
  prefixed : pre.isNoPrefix = false
  notSuper : throughSuper = false
  notSelf : pre.isSelf = false
  unerased : v.phase.isErased = false
  bounded : v.isUnbounded (v.program.accessBoundary sym) = false
  outside : v.isInsideBoundary cx sym (v.program.accessBoundary sym) = false

/-- A target that another class declares opens the symbol, and yet it is not open. -/
structure Overlooked (sym : SymbolId) (pre : TypeRef) (throughSuper : Bool) : Prop where
  barred : v.Barred cx sym pre throughSuper
  opened : ∃ target ∈ v.program.overrideChain sym,
    v.Opens cx target pre ∧ v.program.owner target ≠ v.program.owner sym
  unopened : ¬ v.OpenFromSubclass cx sym pre

variable {v cx}

section Overriding

variable {sym : SymbolId} {pre : TypeRef} {throughSuper : Bool}
  (hprotected : (v.program.flags sym).contains .isProtected = true)
include hprotected

/-- A target that the same class declares opens the symbol from a subclass. -/
theorem openFromSubclass_of_opens {target : SymbolId}
    (htarget : target ∈ v.program.overrideChain sym) (hopens : v.Opens cx target pre)
    (howner : v.program.owner target = v.program.owner sym) : v.OpenFromSubclass cx sym pre := by
  obtain ⟨c, haround, hconforms⟩ := hopens
  rw [howner] at haround
  exact ⟨hprotected, c, haround, target, htarget, hconforms⟩

theorem protectedChainDenial?_eq_none_iff_open (boundary : SymbolId) :
    v.protectedChainDenial? cx sym pre boundary = none ↔ v.OpenFromSubclass cx sym pre := by
  rw [protectedChainDenial?_eq_none_iff]
  simp only [protectedDenial?_eq_none_iff]
  constructor
  · rintro ⟨target, htarget, c, hc, hopens⟩
    exact ⟨hprotected, c, hc, target, htarget, hopens⟩
  · rintro ⟨-, c, hc, target, htarget, hopens⟩
    exact ⟨target, htarget, c, hc, hopens⟩

variable (hshared : (v.program.flags sym).contains .instanceOnly = false)
include hshared

/-- **A protected symbol may be used unless all other ways are barred and no subclass opens it.** -/
theorem denial?_eq_none_iff_of_isProtected :
    v.denial? cx sym pre throughSuper = none ↔
      (v.Barred cx sym pre throughSuper → v.OpenFromSubclass cx sym pre) := by
  have hallows : v.instanceAllows sym pre = true := by simp [instanceAllows, hshared]
  rw [← protectedChainDenial?_eq_none_iff_open hprotected (v.program.accessBoundary sym)]
  unfold denial?
  dsimp only
  rw [hallows, hprotected, Bool.and_true, if_pos rfl]
  split
  · rename_i hopen
    refine iff_of_true rfl fun hbarred => absurd hopen ?_
    simp [hbarred.prefixed, hbarred.bounded]
  · rename_i hclosed
    split
    · rename_i hinside
      exact iff_of_true rfl fun hbarred => absurd hinside (by simp [hbarred.outside])
    · rename_i houtside
      split
      · rename_i hexcepted
        refine iff_of_true rfl fun hbarred => absurd hexcepted ?_
        simp [hbarred.notSuper, hbarred.notSelf, hbarred.unerased]
      · rename_i hordinary
        simp only [Bool.or_eq_true, not_or, Bool.not_eq_true] at hclosed houtside hordinary
        have hbarred : v.Barred cx sym pre throughSuper :=
          ⟨hclosed.1, hordinary.1.1, hordinary.1.2, hordinary.2, hclosed.2, houtside⟩
        exact ⟨fun hopen _ => hopen, fun hopen => hopen hbarred⟩

/-- **A protected symbol that a target opens may be used exactly if it is not overlooked.** The
searches outward are taken to end (`Table.Settles`). -/
theorem granted_of_opens_iff :
    ((∃ target ∈ v.program.overrideChain sym, v.Opens cx target pre) →
        v.denial? cx sym pre throughSuper = none) ↔
      ¬ v.Overlooked cx sym pre throughSuper := by
  rw [denial?_eq_none_iff_of_isProtected hprotected hshared]
  constructor
  · rintro hgranted ⟨hbarred, ⟨target, htarget, hopens, -⟩, hunopened⟩
    exact hunopened (hgranted ⟨target, htarget, hopens⟩ hbarred)
  · rintro hnot ⟨target, htarget, hopens⟩ hbarred
    by_contra hunopened
    -- Had the symbol the owner of the target, it would be open with it.
    have hother : v.program.owner target ≠ v.program.owner sym := fun howner =>
      hunopened (openFromSubclass_of_opens hprotected htarget hopens howner)
    exact hnot ⟨hbarred, ⟨target, htarget, hopens, hother⟩, hunopened⟩

end Overriding

end View

/-! ### A class, a subclass, and a subclass of that -/

namespace Overriding

/-- Class 2, class 3 below it and class 4 below that one. Method 5 of class 2 is protected, and so
is method 6 of class 3, which overrides it. -/
def table : Table :=
  let t := ((Table.initial.addClass .root (.ofWord 9)).2.addClass .root (.ofWord 10)).2
  let t := ((t.addClass .root (.ofWord 11)).2.addParent ⟨3⟩ ⟨2⟩).addParent ⟨4⟩ ⟨3⟩
  let t := (t.addMethod ⟨2⟩ Sample.name (.ofList [.isProtected])).2
  ((t.addMethod ⟨3⟩ Sample.name (.ofList [.isProtected])).2).addOverride ⟨6⟩ ⟨5⟩

def view (cls : SymbolId) : View :=
  (Instances.body cls).view table.toUniverse (Sample.store #[])

end Overriding

/-- In the lowest class the method that overrides is open, so it is not overlooked. -/
theorem View.granted_of_opens_iff_lowest :
    let v := Overriding.view ⟨4⟩
    let cx := Instances.body ⟨4⟩
    ((v.program.flags ⟨6⟩).contains .isProtected = true ∧
      (v.program.flags ⟨6⟩).contains .instanceOnly = false) ∧
      v.isInsideBoundary cx ⟨6⟩ (v.program.accessBoundary ⟨6⟩) = false ∧
      ¬ v.Overlooked cx ⟨6⟩ (.named ⟨4⟩) false :=
  ⟨by decide +kernel, by decide +kernel,
    (granted_of_opens_iff (by decide +kernel) (by decide +kernel)).mp fun _ => by decide +kernel⟩

/-- **Inside a class, a protected member may no longer be used where a subclass overrides it.** The
class opens the overridden method, which may be used with the same prefix. -/
theorem View.denied_overriding :
    let v := Overriding.view ⟨2⟩
    let cx := Instances.body ⟨2⟩
    ((v.program.flags ⟨6⟩).contains .isProtected = true ∧
      (v.program.flags ⟨6⟩).contains .instanceOnly = false) ∧
      (⟨5⟩ ∈ v.program.overrideChain ⟨6⟩ ∧ v.Opens cx ⟨5⟩ (.named ⟨3⟩)) ∧
      v.denial? cx ⟨5⟩ (.named ⟨3⟩) false = none ∧
      v.denial? cx ⟨6⟩ (.named ⟨3⟩) false = some (.noSubclass ⟨6⟩ ⟨2⟩ ⟨3⟩) := by
  refine ⟨by decide +kernel, ⟨by decide +kernel, Instances.body ⟨2⟩, ?_, ?_⟩, by decide +kernel⟩
  · exact ⟨⟨[], [Sample.root], by decide +kernel, fun _ h => nomatch h⟩, by decide +kernel⟩
  · exact Or.inr (by decide +kernel)

end NameResolution
