import NameResolution.Proofs.Access
import NameResolution.Proofs.Lookup.Arbitration

/-!
# Members restricted to their instance

A private or protected member may be restricted further, to the instance it is selected from. Two
ways lead to a protected member, and only the one through the boundary asks for the instance:

* `accessBoundary_eq_owner`, `instanceAllows_iff`: the boundary of such a member is the class that
  declares it, and inside it the prefix has to be the self type.
* `protectedChainDenial?_eq_none_iff`: from a subclass the prefix only has to conform to that
  subclass.
* `exists_denial_instanceOnly_iff`: a prefix of another instance is denied exactly if the second way
  is not open. It never is for a member that is private and not protected.
* `granted_other_instance`: a protected member of another instance, used inside a subclass.
-/

namespace NameResolution

/-- What is private or protected without naming a place is bounded by the class that declares it. -/
theorem Universe.accessBoundary_eq_owner {u : Universe} {sym : SymbolId}
    (hrestricted : (u.flags sym).contains .isPrivate = true ∨
      (u.flags sym).contains .isProtected = true)
    (hplace : (u.accessQualifier sym).isPresent = false) :
    u.accessBoundary sym = u.owner sym := by
  unfold accessBoundary
  rcases hrestricted with hprivate | hprotected
  · simp [hprivate]
  · simp [hplace, hprotected]

/-- Classes and objects are no terms. -/
theorem Flags.isTerm_of_isClass {flags : Flags} (h : flags.isClass = true) :
    flags.isTerm = false := by
  simp only [isClass, SwitchSet.containsAny, List.any_cons, List.any_nil, Bool.or_false,
    Bool.or_eq_true] at h
  rcases h with h | h <;> simp [isTerm, SwitchSet.containsAny, h]

namespace View

variable {v : View} {cx : Context}

/-! ### Through the boundary -/

theorem isUnbounded_of_isClass {boundary : SymbolId} (hroot : boundary ≠ .root)
    (hclass : (v.program.flags boundary).isClass = true) : v.isUnbounded boundary = false := by
  simp [isUnbounded, hroot, Flags.isTerm_of_isClass hclass]

/-- A prefix that is no self type reaches a restricted member only if it denotes the instance. -/
theorem instanceAllows_iff {sym : SymbolId} {pre : TypeRef}
    (hinstance : (v.program.flags sym).contains .instanceOnly = true) (hself : pre.isSelf = false) :
    v.instanceAllows sym pre = true ↔
      v.program.isSameType pre (.self (v.program.owner sym)) = true := by
  simp [instanceAllows, Universe.isSelfOfSubclass, hinstance, hself]

/-! ### From a subclass -/

variable (v cx)

/-- The innermost class around the context that derives from another. -/
structure SubclassAround (base : SymbolId) (c : Context) : Prop where
  innermost : ∃ inner outer, cx.classContexts = inner ++ c :: outer ∧
    ∀ d ∈ inner, v.program.isSubclass d.owner base = false
  derives : v.program.isSubclass c.owner base = true

/-- A protected symbol is open to a prefix from a subclass: the prefix conforms to the innermost
class around that derives from the one that declares the symbol. For types any prefix will do. -/
structure OpenFromSubclass (sym : SymbolId) (pre : TypeRef) : Prop where
  isProtected : (v.program.flags sym).contains .isProtected = true
  opens : ∃ c, v.SubclassAround cx (v.program.owner sym) c ∧
    ∃ target ∈ v.program.overrideChain sym,
      (v.program.flags target).isType = true ∨ v.conformsTo pre c.owner = true

variable {v cx}

theorem enclosingSubclass?_eq_some_iff {base accessed : SymbolId} :
    v.enclosingSubclass? cx base = some accessed ↔
      ∃ c, v.SubclassAround cx base c ∧ c.owner = accessed := by
  unfold enclosingSubclass?
  rw [Option.map_eq_some_iff]
  refine exists_congr fun c => and_congr_left fun _ => ?_
  rw [List.find?_eq_some_iff_append]
  constructor
  · rintro ⟨hderives, inner, outer, hsplit, hinner⟩
    exact ⟨⟨inner, outer, hsplit, fun d hd => by simpa using hinner d hd⟩, hderives⟩
  · rintro ⟨⟨inner, outer, hsplit, hinner⟩, hderives⟩
    exact ⟨hderives, inner, outer, hsplit, fun d hd => by simpa using hinner d hd⟩

theorem protectedDenial?_eq_none_iff {sym target : SymbolId} {pre : TypeRef} :
    v.protectedDenial? cx sym target pre = none ↔
      ∃ c, v.SubclassAround cx (v.program.owner sym) c ∧
        ((v.program.flags target).isType = true ∨ v.conformsTo pre c.owner = true) := by
  have haround := @enclosingSubclass?_eq_some_iff v cx (v.program.owner sym)
  cases hsubclass : v.enclosingSubclass? cx (v.program.owner sym) with
  | none =>
    refine iff_of_false (by simp [protectedDenial?, hsubclass]) ?_
    rintro ⟨c, hc, -⟩
    rw [haround.mpr ⟨c, hc, rfl⟩] at hsubclass
    cases hsubclass
  | some accessed =>
    obtain ⟨c, hc, rfl⟩ := haround.mp hsubclass
    simp only [protectedDenial?, hsubclass, Bool.or_eq_true, ite_eq_left_iff, reduceCtorEq,
      imp_false, not_not]
    constructor
    · exact fun h => ⟨c, hc, h⟩
    · rintro ⟨d, hd, h⟩
      -- There is one innermost class that derives.
      have howner := haround.mpr ⟨d, hd, rfl⟩
      rw [hsubclass] at howner
      rwa [Option.some.inj howner]

/-- **The chain of overridden symbols opens a symbol if one of them does.** -/
theorem protectedChainDenial?_eq_none_iff {sym boundary : SymbolId} {pre : TypeRef} :
    v.protectedChainDenial? cx sym pre boundary = none ↔
      ∃ target ∈ v.program.overrideChain sym, v.protectedDenial? cx sym target pre = none := by
  unfold protectedChainDenial?
  simp [eq_comm]

/-! ### Prefixes of another instance -/

section OtherInstance

variable {sym : SymbolId} {pre : TypeRef}
  (hinstance : (v.program.flags sym).contains .instanceOnly = true)
  (hrestricted : (v.program.flags sym).contains .isPrivate = true ∨
    (v.program.flags sym).contains .isProtected = true)
  (hplace : (v.program.accessQualifier sym).isPresent = false)
  (hclass : (v.program.flags (v.program.owner sym)).isClass = true)
  (hroot : v.program.owner sym ≠ .root) (hphase : v.phase.isErased = false)
  (hpre : pre.isNoPrefix = false) (hself : pre.isSelf = false)
  (hother : v.program.isSameType pre (.self (v.program.owner sym)) = false)
include hinstance hrestricted hplace hclass hroot hphase hpre hself hother

/-- Inside its boundary nothing opens a restricted member to a prefix of another instance, so what
is left is the way from a subclass. -/
theorem denial?_instanceOnly :
    v.denial? cx sym pre false =
      if (v.program.flags sym).contains .isProtected then
        v.protectedChainDenial? cx sym pre (v.program.owner sym)
      else some (.outside sym (v.program.owner sym)) := by
  have hdisallowed : v.instanceAllows sym pre = false :=
    Bool.eq_false_iff.mpr fun h => by
      rw [instanceAllows_iff hinstance hself, hother] at h
      cases h
  unfold denial?
  simp [Universe.accessBoundary_eq_owner hrestricted hplace, isUnbounded_of_isClass hroot hclass,
    hpre, hdisallowed, hself, hphase]

/-- **A prefix of another instance is denied exactly if no subclass opens the member.** The searches
outward are taken to end (`Table.Settles`). -/
theorem exists_denial_instanceOnly_iff :
    (∃ denial, v.denial? cx sym pre false = some denial) ↔ ¬ v.OpenFromSubclass cx sym pre := by
  rw [← Option.isSome_iff_exists, ← Option.ne_none_iff_isSome, not_iff_not,
    denial?_instanceOnly hinstance hrestricted hplace hclass hroot hphase hpre hself hother]
  cases hprotected : (v.program.flags sym).contains .isProtected with
  | false =>
    refine iff_of_false (fun h => nomatch h) fun hopen => ?_
    rw [hopen.isProtected] at hprotected
    cases hprotected
  | true =>
    rw [if_pos rfl, protectedChainDenial?_eq_none_iff]
    simp only [protectedDenial?_eq_none_iff]
    constructor
    · rintro ⟨target, htarget, c, hc, hopens⟩
      exact ⟨hprotected, c, hc, target, htarget, hopens⟩
    · rintro ⟨-, c, hc, target, htarget, hopens⟩
      exact ⟨target, htarget, c, hc, hopens⟩

end OtherInstance

end View

/-! ### A class and a subclass -/

namespace Instances

/-- Class 2 with the class 3 below it, a value 4 of class 2 with the given flags, and a value 5 of
the root package that is an instance of class 3. -/
def table (flags : Flags) : Table :=
  let t := ((Table.initial.addClass .root (.ofWord 9)).2.addClass .root (.ofWord 10)).2
  let t := (t.addParent ⟨3⟩ ⟨2⟩).addValue ⟨2⟩ Sample.name flags |>.2
  (t.addValue .root (.ofWord 11) ∅).2.setInfo ⟨5⟩ (.named ⟨3⟩)

def body (cls : SymbolId) : Context := (Sample.root.make .template cls 1 (Sample.store #[])).1

def view (cls : SymbolId) (flags : Flags) : View :=
  (body cls).view (table flags).toUniverse (Sample.store #[])

end Instances

/-- A value private to the instance, selected from another instance inside the class. -/
theorem View.exists_denial_instanceOnly_private :
    let flags : Flags := .ofList [.isPrivate, .instanceOnly]
    ∃ denial,
      (Instances.view ⟨2⟩ flags).denial? (Instances.body ⟨2⟩) ⟨4⟩ (.path ⟨5⟩) false = some denial :=
  (exists_denial_instanceOnly_iff (by decide) (by decide) (by decide) (by decide) (by decide)
    (by decide) rfl rfl (by decide)).mpr fun hopen => absurd hopen.isProtected (by decide)

/-- **A value protected and restricted to its instance may be used from another instance inside a
subclass.** -/
theorem View.granted_other_instance :
    let flags : Flags := .ofList [.isProtected, .instanceOnly]
    let v := Instances.view ⟨3⟩ flags
    v.program.owner ⟨4⟩ = ⟨2⟩ ∧ v.program.isSameType (.path ⟨5⟩) (.self ⟨2⟩) = false ∧
      v.denial? (Instances.body ⟨3⟩) ⟨4⟩ (.path ⟨5⟩) false = none := by
  decide +kernel

end NameResolution
