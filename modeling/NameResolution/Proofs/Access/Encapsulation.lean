import NameResolution.Proofs.Access.Instance
import NameResolution.Proofs.Declarations
import NameResolution.Proofs.Hierarchy
import NameResolution.Proofs.Lookup.Soundness

/-!
# Private members

What is private to a class, an object or a package may be used inside it or inside its companion and
nowhere else. Where a context is, is a matter of its owner and of the owners of that
(`Universe.LiesIn`, `Context.IsInside`).

* `View.denial?_eq_none_iff_of_private`: a private member has no way to it but the one through its
  boundary.
* `View.isInside_of_granted`: so whoever may use it is inside.
* `Context.lookup_private`: no lookup gets to it from outside, neither among the members of a class
  nor through an import. Constructors are looked up without asking for access: what decides there is
  the class around the context.
* `Context.lookup_private_constructor`: a context in the body of a class that lies outside it by its
  owner.
-/

namespace NameResolution

/-! ### Inside a symbol -/

namespace Universe

variable (u : Universe)

/-- A symbol is another or lies in it: the other owns it, or owns what it lies in. -/
def LiesIn : SymbolId → SymbolId → Prop :=
  Relation.ReflTransGen fun sym owner => sym.isPresent = true ∧ u.owner sym = owner

/-- A member that is private, and not protected besides, of a class, an object or a package other
than the root package. -/
structure PrivateTo (sym cls : SymbolId) : Prop where
  isPrivate : (u.flags sym).contains .isPrivate = true
  unprotected : (u.flags sym).contains .isProtected = false
  owned : u.owner sym = cls
  encloses : (u.flags cls).isClass = true ∨ (u.flags cls).isPackage = true
  notRoot : cls ≠ .root

variable {u}

theorem liesIn_of_mem_ownersWithin {limit : Nat} {sym outer : SymbolId}
    (h : outer ∈ u.ownersWithin limit sym) : u.LiesIn sym outer := by
  induction limit generalizing sym with
  | zero => cases h
  | succ limit ih =>
    unfold ownersWithin at h
    split at h
    · rename_i hpresent
      rcases List.mem_cons.mp h with rfl | h
      · exact .refl
      · exact .head ⟨hpresent, rfl⟩ (ih h)
    · cases h

theorem PrivateTo.accessBoundary {sym cls : SymbolId} (h : u.PrivateTo sym cls) :
    u.accessBoundary sym = cls := by
  unfold Universe.accessBoundary
  simp [h.isPrivate, h.owned]

theorem PrivateTo.isTerm {sym cls : SymbolId} (h : u.PrivateTo sym cls) :
    (u.flags cls).isTerm = false := by
  rcases h.encloses with hclass | hpackage
  · exact Flags.isTerm_of_isClass hclass
  · have hcontains : (u.flags cls).contains .package = true := hpackage
    simp [Flags.isTerm, SwitchSet.containsAny, hcontains]

end Universe

/-- The owner of the context lies in the symbol or in its companion. -/
def Context.IsInside (cx : Context) (u : Universe) (cls : SymbolId) : Prop :=
  u.LiesIn cx.owner cls ∨ (u.companion cls).isPresent = true ∧ u.LiesIn cx.owner (u.companion cls)

/-! ### Access -/

namespace View

variable {v : View} {cx : Context} {sym cls : SymbolId}

/-- Packages may end the walk to the boundary early, but never extend it. -/
theorem liesIn_of_isWithin {boundary : SymbolId} (h : v.isWithin cx sym boundary = true) :
    v.program.LiesIn cx.owner boundary := by
  suffices hmem : boundary ∈ v.program.owners cx.owner from
    Universe.liesIn_of_mem_ownersWithin hmem
  unfold isWithin at h
  dsimp only at h
  split at h
  · rcases Bool.or_eq_true_iff.mp h with hbefore | hpackage
    · exact (List.takeWhile_sublist _).mem (List.contains_iff_mem.mp hbefore)
    · exact List.mem_of_find?_eq_some (eq_of_beq hpackage)
  · exact List.contains_iff_mem.mp h

theorem isInside_of_isInsideBoundary (h : v.isInsideBoundary cx sym cls = true) :
    cx.IsInside v.program cls := by
  unfold isInsideBoundary at h
  rcases Bool.or_eq_true_iff.mp h with hwithin | hcompanion
  · exact Or.inl (liesIn_of_isWithin hwithin)
  · obtain ⟨hpresent, hwithin⟩ := Bool.and_eq_true_iff.mp hcompanion
    exact Or.inr ⟨hpresent, liesIn_of_isWithin hwithin⟩

/-- **A private member may be used inside its boundary and by nothing else.** Selection from the
superclass, self types, subclasses, erasure and what it overrides make no difference. -/
theorem denial?_eq_none_iff_of_private (hprivate : v.program.PrivateTo sym cls) {pre : TypeRef}
    (hpre : pre.isNoPrefix = false) {throughSuper : Bool} :
    v.denial? cx sym pre throughSuper = none ↔
      v.isInsideBoundary cx sym cls = true ∧ v.instanceAllows sym pre = true := by
  have hbounded : v.isUnbounded cls = false := by
    simp [isUnbounded, hprivate.notRoot, hprivate.isTerm]
  unfold denial?
  dsimp only
  rw [hprivate.accessBoundary, hpre, hbounded, hprivate.unprotected, ← Bool.and_eq_true]
  cases v.isInsideBoundary cx sym cls && v.instanceAllows sym pre <;> simp

/-- **Whoever may use a private member is inside.** -/
theorem isInside_of_granted (hprivate : v.program.PrivateTo sym cls) {pre : TypeRef}
    (hpre : pre.isNoPrefix = false) {throughSuper : Bool}
    (h : v.denial? cx sym pre throughSuper = none) : cx.IsInside v.program cls :=
  isInside_of_isInsideBoundary ((denial?_eq_none_iff_of_private hprivate hpre).mp h).1

end View

/-! ### Lookup -/

/-- Without a prefix there are no members. -/
theorem Table.isNoPrefix_of_mem_members {t : Table} {pre : TypeRef} {name : Name} {sym : SymbolId}
    (h : sym ∈ t.members pre name) : pre.isNoPrefix = false := by
  cases pre with
  | noPrefix =>
    have hnone : t.linearization .absent = [] := Table.linearization_eq_nil rfl
    unfold members declared collectMembers at h
    have hclass : t.classOf .noPrefix = .absent := rfl
    have hflags : (t.flags .absent).isPackage = false := by
      simp [Table.flags, Table.find?, SymbolId.absent, Flags.isPackage]
    rw [hclass, hflags, hnone] at h
    cases h
  | self | path | named | error => rfl

/-- The result is that of an innermost definition, which entries of a scope make. -/
def Lookup.Query.IsEntered (q : Lookup.Query) (result : LookupResult) : Prop :=
  ∃ found, q.InnermostDefinition found ∧ found.isMember = false ∧ q.definitionResult found = result

namespace Context

variable {cx : Context} {t : Table} {s : Store} {sym cls : SymbolId}

/-- What can be selected and is private is seen from inside. -/
theorem Selects.isInside {pre : TypeRef} {name : Name} (h : cx.Selects t s pre name sym)
    (hprivate : t.toUniverse.PrivateTo sym cls) : cx.IsInside t.toUniverse cls :=
  View.isInside_of_granted (v := cx.view t.toUniverse s) hprivate
    (Table.isNoPrefix_of_mem_members h.1) (Option.isNone_iff_eq_none.mp h.2)

/-- Constructors are found among those their owner declares. -/
theorem classOf_of_constructorResult (ht : t.Built) (howned : t.owner sym = cls) {name : Name}
    {qualifies : SymbolId → Bool} {qualifier : Option TypeRef} {meaning : Meaning}
    (h : (cx.query t.toUniverse name qualifies s).constructorResult =
      .succeeded qualifier meaning) (hsym : sym ∈ meaning.alternatives) :
    t.classOf (t.widen cx.enclosingClass.selfType) = cls := by
  unfold Lookup.Query.constructorResult at h
  dsimp only at h
  split at h
  · rename_i hgroup
    cases h
    rw [Meaning.alternatives_of_ofList? hgroup] at hsym
    have hdeclared : sym ∈ t.declared (t.widen cx.enclosingClass.selfType) name :=
      (List.mem_filter.mp hsym).1
    unfold Table.declared at hdeclared
    rw [← howned, ht.listed.owner_of_mem (List.mem_filter.mp hdeclared).1]
  · cases h

/-- **Private members stay inside.** They may be used inside the class that owns them or inside its
companion only. No lookup from outside resolves to one but as an entry of a scope. A lookup of
constructors does so only where the class that owns it is the one around the context. Owners are
taken to run in no circle, so that the searches outward end (`Table.Settles`). -/
theorem lookup_private (hbuilt : cx.Built) (ht : t.Built)
    (hprivate : t.toUniverse.PrivateTo sym cls) :
    (∀ pre throughSuper, pre.isNoPrefix = false →
      (cx.view t.toUniverse s).denial? cx sym pre throughSuper = none →
        cx.IsInside t.toUniverse cls) ∧
      ∀ name qualifies qualifier meaning,
        (cx.lookup t.toUniverse name qualifies s).1 = .succeeded qualifier meaning →
        sym ∈ meaning.alternatives →
          if name.isConstructor then t.classOf (t.widen cx.enclosingClass.selfType) = cls
          else cx.IsInside t.toUniverse cls ∨
            (cx.query t.toUniverse name qualifies s).IsEntered (.succeeded qualifier meaning) := by
  refine ⟨fun pre throughSuper hpre hgranted => ?_, ?_⟩
  · exact View.isInside_of_granted (v := cx.view t.toUniverse s) hprivate hpre hgranted
  · intro name qualifies qualifier meaning h hsym
    have hcarried := Lookup.Query.carried_of_run (Lookup.Query.ordered_of_grown hbuilt.grown) h
    generalize hresult : LookupResult.succeeded qualifier meaning = result at hcarried
    cases hcarried with
    | ofClass hname =>
      have hconstructor : name.isConstructor = true := hname
      rw [if_pos hconstructor]
      exact classOf_of_constructorResult ht hprivate.owned hresult.symm hsym
    | @defined found hname hdef _ =>
      have hname' : ¬ name.isConstructor = true := Bool.eq_false_iff.mp hname
      rw [if_neg hname']
      cases hmember : found.isMember with
      | false => exact Or.inr ⟨found, hdef, hmember, rfl⟩
      | true =>
        obtain ⟨-, rfl⟩ := definitionResult_eq_succeeded hresult.symm
        exact Or.inl ((selects_of_definedAs hdef.definedAs hmember hsym).2.isInside hprivate)
    | imported hname _ hprevails =>
      have hname' : ¬ name.isConstructor = true := Bool.eq_false_iff.mp hname
      rw [if_neg hname']
      cases hresult
      exact Or.inl ((selects_of_mem_bindings hprevails.mem hsym).2.1.isInside hprivate)

end Context

/-! ### A class with a private constructor and a private value -/

namespace Secrets

/-- Class 2 with the private constructor 3 and the private value 4. -/
def table : Table :=
  let t := (Table.initial.addClass .root (.ofWord 9)).2
  let t := (t.addMethod ⟨2⟩ .constructor (.ofList [.isPrivate, .isConstructor])).2
  (t.addValue ⟨2⟩ Sample.name (.ofList [.isPrivate])).2

theorem built : table.Built :=
  ((Table.Built.initial.add _ _ _).add _ _ _).add _ _ _

theorem isPrivate {sym : SymbolId} (h : sym = ⟨3⟩ ∨ sym = ⟨4⟩) :
    table.toUniverse.PrivateTo sym ⟨2⟩ := by
  rcases h with rfl | rfl <;> constructor <;> decide +kernel

/-- The root package has no owner, so whatever it owns is outside the class. -/
theorem not_isInside {cx : Context} (howner : cx.owner = .root) :
    ¬ cx.IsInside table.toUniverse ⟨2⟩ := by
  rintro (h | ⟨hcompanion, -⟩)
  · rw [howner] at h
    obtain heq | ⟨next, ⟨-, hnext⟩, h⟩ := h.cases_head
    · exact absurd heq (by decide)
    · have habsent : table.toUniverse.owner .root = .absent := by decide +kernel
      rw [← hnext, habsent] at h
      obtain heq | ⟨_, ⟨hpresent, -⟩, -⟩ := h.cases_head
      · exact absurd heq (by decide)
      · exact absurd hpresent (by decide)
  · exact absurd hcompanion (by decide +kernel)

end Secrets

/-- The value is found inside the class and may not be used at the root. -/
theorem Context.lookup_private_value :
    let s := Sample.store #[.empty, .empty]
    let u := Secrets.table.toUniverse
    let cx := Instances.body ⟨2⟩
    u.PrivateTo ⟨4⟩ ⟨2⟩ ∧
      (cx.lookup u Sample.name (fun _ => true) s).1 =
        .succeeded (some (.self ⟨2⟩)) (.single ⟨4⟩) ∧
      (cx.IsInside u ⟨2⟩ ∨ (cx.query u Sample.name (fun _ => true) s).IsEntered
        (.succeeded (some (.self ⟨2⟩)) (.single ⟨4⟩))) ∧
      (Sample.root.view u s).denial? Sample.root ⟨4⟩ (.self ⟨2⟩) false ≠ none := by
  intro s u cx
  have hroot : Context.Built Sample.root := .openRoot 0 .root 0 _
  have hprivate : u.PrivateTo ⟨4⟩ ⟨2⟩ := Secrets.isPrivate (Or.inr rfl)
  have hfound : (cx.lookup u Sample.name (fun _ => true) s).1 =
      .succeeded (some (.self ⟨2⟩)) (.single ⟨4⟩) := by decide +kernel
  have houtside : ¬ Sample.root.IsInside u ⟨2⟩ := Secrets.not_isInside rfl
  refine ⟨hprivate, hfound, ?_, fun hgranted => houtside ?_⟩
  · exact (lookup_private (hroot.make .template ⟨2⟩ 1 _) Secrets.built hprivate).2 _ _ _ _ hfound
      (by decide)
  · exact (lookup_private hroot Secrets.built hprivate).1 _ _ rfl hgranted

/-- **A private constructor is found from outside**, in a block in the body of its class that
another symbol owns. It may not be used there. -/
theorem Context.lookup_private_constructor :
    let s := Sample.store #[.empty, .empty, .empty]
    let u := Secrets.table.toUniverse
    let cx := ((Instances.body ⟨2⟩).make .block .root 2 s).1
    u.PrivateTo ⟨3⟩ ⟨2⟩ ∧ ¬ cx.IsInside u ⟨2⟩ ∧
      (cx.view u s).denial? cx ⟨3⟩ (.self ⟨2⟩) false ≠ none ∧
      (cx.lookup u .constructor (fun _ => true) s).1 =
        .succeeded (some (.self ⟨2⟩)) (.single ⟨3⟩) :=
  ⟨Secrets.isPrivate (Or.inl rfl), Secrets.not_isInside rfl, by decide +kernel, by decide +kernel⟩

end NameResolution
