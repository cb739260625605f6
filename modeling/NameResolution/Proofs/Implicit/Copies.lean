import NameResolution.Proofs.Implicit.Cache
import NameResolution.Proofs.Links
import NameResolution.Proofs.Lookup.Arbitration
import NameResolution.Proofs.Lookup.Copies
import NameResolution.Proofs.Openings

/-!
# Implicit levels at copies

A copy opens no body, no scope and no import that the context it copies has not opened already. That
leaves the package object: a context that a package owns shares in it wherever the context stands
(`Context.sharedLevel`), and a copy no less than the original.

* `Context.Repeats.freshLevel?_eq`: the level of a copy is what its owner shares.
* `Context.levels_of_copies`: the levels of copies of any depth.
* `Activity.askLevels_copy`: no slot filled, a copy answers the levels of the original, preceded by
  one shared level for every copy; so it answers the same if and only if nothing is shared.
* `Context.askLevels_copy_package`: a level that is answered twice.
-/

namespace NameResolution

namespace Context

/-- What the owner of the context, if it is a package, shares with its package object. -/
def sharedLevel (cx : Context) (u : Universe) (s : Store) : List Candidate :=
  let object := u.packageObject cx.owner
  if !(s.session cx.session).unit.isInterop && (u.flags cx.owner).isPackage && object.isPresent then
    cx.candidates u s (u.implicitMembers (.path object)) (.path object) false
  else []

variable {cx copy : Context} (u : Universe) (s : Store)

/-! ### One copy -/

namespace Repeats

theorem opensBody (h : copy.Repeats cx) : copy.opensBody u s = false := by
  unfold Context.opensBody
  simp [h.outer, h.owner]

theorem opensScope (h : copy.Repeats cx) : copy.opensScope = false := by
  unfold Context.opensScope
  simp [h.outer, h.scope]

/-- The import in effect at a copy is in effect around it. -/
theorem ownImport? (h : copy.Repeats cx) : copy.ownImport? = none := by
  have hfirst : copy.firstImport? = cx.firstImport? := by
    unfold firstImport?
    rw [enclosingImport?_eq_find?, enclosingImport?_eq_find?, h.chain_eq, List.find?_cons,
      h.imported]
    rfl
  unfold Context.ownImport?
  rw [hfirst, h.outer]
  cases himport : cx.firstImport? with
  | none => rfl
  | some imp => simp [himport]

/-- **A copy contributes what its owner shares, and nothing else.** -/
theorem freshLevel?_eq (h : copy.Repeats cx) :
    copy.freshLevel? u s = some (copy.sharedLevel u s) := by
  unfold freshLevel? levelSource sharedLevel
  rw [h.opensBody, h.opensScope, h.ownImport?]
  dsimp only
  cases (s.session copy.session).unit.isInterop <;> cases (u.flags copy.owner).isPackage <;>
    cases (u.packageObject copy.owner).isPresent <;> rfl

/-- The original shares in the same. -/
theorem sharedLevel_eq (h : copy.Repeats cx) : copy.sharedLevel u s = cx.sharedLevel u s := by
  have hcandidates : ∀ symbols pre,
      copy.candidates u s symbols pre false = cx.candidates u s symbols pre false := by
    intro symbols pre
    unfold candidates qualifiesAs View.isAccessible
    simp only [h.view, h.denial?, Bool.false_and]
  unfold sharedLevel
  rw [h.session, h.owner]
  simp only [hcandidates]

end Repeats

/-! ### Copies of copies -/

theorem mem_chain_of_copies (h : Relation.ReflTransGen IsCopy cx copy) : cx ∈ copy.chain := by
  induction h with
  | refl => exact mem_chain_self cx
  | @tail last copy _ hcopy ih =>
    have houter : copy.outer? = some last := by
      cases hcopy <;> rfl
    rw [chain_of_outer? houter]
    exact List.mem_cons_of_mem _ ih

/-- Every copy on the way adds a context that contributes what the original shares in. -/
theorem levels_of_copies (hgrown : cx.Grown) (h : Relation.ReflTransGen IsCopy cx copy) :
    copy.Grown ∧ copy.sharedLevel u s = cx.sharedLevel u s ∧
      ∃ copies, copy.chain = copies ++ cx.chain ∧
        ∀ c ∈ copies, c.freshLevel? u s = some (cx.sharedLevel u s) := by
  induction h with
  | refl => exact ⟨hgrown, rfl, [], rfl, fun c hc => nomatch hc⟩
  | @tail last copy _ hcopy ih =>
    obtain ⟨hlast, hshared, copies, hchain, hlevels⟩ := ih
    have hrepeats := hcopy.repeats hlast
    have hsame : copy.sharedLevel u s = cx.sharedLevel u s :=
      (hrepeats.sharedLevel_eq u s).trans hshared
    refine ⟨hcopy.grown hlast, hsame, copy :: copies, ?_, List.forall_mem_cons.mpr ⟨?_, hlevels⟩⟩
    · rw [hrepeats.chain_eq, hchain]
      rfl
    · rw [hrepeats.freshLevel?_eq, hsame]

theorem currentLevel_of_absent (hempty : (s.stateOf cx.id).level = .absent) :
    cx.currentLevel u s = (cx.freshLevel? u s).getD [] := by
  unfold currentLevel keptLevel?
  rw [hempty]
  rfl

/-- Contexts whose slots are empty and lie apart answer what can be collected. -/
theorem answers_of_absent (hempty : ∀ c ∈ cx.chain, (s.stateOf c.id).level = .absent)
    (hapart : ∀ a ∈ cx.chain, ∀ b ∈ cx.chain, a.id = b.id → a = b) :
    (cx.askLevels u s).1 =
      (cx.chain.map fun c => (c.freshLevel? u s).getD []).filter fun level => !level.isEmpty := by
  have hidle : ∀ c ∈ cx.chain, (s.stateOf c.id).level ≠ .inProgress := by
    intro c hc
    rw [hempty c hc]
    exact fun h => nomatch h
  rw [answers_askLevels hidle hapart]
  congr 1
  exact List.map_congr_left fun c hc => currentLevel_of_absent u s (hempty c hc)

end Context

namespace Context

variable {cx copy : Context} {u : Universe} {s : Store}

theorem eq_iff_of_chain_append {inner : List Context} (h : copy.chain = inner ++ cx.chain) :
    copy = cx ↔ inner = [] := by
  constructor
  · rintro rfl
    simpa using h
  · rintro rfl
    obtain ⟨_, hcopy⟩ := copy.chain_eq_cons
    obtain ⟨_, hcx⟩ := cx.chain_eq_cons
    rw [hcopy, hcx] at h
    exact (List.cons.inj h).1

/-- Copies answer what the original answers, and before that their own levels. -/
theorem answers_of_copies (hgrown : copy.Grown) (hcopy : Relation.ReflTransGen IsCopy cx copy)
    (hempty : ∀ c ∈ copy.chain, (s.stateOf c.id).level = .absent)
    (hapart : ∀ a ∈ copy.chain, ∀ b ∈ copy.chain, a.id = b.id → a = b) :
    ∃ copies, copy.chain = copies ++ cx.chain ∧
      (copy.askLevels u s).1 =
        (copies.map fun _ => cx.sharedLevel u s).filter (fun level => !level.isEmpty) ++
          (cx.askLevels u s).1 := by
  have hcx : cx ∈ copy.chain := mem_chain_of_copies hcopy
  have houtward : ∀ c ∈ cx.chain, c ∈ copy.chain := fun c hc => mem_chain_trans hc hcx
  obtain ⟨-, -, copies, hchain, hlevels⟩ := levels_of_copies u s (hgrown.of_mem_chain hcx) hcopy
  refine ⟨copies, hchain, ?_⟩
  rw [answers_of_absent u s hempty hapart,
    answers_of_absent u s (fun c hc => hempty c (houtward c hc))
      fun a ha b hb => hapart a (houtward a ha) b (houtward b hb),
    hchain, List.map_append, List.filter_append]
  congr 2
  exact List.map_congr_left fun c hc => by rw [hlevels c hc, Option.getD_some]

end Context

/-- **Copies and their package object.** As long as no slot is filled, a copy answers the levels of
the original, preceded by one for every copy that repeats what the original shares in. -/
theorem Activity.askLevels_copy {s : Store} {opened : List Context} (h : Activity s opened)
    {cx copy : Context} (hopened : copy ∈ opened)
    (hcopy : Relation.ReflTransGen Context.IsCopy cx copy)
    (hempty : ∀ c ∈ copy.chain, (s.stateOf c.id).level = .absent) (u : Universe) :
    (copy.askLevels u s).1 =
        (if cx.sharedLevel u s = [] then []
          else List.replicate (copy.chain.length - cx.chain.length) (cx.sharedLevel u s)) ++
          (cx.askLevels u s).1 ∧
      ((copy.askLevels u s).1 = (cx.askLevels u s).1 ↔ copy = cx ∨ cx.sharedLevel u s = []) := by
  obtain ⟨copies, hchain, hanswer⟩ := Context.answers_of_copies (h.built copy hopened).grown hcopy
    hempty (h.placed.apart_chain hopened)
  have hcount : copy.chain.length - cx.chain.length = copies.length := by
    rw [hchain, List.length_append, Nat.add_sub_cancel]
  rw [hanswer, hcount, Context.eq_iff_of_chain_append hchain]
  by_cases hshared : cx.sharedLevel u s = []
  · simp [hshared]
  · simp [hshared, List.map_const']

/-! ### A package with an object, and a class -/

namespace Sharing

/-- Object 2 of the root package has the implicit value 3, which the package shares. Class 4 has the
implicit value 5. -/
def table : Table :=
  let t := (Table.initial.addObject .root (.ofWord 9)).2
  let t := (t.addValue ⟨2⟩ Sample.name (.ofList [.implicit])).2
  let t := (t.addClass .root (.ofWord 10)).2
  (t.addValue ⟨4⟩ Sample.name (.ofList [.implicit])).2.setPackageObject .root ⟨2⟩

def root : Context × Store := Context.openRoot 0 .root 0 (Sample.store #[.empty, .empty])

theorem activity_root : Activity root.2 [root.1] := .openRoot (.start rfl) 0 .root 0

end Sharing

/-- A copy of a copy of the body of the class. -/
theorem Activity.askLevels_copy_body :
    let u := Sharing.table.toUniverse
    let body := Sharing.root.1.make .template ⟨4⟩ 1 Sharing.root.2
    let silent := body.1.silentCopy false body.2
    let copy := silent.1.implicitCopy false silent.2
    Activity copy.2 [copy.1, silent.1, body.1, Sharing.root.1] ∧
      (copy.1.askLevels u copy.2).1 = (body.1.askLevels u copy.2).1 ∧
      (body.1.askLevels u copy.2).1 =
        [[⟨Sample.name, .self ⟨4⟩, ⟨5⟩⟩], [⟨Sample.name, .path ⟨2⟩, ⟨3⟩⟩]] := by
  intro u body silent copy
  have hbody : Activity body.2 [body.1, Sharing.root.1] :=
    Sharing.activity_root.opening List.mem_cons_self (.make .template ⟨4⟩ 1)
  have hsilent : Activity silent.2 [silent.1, body.1, Sharing.root.1] :=
    hbody.opening List.mem_cons_self (.silent false)
  have hactivity : Activity copy.2 [copy.1, silent.1, body.1, Sharing.root.1] :=
    hsilent.opening List.mem_cons_self (.implicit false)
  have hcopy : Relation.ReflTransGen Context.IsCopy body.1 copy.1 :=
    (Relation.ReflTransGen.single (.silent false _)).tail (.implicit false _)
  have hempty : ∀ c ∈ copy.1.chain, (copy.2.stateOf c.id).level = .absent := by decide +kernel
  refine ⟨hactivity, ?_, by decide +kernel⟩
  exact (hactivity.askLevels_copy List.mem_cons_self hcopy hempty u).2.mpr
    (Or.inr (by decide +kernel))

/-- **A copy of a context that a package owns answers the level of the package object twice.** -/
theorem Context.askLevels_copy_package :
    let u := Sharing.table.toUniverse
    let cx := Sharing.root.1
    let copy := cx.silentCopy false Sharing.root.2
    (Activity copy.2 [copy.1, cx] ∧ cx.IsCopy copy.1 ∧
      ∀ c ∈ copy.1.chain, (copy.2.stateOf c.id).level = .absent) ∧
      (cx.askLevels u copy.2).1 = [[⟨Sample.name, .path ⟨2⟩, ⟨3⟩⟩]] ∧
      (copy.1.askLevels u copy.2).1 =
        [[⟨Sample.name, .path ⟨2⟩, ⟨3⟩⟩], [⟨Sample.name, .path ⟨2⟩, ⟨3⟩⟩]] :=
  ⟨⟨Sharing.activity_root.opening List.mem_cons_self (.silent false), .silent false _,
    by decide +kernel⟩, by decide +kernel, by decide +kernel⟩

end NameResolution
