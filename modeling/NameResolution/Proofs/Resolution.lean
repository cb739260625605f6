import NameResolution.Proofs.Openings
import NameResolution.Proofs.UnusedImports

/-!
# Imports above the unit over a run

Resolving references opens contexts, looks names up and asks single imports. Imports above the unit
take part in all of it, yet nobody expects them to be used, so they leave no trace: neither among
the selectors used nor among those reported as unused.

* `Opening.isUsed_run`: opening a context uses nothing.
* `Resolution.exists_of_isUsed`: what is used over a run belongs to an import of the unit, on the
  chain of a context made.
* `Resolution.unitOnly`: so no selector of a root import is ever used or listed as unused.
-/

namespace NameResolution

/-! ### What an opening leaves unused -/

namespace Store

variable {s s' : Store}

theorem isUsed_of_uses (h : s'.uses = s.uses) : s'.isUsed = s.isUsed := by
  unfold isUsed usesOf
  rw [h]

/-- What is used is registered. -/
theorem lt_of_isUsed {id position : Nat} (h : s.isUsed id position = true) : id < s.uses.size := by
  by_contra hlt
  unfold isUsed usesOf at h
  rw [Array.getElem?_eq_none (Nat.le_of_not_lt hlt)] at h
  cases h

/-- Of a new import nothing is used. -/
theorem isUsed_addImport (clause : ImportClause) (s : Store) :
    (s.addImport clause).2.isUsed = s.isUsed := by
  funext id position
  show ((s.uses.push [])[id]?.getD []).contains position = (s.uses[id]?.getD []).contains position
  rw [Array.getElem?_push]
  split
  · next hnew =>
    rw [hnew, Array.getElem?_eq_none (Nat.le_refl _)]
    rfl
  · rfl

/-- Asking an import uses at most a selector of that import, and none of a root import. -/
theorem used_of_bind? {imp : Import} {u : Universe} {name : Name} {explicitOnly record : Bool}
    {id position : Nat}
    (hused : (s.bind? imp u name explicitOnly record).2.isUsed id position = true) :
    s.isUsed id position = true ∨ imp.id = id ∧ imp.clause.isRoot = false := by
  unfold bind? at hused
  cases hbind : imp.clause.bind? u name explicitOnly with
  | none =>
    rw [hbind] at hused
    exact .inl hused
  | some found =>
    rw [hbind] at hused
    dsimp only at hused
    split at hused
    · next hrecord =>
      have hlt := lt_of_isUsed hused
      have hsize : (s.recordUse imp.id found.1).uses.size = s.uses.size := Array.size_modify
      rw [hsize] at hlt
      obtain hold | hnew := (isUsed_recordUse hlt ⟨imp.id, found.1⟩).mp hused
      · exact .inl hold
      · cases hnew
        simp only [Bool.and_eq_true, Bool.not_eq_true'] at hrecord
        exact .inr ⟨rfl, hrecord.2⟩
    · exact .inl hused

end Store

namespace Context

theorem isUsed_make (cx : Context) (construct : Construct) (owner : SymbolId) (scope : ScopeId)
    (s : Store) : (cx.make construct owner scope s).2.isUsed = s.isUsed := by
  have hmade : (cx.make construct owner scope s).2.uses = (importOf construct s).2.uses :=
    cx.extend_uses _ _
  rw [Store.isUsed_of_uses hmade]
  unfold importOf
  cases construct.clause? with
  | none => rfl
  | some clause => exact Store.isUsed_addImport clause s

theorem isUsed_openImports (cx : Context) (u : Universe) (imports : List RootImport) (s : Store) :
    (cx.openImports u imports s).2.isUsed = s.isUsed := by
  unfold openImports
  induction imports generalizing cx s with
  | nil => rfl
  | cons imp imports ih =>
    rw [List.foldl_cons]
    cases imp.qualifier? u with
    | none => exact ih cx s
    | some qualifier =>
      have hmade : (cx.makeImport (.root qualifier) s).2.isUsed = s.isUsed := cx.isUsed_make _ _ _ s
      rw [← hmade]
      exact ih (cx.makeImport (.root qualifier) s).1 (cx.makeImport (.root qualifier) s).2

end Context

theorem Opening.isUsed_run (o : Opening) (cx : Context) (s : Store) :
    (o.run cx s).2.isUsed = s.isUsed := by
  cases o with
  | make construct owner scope => exact cx.isUsed_make construct owner scope s
  | newScope construct owner =>
    exact cx.isUsed_make construct owner (s.addScope .empty).1 (s.addScope .empty).2
  | importing clause => exact cx.isUsed_make _ _ _ s
  | silent surface => exact Store.isUsed_of_uses (cx.extend_uses _ _)
  | implicit surface =>
    have hcopy : (cx.implicitCopy surface s).2.uses = (cx.silentCopy surface s).2.uses := rfl
    exact Store.isUsed_of_uses (hcopy.trans (cx.extend_uses _ _))
  | constructor u => exact Store.isUsed_of_uses (cx.constructorBase.extend_uses _ _)

/-- What comes about as references are resolved, with the contexts made on the way. -/
inductive Resolution : Store → List Context → Prop where
  | start {s : Store} (huses : s.uses = #[])
      (hlogs : ∀ session ∈ s.sessions, session.imports = []) : Resolution s []
  | openRootWith {s : Store} {made : List Context} (h : Resolution s made) (u : Universe)
      (session : SessionId) (owner : SymbolId) (scope : ScopeId) (imports : List RootImport) :
      Resolution (Context.openRootWith u session owner scope imports s).2
        ((Context.openRootWith u session owner scope imports s).1 :: made)
  | opening {s : Store} {made : List Context} {cx : Context} (h : Resolution s made)
      (hcx : cx ∈ made) (o : Opening) : Resolution (o.run cx s).2 ((o.run cx s).1 :: made)
  | lookup {s : Store} {made : List Context} (h : Resolution s made) {r : Reference}
      (hr : r.cx ∈ made) : Resolution (r.cx.lookup r.program r.name r.qualifies s).2 made
  /-- Asking a single import, whether that counts as a use or not. -/
  | binding {s : Store} {made : List Context} (h : Resolution s made) {cx c : Context}
      (hcx : cx ∈ made) (hc : c ∈ cx.chain) {imp : Import} (himported : c.imported = some imp)
      (u : Universe) (name : Name) (explicitOnly record : Bool) :
      Resolution (s.bind? imp u name explicitOnly record).2 made
  /-- Entering declarations, reporting, changing modes, and whatever else neither makes nor uses an
  import. -/
  | change {s s' : Store} {made : List Context} (h : Resolution s made) (huses : s'.uses = s.uses)
      (hlogs : ∀ id, (s'.session id).imports = (s.session id).imports) : Resolution s' made

namespace Resolution

variable {s : Store} {made : List Context}

theorem history (h : Resolution s made) : History s made := by
  induction h with
  | start huses hlogs => exact .start huses hlogs
  | openRootWith _ u session owner scope imports ih =>
    exact ih.openRootWith u session owner scope imports
  | opening _ hcx o ih =>
    cases o with
    | make construct owner scope => exact ih.make hcx construct owner scope
    | newScope construct owner => exact ih.makeNewScope hcx construct owner
    | importing clause => exact ih.makeImport hcx clause
    | silent surface => exact ih.silentCopy hcx surface
    | implicit surface => exact ih.implicitCopy hcx surface
    | constructor u => exact ih.makeConstructor hcx u
  | lookup _ _ ih =>
    rw [Context.lookup_eq]
    exact ih.change (Store.size_recordUses _ _) fun _ => rfl
  | @binding s made _ cx c _ _ imp _ u name explicitOnly record ih =>
    unfold Store.bind?
    cases imp.clause.bind? u name explicitOnly with
    | none => exact ih
    | some found =>
      dsimp only
      split
      · exact ih.change Array.size_modify fun _ => rfl
      · exact ih
  | change _ huses hlogs ih => exact ih.change (congrArg Array.size huses) hlogs

/-- A lookup uses selectors of imports of the unit on its chain. -/
theorem used_of_lookup {r : Reference} (hbuilt : r.cx.Built) {id position : Nat}
    (hused : (r.cx.lookup r.program r.name r.qualifies s).2.isUsed id position = true) :
    s.isUsed id position = true ∨ ∃ imp : Import, imp.id = id ∧ imp.clause.isRoot = false ∧
      ∃ c ∈ r.cx.chain, c.imported = some imp := by
  have hlt := Store.lt_of_isUsed hused
  rw [Context.lookup_eq] at hused hlt
  rw [Store.size_recordUses] at hlt
  obtain hold | hnew := (Store.isUsed_recordUses hlt _).mp hused
  · exact .inl hold
  · have hord := Lookup.Query.ordered_of_grown (q := r.query s) hbuilt.grown
    obtain ⟨level, _, hconsulted, huse⟩ := (Lookup.Query.mem_run_uses hord).mp hnew
    obtain ⟨hunit, hid, -⟩ := Lookup.Query.mem_consult_uses.mp huse
    obtain ⟨c, hc, himported, -⟩ := Lookup.Query.mem_importLevels.mp hconsulted.mem_importLevels
    exact .inr ⟨level.imp, hid.symm, hunit, c, hc, himported⟩

/-- **What is used is of an import of the unit, on the chain of a context made.** -/
theorem exists_of_isUsed (h : Resolution s made) {id position : Nat}
    (hused : s.isUsed id position = true) :
    ∃ imp : Import, imp.id = id ∧ imp.clause.isRoot = false ∧
      ∃ cx ∈ made, ∃ c ∈ cx.chain, c.imported = some imp := by
  induction h with
  | start huses =>
    have hlt := Store.lt_of_isUsed hused
    rw [huses] at hlt
    cases hlt
  | @openRootWith s made _ u session owner scope imports ih =>
    have hsame : (Context.openRootWith u session owner scope imports s).2.isUsed = s.isUsed :=
      Context.isUsed_openImports _ u imports _
    rw [hsame] at hused
    obtain ⟨imp, hid, hunit, cx, hcx, hchain⟩ := ih hused
    exact ⟨imp, hid, hunit, cx, List.mem_cons_of_mem _ hcx, hchain⟩
  | opening _ _ o ih =>
    rw [o.isUsed_run] at hused
    obtain ⟨imp, hid, hunit, cx, hcx, hchain⟩ := ih hused
    exact ⟨imp, hid, hunit, cx, List.mem_cons_of_mem _ hcx, hchain⟩
  | lookup h hr ih =>
    obtain hold | ⟨imp, hid, hunit, hchain⟩ := used_of_lookup (h.history.built _ hr) hused
    · exact ih hold
    · exact ⟨imp, hid, hunit, _, hr, hchain⟩
  | @binding s made _ cx c hcx hc imp himported u name explicitOnly record ih =>
    obtain hold | ⟨hid, hunit⟩ := Store.used_of_bind? hused
    · exact ih hold
    · exact ⟨imp, hid, hunit, cx, hcx, c, hc, himported⟩
  | change _ huses _ ih =>
    rw [Store.isUsed_of_uses huses] at hused
    exact ih hused

/-- No selector of a root import is ever used or listed as unused. -/
theorem unitOnly (h : Resolution s made) {cx c : Context} (hcx : cx ∈ made) (hc : c ∈ cx.chain)
    {imp : Import} (himported : c.imported = some imp) (hroot : imp.clause.isRoot = true) :
    (∀ position, s.isUsed imp.id position = false) ∧
      ∀ id selector, (imp, selector) ∉ s.unusedImports id := by
  constructor
  · intro position
    rw [Bool.eq_false_iff]
    intro hused
    obtain ⟨other, hid, hunit, cx', hcx', c', hc', himported'⟩ := h.exists_of_isUsed hused
    -- Imports that share a place are one import.
    have hsame : other = imp := h.history.tracked.coherent other imp
      (.inl ⟨cx', hcx', c', hc', himported'⟩) (.inl ⟨cx, hcx, c, hc, himported⟩) hid
    rw [hsame, hroot] at hunit
    cases hunit
  · intro id selector hlisted
    obtain ⟨logged, hlogged, hentry⟩ := List.mem_flatMap.mp hlisted
    obtain ⟨_, -, heq⟩ := List.mem_map.mp hentry
    cases heq
    have hunit := h.history.tracked.ofUnit id imp hlogged
    rw [hroot] at hunit
    cases hunit

end Resolution

end NameResolution
