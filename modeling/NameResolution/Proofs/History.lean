import NameResolution.Proofs.Chain

/-!
# Imports over a history

An import is known by its place in the store; what was used of it is kept there. That this is the
same place for the import of a context and for its entry in the log of a session, and the place of
no other import, is a matter of how both came about. `History` closes a store without imports under
making contexts and under any change that makes no import.

* `History.tracked`: every import that occurs in a context or in a log is registered, no two share a
  place, and the logs hold no import from above the unit.
* `History.built`: the contexts made are built.
-/

namespace NameResolution

open Context

/-- The stores that come about, each with the contexts made on the way. -/
inductive History : Store → List Context → Prop where
  | start {s : Store} (huses : s.uses = #[])
      (hlogs : ∀ session ∈ s.sessions, session.imports = []) : History s []
  /-- Entering declarations, looking up, reporting, and whatever else makes and logs no import. -/
  | change {s s' : Store} {made : List Context} (h : History s made)
      (huses : s'.uses.size = s.uses.size)
      (hlogs : ∀ id, (s'.session id).imports = (s.session id).imports) : History s' made
  | openRoot {s : Store} {made : List Context} (h : History s made) (session : SessionId)
      (owner : SymbolId) (scope : ScopeId) :
      History (openRoot session owner scope s).2 ((openRoot session owner scope s).1 :: made)
  | openRootWith {s : Store} {made : List Context} (h : History s made) (u : Universe)
      (session : SessionId) (owner : SymbolId) (scope : ScopeId) (imports : List RootImport) :
      History (openRootWith u session owner scope imports s).2
        ((openRootWith u session owner scope imports s).1 :: made)
  | make {s : Store} {made : List Context} {cx : Context} (h : History s made) (hcx : cx ∈ made)
      (construct : Construct) (owner : SymbolId) (scope : ScopeId) :
      History (cx.make construct owner scope s).2 ((cx.make construct owner scope s).1 :: made)
  | makeNewScope {s : Store} {made : List Context} {cx : Context} (h : History s made)
      (hcx : cx ∈ made) (construct : Construct) (owner : SymbolId) :
      History (cx.makeNewScope construct owner s).2 ((cx.makeNewScope construct owner s).1 :: made)
  | makeImport {s : Store} {made : List Context} {cx : Context} (h : History s made)
      (hcx : cx ∈ made) (clause : ImportClause) :
      History (cx.makeImport clause s).2 ((cx.makeImport clause s).1 :: made)
  | silentCopy {s : Store} {made : List Context} {cx : Context} (h : History s made)
      (hcx : cx ∈ made) (surface : Bool) :
      History (cx.silentCopy surface s).2 ((cx.silentCopy surface s).1 :: made)
  | implicitCopy {s : Store} {made : List Context} {cx : Context} (h : History s made)
      (hcx : cx ∈ made) (surface : Bool) :
      History (cx.implicitCopy surface s).2 ((cx.implicitCopy surface s).1 :: made)
  | makeConstructor {s : Store} {made : List Context} {cx : Context} (h : History s made)
      (hcx : cx ∈ made) (u : Universe) :
      History (cx.makeConstructor u s).2 ((cx.makeConstructor u s).1 :: made)

/-- Every context of a history is built. -/
theorem History.built {s : Store} {made : List Context} (h : History s made) :
    ∀ cx ∈ made, cx.Built := by
  induction h with
  | start => exact fun cx hcx => nomatch hcx
  | change _ _ _ ih => exact ih
  | openRoot _ session owner scope ih => exact List.forall_mem_cons.mpr ⟨.openRoot .., ih⟩
  | openRootWith _ u session owner scope imports ih =>
    exact List.forall_mem_cons.mpr ⟨.openRootWith .., ih⟩
  | make _ hcx construct owner scope ih =>
    exact List.forall_mem_cons.mpr ⟨.make (ih _ hcx) .., ih⟩
  | makeNewScope _ hcx construct owner ih =>
    exact List.forall_mem_cons.mpr ⟨.makeNewScope (ih _ hcx) .., ih⟩
  | makeImport _ hcx clause ih => exact List.forall_mem_cons.mpr ⟨.makeImport (ih _ hcx) .., ih⟩
  | silentCopy _ hcx surface ih => exact List.forall_mem_cons.mpr ⟨.silentCopy (ih _ hcx) .., ih⟩
  | implicitCopy _ hcx surface ih =>
    exact List.forall_mem_cons.mpr ⟨.implicitCopy (ih _ hcx) .., ih⟩
  | makeConstructor _ hcx u ih =>
    exact List.forall_mem_cons.mpr ⟨.makeConstructor (ih _ hcx) .., ih⟩

/-! ### What is kept -/

/-- An import takes effect at a context made or around one, or a session has logged it. -/
def Occurs (s : Store) (made : List Context) (imp : Import) : Prop :=
  (∃ cx ∈ made, ∃ c ∈ cx.chain, c.imported = some imp) ∨ ∃ id, imp ∈ (s.session id).imports

/-- Every import that occurs is registered at a place of its own, and what is logged is of the
unit. -/
structure Tracked (s : Store) (made : List Context) : Prop where
  registered : ∀ imp, Occurs s made imp → imp.id < s.uses.size
  coherent : ∀ a b, Occurs s made a → Occurs s made b → a.id = b.id → a = b
  ofUnit : ∀ id, ∀ imp ∈ (s.session id).imports, imp.clause.isRoot = false

namespace Tracked

variable {s s' : Store} {made made' : List Context}

/-- A step keeps track if at most one import is new and takes the next place. -/
theorem step (h : Tracked s made) (fresh : Option Import) (hsize : s.uses.size ≤ s'.uses.size)
    (hfresh : ∀ imp ∈ fresh, imp.id = s.uses.size ∧ s.uses.size < s'.uses.size)
    (hoccurs : ∀ imp, Occurs s' made' imp → Occurs s made imp ∨ imp ∈ fresh)
    (hunit : ∀ id, ∀ imp ∈ (s'.session id).imports, imp.clause.isRoot = false) :
    Tracked s' made' where
  registered := by
    intro imp himp
    rcases hoccurs imp himp with hold | hnew
    · exact Nat.lt_of_lt_of_le (h.registered imp hold) hsize
    · obtain ⟨hid, hlt⟩ := hfresh imp hnew
      omega
  coherent := by
    intro a b ha hb hid
    rcases hoccurs a ha with holda | hnewa <;> rcases hoccurs b hb with holdb | hnewb
    · exact h.coherent a b holda holdb hid
    · have := h.registered a holda
      have := (hfresh b hnewb).1
      omega
    · have := h.registered b holdb
      have := (hfresh a hnewa).1
      omega
    · rw [Option.mem_def] at hnewa hnewb
      exact Option.some.inj (hnewa.symm.trans hnewb)
  ofUnit := hunit

/-- What adds no selector uses and logs no import keeps the track. -/
theorem change (h : Tracked s made) (huses : s'.uses.size = s.uses.size)
    (hlogs : ∀ id, (s'.session id).imports = (s.session id).imports)
    (hmade : ∀ cx ∈ made', cx ∈ made) : Tracked s' made' := by
  refine h.step none (Nat.le_of_eq huses.symm) (fun _ himp => nomatch himp) ?_ ?_
  · rintro imp (⟨cx, hcx, hchain⟩ | ⟨id, hlogged⟩)
    · exact Or.inl (Or.inl ⟨cx, hmade cx hcx, hchain⟩)
    · rw [hlogs] at hlogged
      exact Or.inl (Or.inr ⟨id, hlogged⟩)
  · intro id imp hlogged
    rw [hlogs] at hlogged
    exact h.ofUnit id imp hlogged

/-- What a log holds once a context was made: what it held before and the import of the context. -/
theorem mem_imports_extend {base : Context} {ext : Extension} {id : SessionId} {imp : Import}
    (himp : imp ∈ ((base.extend ext s).2.session id).imports) :
    imp ∈ (s.session id).imports ∨ ext.imported = some imp ∧ imp.clause.isRoot = false := by
  cases hext : ext.imported with
  | none =>
    unfold Context.extend at himp
    rw [hext] at himp
    exact Or.inl himp
  | some new =>
    have hlogged : imp ∈ ((base.recordImport new s).session id).imports := by
      unfold Context.extend at himp
      rw [hext] at himp
      exact himp
    unfold Context.recordImport at hlogged
    split at hlogged
    · exact Or.inl hlogged
    · rename_i hroot
      unfold Store.session Store.modifySession at hlogged
      rw [Array.getElem?_modify] at hlogged
      split at hlogged
      · cases hsession : s.sessions[id]? with
        | none =>
          rw [hsession] at hlogged
          exact nomatch hlogged
        | some session =>
          rw [hsession] at hlogged
          rcases List.mem_append.mp hlogged with hold | hnew
          · left
            simpa [Store.session, hsession] using hold
          · right
            rw [List.mem_singleton.mp hnew]
            exact ⟨rfl, Bool.eq_false_iff.mpr hroot⟩
      · exact Or.inl hlogged

/-- Making a context keeps track if its import, if there is one, was registered right before. -/
theorem extend {between : Store} {base : Context} {ext : Extension} (h : Tracked s made)
    (hbase : ∃ cx ∈ made, base ∈ cx.chain)
    (hlogs : ∀ id, (between.session id).imports = (s.session id).imports)
    (hsize : s.uses.size ≤ between.uses.size)
    (hfresh : ∀ imp ∈ ext.imported, imp.id = s.uses.size ∧ s.uses.size < between.uses.size) :
    Tracked (base.extend ext between).2 ((base.extend ext between).1 :: made) := by
  have huses : (base.extend ext between).2.uses = between.uses := base.extend_uses ext between
  have hlogged : ∀ id imp, imp ∈ ((base.extend ext between).2.session id).imports →
      imp ∈ (s.session id).imports ∨ ext.imported = some imp ∧ imp.clause.isRoot = false := by
    intro id imp himp
    rw [← hlogs]
    exact mem_imports_extend himp
  refine h.step ext.imported (by rw [huses]; exact hsize) (by rw [huses]; exact hfresh) ?_ ?_
  · rintro imp (⟨cx, hcx, c, hc, himp⟩ | ⟨id, himp⟩)
    · rcases List.mem_cons.mp hcx with rfl | hcx
      · -- The new context has an import of its own; the others are those of its base.
        rcases List.mem_cons.mp hc with rfl | hc
        · exact Or.inr himp
        · obtain ⟨top, htop, hmem⟩ := hbase
          exact Or.inl (Or.inl ⟨top, htop, c, mem_chain_trans hc hmem, himp⟩)
      · exact Or.inl (Or.inl ⟨cx, hcx, c, hc, himp⟩)
    · rcases hlogged id imp himp with hold | ⟨hnew, -⟩
      · exact Or.inl (Or.inr ⟨id, hold⟩)
      · exact Or.inr hnew
  · intro id imp himp
    rcases hlogged id imp himp with hold | ⟨-, hunit⟩
    · exact h.ofUnit id imp hold
    · exact hunit

/-- A root context has no import to track. -/
theorem openRoot (h : Tracked s made) (session : SessionId) (owner : SymbolId) (scope : ScopeId) :
    Tracked (openRoot session owner scope s).2 ((openRoot session owner scope s).1 :: made) := by
  refine h.step none (Nat.le_refl _) (fun _ himp => nomatch himp) ?_ h.ofUnit
  rintro imp (⟨cx, hcx, c, hc, himp⟩ | hlogged)
  · rcases List.mem_cons.mp hcx with rfl | hcx
    · rw [mem_chain_root.mp hc] at himp
      cases himp
    · exact Or.inl (Or.inl ⟨cx, hcx, c, hc, himp⟩)
  · exact Or.inl (Or.inr hlogged)

theorem make {cx : Context} (h : Tracked s made) (hcx : cx ∈ made) (construct : Construct)
    (owner : SymbolId) (scope : ScopeId) :
    Tracked (cx.make construct owner scope s).2 ((cx.make construct owner scope s).1 :: made) := by
  have hlogs : ∀ id, ((importOf construct s).2.session id).imports = (s.session id).imports := by
    intro id
    unfold importOf
    cases construct.clause? <;> rfl
  have hsize : s.uses.size ≤ (importOf construct s).2.uses.size := by
    unfold importOf
    cases construct.clause? with
    | none => exact Nat.le_refl _
    | some clause => simp [Store.addImport]
  have hfresh : ∀ imp ∈ (importOf construct s).1,
      imp.id = s.uses.size ∧ s.uses.size < (importOf construct s).2.uses.size := by
    unfold importOf
    cases construct.clause? with
    | none => exact fun imp himp => nomatch himp
    | some clause =>
      intro imp himp
      cases himp
      simp [Store.addImport]
  exact h.extend ⟨cx, hcx, mem_chain_self cx⟩ hlogs hsize hfresh

theorem silentCopy {cx : Context} (h : Tracked s made) (hcx : cx ∈ made) (surface : Bool) :
    Tracked (cx.silentCopy surface s).2 ((cx.silentCopy surface s).1 :: made) :=
  h.extend ⟨cx, hcx, mem_chain_self cx⟩ (fun _ => rfl) (Nat.le_refl _) fun _ himp => nomatch himp

/-- Every import opened at the root is tracked from its first use. -/
theorem openImports {cx : Context} (h : Tracked s (cx :: made)) (u : Universe)
    (imports : List RootImport) :
    Tracked (cx.openImports u imports s).2 ((cx.openImports u imports s).1 :: made) := by
  unfold Context.openImports
  induction imports generalizing cx s with
  | nil => exact h
  | cons imp imports ih =>
    rw [List.foldl_cons]
    cases imp.qualifier? u with
    | none => exact ih h
    | some qualifier =>
      -- The context around stays on the chain of the one inside it.
      have hinner := h.make List.mem_cons_self (.importing (.root qualifier)) cx.owner cx.scope
      refine ih (hinner.change rfl (fun _ => rfl) fun c hc => ?_)
      rcases List.mem_cons.mp hc with rfl | hc
      · exact List.mem_cons_self
      · exact List.mem_cons_of_mem _ (List.mem_cons_of_mem _ hc)

end Tracked

/-- **Every import that occurs has a place of its own.** -/
theorem History.tracked {s : Store} {made : List Context} (h : History s made) :
    Tracked s made := by
  induction h with
  | @start s huses hlogs =>
    have hempty : ∀ id, (s.session id).imports = [] := by
      intro id
      unfold Store.session
      cases hsession : s.sessions[id]? with
      | none => rfl
      | some session => exact hlogs session (Array.mem_of_getElem? hsession)
    have hnone : ∀ imp, ¬ Occurs s [] imp := by
      rintro imp (⟨cx, hcx, -⟩ | ⟨id, hlogged⟩)
      · cases hcx
      · rw [hempty] at hlogged
        cases hlogged
    refine ⟨fun imp himp => absurd himp (hnone imp), fun a _ ha => absurd ha (hnone a), ?_⟩
    intro id imp hlogged
    exact absurd (Or.inr ⟨id, hlogged⟩) (hnone imp)
  | change _ huses hlogs ih => exact ih.change huses hlogs fun _ hcx => hcx
  | openRoot _ session owner scope ih => exact ih.openRoot session owner scope
  | openRootWith _ u session owner scope imports ih =>
    exact (ih.openRoot session owner scope).openImports u imports
  | make _ hcx construct owner scope ih => exact ih.make hcx construct owner scope
  | @makeNewScope s made cx _ hcx construct owner ih =>
    have hscope : Tracked (s.addScope .empty).2 made :=
      ih.change rfl (fun _ => rfl) fun _ hcx => hcx
    exact hscope.make hcx construct owner (s.addScope .empty).1
  | makeImport _ hcx clause ih => exact ih.make hcx (.importing clause) _ _
  | silentCopy _ hcx surface ih => exact ih.silentCopy hcx surface
  | implicitCopy _ hcx surface ih =>
    exact (ih.silentCopy hcx surface).change rfl (fun _ => rfl) fun _ hcx => hcx
  | @makeConstructor s made cx _ hcx u ih =>
    exact ih.extend ⟨cx, hcx, cx.constructorBase_mem_chain⟩ (fun _ => rfl) (Nat.le_refl _)
      fun _ himp => nomatch himp

end NameResolution
