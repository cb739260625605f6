import NameResolution.Context.Construction

/-!
# Chains of built contexts

A context exists only because some constructor made it. `Context.Built` closes over the
constructors in any order, each at any store; what holds of every such context is derived from one
structural fact:

* `Built.grown`: every frame on the chain of a built context is the frame that `extend` gives it
  inside the rest of the chain. Constructor contexts are made further out and add one frame to a
  chain that was grown before.

The frames fix the depths:

* `Grown.depth_antitone`: on the way outward the depth never grows. This is what lets the search
  through the imports stop early.
-/

namespace NameResolution.Context

/-! ### The chain -/

theorem mem_chain_root {frame : Frame} {c : Context} :
    c ∈ (Context.root frame).chain ↔ c = .root frame := by
  simp [chain]

theorem chain_eq_cons (cx : Context) : ∃ around, cx.chain = cx :: around := by
  cases cx with
  | root frame => exact ⟨[], rfl⟩
  | nested frame outer => exact ⟨outer.chain, rfl⟩

/-- The chain goes on with that of the context around. -/
theorem chain_of_outer? {inside cx : Context} (h : inside.outer? = some cx) :
    inside.chain = inside :: cx.chain := by
  cases inside with
  | root frame => cases h
  | nested frame outer =>
    cases h
    rfl

theorem mem_chain_self (cx : Context) : cx ∈ cx.chain := by
  obtain ⟨around, h⟩ := cx.chain_eq_cons
  rw [h]
  exact List.mem_cons_self

/-- A context on the chain has a part of the chain for its own. -/
theorem mem_chain_trans {a b cx : Context} (ha : a ∈ b.chain) (hb : b ∈ cx.chain) :
    a ∈ cx.chain := by
  induction cx with
  | root frame =>
    rw [mem_chain_root.mp hb] at ha
    exact ha
  | nested frame outer ih =>
    rcases List.mem_cons.mp hb with rfl | hb
    · exact ha
    · exact List.mem_cons_of_mem _ (ih hb)

/-- Walking out stays on the chain. -/
theorem outer_mem_chain (cx : Context) : cx.outer ∈ cx.chain := by
  cases cx with
  | root frame => exact mem_chain_self _
  | nested frame outer => exact List.mem_cons_of_mem _ (mem_chain_self outer)

/-- The enclosing class is on the chain. -/
theorem enclosingClass_mem_chain (cx : Context) : cx.enclosingClass ∈ cx.chain := by
  induction cx with
  | root frame => exact mem_chain_self _
  | nested frame outer ih =>
    rw [enclosingClass_nested]
    split
    · exact mem_chain_self _
    · exact List.mem_cons_of_mem _ ih

theorem enclosingClass_of_opensClass {cx : Context} (h : cx.opensClass = true) :
    cx.enclosingClass = cx := by
  cases cx with
  | root frame => rfl
  | nested frame outer =>
    rw [enclosingClass_nested]
    exact if_pos h

/-- So is the context a run of templates leads to. -/
theorem skipTemplates_mem_chain (cx : Context) : cx.skipTemplates ∈ cx.chain := by
  induction cx with
  | root frame => exact mem_chain_self _
  | nested frame outer ih =>
    unfold skipTemplates
    split
    · exact List.mem_cons_of_mem _ ih
    · exact mem_chain_self _

/-- Constructor contexts are made around a context of the same chain. -/
theorem constructorBase_mem_chain (cx : Context) : cx.constructorBase ∈ cx.chain :=
  mem_chain_trans (skipTemplates_mem_chain _)
    (mem_chain_trans (outer_mem_chain _) (enclosingClass_mem_chain cx))

/-! ### Building -/

/-- An extension is one frame in the next place, and notes at most its import in a session. -/
theorem extend_eq (base : Context) (ext : Extension) (s : Store) :
    base.extend ext s = (.nested (base.innerFrame s.states.size ext) base,
      { s with
        sessions := (base.extend ext s).2.sessions
        states := s.states.push { modes := ext.modes, reporter := ext.reporter } }) := by
  unfold extend recordImport
  cases ext.imported with
  | none => rfl
  | some imp =>
    dsimp only
    split <;> rfl

/-- The import of an extension was registered before. -/
theorem extend_uses (base : Context) (ext : Extension) (s : Store) :
    (base.extend ext s).2.uses = s.uses :=
  congrArg (·.2.uses) (base.extend_eq ext s)

/-- The contexts that exist: what the constructors make, in any order, from contexts that exist. -/
inductive Built : Context → Prop where
  | openRoot (session : SessionId) (owner : SymbolId) (scope : ScopeId) (s : Store) :
      Built (openRoot session owner scope s).1
  | openRootWith (u : Universe) (session : SessionId) (owner : SymbolId) (scope : ScopeId)
      (imports : List RootImport) (s : Store) :
      Built (openRootWith u session owner scope imports s).1
  | make {cx : Context} (h : Built cx) (construct : Construct) (owner : SymbolId)
      (scope : ScopeId) (s : Store) : Built (cx.make construct owner scope s).1
  | makeNewScope {cx : Context} (h : Built cx) (construct : Construct) (owner : SymbolId)
      (s : Store) : Built (cx.makeNewScope construct owner s).1
  | makeImport {cx : Context} (h : Built cx) (clause : ImportClause) (s : Store) :
      Built (cx.makeImport clause s).1
  | silentCopy {cx : Context} (h : Built cx) (surface : Bool) (s : Store) :
      Built (cx.silentCopy surface s).1
  | implicitCopy {cx : Context} (h : Built cx) (surface : Bool) (s : Store) :
      Built (cx.implicitCopy surface s).1
  | makeConstructor {cx : Context} (h : Built cx) (u : Universe) (s : Store) :
      Built (cx.makeConstructor u s).1

/-- Every frame of the chain is the one that a context gets when it is made inside the rest. -/
inductive Grown : Context → Prop where
  | root {frame : Frame} (hnode : frame.node = .root) (hdepth : frame.depth = 1)
      (hself : frame.selfType = .self frame.owner) (himported : frame.imported = none) :
      Grown (.root frame)
  | nested {cx : Context} (h : Grown cx) (id : ContextId) (ext : Extension) :
      Grown (.nested (cx.innerFrame id ext) cx)

/-- What is around a grown context is grown. -/
theorem Grown.of_mem_chain {cx c : Context} (h : Grown cx) (hc : c ∈ cx.chain) : Grown c := by
  induction h with
  | root hnode hdepth hself himported =>
    rw [mem_chain_root.mp hc]
    exact .root hnode hdepth hself himported
  | nested hcx id ext ih =>
    rcases List.mem_cons.mp hc with rfl | hc
    · exact .nested hcx id ext
    · exact ih hc

theorem grown_openRoot (session : SessionId) (owner : SymbolId) (scope : ScopeId) (s : Store) :
    Grown (openRoot session owner scope s).1 :=
  .root rfl rfl rfl rfl

/-- A grown context with a new frame inside is grown. -/
theorem Grown.extend {cx : Context} (h : Grown cx) (ext : Extension) (s : Store) :
    Grown (cx.extend ext s).1 :=
  h.nested _ ext

theorem Grown.make {cx : Context} (h : Grown cx) (construct : Construct) (owner : SymbolId)
    (scope : ScopeId) (s : Store) : Grown (cx.make construct owner scope s).1 :=
  h.extend _ _

/-- A copy of a grown context is grown. -/
theorem Grown.silentCopy {cx : Context} (h : Grown cx) (surface : Bool) (s : Store) :
    Grown (cx.silentCopy surface s).1 :=
  h.extend _ _

theorem Grown.openImports {cx : Context} (h : Grown cx) (u : Universe) (imports : List RootImport)
    (s : Store) : Grown (cx.openImports u imports s).1 := by
  unfold Context.openImports
  induction imports generalizing cx s with
  | nil => exact h
  | cons imp imports ih =>
    rw [List.foldl_cons]
    cases imp.qualifier? u with
    | none => exact ih h s
    | some qualifier => exact ih (h.make (.importing (.root qualifier)) cx.owner cx.scope s) _

/-- **Built contexts are grown frame by frame.** -/
theorem Built.grown {cx : Context} (h : Built cx) : Grown cx := by
  induction h with
  | openRoot session owner scope s => exact grown_openRoot session owner scope s
  | openRootWith u session owner scope imports s =>
    exact (grown_openRoot session owner scope s).openImports u imports _
  | make _ construct owner scope s ih => exact ih.make construct owner scope s
  | makeNewScope _ construct owner s ih => exact ih.make construct owner _ _
  | makeImport _ clause s ih => exact ih.make _ _ _ s
  | silentCopy _ surface s ih => exact ih.silentCopy surface s
  | implicitCopy _ surface s ih => exact ih.silentCopy surface s
  | @makeConstructor cx _ u s ih =>
    exact (ih.of_mem_chain cx.constructorBase_mem_chain).extend _ _

/-! ### Depth -/

theorem depth_le_innerFrame (cx : Context) (id : ContextId) (ext : Extension) :
    cx.depth ≤ (cx.innerFrame id ext).depth := by
  unfold innerFrame
  dsimp only
  split <;> omega

/-- **On the way outward the depth never grows.** -/
theorem Grown.depth_antitone {cx : Context} (h : Grown cx) :
    cx.chain.Pairwise fun inner outer => outer.depth ≤ inner.depth := by
  induction h with
  | root => exact List.pairwise_singleton ..
  | @nested cx _ id ext ih =>
    refine List.pairwise_cons.mpr ⟨fun c hc => ?_, ih⟩
    -- The context next outward is as deep as any around it.
    have hc' : c.depth ≤ cx.depth := by
      obtain ⟨around, hchain⟩ := cx.chain_eq_cons
      rw [hchain] at hc ih
      rcases List.mem_cons.mp hc with rfl | hc
      · exact Nat.le_refl _
      · exact List.rel_of_pairwise_cons ih hc
    exact Nat.le_trans hc' (depth_le_innerFrame cx id ext)

end NameResolution.Context
