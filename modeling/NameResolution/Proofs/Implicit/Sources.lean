import NameResolution.Proofs.Implicit.Copies

/-!
# Which levels come from imports

A level comes from an import where the nearest import in effect is not the one in effect around, and
nothing else takes precedence. `ImportRun` closes a store without contexts under opening contexts,
imports as `importing` opens them: with the owner and the scope of the context around.

* `ImportRun.anchored`: on the chain of a context opened, an import takes effect with the owner and
  the scope around it, and was made after those further out.
* `Context.Anchored.import?_levelSource`: so the level of a context comes from an import exactly if
  the import takes effect there, and then from this one.
* `ImportRun.openRootWith`: root imports are opened that way.
* `ImportRun.levels_of_imports`: over the chain, every import contributes its candidates once.
-/

namespace NameResolution

def LevelSource.import? : LevelSource → Option Import
  | imported imp => some imp
  | _ => none

/-- Whether a context for an import is opened with the owner and the scope of the context around. -/
def Opening.isRegular : Opening → Bool
  | make construct _ _ | newScope construct _ => construct.clause?.isNone
  | importing _ | silent _ | implicit _ | constructor _ => true

/-- The stores that come about by opening contexts that way, each with the contexts opened. -/
inductive ImportRun : Store → List Context → Prop where
  | start {s : Store} (hstates : s.states = #[]) : ImportRun s []
  | openRoot {s : Store} {opened : List Context} (h : ImportRun s opened) (session : SessionId)
      (owner : SymbolId) (scope : ScopeId) :
      ImportRun (Context.openRoot session owner scope s).2
        ((Context.openRoot session owner scope s).1 :: opened)
  | opening {s : Store} {opened : List Context} {cx : Context} (h : ImportRun s opened)
      (hcx : cx ∈ opened) (o : Opening) (hregular : o.isRegular = true) :
      ImportRun (o.run cx s).2 ((o.run cx s).1 :: opened)
  /-- Entering declarations, looking up, reporting, changing modes, asking for levels, and whatever
  else opens no context. -/
  | change {s s' : Store} {opened : List Context} (h : ImportRun s opened)
      (hstates : s.states.size ≤ s'.states.size) (huses : s.uses.size ≤ s'.uses.size) :
      ImportRun s' opened

namespace Context

/-- On the chain an import takes effect with the owner and the scope around it, is one of those that
were made, and was made after those further out. -/
structure Anchored (s : Store) (cx : Context) : Prop where
  shares : ∀ c ∈ cx.chain, ∀ imp, c.imported = some imp →
    ∃ outer, c.outer? = some outer ∧ c.owner = outer.owner ∧ c.scope = outer.scope
  made : ∀ c ∈ cx.chain, ∀ imp, c.imported = some imp → imp.id < s.uses.size
  later : cx.chain.Pairwise fun inner outer => ∀ a b, inner.imported = some a →
    outer.imported = some b → b.id < a.id

/-- The import in effect at a context where none takes effect is the one in effect around it. -/
theorem ownImport?_eq_none {cx : Context} (h : cx.imported = none) : cx.ownImport? = none := by
  cases cx with
  | root frame =>
    unfold ownImport? firstImport?
    rw [enclosingImport?_root, show frame.imported = none from h]
    rfl
  | nested frame outer =>
    have hfirst : (nested frame outer).firstImport? = outer.firstImport? := by
      unfold firstImport?
      rw [enclosingImport?_nested, show frame.imported = none from h]
      rfl
    unfold ownImport?
    rw [hfirst]
    cases himport : outer.firstImport? <;> simp [outer?, himport]

namespace Anchored

variable {s s' : Store} {cx : Context}

theorem root {frame : Frame} (h : frame.imported = none) : Anchored s (.root frame) where
  shares := by
    intro c hc imp himp
    rw [mem_chain_root.mp hc] at himp
    cases h.symm.trans himp
  made := by
    intro c hc imp himp
    rw [mem_chain_root.mp hc] at himp
    cases h.symm.trans himp
  later := List.pairwise_singleton ..

theorem mono (h : cx.Anchored s) (huses : s.uses.size ≤ s'.uses.size) : cx.Anchored s' where
  shares := h.shares
  made := fun c hc imp himp => Nat.lt_of_lt_of_le (h.made c hc imp himp) huses
  later := h.later

/-- A part of the chain is anchored. -/
theorem of_mem_chain {c : Context} (h : cx.Anchored s) (hc : c ∈ cx.chain) : c.Anchored s := by
  induction cx with
  | root frame =>
    rw [mem_chain_root.mp hc]
    exact h
  | nested frame outer ih =>
    rcases List.mem_cons.mp hc with rfl | hc
    · exact h
    · exact ih ⟨fun c hc => h.shares c (List.mem_cons_of_mem _ hc),
        fun c hc => h.made c (List.mem_cons_of_mem _ hc), (List.pairwise_cons.mp h.later).2⟩ hc

/-- A context inside an anchored one is anchored if its import, if it has one, is new and takes
effect with the owner and the scope around it. -/
theorem nested (h : cx.Anchored s) {frame : Frame} (hsize : s.uses.size ≤ s'.uses.size)
    (hframe : ∀ imp, frame.imported = some imp → frame.owner = cx.owner ∧ frame.scope = cx.scope ∧
      imp.id = s.uses.size ∧ s.uses.size < s'.uses.size) : (nested frame cx).Anchored s' where
  shares := by
    refine List.forall_mem_cons.mpr ⟨fun imp himp => ?_, h.shares⟩
    obtain ⟨howner, hscope, -⟩ := hframe imp himp
    exact ⟨cx, rfl, howner, hscope⟩
  made := by
    refine List.forall_mem_cons.mpr ⟨fun imp himp => ?_, (h.mono hsize).made⟩
    obtain ⟨-, -, hid, hlt⟩ := hframe imp himp
    exact hid ▸ hlt
  later := by
    refine List.pairwise_cons.mpr ⟨fun c hc a b ha hb => ?_, h.later⟩
    obtain ⟨-, -, hid, -⟩ := hframe a ha
    rw [hid]
    exact h.made c hc b hb

/-! ### Where the level comes from -/

/-- **The import of an anchored context is in effect nowhere around it.** -/
theorem ownImport?_eq_some (h : cx.Anchored s) {imp : Import} (himp : cx.imported = some imp) :
    cx.ownImport? = some imp := by
  obtain ⟨outer, houter, -, -⟩ := h.shares cx (mem_chain_self cx) imp himp
  have hfirst : cx.firstImport? = some imp := by
    unfold firstImport? enclosingImport? Links.nearestImport
    simp [himp]
  have hother : ¬ outer.firstImport?.map (·.id) = some imp.id := by
    intro hid
    obtain ⟨other, hother, hsame⟩ := Option.map_eq_some_iff.mp hid
    obtain ⟨c, hc, himported⟩ := Option.bind_eq_some_iff.mp hother
    rw [enclosingImport?_eq_find?] at hc
    have hlater := h.later
    rw [chain_of_outer? houter] at hlater
    have hlt := (List.pairwise_cons.mp hlater).1 c (List.mem_of_find?_eq_some hc) imp other
      himp himported
    omega
  unfold ownImport?
  rw [hfirst, houter]
  exact if_neg hother

variable {u : Universe} {later : Store}

theorem import?_levelSource (h : cx.Anchored s)
    (hnative : (later.session cx.session).unit.isInterop = false) :
    (cx.levelSource u later).import? = cx.imported := by
  cases himp : cx.imported with
  | none =>
    -- nothing but an import of its own makes a level come from one
    unfold levelSource
    rw [ownImport?_eq_none himp]
    dsimp only
    repeat' split
    all_goals rfl
  | some imp =>
    obtain ⟨outer, houter, howner, hscope⟩ := h.shares cx (mem_chain_self cx) imp himp
    have hbody : cx.opensBody u later = false := by
      unfold opensBody
      simp [houter, howner]
    have hopens : cx.opensScope = false := by
      unfold opensScope
      simp [houter, hscope]
    unfold levelSource
    rw [hnative, hbody, hopens, h.ownImport?_eq_some himp]
    rfl

end Anchored

/-- All contexts of a chain are of one session. -/
theorem Grown.session_eq {cx : Context} (h : cx.Grown) :
    ∀ c ∈ cx.chain, c.session = cx.session := by
  induction h with
  | root =>
    intro c hc
    rw [mem_chain_root.mp hc]
  | nested _ id ext ih => exact List.forall_mem_cons.mpr ⟨rfl, ih⟩

end Context

/-! ### Runs -/

namespace Opening

open Context

/-- **An opening adds one frame inside a context of the chain.** If it holds an import, the import
is new, and owner and scope are those around. -/
theorem run_eq_nested {o : Opening} (hregular : o.isRegular = true) (cx : Context) (s : Store) :
    ∃ base ∈ cx.chain, ∃ frame, (o.run cx s).1 = .nested frame base ∧
      s.uses.size ≤ (o.run cx s).2.uses.size ∧
      ∀ imp, frame.imported = some imp → frame.owner = base.owner ∧ frame.scope = base.scope ∧
        imp.id = s.uses.size ∧ s.uses.size < (o.run cx s).2.uses.size := by
  have hplain : ∀ (construct : Construct) (owner : SymbolId) (scope : ScopeId) (s : Store),
      construct.clause? = none →
      ∃ frame, (cx.make construct owner scope s).1 = .nested frame cx ∧
        frame.imported = none ∧ (cx.make construct owner scope s).2.uses = s.uses := by
    intro construct owner scope s hclause
    have himport : importOf construct s = (none, s) := by
      unfold importOf
      rw [hclause]
    rw [make_eq, himport]
    exact ⟨_, rfl, rfl, extend_uses ..⟩
  cases o with
  | make construct owner scope =>
    obtain ⟨frame, hrun, himported, huses⟩ :=
      hplain construct owner scope s (Option.isNone_iff_eq_none.mp hregular)
    refine ⟨cx, mem_chain_self cx, frame, hrun, Nat.le_of_eq (congrArg Array.size huses.symm), ?_⟩
    exact fun imp himp => nomatch himported.symm.trans himp
  | newScope construct owner =>
    obtain ⟨frame, hrun, himported, huses⟩ := hplain construct owner s.scopes.size
      (s.addScope .empty).2 (Option.isNone_iff_eq_none.mp hregular)
    refine ⟨cx, mem_chain_self cx, frame, hrun, Nat.le_of_eq (congrArg Array.size huses.symm), ?_⟩
    exact fun imp himp => nomatch himported.symm.trans himp
  | importing clause =>
    have huses : ((Opening.importing clause).run cx s).2.uses.size = s.uses.size + 1 := by
      show (cx.make (.importing clause) cx.owner cx.scope s).2.uses.size = _
      rw [make_eq, extend_uses]
      exact Array.size_push ..
    refine ⟨cx, mem_chain_self cx, _, rfl, by omega, fun imp himp => ?_⟩
    obtain rfl := Option.some.inj himp
    exact ⟨rfl, rfl, rfl, by omega⟩
  | silent surface =>
    have huses : ((Opening.silent surface).run cx s).2.uses = s.uses := extend_uses cx _ _
    exact ⟨cx, mem_chain_self cx, _, rfl, Nat.le_of_eq (congrArg Array.size huses.symm),
      fun imp himp => nomatch himp⟩
  | implicit surface =>
    have huses : ((Opening.implicit surface).run cx s).2.uses = s.uses := by
      show (cx.silentCopy surface s).2.uses = _
      exact extend_uses cx _ _
    exact ⟨cx, mem_chain_self cx, _, rfl, Nat.le_of_eq (congrArg Array.size huses.symm),
      fun imp himp => nomatch himp⟩
  | constructor u =>
    have huses : ((Opening.constructor u).run cx s).2.uses = s.uses :=
      extend_uses cx.constructorBase _ _
    exact ⟨cx.constructorBase, constructorBase_mem_chain cx, _, rfl,
      Nat.le_of_eq (congrArg Array.size huses.symm), fun imp himp => nomatch himp⟩

end Opening

namespace ImportRun

variable {s : Store} {opened : List Context}

theorem placed (h : ImportRun s opened) : Placed s opened := by
  induction h with
  | start => exact .none _
  | openRoot _ session owner scope ih => exact ih.openRoot session owner scope
  | opening _ hcx o _ ih => exact ih.opening hcx o
  | change _ hstates _ ih => exact ih.change hstates

theorem built (h : ImportRun s opened) : ∀ cx ∈ opened, cx.Built := by
  induction h with
  | start => exact fun cx hcx => nomatch hcx
  | openRoot _ session owner scope ih => exact List.forall_mem_cons.mpr ⟨.openRoot .., ih⟩
  | opening _ hcx o _ ih => exact List.forall_mem_cons.mpr ⟨o.built_run _ _ (ih _ hcx), ih⟩
  | change _ _ _ ih => exact ih

/-- **Every context opened is anchored.** -/
theorem anchored (h : ImportRun s opened) : ∀ cx ∈ opened, cx.Anchored s := by
  induction h with
  | start => exact fun cx hcx => nomatch hcx
  | openRoot _ session owner scope ih =>
    exact List.forall_mem_cons.mpr ⟨.root rfl, fun cx hcx => (ih cx hcx).mono (Nat.le_refl _)⟩
  | @opening s opened cx _ hcx o hregular ih =>
    obtain ⟨base, hbase, frame, hrun, hsize, hframe⟩ := Opening.run_eq_nested hregular cx s
    refine List.forall_mem_cons.mpr ⟨?_, fun c hc => (ih c hc).mono hsize⟩
    rw [hrun]
    exact ((ih cx hcx).of_mem_chain hbase).nested hsize hframe
  | change _ _ huses ih => exact fun cx hcx => (ih cx hcx).mono huses

/-- The contexts of root imports are opened one inside the other. -/
theorem openImports {cx : Context} (h : ImportRun s (cx :: opened)) (u : Universe)
    (imports : List RootImport) :
    ∃ further, ImportRun (cx.openImports u imports s).2
      ((cx.openImports u imports s).1 :: (further ++ opened)) := by
  unfold Context.openImports
  induction imports generalizing cx s opened with
  | nil => exact ⟨[], h⟩
  | cons imp imports ih =>
    rw [List.foldl_cons]
    cases imp.qualifier? u with
    | none => exact ih h
    | some qualifier =>
      obtain ⟨further, hrun⟩ := ih (h.opening List.mem_cons_self (.importing (.root qualifier)) rfl)
      refine ⟨further ++ [cx], ?_⟩
      rw [List.append_assoc]
      exact hrun

theorem openRootWith (h : ImportRun s opened) (u : Universe) (session : SessionId)
    (owner : SymbolId) (scope : ScopeId) (imports : List RootImport) :
    ∃ further, ImportRun (Context.openRootWith u session owner scope imports s).2
      ((Context.openRootWith u session owner scope imports s).1 :: (further ++ opened)) :=
  (h.openRoot session owner scope).openImports u imports

end ImportRun

/-! ### The levels of a chain -/

namespace Context

/-- What a context contributes: the candidates of the import that takes effect there, or else of the
body, the scope or the package object. -/
def contribution (cx : Context) (u : Universe) (s : Store) : List Candidate :=
  match cx.imported with
  | some ⟨_, clause⟩ =>
    cx.importedCandidates u s clause
      (if clause.selectors.any (·.isWildcard) then u.implicitMembers clause.qualifier else [])
      clause.selectors
  | none => (cx.freshLevel? u s).getD []

theorem Anchored.freshLevel?_eq {s later : Store} {cx : Context} (h : cx.Anchored s) {u : Universe}
    (hnative : (later.session cx.session).unit.isInterop = false) :
    (cx.freshLevel? u later).getD [] = cx.contribution u later := by
  have hsource := h.import?_levelSource (u := u) hnative
  unfold contribution
  cases himp : cx.imported with
  | none => rfl
  | some imp =>
    rw [himp] at hsource
    unfold freshLevel?
    cases hlevel : cx.levelSource u later with
    | imported other =>
      rw [hlevel] at hsource
      obtain rfl := Option.some.inj hsource
      unfold LevelSource.request?
      dsimp only
      cases other.clause.selectors.any (·.isWildcard) <;> rfl
    | _ =>
      rw [hlevel] at hsource
      cases hsource

/-- No import takes effect at two contexts of a chain. -/
theorem Anchored.nodup_imports {s : Store} {cx : Context} (h : cx.Anchored s) :
    (cx.chain.filterMap (·.imported)).Nodup := by
  refine List.pairwise_filterMap.mpr (h.later.imp fun hlater a ha b hb => ?_)
  rintro rfl
  exact Nat.lt_irrefl _ (hlater a a ha hb)

end Context

/-- **Every import contributes its candidates once.** Along the chain of a context of a native unit
the levels that come from imports are those of the contexts where imports take effect, and each
comes from the import of its context; no import takes effect twice. As long as no slot is filled,
the levels answered are these and what the other contexts contribute. -/
theorem ImportRun.levels_of_imports {s : Store} {opened : List Context} (h : ImportRun s opened)
    {cx : Context} (hcx : cx ∈ opened) (u : Universe)
    (hnative : (s.session cx.session).unit.isInterop = false)
    (hempty : ∀ c ∈ cx.chain, (s.stateOf c.id).level = .absent) :
    (cx.chain.map fun c => (c.levelSource u s).import?) = cx.chain.map (·.imported) ∧
      (cx.chain.filterMap (·.imported)).Nodup ∧
      (cx.askLevels u s).1 =
        (cx.chain.map fun c => c.contribution u s).filter fun level => !level.isEmpty := by
  have hanchored : ∀ c ∈ cx.chain, c.Anchored s := fun c hc =>
    (h.anchored cx hcx).of_mem_chain hc
  have hsession : ∀ c ∈ cx.chain, (s.session c.session).unit.isInterop = false := by
    intro c hc
    rw [(h.built cx hcx).grown.session_eq c hc]
    exact hnative
  refine ⟨List.map_congr_left fun c hc => (hanchored c hc).import?_levelSource (hsession c hc),
    (h.anchored cx hcx).nodup_imports, ?_⟩
  rw [Context.answers_of_absent u s hempty (h.placed.apart_chain hcx)]
  congr 1
  exact List.map_congr_left fun c hc => (hanchored c hc).freshLevel?_eq (hsession c hc)

/-- A copy of an import in a method of a class, below a root import: the root import, the members of
the class, and the import in the method each contribute the same value once. -/
theorem ImportRun.levels_of_imports_copy :
    let u := Sharing.table.toUniverse
    let unit := Context.openRootWith u 0 .root 0 [.always (.path ⟨2⟩)]
      (Sample.store #[.empty, .empty, .empty])
    let body := unit.1.make .template ⟨4⟩ 1 unit.2
    let method := body.1.make (.method false) ⟨5⟩ 2 body.2
    let inner := method.1.makeImport (.everything (.path ⟨2⟩) .dummy) method.2
    let cx := inner.1.implicitCopy false inner.2
    (∃ opened, ImportRun cx.2 (cx.1 :: opened)) ∧
      (cx.1.chain.map fun c => (c.levelSource u cx.2).import?) = cx.1.chain.map (·.imported) ∧
      (cx.1.chain.filterMap (·.imported)).Nodup ∧
      (cx.1.askLevels u cx.2).1 =
        (cx.1.chain.map fun c => c.contribution u cx.2).filter (fun level => !level.isEmpty) ∧
      (cx.1.askLevels u cx.2).1 =
        [[⟨Sample.name, .path ⟨2⟩, ⟨3⟩⟩], [⟨Sample.name, .self ⟨4⟩, ⟨5⟩⟩],
          [⟨Sample.name, .path ⟨2⟩, ⟨3⟩⟩], [⟨Sample.name, .path ⟨2⟩, ⟨3⟩⟩]] := by
  intro u unit body method inner cx
  obtain ⟨further, hunit⟩ := (ImportRun.start (s := Sample.store #[.empty, .empty, .empty])
    rfl).openRootWith u 0 .root 0 [.always (.path ⟨2⟩)]
  have hmethod := (hunit.opening List.mem_cons_self (.make .template ⟨4⟩ 1) rfl).opening
    List.mem_cons_self (.make (.method false) ⟨5⟩ 2) rfl
  have hcx : ImportRun cx.2 (cx.1 :: _) := (hmethod.opening List.mem_cons_self
    (.importing (.everything (.path ⟨2⟩) .dummy)) rfl).opening List.mem_cons_self
    (.implicit false) rfl
  obtain ⟨hsources, hnodup, hlevels⟩ := ImportRun.levels_of_imports hcx List.mem_cons_self u
    rfl (by decide +kernel)
  exact ⟨⟨_, hcx⟩, hsources, hnodup, hlevels, by decide +kernel⟩

end NameResolution
