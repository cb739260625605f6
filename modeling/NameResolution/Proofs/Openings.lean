import NameResolution.Proofs.Chain

/-!
# Openings

A context is opened inside another in six ways. Of what a context holds in the store they decide
two things: which buffers it reports into, and whether it surfaces ambiguities. Copies have buffers
of their own and are told what to surface; all others share with the context they are opened in.

* `Opening.run_states`, `Opening.run_channels`: what an opening adds to the store.
* `Activity`: the stores that come about, each with the contexts opened on the way.
* `Activity.registered`: every context opened is registered, and so are the buffers it reports into.
* `Activity.placed`, `Activity.built`: the contexts opened are built, no two share a place, and with
  a context all around it were opened.
-/

namespace NameResolution

/-- A way to open a context inside another. -/
inductive Opening where
  | make (construct : Construct) (owner : SymbolId) (scope : ScopeId)
  | newScope (construct : Construct) (owner : SymbolId)
  | importing (clause : ImportClause)
  | silent (surface : Bool)
  | implicit (surface : Bool)
  | constructor (u : Universe)

namespace Opening

variable (cx : Context) (s : Store)

def run : Opening → Context × Store
  | make construct owner scope => cx.make construct owner scope s
  | newScope construct owner => cx.makeNewScope construct owner s
  | importing clause => cx.makeImport clause s
  | silent surface => cx.silentCopy surface s
  | implicit surface => cx.implicitCopy surface s
  | constructor u => cx.makeConstructor u s

/-- The reporter of the new context, and the channels once it has its buffers. -/
def reporting : Opening → Reporter × Channels
  | silent _ | implicit _ => (cx.reporter s).fork s.channels
  | _ => (cx.reporter s, s.channels)

def surfaces : Opening → Bool
  | silent surface | implicit surface => surface
  | _ => cx.hasMode .ambiguousErrors s

end Opening

namespace Context

variable (base : Context) (ext : Extension) (s : Store)

/-! ### What an extension adds -/

/-- A new context takes the next state. -/
theorem extend_states :
    (base.extend ext s).2.states =
      s.states.push { modes := ext.modes, reporter := ext.reporter } :=
  congrArg (·.2.states) (base.extend_eq ext s)

theorem extend_channels : (base.extend ext s).2.channels = s.channels :=
  congrArg (·.2.channels) (base.extend_eq ext s)

theorem extend_id : (base.extend ext s).1.id = s.states.size :=
  congrArg (·.1.id) (base.extend_eq ext s)

/-- At most an import is noted in a session. -/
theorem extend_sessions :
    (base.extend ext s).2.sessions.size = s.sessions.size ∧
      ∀ id, ((base.extend ext s).2.session id).round = (s.session id).round := by
  unfold extend recordImport
  cases ext.imported with
  | none => exact ⟨rfl, fun _ => rfl⟩
  | some imp =>
    dsimp only
    split
    · exact ⟨rfl, fun _ => rfl⟩
    · refine ⟨Array.size_modify, fun id => ?_⟩
      show ((s.modifySession base.session (·.record imp)).session id).round = _
      unfold Store.session Store.modifySession
      rw [Array.getElem?_modify]
      split
      · cases s.sessions[id]? <;> rfl
      · rfl

/-- A context for a construct extends the one around it, once the import is made. -/
theorem make_eq (cx : Context) (construct : Construct) (owner : SymbolId) (scope : ScopeId) :
    cx.make construct owner scope s =
      cx.extend
        { node := construct.node, owner, scope, imported := (importOf construct s).1
          reporter := cx.reporter s, modes := cx.innerModes construct.node s }
        { s with uses := (importOf construct s).2.uses } := by
  cases construct <;> rfl

/-! ### Modes of a new context -/

/-- Whether ambiguities are surfaced is passed on to contexts inside. -/
theorem contains_innerModes (node : NodeKind) :
    (base.innerModes node s).contains .ambiguousErrors = base.hasMode .ambiguousErrors s := by
  have hconstructor : (SwitchSet.ofList [Mode.typeConstructorAllowed]).contains .ambiguousErrors =
      false := by decide
  have hsuffix : (SwitchSet.ofList [Mode.constructorSuffix]).contains .ambiguousErrors = false := by
    decide
  unfold innerModes hasMode
  split <;> simp [SwitchSet.erase, hconstructor, hsuffix]

/-- A copy surfaces ambiguities exactly if it is told to. -/
theorem contains_assign (modes : Modes) (surface : Bool) :
    (modes.assign (.ofList [.ambiguousErrors]) surface).contains .ambiguousErrors = surface := by
  have hon : (SwitchSet.ofList [Mode.ambiguousErrors]).contains .ambiguousErrors = true := by decide
  cases surface <;> simp [SwitchSet.assign, hon]

end Context

namespace Opening

open Context

variable (o : Opening) (cx : Context) (s : Store)

/-! ### What an opening adds -/

theorem run_id : (o.run cx s).1.id = s.states.size := by
  cases o with
  | make construct owner scope =>
    show (cx.make construct owner scope s).1.id = _
    rw [make_eq, extend_id]
  | newScope construct owner =>
    show (cx.make construct owner s.scopes.size (s.addScope .empty).2).1.id = _
    rw [make_eq, extend_id]
    rfl
  | importing clause => exact extend_id cx _ _
  | silent surface => exact extend_id cx _ _
  | implicit surface =>
    show (cx.silentCopy surface s).1.id = _
    exact extend_id cx _ _
  | constructor u => exact extend_id cx.constructorBase _ _

/-- **The new context comes last, with its reporter and with modes that say what it surfaces.** -/
theorem run_states :
    ∃ modes : Modes, modes.contains .ambiguousErrors = o.surfaces cx s ∧
      (o.run cx s).2.states =
        s.states.push { modes, reporter := (o.reporting cx s).1 } := by
  cases o with
  | make construct owner scope =>
    refine ⟨cx.innerModes construct.node s, contains_innerModes .., ?_⟩
    show (cx.make construct owner scope s).2.states = _
    rw [make_eq, extend_states]
    rfl
  | newScope construct owner =>
    refine ⟨cx.innerModes construct.node s, contains_innerModes .., ?_⟩
    show (cx.make construct owner s.scopes.size (s.addScope .empty).2).2.states = _
    rw [make_eq, extend_states]
    rfl
  | importing clause =>
    exact ⟨cx.innerModes .importing s, contains_innerModes .., extend_states cx _ _⟩
  | silent surface => exact ⟨_, contains_assign _ surface, extend_states cx _ _⟩
  | implicit surface =>
    -- the copy is a silent one, changed where it was added
    obtain ⟨modes, hmodes, hstates⟩ : ∃ modes : Modes,
        modes.contains .ambiguousErrors = surface ∧
          (cx.silentCopy surface s).2.states =
            s.states.push { modes, reporter := ((cx.reporter s).fork s.channels).1 } :=
      ⟨_, contains_assign _ surface, extend_states cx _ _⟩
    have hid : (cx.silentCopy surface s).1.id = s.states.size := extend_id cx _ _
    have hoff : (SwitchSet.ofList [Mode.implicitsEnabled, .enrichmentEnabled]).contains
        .ambiguousErrors = false := by decide
    have hcurrent : (cx.silentCopy surface s).1.modes (cx.silentCopy surface s).2 = modes := by
      unfold Context.modes Store.stateOf
      rw [hid, hstates]
      simp
    refine ⟨modes \ .ofList [.implicitsEnabled, .enrichmentEnabled], ?_, ?_⟩
    · rw [SwitchSet.contains_diff, hoff, hmodes]
      simp [surfaces]
    · let copy := cx.silentCopy surface s
      show copy.2.states.modify copy.1.id (fun c => { c with
        modes := copy.1.modes copy.2 \ .ofList [.implicitsEnabled, .enrichmentEnabled] }) = _
      rw [hid, hstates, hcurrent]
      grind [reporting]
  | constructor u =>
    refine ⟨(cx.modes s).insert .selfSuperCall, ?_, extend_states cx.constructorBase _ _⟩
    have hcall : (SwitchSet.ofList [Mode.selfSuperCall]).contains .ambiguousErrors = false := by
      decide
    simp [SwitchSet.insert, hcall, surfaces, hasMode]

theorem run_channels : (o.run cx s).2.channels = (o.reporting cx s).2 := by
  cases o with
  | make construct owner scope =>
    show (cx.make construct owner scope s).2.channels = _
    rw [make_eq, extend_channels]
    rfl
  | newScope construct owner =>
    show (cx.make construct owner s.scopes.size (s.addScope .empty).2).2.channels = _
    rw [make_eq, extend_channels]
    rfl
  | importing clause => exact extend_channels cx _ _
  | silent surface => exact extend_channels cx _ _
  | implicit surface =>
    show (cx.silentCopy surface s).2.channels = _
    exact extend_channels cx _ _
  | constructor u => exact extend_channels cx.constructorBase _ _

/-! ### Reading the store after an opening -/

theorem size_states : (o.run cx s).2.states.size = s.states.size + 1 := by
  obtain ⟨modes, -, hstates⟩ := o.run_states cx s
  rw [hstates, Array.size_push]

theorem run_id_lt : (o.run cx s).1.id < (o.run cx s).2.states.size := by
  rw [o.size_states, o.run_id]
  exact Nat.lt_succ_self _

/-- The contexts that are there keep their states. -/
theorem stateOf_of_lt {id : ContextId} (hid : id < s.states.size) :
    (o.run cx s).2.stateOf id = s.stateOf id := by
  obtain ⟨modes, -, hstates⟩ := o.run_states cx s
  unfold Store.stateOf
  rw [hstates, Array.getElem?_push_lt hid, Array.getElem?_eq_getElem hid]

theorem reporter_of_lt {c : Context} (hid : c.id < s.states.size) :
    c.reporter (o.run cx s).2 = c.reporter s :=
  congrArg ContextState.reporter (o.stateOf_of_lt cx s hid)

/-- The new context has the reporter of its opening. -/
theorem reporter_run : (o.run cx s).1.reporter (o.run cx s).2 = (o.reporting cx s).1 := by
  obtain ⟨modes, -, hstates⟩ := o.run_states cx s
  unfold Context.reporter Store.stateOf
  rw [o.run_id, hstates]
  simp

/-- And the mode of its opening. -/
theorem hasMode_run :
    (o.run cx s).1.hasMode .ambiguousErrors (o.run cx s).2 = o.surfaces cx s := by
  obtain ⟨modes, hmodes, hstates⟩ := o.run_states cx s
  unfold Context.hasMode Context.modes Store.stateOf
  rw [o.run_id, hstates]
  simpa using hmodes

end Opening

/-! ### Stores that come about -/

/-- The stores that come about, each with the contexts opened on the way. Contexts for root imports
are opened one inside the other like any import. -/
inductive Activity : Store → List Context → Prop where
  | start {s : Store} (hstates : s.states = #[]) : Activity s []
  | openRoot {s : Store} {opened : List Context} (h : Activity s opened) (session : SessionId)
      (owner : SymbolId) (scope : ScopeId) :
      Activity (Context.openRoot session owner scope s).2
        ((Context.openRoot session owner scope s).1 :: opened)
  | opening {s : Store} {opened : List Context} {cx : Context} (h : Activity s opened)
      (hcx : cx ∈ opened) (o : Opening) : Activity (o.run cx s).2 ((o.run cx s).1 :: opened)
  /-- Entering declarations, looking up, reporting, changing modes, putting another reporter in use,
  and whatever else opens no context. -/
  | change {s s' : Store} {opened : List Context} (h : Activity s opened)
      (hstates : s'.states.size = s.states.size)
      (hbuffers : s.channels.buffers.size ≤ s'.channels.buffers.size)
      (hreporters : ∀ cx ∈ opened, (cx.reporter s').buffers = (cx.reporter s).buffers ∨
        (cx.reporter s').buffers < s'.channels.buffers.size) : Activity s' opened

/-- A context that has a place in the store and reports into buffers that have one. -/
structure Context.Registered (s : Store) (cx : Context) : Prop where
  id : cx.id < s.states.size
  buffers : (cx.reporter s).buffers < s.channels.buffers.size

theorem Context.Registered.opening {s : Store} {cx c : Context} (h : c.Registered s) (o : Opening) :
    c.Registered (o.run cx s).2 where
  id := by
    rw [o.size_states]
    exact Nat.lt_succ_of_lt h.id
  buffers := by
    rw [o.reporter_of_lt cx s h.id, o.run_channels]
    cases o with
    | silent | implicit =>
      show _ < (s.channels.buffers.push {}).size
      rw [Array.size_push]
      exact Nat.lt_succ_of_lt h.buffers
    | make | newScope | importing | constructor => exact h.buffers

/-- What is opened at a registered context is registered. -/
theorem Context.Registered.opened {s : Store} {cx : Context} (h : cx.Registered s) (o : Opening) :
    (o.run cx s).1.Registered (o.run cx s).2 where
  id := o.run_id_lt cx s
  buffers := by
    rw [o.reporter_run, o.run_channels]
    cases o with
    | silent | implicit =>
      show s.channels.buffers.size < (s.channels.buffers.push {}).size
      rw [Array.size_push]
      exact Nat.lt_succ_self _
    | make | newScope | importing | constructor => exact h.buffers

/-- **Every context opened is registered, and so are the buffers it reports into.** -/
theorem Activity.registered {s : Store} {opened : List Context} (h : Activity s opened) :
    ∀ cx ∈ opened, cx.Registered s := by
  induction h with
  | start => exact fun cx hcx => nomatch hcx
  | @openRoot s opened _ session owner scope ih =>
    refine List.forall_mem_cons.mpr ⟨⟨?_, ?_⟩, fun cx hcx => ⟨?_, ?_⟩⟩
    · show s.states.size < (s.states.push _).size
      simp
    · show (((s.states.push _)[s.states.size]?).getD default).reporter.buffers <
        (s.channels.buffers.push {}).size
      simp
    · show cx.id < (s.states.push _).size
      rw [Array.size_push]
      exact Nat.lt_succ_of_lt (ih cx hcx).id
    · have hbuffers := (ih cx hcx).buffers
      unfold Context.reporter Store.stateOf at hbuffers
      show (((s.states.push _)[cx.id]?).getD default).reporter.buffers <
        (s.channels.buffers.push {}).size
      rw [Array.getElem?_push_lt (ih cx hcx).id, ← Array.getElem?_eq_getElem (ih cx hcx).id,
        Array.size_push]
      exact Nat.lt_succ_of_lt hbuffers
  | opening _ hcx o ih =>
    exact List.forall_mem_cons.mpr ⟨(ih _ hcx).opened o, fun c hc => (ih c hc).opening o⟩
  | change _ hstates hbuffers hreporters ih =>
    intro cx hcx
    refine ⟨hstates ▸ (ih cx hcx).id, ?_⟩
    rcases hreporters cx hcx with hsame | hlt
    · rw [hsame]
      exact Nat.lt_of_lt_of_le (ih cx hcx).buffers hbuffers
    · exact hlt

/-! ### Places -/

namespace Opening

variable (o : Opening) (cx : Context) (s : Store)

/-- A context is opened inside the one it is opened at, or further out. -/
theorem mem_chain_run {c : Context} (hc : c ∈ (o.run cx s).1.chain) :
    c = (o.run cx s).1 ∨ c ∈ cx.chain := by
  cases o with
  | make | newScope | importing | silent | implicit => exact List.mem_cons.mp hc
  | constructor u =>
    rcases List.mem_cons.mp hc with rfl | hc
    · exact Or.inl rfl
    · exact Or.inr (Context.mem_chain_trans hc (Context.constructorBase_mem_chain cx))

/-- What is opened at a built context is built. -/
theorem built_run (h : cx.Built) : (o.run cx s).1.Built := by
  cases o with
  | make construct owner scope => exact h.make construct owner scope s
  | newScope construct owner => exact h.makeNewScope construct owner s
  | importing clause => exact h.makeImport clause s
  | silent surface => exact h.silentCopy surface s
  | implicit surface => exact h.implicitCopy surface s
  | constructor u => exact h.makeConstructor u s

/-! ### Sessions and slots -/

/-- The new context has the session of a context around the one it is opened at. -/
theorem session_run : ∃ base ∈ cx.chain, (o.run cx s).1.session = base.session := by
  cases o with
  | make | newScope | importing | silent | implicit => exact ⟨cx, Context.mem_chain_self cx, rfl⟩
  | constructor u => exact ⟨cx.constructorBase, Context.constructorBase_mem_chain cx, rfl⟩

/-- At most an import is noted in a session. -/
theorem sessions_run :
    (o.run cx s).2.sessions.size = s.sessions.size ∧
      ∀ id, ((o.run cx s).2.session id).round = (s.session id).round := by
  cases o with
  | make construct owner scope =>
    unfold run
    dsimp only
    rw [Context.make_eq]
    exact Context.extend_sessions cx _ _
  | newScope construct owner =>
    unfold run Context.makeNewScope
    dsimp only
    rw [Context.make_eq]
    exact Context.extend_sessions cx _ _
  | importing clause => exact Context.extend_sessions cx _ _
  | silent surface => exact Context.extend_sessions cx _ _
  | implicit surface =>
    -- the modes of the copy are changed in the end
    show (cx.silentCopy surface s).2.sessions.size = _ ∧
      ∀ id, ((cx.silentCopy surface s).2.session id).round = _
    exact Context.extend_sessions cx _ _
  | constructor u => exact Context.extend_sessions cx.constructorBase _ _

/-- Nothing is known of the implicit level of a new context. -/
theorem level_run : ((o.run cx s).2.stateOf (o.run cx s).1.id).level = .absent := by
  obtain ⟨modes, -, hstates⟩ := o.run_states cx s
  unfold Store.stateOf
  rw [o.run_id, hstates]
  simp

end Opening

/-- The contexts opened have places of their own in the store, and all around them were opened. -/
structure Placed (s : Store) (opened : List Context) : Prop where
  registered : ∀ cx ∈ opened, cx.id < s.states.size
  apart : ∀ a ∈ opened, ∀ b ∈ opened, a.id = b.id → a = b
  around : ∀ cx ∈ opened, ∀ c ∈ cx.chain, c ∈ opened

namespace Placed

variable {s s' : Store} {opened : List Context}

theorem none (s : Store) : Placed s [] where
  registered := fun _ hcx => nomatch hcx
  apart := fun _ ha => nomatch ha
  around := fun _ hcx => nomatch hcx

/-- A new context takes the next place. -/
theorem add (h : Placed s opened) {new : Context} (hid : new.id = s.states.size)
    (hsize : s'.states.size = s.states.size + 1)
    (hchain : ∀ c ∈ new.chain, c = new ∨ c ∈ opened) : Placed s' (new :: opened) where
  registered := by
    rw [hsize]
    refine List.forall_mem_cons.mpr ⟨?_, fun cx hcx => Nat.lt_succ_of_lt (h.registered cx hcx)⟩
    rw [hid]
    exact Nat.lt_succ_self _
  apart := by
    have hnew : ∀ cx ∈ opened, cx.id ≠ new.id := fun cx hcx =>
      hid ▸ Nat.ne_of_lt (h.registered cx hcx)
    intro a ha b hb hsame
    rcases List.mem_cons.mp ha with rfl | ha'
    · rcases List.mem_cons.mp hb with rfl | hb'
      · rfl
      · exact absurd hsame.symm (hnew b hb')
    · rcases List.mem_cons.mp hb with rfl | hb'
      · exact absurd hsame (hnew a ha')
      · exact h.apart a ha' b hb' hsame
  around := by
    refine List.forall_mem_cons.mpr ⟨fun c hc => List.mem_cons.mpr (hchain c hc), ?_⟩
    exact fun cx hcx c hc => List.mem_cons_of_mem _ (h.around cx hcx c hc)

theorem openRoot (h : Placed s opened) (session : SessionId) (owner : SymbolId) (scope : ScopeId) :
    Placed (Context.openRoot session owner scope s).2
      ((Context.openRoot session owner scope s).1 :: opened) :=
  h.add rfl (Array.size_push ..) fun _ hc => Or.inl (Context.mem_chain_root.mp hc)

theorem opening (h : Placed s opened) {cx : Context} (hcx : cx ∈ opened) (o : Opening) :
    Placed (o.run cx s).2 ((o.run cx s).1 :: opened) :=
  h.add (o.run_id cx s) (o.size_states cx s) fun c hc =>
    (o.mem_chain_run cx s hc).imp id (h.around cx hcx c)

/-- Around a context opened no place is taken twice. -/
theorem apart_chain (h : Placed s opened) {cx : Context} (hcx : cx ∈ opened) :
    ∀ a ∈ cx.chain, ∀ b ∈ cx.chain, a.id = b.id → a = b := fun a ha b hb =>
  h.apart a (h.around cx hcx a ha) b (h.around cx hcx b hb)

/-- What removes no state leaves every context in place. -/
theorem change (h : Placed s opened) (hstates : s.states.size ≤ s'.states.size) :
    Placed s' opened where
  registered := fun cx hcx => Nat.lt_of_lt_of_le (h.registered cx hcx) hstates
  apart := h.apart
  around := h.around

end Placed

/-- **No two contexts opened share a place.** -/
theorem Activity.placed {s : Store} {opened : List Context} (h : Activity s opened) :
    Placed s opened := by
  induction h with
  | start => exact .none _
  | openRoot _ session owner scope ih => exact ih.openRoot session owner scope
  | opening _ hcx o ih => exact ih.opening hcx o
  | change _ hstates _ _ ih => exact ih.change (Nat.le_of_eq hstates.symm)

/-- Every context an activity has opened is built. -/
theorem Activity.built {s : Store} {opened : List Context} (h : Activity s opened) :
    ∀ cx ∈ opened, cx.Built := by
  induction h with
  | start => exact fun cx hcx => nomatch hcx
  | openRoot _ session owner scope ih => exact List.forall_mem_cons.mpr ⟨.openRoot .., ih⟩
  | opening _ hcx o ih => exact List.forall_mem_cons.mpr ⟨o.built_run _ _ (ih _ hcx), ih⟩
  | change _ _ _ _ ih => exact ih

end NameResolution
