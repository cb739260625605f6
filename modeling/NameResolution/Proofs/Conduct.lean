import NameResolution.Proofs.Calls
import NameResolution.Proofs.Openings

/-!
# Conduct

What becomes of a store while a computation works at the contexts it was given and at those it opens
inside them. It may report there, change modes, and enter what it likes; but it puts no other
reporter in use, and changes the modes of contexts that are held only for a while. What it reports
goes through a reporter, or past it, if it is an ambiguity to be surfaced.

* `Conduct.kept`: contexts keep their reporters, and those held their modes.
* `Conduct.walled`: where all contexts buffer, nothing gets out of their buffers but the ambiguities
  surfaced, and no buffer holds a report twice.
* `Conduct.trans`, `Conduct.mono`: conduct goes on, with less held and from more contexts.
-/

namespace NameResolution

/-! ### What contexts keep -/

/-- Contexts keep their places and their reporters, and those held their modes. -/
structure Kept (held : List ContextId) (before after : Store) : Prop where
  size : before.states.size ≤ after.states.size
  reporters : ∀ id < before.states.size, (after.stateOf id).reporter = (before.stateOf id).reporter
  modes : ∀ id ∈ held, id < before.states.size →
    (after.stateOf id).modes = (before.stateOf id).modes

namespace Kept

variable {held : List ContextId} {a b c : Store}

theorem refl (held : List ContextId) (s : Store) : Kept held s s :=
  ⟨Nat.le_refl _, fun _ _ => rfl, fun _ _ _ => rfl⟩

theorem trans (hab : Kept held a b) (hbc : Kept held b c) : Kept held a c where
  size := Nat.le_trans hab.size hbc.size
  reporters id hid :=
    (hbc.reporters id (Nat.lt_of_lt_of_le hid hab.size)).trans (hab.reporters id hid)
  modes id hheld hid :=
    (hbc.modes id hheld (Nat.lt_of_lt_of_le hid hab.size)).trans (hab.modes id hheld hid)

/-- What writes to the channels alone keeps every state. -/
theorem of_states (held : List ContextId) (h : b.states = a.states) : Kept held a b := by
  have hstate : ∀ id, b.stateOf id = a.stateOf id := by
    intro id
    unfold Store.stateOf
    rw [h]
  exact ⟨Nat.le_of_eq (by rw [h]), fun id _ => by rw [hstate], fun id _ _ => by rw [hstate]⟩

theorem mono (h : Kept held a b) {held' : List ContextId} (hheld : held' ⊆ held) :
    Kept held' a b :=
  ⟨h.size, h.reporters, fun id hid => h.modes id (hheld hid)⟩

end Kept

/-! ### Conduct -/

/--
From a store and the contexts reached there to a later store, the contexts reached then, and the
ambiguities surfaced on the way, in order. The held contexts keep their modes, except that modes may
be changed for the duration of a computation, in which that context is held no longer.
-/
inductive Conduct : List ContextId → Store → List Context →
    Store → List Context → List Reported → Prop where
  | start {held : List ContextId} {s : Store} {reach : List Context} :
      Conduct held s reach s reach []
  | opening {held : List ContextId} {s s' : Store} {reach reach' : List Context}
      {surfaced : List Reported} {c : Context} (h : Conduct held s reach s' reach' surfaced)
      (hc : c ∈ reach') (o : Opening) :
      Conduct held s reach (o.run c s').2 ((o.run c s').1 :: reach') surfaced
  | call {held : List ContextId} {s s' : Store} {reach reach' : List Context}
      {surfaced : List Reported} {c : Context} (h : Conduct held s reach s' reach' surfaced)
      (hc : c ∈ reach') (call : Call) :
      Conduct held s reach (call.run c s').2 reach' (surfaced ++ call.surfaced c s')
  /-- Hands on the warnings buffered at a context, and drops all that is buffered there. -/
  | adopt {held : List ContextId} {s s' : Store} {reach reach' : List Context}
      {surfaced : List Reported} {c source : Context}
      (h : Conduct held s reach s' reach' surfaced) (hc : c ∈ reach') (hsource : source ∈ reach') :
      Conduct held s reach (c.adoptWarnings (source.reporter s') s') reach' surfaced
  /-- Drops all that is buffered at a context. -/
  | clear {held : List ContextId} {s s' : Store} {reach reach' : List Context}
      {surfaced : List Reported} {c : Context} (h : Conduct held s reach s' reach' surfaced)
      (hc : c ∈ reach') :
      Conduct held s reach (s'.modifyChannels (c.reporter s').clear) reach' surfaced
  /-- Whatever neither reports nor replaces a reporter nor concerns the modes of the held contexts.
  Contexts and buffers may be added. -/
  | change {held : List ContextId} {s s' s'' : Store} {reach reach' : List Context}
      {surfaced : List Reported} (h : Conduct held s reach s' reach' surfaced)
      (hkept : Kept held s' s'') (hchannels : s'.channels.Untouched s''.channels)
      (hsound : ∀ id, s'.channels.buffers.size ≤ id → (s''.channels.buffersAt id).Sound) :
      Conduct held s reach s'' reach' surfaced
  /-- Changes the modes of a context for the duration of a computation. -/
  | withModes {held : List ContextId} {s s' s'' : Store} {reach reach' reach'' : List Context}
      {surfaced inside : List Reported} {c : Context}
      (h : Conduct held s reach s' reach' surfaced) (hc : c.id < s'.states.size)
      (enable disable : Modes)
      (hbody : Conduct (held.filter (· ≠ c.id))
        (c.setModes ((c.modes s').adjust enable disable) s') reach' s'' reach'' inside) :
      Conduct held s reach (c.setModes (c.modes s') s'') reach'' (surfaced ++ inside)

namespace Conduct

variable {held held' : List ContextId} {s s' s'' : Store} {reach reach' reach'' more : List Context}
  {surfaced inside : List Reported}

theorem trans (h : Conduct held s reach s' reach' surfaced)
    (hnext : Conduct held s' reach' s'' reach'' inside) :
    Conduct held s reach s'' reach'' (surfaced ++ inside) := by
  induction hnext with
  | start =>
    rw [List.append_nil]
    exact h
  | opening _ hc o ih => exact (ih h).opening hc o
  | call _ hc call ih =>
    rw [← List.append_assoc]
    exact (ih h).call hc call
  | adopt _ hc hsource ih => exact (ih h).adopt hc hsource
  | clear _ hc ih => exact (ih h).clear hc
  | change _ hkept hchannels hsound ih => exact (ih h).change hkept hchannels hsound
  | withModes _ hc enable disable hbody ih _ =>
    rw [← List.append_assoc]
    exact (ih h).withModes hc enable disable hbody

/-- What can be done from some contexts can be done from more, and with less held. -/
theorem mono (h : Conduct held s reach s' reach' surfaced) (hheld : held' ⊆ held)
    (hreach : reach ⊆ more) :
    ∃ more', reach' ⊆ more' ∧ more ⊆ more' ∧ Conduct held' s more s' more' surfaced := by
  induction h generalizing held' more with
  | start => exact ⟨more, hreach, List.Subset.refl _, .start⟩
  | opening _ hc o ih =>
    obtain ⟨more', hreach', hmore, hconduct⟩ := ih hheld hreach
    exact ⟨_, List.cons_subset_cons _ hreach', List.subset_cons_of_subset _ hmore,
      hconduct.opening (hreach' hc) o⟩
  | call _ hc call ih =>
    obtain ⟨more', hreach', hmore, hconduct⟩ := ih hheld hreach
    exact ⟨more', hreach', hmore, hconduct.call (hreach' hc) call⟩
  | adopt _ hc hsource ih =>
    obtain ⟨more', hreach', hmore, hconduct⟩ := ih hheld hreach
    exact ⟨more', hreach', hmore, hconduct.adopt (hreach' hc) (hreach' hsource)⟩
  | clear _ hc ih =>
    obtain ⟨more', hreach', hmore, hconduct⟩ := ih hheld hreach
    exact ⟨more', hreach', hmore, hconduct.clear (hreach' hc)⟩
  | change _ hkept hchannels hsound ih =>
    obtain ⟨more', hreach', hmore, hconduct⟩ := ih hheld hreach
    exact ⟨more', hreach', hmore, hconduct.change (hkept.mono hheld) hchannels hsound⟩
  | withModes _ hc enable disable _ ih ihbody =>
    obtain ⟨more', hreach', hmore, hconduct⟩ := ih hheld hreach
    obtain ⟨more'', hreach'', hmore', hinside⟩ := ihbody (List.filter_subset _ hheld) hreach'
    exact ⟨more'', hreach'', List.Subset.trans hmore hmore',
      hconduct.withModes hc enable disable hinside⟩

end Conduct

/-! ### States -/

namespace Context

variable (cx : Context) (s : Store) (modes : Modes)

theorem stateOf_setModes (id : ContextId) :
    (cx.setModes modes s).stateOf id =
      if id = cx.id ∧ id < s.states.size then { s.stateOf id with modes } else s.stateOf id :=
  s.stateOf_modifyState cx.id _ id

theorem size_setModes : (cx.setModes modes s).states.size = s.states.size := Array.size_modify

/-- A change of modes leaves every reporter alone. -/
theorem stateOf_setModes_reporter (id : ContextId) :
    ((cx.setModes modes s).stateOf id).reporter = (s.stateOf id).reporter := by
  rw [stateOf_setModes]
  split <;> rfl

theorem modes_setModes {cx : Context} {s : Store} (hid : cx.id < s.states.size) :
    cx.modes (cx.setModes modes s) = modes := by
  unfold Context.modes
  rw [stateOf_setModes, if_pos ⟨rfl, hid⟩]

/-- Another context does not notice a change of modes. -/
theorem stateOf_setModes_of_ne {id : ContextId} (hne : id ≠ cx.id) :
    (cx.setModes modes s).stateOf id = s.stateOf id := by
  rw [stateOf_setModes, if_neg fun h => hne h.1]

end Context

namespace Kept

variable {held : List ContextId} {a b : Store}

theorem opening (held : List ContextId) (o : Opening) (cx : Context) (s : Store) :
    Kept held s (o.run cx s).2 where
  size := by
    rw [o.size_states]
    exact Nat.le_succ _
  reporters id hid := by rw [o.stateOf_of_lt cx s hid]
  modes id _ hid := by rw [o.stateOf_of_lt cx s hid]

theorem setModes (cx : Context) (s : Store) (modes : Modes) : Kept [] s (cx.setModes modes s) :=
  ⟨Nat.le_of_eq (cx.size_setModes s modes).symm,
    fun id _ => cx.stateOf_setModes_reporter s modes id, fun _ hid => nomatch hid⟩

/-- The modes of a context may change while it is not held, as long as they are put back. -/
theorem withModes {cx : Context} (hid : cx.id < a.states.size) (during : Modes)
    (h : Kept (held.filter (· ≠ cx.id)) (cx.setModes during a) b) :
    Kept held a (cx.setModes (cx.modes a) b) := by
  have hsize : a.states.size ≤ b.states.size := by
    rw [← cx.size_setModes a during]
    exact h.size
  refine ⟨?_, fun id hlt => ?_, fun id hheld hlt => ?_⟩
  · rw [cx.size_setModes]
    exact hsize
  · rw [cx.stateOf_setModes_reporter, h.reporters id (by rwa [cx.size_setModes]),
      cx.stateOf_setModes_reporter]
  · by_cases heq : id = cx.id
    · subst heq
      exact cx.modes_setModes (cx.modes a) (Nat.lt_of_lt_of_le hid hsize)
    · have hinside : id ∈ held.filter (· ≠ cx.id) := List.mem_filter.mpr ⟨hheld, by simpa using heq⟩
      rw [cx.stateOf_setModes_of_ne _ _ heq, h.modes id hinside (by rwa [cx.size_setModes]),
        cx.stateOf_setModes_of_ne _ _ heq]

end Kept

/-- **Contexts keep their reporters, and those held their modes.** -/
theorem Conduct.kept {held : List ContextId} {s s' : Store} {reach reach' : List Context}
    {surfaced : List Reported} (h : Conduct held s reach s' reach' surfaced) : Kept held s s' := by
  induction h with
  | start => exact .refl _ _
  | opening _ _ o ih => exact ih.trans (.opening _ o _ _)
  | call _ _ call ih => exact ih.trans (.of_states _ (call.run_states _ _))
  | adopt _ _ _ ih => exact ih.trans (.of_states _ rfl)
  | clear _ _ ih => exact ih.trans (.of_states _ rfl)
  | change _ hkept _ _ ih => exact ih.trans hkept
  | withModes _ hc _ _ _ ih ihbody => exact ih.trans (ihbody.withModes hc _)

/-! ### Walls -/

/-- The context buffers, in buffers that came after `start`, on its way to a sink. -/
structure Context.Walled (start : Channels) (sink : SinkId) (s : Store) (cx : Context) : Prop where
  id : cx.id < s.states.size
  buffering : (cx.reporter s).isBuffering = true
  later : start.buffers.size ≤ (cx.reporter s).buffers
  sink : (cx.reporter s).sink = sink

/-- The contexts reached are walled; of the channels at the start nothing has changed, save that
ambiguities were surfaced; and the buffers that came later are sound. -/
structure Walled (start : Channels) (sink : SinkId) (s : Store) (reach : List Context)
    (surfaced : List Reported) : Prop where
  contexts : ∀ cx ∈ reach, cx.Walled start sink s
  channels : (start.emitAll sink surfaced).Untouched s.channels
  sound : ∀ id, start.buffers.size ≤ id → (s.channels.buffersAt id).Sound

namespace Context.Walled

variable {start : Channels} {sink : SinkId} {s s' : Store} {cx : Context}

/-- A context stays walled when its state is kept. -/
theorem of_kept (h : cx.Walled start sink s) {held : List ContextId} (hkept : Kept held s s') :
    cx.Walled start sink s' := by
  have hreporter : cx.reporter s' = cx.reporter s := hkept.reporters cx.id h.id
  exact ⟨Nat.lt_of_lt_of_le h.id hkept.size, hreporter ▸ h.buffering, hreporter ▸ h.later,
    hreporter ▸ h.sink⟩

/-- **What is opened at a walled context is walled.** -/
theorem opened (h : cx.Walled start sink s) (hsize : start.buffers.size ≤ s.channels.buffers.size)
    (o : Opening) : (o.run cx s).1.Walled start sink (o.run cx s).2 := by
  refine ⟨o.run_id_lt cx s, ?_, ?_, ?_⟩
  · rw [o.reporter_run]
    cases o with
    | silent | implicit => rfl
    | make | newScope | importing | constructor => exact h.buffering
  · rw [o.reporter_run]
    cases o with
    | silent | implicit => exact hsize
    | make | newScope | importing | constructor => exact h.later
  · rw [o.reporter_run]
    cases o with
    | silent | implicit | make | newScope | importing | constructor => exact h.sink

end Context.Walled

namespace Walled

variable {start : Channels} {sink : SinkId} {s s' : Store} {reach : List Context}
  {surfaced more : List Reported}

theorem size (h : Walled start sink s reach surfaced) :
    start.buffers.size ≤ s.channels.buffers.size := by
  rw [← start.buffers_emitAll sink surfaced]
  exact h.channels.size

/-- Ambiguities may be surfaced and one pair of later buffers may change. -/
theorem step (h : Walled start sink s reach surfaced) {held : List ContextId}
    (hkept : Kept held s s') {id : BufferId} (hid : start.buffers.size ≤ id)
    (hchannels : (s.channels.emitAll sink more).MaintainsAt id s'.channels) :
    Walled start sink s' reach (surfaced ++ more) where
  contexts cx hcx := (h.contexts cx hcx).of_kept hkept
  channels := by
    rw [Channels.emitAll_append]
    refine (h.channels.emitAll sink more).changesAt ?_ hchannels.changesAt
    rw [Channels.buffers_emitAll, Channels.buffers_emitAll]
    exact hid
  sound other hother := by
    refine hchannels.sound ?_
    rw [Channels.buffersAt_emitAll]
    exact h.sound other hother

/-- Buffers may be added, as long as they are sound. -/
theorem change (h : Walled start sink s reach surfaced) {held : List ContextId}
    (hkept : Kept held s s') (hchannels : s.channels.Untouched s'.channels)
    (hsound : ∀ id, s.channels.buffers.size ≤ id → (s'.channels.buffersAt id).Sound) :
    Walled start sink s' reach surfaced where
  contexts cx hcx := (h.contexts cx hcx).of_kept hkept
  channels := h.channels.trans hchannels
  sound id hid := by
    rcases Nat.lt_or_ge id s.channels.buffers.size with hlt | hge
    · rw [hchannels.buffersAt id hlt]
      exact h.sound id hid
    · exact hsound id hge

theorem setModes (h : Walled start sink s reach surfaced) (cx : Context) (modes : Modes) :
    Walled start sink (cx.setModes modes s) reach surfaced :=
  ⟨fun c hc => (h.contexts c hc).of_kept (.setModes cx s modes), h.channels, h.sound⟩

theorem opening (h : Walled start sink s reach surfaced) {c : Context} (hc : c ∈ reach)
    (o : Opening) : Walled start sink (o.run c s).2 ((o.run c s).1 :: reach) surfaced where
  contexts := List.forall_mem_cons.mpr ⟨(h.contexts c hc).opened h.size o,
    fun cx hcx => (h.contexts cx hcx).of_kept (.opening [] o c s)⟩
  channels := by
    rw [o.run_channels]
    cases o with
    | silent | implicit => exact h.channels.addBuffers
    | make | newScope | importing | constructor => exact h.channels
  sound id hid := by
    rw [o.run_channels]
    cases o with
    | silent | implicit =>
      show (s.channels.addBuffers.2.buffersAt id).Sound
      rw [s.channels.buffersAt_addBuffers]
      exact h.sound id hid
    | make | newScope | importing | constructor => exact h.sound id hid

theorem call (h : Walled start sink s reach surfaced) {c : Context} (hc : c ∈ reach) (call : Call) :
    Walled start sink (call.run c s).2 reach (surfaced ++ call.surfaced c s) := by
  have hwalled := h.contexts c hc
  have hcall := (call.retained hwalled.buffering).channels
  rw [hwalled.sink] at hcall
  exact h.step (.of_states [] (call.run_states c s)) hwalled.later hcall

/-- Clearing the reporter of a context of the fork removes only what was said inside. -/
theorem clear (h : Walled start sink s reach surfaced) {c : Context} (hc : c ∈ reach) :
    Walled start sink (s.modifyChannels (c.reporter s).clear) reach surfaced := by
  rw [← List.append_nil surfaced]
  exact h.step (.of_states [] rfl) (h.contexts c hc).later
    (Reporter.maintains_clear s.channels)

/-- Warnings taken over from one context of the fork into another stay inside. -/
theorem adopt (h : Walled start sink s reach surfaced) {c source : Context} (hc : c ∈ reach)
    (hsource : source ∈ reach) :
    Walled start sink (c.adoptWarnings (source.reporter s) s) reach surfaced := by
  have hwalled := h.contexts c hc
  have hheard : Walled start sink
      { s with
        channels := (c.reporter s).hear ((source.reporter s).warnings s.channels) s.channels }
      reach (surfaced ++ []) :=
    h.step (.of_states [] rfl) hwalled.later
      (Reporter.confined_hear hwalled.buffering _ s.channels)
  rw [List.append_nil] at hheard
  exact hheard.clear hsource

end Walled

/-- **Nothing gets out of walled contexts but the ambiguities surfaced there.** -/
theorem Conduct.walled {held : List ContextId} {s s' : Store} {reach reach' : List Context}
    {surfaced : List Reported} (h : Conduct held s reach s' reach' surfaced) {start : Channels}
    {sink : SinkId} {before : List Reported} (hstart : Walled start sink s reach before) :
    Walled start sink s' reach' (before ++ surfaced) := by
  induction h generalizing before with
  | start =>
    rw [List.append_nil]
    exact hstart
  | opening _ hc o ih => exact (ih hstart).opening hc o
  | call _ hc call ih =>
    rw [← List.append_assoc]
    exact (ih hstart).call hc call
  | adopt _ hc hsource ih => exact (ih hstart).adopt hc hsource
  | clear _ hc ih => exact (ih hstart).clear hc
  | change _ hkept hchannels hsound ih => exact (ih hstart).change hkept hchannels hsound
  | withModes _ _ _ _ _ ih ihbody =>
    rw [← List.append_assoc]
    exact (ihbody ((ih hstart).setModes _ _)).setModes _ _

end NameResolution
