import NameResolution.Proofs.Calls
import NameResolution.Proofs.Openings

/-!
# Speculation

A computation is tried in a copy of a context that surfaces no ambiguity. Whatever is reported at
the copy, or at a context opened inside it, ends up in buffers that did not exist when the copy was
made.

* `Call.confined`: a call at a buffering context that surfaces no ambiguity succeeds, and changes
  nothing but the buffers of the context.
* `Sandboxed.opened`: a context opened at such a context is such a context.
* `Activity.speculation_isolated`: no speculation fails or reaches a sink, a check, or the buffers
  of the context it was started at.
-/

namespace NameResolution

/-! ### What is done at a context -/

/-- Whether the way to open a context is no copy that surfaces ambiguities. -/
def Opening.isQuiet : Opening → Bool
  | silent surface | implicit surface => !surface
  | _ => true

/--
What a computation can do that is tried at a context: it works at copies of the context that surface
no ambiguity and at contexts opened inside them. With the store come the contexts opened so far and
the outcomes of the calls, most recent first.
-/
inductive Speculation (cx : Context) (s : Store) :
    Store → List Context → List (Except Abort Unit) → Prop where
  | silent : Speculation cx s (cx.silentCopy false s).2 [(cx.silentCopy false s).1] []
  | implicit : Speculation cx s (cx.implicitCopy false s).2 [(cx.implicitCopy false s).1] []
  | opening {s' : Store} {opened : List Context} {outcomes : List (Except Abort Unit)} {c : Context}
      (h : Speculation cx s s' opened outcomes) (hc : c ∈ opened) (o : Opening)
      (hquiet : o.isQuiet = true) :
      Speculation cx s (o.run c s').2 ((o.run c s').1 :: opened) outcomes
  | call {s' : Store} {opened : List Context} {outcomes : List (Except Abort Unit)} {c : Context}
      (h : Speculation cx s s' opened outcomes) (hc : c ∈ opened) (call : Call) :
      Speculation cx s (call.run c s').2 opened ((call.run c s').1 :: outcomes)
  /-- Entering declarations, and whatever else concerns neither reports nor contexts. -/
  | change {s' s'' : Store} {opened : List Context} {outcomes : List (Except Abort Unit)}
      (h : Speculation cx s s' opened outcomes) (hchannels : s''.channels = s'.channels)
      (hstates : s''.states = s'.states) : Speculation cx s s'' opened outcomes

/-! ### The sandbox -/

/-- At the context everything is buffered, in buffers that came later than `start`, and no ambiguity
is surfaced. -/
structure Context.Sandboxed (start s : Store) (cx : Context) : Prop where
  id : cx.id < s.states.size
  buffering : (cx.reporter s).isBuffering = true
  later : start.channels.buffers.size ≤ (cx.reporter s).buffers
  quiet : cx.hasMode .ambiguousErrors s = false

/-- What was done at the context succeeded, and changed nothing but the buffers in use there. -/
structure Context.Confines (cx : Context) (s : Store) (done : Except Abort Unit × Store) : Prop where
  succeeds : done.1 = .ok ()
  states : done.2.states = s.states
  channels : s.channels.ChangesAt (cx.reporter s).buffers done.2.channels

/-- **A call in the sandbox succeeds, and changes nothing but the buffers in use there.** -/
theorem Call.confined {start s : Store} {cx : Context} (h : cx.Sandboxed start s) (call : Call) :
    cx.Confines s (call.run cx s) := by
  have hretained := call.retained h.buffering
  rw [Call.surfaced_of_quiet h.quiet] at hretained
  exact ⟨hretained.succeeds, call.run_states cx s, hretained.channels.changesAt⟩

namespace Context.Sandboxed

variable {start s s' : Store} {cx : Context}

/-- Whatever keeps the state of a context keeps the context in the sandbox. -/
theorem of_stateOf (h : cx.Sandboxed start s) (hsize : s.states.size ≤ s'.states.size)
    (hstate : s'.stateOf cx.id = s.stateOf cx.id) : cx.Sandboxed start s' := by
  have hreporter : cx.reporter s' = cx.reporter s := congrArg ContextState.reporter hstate
  have hmodes : cx.modes s' = cx.modes s := congrArg ContextState.modes hstate
  refine ⟨Nat.lt_of_lt_of_le h.id hsize, hreporter ▸ h.buffering, hreporter ▸ h.later, ?_⟩
  unfold Context.hasMode
  rw [hmodes]
  exact h.quiet

/-- Opening a context elsewhere keeps a context in the sandbox. -/
theorem opening (h : cx.Sandboxed start s) (c : Context) (o : Opening) :
    cx.Sandboxed start (o.run c s).2 := by
  refine h.of_stateOf ?_ (o.stateOf_of_lt c s h.id)
  rw [o.size_states]
  exact Nat.le_succ _

/-- **What is opened in the sandbox is in the sandbox.** -/
theorem opened (h : cx.Sandboxed start s)
    (hsize : start.channels.buffers.size ≤ s.channels.buffers.size) (o : Opening)
    (hquiet : o.isQuiet = true) : (o.run cx s).1.Sandboxed start (o.run cx s).2 := by
  refine ⟨o.run_id_lt cx s, ?_, ?_, ?_⟩
  · rw [o.reporter_run]
    cases o with
    | silent | implicit => rfl
    | make | newScope | importing | constructor => exact h.buffering
  · rw [o.reporter_run]
    cases o with
    | silent | implicit => exact hsize
    | make | newScope | importing | constructor => exact h.later
  · rw [o.hasMode_run]
    cases o with
    | silent | implicit => simpa [Opening.isQuiet, Opening.surfaces] using hquiet
    | make | newScope | importing | constructor => exact h.quiet

end Context.Sandboxed

/-! ### Isolation -/

/-- What holds throughout a speculation: the contexts and the channels that were there have not
changed, all contexts opened are in the sandbox, and every call succeeded. -/
structure Isolated (start s : Store) (opened : List Context)
    (outcomes : List (Except Abort Unit)) : Prop where
  states : ∀ id < start.states.size, s.stateOf id = start.stateOf id
  grown : start.states.size ≤ s.states.size
  channels : start.channels.Untouched s.channels
  sandboxed : ∀ cx ∈ opened, cx.Sandboxed start s
  outcomes : ∀ outcome ∈ outcomes, outcome = .ok ()

namespace Isolated

variable {start s s' : Store} {opened : List Context} {outcomes : List (Except Abort Unit)}

/-- A copy is in the sandbox from the start. -/
theorem copy (cx : Context) (start : Store) (o : Opening)
    (hfork : o.reporting cx start = (cx.reporter start).fork start.channels)
    (hquiet : o.surfaces cx start = false) :
    Isolated start (o.run cx start).2 [(o.run cx start).1] [] := by
  refine ⟨fun id hid => o.stateOf_of_lt cx start hid, ?_, ?_, ?_, fun _ h => nomatch h⟩
  · rw [o.size_states]
    exact Nat.le_succ _
  · rw [o.run_channels, hfork]
    exact (Channels.Untouched.refl start.channels).addBuffers
  · refine List.forall_mem_singleton.mpr ⟨o.run_id_lt cx start, ?_, ?_, ?_⟩
    · rw [o.reporter_run, hfork]
      rfl
    · rw [o.reporter_run, hfork]
      exact Nat.le_refl _
    · rw [o.hasMode_run]
      exact hquiet

theorem opening {c : Context} (h : Isolated start s opened outcomes) (hc : c ∈ opened) (o : Opening)
    (hquiet : o.isQuiet = true) :
    Isolated start (o.run c s).2 ((o.run c s).1 :: opened) outcomes := by
  refine ⟨fun id hid => ?_, ?_, ?_, ?_, h.outcomes⟩
  · rw [o.stateOf_of_lt c s (Nat.lt_of_lt_of_le hid h.grown)]
    exact h.states id hid
  · rw [o.size_states]
    exact Nat.le_succ_of_le h.grown
  · rw [o.run_channels]
    cases o with
    | silent | implicit => exact h.channels.addBuffers
    | make | newScope | importing | constructor => exact h.channels
  · refine List.forall_mem_cons.mpr ⟨?_, fun cx hcx => ?_⟩
    · exact (h.sandboxed c hc).opened h.channels.size o hquiet
    · exact (h.sandboxed cx hcx).opening c o

theorem change (h : Isolated start s opened outcomes)
    (hchannels : start.channels.Untouched s'.channels) (hstates : s'.states = s.states)
    {outcomes' : List (Except Abort Unit)} (houtcomes : ∀ outcome ∈ outcomes', outcome = .ok ()) :
    Isolated start s' opened outcomes' := by
  have hstateOf : ∀ id, s'.stateOf id = s.stateOf id := by
    intro id
    unfold Store.stateOf
    rw [hstates]
  refine ⟨fun id hid => ?_, hstates ▸ h.grown, hchannels, fun cx hcx => ?_, houtcomes⟩
  · rw [hstateOf, h.states id hid]
  · exact (h.sandboxed cx hcx).of_stateOf (Nat.le_of_eq (by rw [hstates])) (hstateOf cx.id)

theorem call {c : Context} (h : Isolated start s opened outcomes) (hc : c ∈ opened) (call : Call) :
    Isolated start (call.run c s).2 opened ((call.run c s).1 :: outcomes) := by
  have hsandboxed := h.sandboxed c hc
  have hconfined := call.confined hsandboxed
  exact h.change (h.channels.changesAt hsandboxed.later hconfined.channels) hconfined.states
    (List.forall_mem_cons.mpr ⟨hconfined.succeeds, h.outcomes⟩)

end Isolated

theorem Speculation.isolated {cx : Context} {start s : Store} {opened : List Context}
    {outcomes : List (Except Abort Unit)} (h : Speculation cx start s opened outcomes) :
    Isolated start s opened outcomes := by
  induction h with
  | silent => exact .copy cx start (.silent false) rfl rfl
  | implicit => exact .copy cx start (.implicit false) rfl rfl
  | opening _ hc o hquiet ih => exact ih.opening hc o hquiet
  | call _ hc call ih => exact ih.call hc call
  | change _ hchannels hstates ih =>
    exact ih.change (hchannels ▸ ih.channels) hstates ih.outcomes

/-- **Speculation is isolated.** Whatever reporter is in use at a context: no call made in a
speculation at the context fails, nothing reaches a sink or a check, and the context is left with
its reporter and the buffers of that reporter as they were. -/
theorem Activity.speculation_isolated {s s' : Store} {opened inside : List Context} {cx : Context}
    {outcomes : List (Except Abort Unit)} (h : Activity s opened) (hcx : cx ∈ opened)
    (hrun : Speculation cx s s' inside outcomes) :
    (∀ outcome ∈ outcomes, outcome = .ok ()) ∧
      s'.channels.sinks = s.channels.sinks ∧ s'.channels.checked = s.channels.checked ∧
      cx.reporter s' = cx.reporter s ∧
      s'.channels.buffersAt (cx.reporter s).buffers =
        s.channels.buffersAt (cx.reporter s).buffers := by
  have hregistered := h.registered cx hcx
  have hisolated := hrun.isolated
  exact ⟨hisolated.outcomes, hisolated.channels.sinks, hisolated.channels.checked,
    congrArg ContextState.reporter (hisolated.states cx.id hregistered.id),
    hisolated.channels.buffersAt _ hregistered.buffers⟩

/-- An error inside an import, in an implicit copy of a context where errors abandon the
computation: it neither does so nor gets out. -/
theorem Activity.speculation_isolated_throwing :
    let root := Context.openRoot 0 .root 0
      { sessions := #[{ unit := ⟨⟨1⟩, .native⟩, sink := 0, rootReporter := .throwing }]
        channels := { sinks := #[.log []] } }
    let copy := root.1.implicitCopy false root.2
    let inside := copy.1.makeImport (.everything (.path .root) .dummy) copy.2
    let done := inside.1.error (.error .notFound) inside.2
    let held := (root.1.reporter root.2).buffers
    (root.1.reporter root.2).isThrowing = true ∧
      (inside.1.reporter done.2).hasErrors done.2.channels = true ∧
      (∀ outcome ∈ [done.1], outcome = .ok ()) ∧
      done.2.channels.sinks = root.2.channels.sinks ∧
      done.2.channels.checked = root.2.channels.checked ∧
      root.1.reporter done.2 = root.1.reporter root.2 ∧
      done.2.channels.buffersAt held = root.2.channels.buffersAt held := by
  intro root copy inside done held
  have hrun : Speculation root.1 root.2 done.2 [inside.1, copy.1] [done.1] :=
    (Speculation.implicit.opening List.mem_cons_self (.importing _) rfl).call List.mem_cons_self
      (.error _)
  exact ⟨rfl, by decide +kernel,
    Activity.speculation_isolated (.openRoot (.start rfl) 0 .root 0) List.mem_cons_self hrun⟩

end NameResolution
