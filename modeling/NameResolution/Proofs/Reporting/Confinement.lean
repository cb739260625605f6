import NameResolution.Proofs.Reporting.Operations

/-!
# Confinement

What reports leave alone. A reporter that buffers changes its own buffers and nothing else, and of
two channels that agree on everything that was there, either may be reported to.

* `Reporter.confined_error` and its like: a reporter that buffers reports into its buffers, which it
  keeps sound.
* `Channels.Untouched.changesAt`: buffers that came later may change.
* `Channels.Untouched.emitAll`, `Channels.Untouched.hear`: reporting the same makes no difference.
-/

namespace NameResolution

namespace Channels

variable {id : BufferId} {a b c : Channels}

/-! ### Changes of a single pair of buffers -/

/-- The channels differ at most in one pair of buffers. -/
def ChangesAt (id : BufferId) (before after : Channels) : Prop :=
  ∃ change : Buffers → Buffers, after = before.modifyBuffers id change

/-- The channels differ at most in one pair of buffers, which is sound if it was before. -/
def MaintainsAt (id : BufferId) (before after : Channels) : Prop :=
  ∃ change : Buffers → Buffers, (∀ held : Buffers, held.Sound → (change held).Sound) ∧
    after = before.modifyBuffers id change

namespace MaintainsAt

theorem refl (id : BufferId) (a : Channels) : MaintainsAt id a a :=
  ⟨fun held => held, fun _ h => h, (a.modifyBuffers_id id).symm⟩

theorem trans (hab : MaintainsAt id a b) (hbc : MaintainsAt id b c) : MaintainsAt id a c := by
  obtain ⟨first, hfirst, rfl⟩ := hab
  obtain ⟨second, hsecond, rfl⟩ := hbc
  exact ⟨second ∘ first, fun held h => hsecond _ (hfirst held h),
    a.modifyBuffers_modifyBuffers id first second⟩

theorem changesAt (h : MaintainsAt id a b) : ChangesAt id a b :=
  h.imp fun _ hchange => hchange.2

/-- A buffer that keeps its reports soundly goes on to do so. -/
theorem sound (h : MaintainsAt id a b) {other : BufferId} (hsound : (a.buffersAt other).Sound) :
    (b.buffersAt other).Sound := by
  obtain ⟨change, hchange, rfl⟩ := h
  rcases Nat.lt_or_ge id a.buffers.size with hid | hid
  · by_cases heq : id = other
    · subst heq
      rw [a.buffersAt_modifyBuffers hid]
      exact hchange _ hsound
    · rw [a.buffersAt_modifyBuffers_of_ne heq]
      exact hsound
  · rw [a.buffersAt_modifyBuffers_of_le hid]
    exact hsound

end MaintainsAt

/-! ### Channels left untouched -/

/-- A sink takes a list of reports one part after the other. -/
theorem emitAll_append (channels : Channels) (sink : SinkId) (first second : List Reported) :
    channels.emitAll sink (first ++ second) = (channels.emitAll sink first).emitAll sink second :=
  List.foldl_append

/-- The buffers that were there, the sinks, and what was handed to checks have not changed. -/
structure Untouched (before after : Channels) : Prop where
  sinks : after.sinks = before.sinks
  checked : after.checked = before.checked
  size : before.buffers.size ≤ after.buffers.size
  buffersAt : ∀ id < before.buffers.size, after.buffersAt id = before.buffersAt id

namespace Untouched

variable {before after after' : Channels}

theorem refl (before : Channels) : before.Untouched before :=
  ⟨rfl, rfl, Nat.le_refl _, fun _ _ => rfl⟩

theorem trans (h : before.Untouched after) (hnext : after.Untouched after') :
    before.Untouched after' where
  sinks := hnext.sinks.trans h.sinks
  checked := hnext.checked.trans h.checked
  size := Nat.le_trans h.size hnext.size
  buffersAt id hid :=
    (hnext.buffersAt id (Nat.lt_of_lt_of_le hid h.size)).trans (h.buffersAt id hid)

/-- Buffers added on one side are later than those the sides share. -/
theorem addBuffers (h : before.Untouched after) : before.Untouched after.addBuffers.2 where
  sinks := h.sinks
  checked := h.checked
  size := by
    rw [size_addBuffers]
    exact Nat.le_succ_of_le h.size
  buffersAt := by
    intro id hid
    rw [buffersAt_addBuffers]
    exact h.buffersAt id hid

/-- Buffers that came later may change. -/
theorem changesAt (h : before.Untouched after) {id : BufferId} (hid : before.buffers.size ≤ id)
    (hchange : ChangesAt id after after') : before.Untouched after' := by
  obtain ⟨change, rfl⟩ := hchange
  refine ⟨h.sinks, h.checked, ?_, fun other hother => ?_⟩
  · rw [size_modifyBuffers]
    exact h.size
  · rw [after.buffersAt_modifyBuffers_of_ne (Nat.ne_of_gt (Nat.lt_of_lt_of_le hother hid))]
    exact h.buffersAt other hother

/-- Sending out the same makes no difference. -/
theorem emit (h : before.Untouched after) (sink : SinkId) (report : Reported) :
    (before.emit sink report).Untouched (after.emit sink report) where
  sinks := congrArg (Array.modify · sink (Sink.receive report)) h.sinks
  checked := h.checked
  size := h.size
  buffersAt := h.buffersAt

theorem emitAll (h : before.Untouched after) (sink : SinkId) (reports : List Reported) :
    (before.emitAll sink reports).Untouched (after.emitAll sink reports) := by
  unfold Channels.emitAll
  induction reports generalizing before after with
  | nil => exact h
  | cons report reports ih => exact ih (h.emit sink report)

/-- So does the same change of buffers that were there. -/
theorem modifyBuffers (h : before.Untouched after) {id : BufferId} (hid : id < before.buffers.size)
    (change : Buffers → Buffers) :
    (before.modifyBuffers id change).Untouched (after.modifyBuffers id change) := by
  refine ⟨h.sinks, h.checked, ?_, fun other hother => ?_⟩
  · rw [size_modifyBuffers, size_modifyBuffers]
    exact h.size
  · rw [size_modifyBuffers] at hother
    by_cases heq : id = other
    · subst heq
      rw [after.buffersAt_modifyBuffers (Nat.lt_of_lt_of_le hid h.size),
        before.buffersAt_modifyBuffers hid, h.buffersAt id hid]
    · rw [after.buffersAt_modifyBuffers_of_ne heq, before.buffersAt_modifyBuffers_of_ne heq]
      exact h.buffersAt other hother

end Untouched

end Channels

/-! ### A reporter that buffers -/

namespace Reporter

variable {r : Reporter} (report : Reported) (channels : Channels)

/-- A reporter keeps an error in its own buffers. -/
theorem maintains_keepError : channels.MaintainsAt r.buffers (r.keepError report channels) :=
  ⟨fun b => { b with errors := b.errors.add report },
    fun _ h => ⟨h.errors.add report, h.warnings⟩, rfl⟩

theorem maintains_keepWarning : channels.MaintainsAt r.buffers (r.keepWarning report channels) :=
  ⟨fun b => { b with warnings := b.warnings.add report },
    fun _ h => ⟨h.errors, h.warnings.add report⟩, rfl⟩

theorem maintains_clear : channels.MaintainsAt r.buffers (r.clear channels) :=
  ⟨_, fun _ _ => ⟨Buffer.sound_none, Buffer.sound_none⟩, rfl⟩

/-- A buffering reporter throws nothing and writes to its own buffers. -/
theorem confined_error (hkind : r.isBuffering = true) :
    (r.error report channels).1 = .ok () ∧
      channels.MaintainsAt r.buffers (r.error report channels).2 := by
  have hbuffering : r.kind = .buffering := by simpa [isBuffering] using hkind
  unfold error
  rw [hbuffering]
  exact ⟨rfl, maintains_keepError report channels⟩

theorem confined_warning (hkind : r.isBuffering = true) :
    channels.MaintainsAt r.buffers (r.warning report channels) := by
  unfold warning
  rw [if_pos hkind]
  exact maintains_keepWarning report channels

/-- The same holds of a report of either severity. -/
theorem confined_issue (hkind : r.isBuffering = true) :
    (r.issue report channels).1 = .ok () ∧
      channels.MaintainsAt r.buffers (r.issue report channels).2 := by
  unfold issue
  split
  · exact confined_error report channels hkind
  · exact ⟨rfl, confined_warning report channels hkind⟩

/-- An ambiguity is sent out if it is surfaced, and else kept. -/
theorem confined_ambiguity (hkind : r.isBuffering = true) (surface : Bool) :
    (channels.emitAll r.sink (if surface then [report] else [])).MaintainsAt r.buffers
      (r.ambiguity report surface channels) := by
  unfold ambiguity
  cases surface with
  | true => exact .refl _ _
  | false =>
    rw [if_neg Bool.false_ne_true, if_pos hkind]
    exact maintains_keepError report channels

/-! ### Warnings one after the other -/

def hear (r : Reporter) (reports : List Reported) (channels : Channels) : Channels :=
  reports.foldl (fun channels report => r.warning report channels) channels

/-- So do any number of warnings. -/
theorem confined_hear (hkind : r.isBuffering = true) (reports : List Reported)
    (channels : Channels) : channels.MaintainsAt r.buffers (r.hear reports channels) := by
  unfold hear
  induction reports generalizing channels with
  | nil => exact .refl _ _
  | cons report reports ih => exact (confined_warning report channels hkind).trans (ih _)

theorem size_warning : (r.warning report channels).buffers.size = channels.buffers.size := by
  unfold warning
  split
  · exact channels.size_modifyBuffers _ _
  · rfl

/-- Hearing warnings makes no new buffers. -/
theorem size_hear (reports : List Reported) (channels : Channels) :
    (r.hear reports channels).buffers.size = channels.buffers.size := by
  unfold hear
  induction reports generalizing channels with
  | nil => rfl
  | cons report reports ih => rw [List.foldl_cons, ih, size_warning]

end Reporter

namespace Channels.Untouched

variable {before after : Channels} {r : Reporter}

theorem warning (h : before.Untouched after) (hplace : r.buffers < before.buffers.size)
    (report : Reported) : (r.warning report before).Untouched (r.warning report after) := by
  unfold Reporter.warning
  split
  · exact h.modifyBuffers hplace _
  · exact h.emit r.sink report

theorem hear (h : before.Untouched after) (hplace : r.buffers < before.buffers.size)
    (reports : List Reported) : (r.hear reports before).Untouched (r.hear reports after) := by
  unfold Reporter.hear
  induction reports generalizing before after with
  | nil => exact h
  | cons report reports ih =>
    refine ih (h.warning hplace report) ?_
    rw [Reporter.size_warning]
    exact hplace

theorem clear (h : before.Untouched after) (hlater : before.buffers.size ≤ r.buffers) :
    before.Untouched (r.clear after) :=
  h.changesAt hlater (Reporter.maintains_clear after).changesAt

end Channels.Untouched

end NameResolution
