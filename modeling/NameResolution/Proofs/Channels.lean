import NameResolution.Reporting

/-!
# Reading channels

What a change to one pair of buffers, or to one sink, leaves at the others.
-/

namespace NameResolution

namespace Channels

variable (channels : Channels)

@[simp] theorem size_modifyBuffers (id : BufferId) (change : Buffers → Buffers) :
    (channels.modifyBuffers id change).buffers.size = channels.buffers.size := by
  simp [modifyBuffers]

theorem buffersAt_modifyBuffers {id : BufferId} (hid : id < channels.buffers.size)
    (change : Buffers → Buffers) :
    (channels.modifyBuffers id change).buffersAt id = change (channels.buffersAt id) := by
  simp [modifyBuffers, buffersAt, hid, Array.getElem_modify]

/-- A change of one pair of buffers leaves the others alone. -/
theorem buffersAt_modifyBuffers_of_ne {id other : BufferId} (hne : id ≠ other)
    (change : Buffers → Buffers) :
    (channels.modifyBuffers id change).buffersAt other = channels.buffersAt other := by
  simp [modifyBuffers, buffersAt, Array.getElem?_modify, hne]

/-- Buffers that are not there cannot change. -/
theorem buffersAt_modifyBuffers_of_le {id : BufferId} (hid : channels.buffers.size ≤ id)
    (change : Buffers → Buffers) (other : BufferId) :
    (channels.modifyBuffers id change).buffersAt other = channels.buffersAt other := by
  by_cases heq : id = other
  · subst heq
    simp [modifyBuffers, buffersAt, hid]
  · exact channels.buffersAt_modifyBuffers_of_ne heq change

/-- Two changes of one pair of buffers are one change. -/
theorem modifyBuffers_modifyBuffers (id : BufferId) (first second : Buffers → Buffers) :
    (channels.modifyBuffers id first).modifyBuffers id second =
      channels.modifyBuffers id (second ∘ first) := by
  unfold modifyBuffers
  congr 1
  apply Array.ext_getElem?
  intro i
  simp only [Array.getElem?_modify]
  split <;> simp

theorem modifyBuffers_id (id : BufferId) : channels.modifyBuffers id (fun b => b) = channels := by
  unfold modifyBuffers
  congr 1
  apply Array.ext_getElem?
  intro i
  rw [Array.getElem?_modify]
  split <;> simp

/-- New buffers are empty, as those that are not there count as. -/
@[simp] theorem buffersAt_addBuffers (id : BufferId) :
    channels.addBuffers.2.buffersAt id = channels.buffersAt id := by
  show ((channels.buffers.push {})[id]?).getD {} = (channels.buffers[id]?).getD {}
  rcases Nat.lt_trichotomy id channels.buffers.size with hlt | rfl | hgt
  · rw [Array.getElem?_push_lt hlt, Array.getElem?_eq_getElem hlt]
  · simp
  · rw [Array.getElem?_eq_none (by simpa using Nat.succ_le_of_lt hgt),
      Array.getElem?_eq_none (Nat.le_of_lt hgt)]

@[simp] theorem size_addBuffers :
    channels.addBuffers.2.buffers.size = channels.buffers.size + 1 := by
  simp [addBuffers]

/-- What goes to a sink leaves the buffers alone. -/
theorem buffers_emitAll (sink : SinkId) (reports : List Reported) :
    (channels.emitAll sink reports).buffers = channels.buffers := by
  unfold emitAll
  induction reports generalizing channels with
  | nil => rfl
  | cons report reports ih => exact ih (channels.emit sink report)

@[simp] theorem buffersAt_emitAll (sink : SinkId) (reports : List Reported) (id : BufferId) :
    (channels.emitAll sink reports).buffersAt id = channels.buffersAt id := by
  unfold buffersAt
  rw [buffers_emitAll]

end Channels

end NameResolution
