import NameResolution.Proofs.Channels

/-!
# Operations of reporters

What can be done with a reporter once it is made, as data, and what of it concerns single buffers.

* `Buffer.Sound`: a buffer is absent, or holds something and nothing twice.
* `Buffer.addAll_eq`: adding up buffers keeps the order of both and repeats nothing.
* `Operation.sound`: no operation leaves an empty buffer or one that holds a report twice.
-/

namespace NameResolution

namespace Buffer

variable {buffer : Buffer} {report : Reported}

/-- The buffer is absent, or it holds something and nothing twice. -/
def Sound (buffer : Buffer) : Prop := ∀ held, buffer = some held → held ≠ [] ∧ held.Nodup

/-- No buffer is as good as any. -/
theorem sound_none : Sound none := fun _ h => nomatch h

theorem sound_some {held : List Reported} (hne : held ≠ []) (hnodup : held.Nodup) :
    Sound (some held) := by
  intro _ heq
  cases heq
  exact ⟨hne, hnodup⟩

/-- A sound buffer holds nothing twice. -/
theorem Sound.nodup (h : buffer.Sound) : (buffer.getD []).Nodup := by
  cases buffer with
  | none => exact List.nodup_nil
  | some held => exact (h held rfl).2

/-! ### Adding reports -/

theorem add_some (held : List Reported) (report : Reported) :
    add (some held) report = some (if report ∈ held then held else held ++ [report]) := by
  simp [add]

/-- After a report was added the buffer holds it and what it held before. -/
theorem mem_add {r : Reported} :
    r ∈ (add buffer report).getD [] ↔ r ∈ buffer.getD [] ∨ r = report := by
  cases buffer with
  | none => simp [add]
  | some held =>
    rw [add_some]
    by_cases hmem : report ∈ held
    · rw [if_pos hmem]
      exact ⟨Or.inl, fun h => h.elim id fun heq => heq ▸ hmem⟩
    · rw [if_neg hmem]
      exact List.mem_append.trans (or_congr Iff.rfl List.mem_singleton)

/-- Adding a report keeps a buffer sound. -/
theorem Sound.add (h : buffer.Sound) (report : Reported) : (add buffer report).Sound := by
  cases buffer with
  | none => exact sound_some (List.cons_ne_nil _ _) (List.pairwise_singleton _ _)
  | some held =>
    obtain ⟨hne, hnodup⟩ := h held rfl
    rw [add_some]
    by_cases hmem : report ∈ held
    · rw [if_pos hmem]
      exact sound_some hne hnodup
    · rw [if_neg hmem]
      refine sound_some (by simp) (List.nodup_append.mpr ⟨hnodup, List.pairwise_singleton _ _, ?_⟩)
      rintro a ha b hb rfl
      exact hmem (List.mem_singleton.mp hb ▸ ha)

/-- Of reports added one after the other those are new that the buffer did not hold. -/
theorem foldl_add (held : List Reported) {reports : List Reported} (hnodup : reports.Nodup) :
    reports.foldl add (some held) = some (held ++ reports.filter (· ∉ held)) := by
  induction reports generalizing held with
  | nil => simp
  | cons report reports ih =>
    obtain ⟨hnew, hnodup⟩ := List.nodup_cons.mp hnodup
    rw [List.foldl_cons, add_some, ih _ hnodup]
    by_cases hmem : report ∈ held
    · rw [if_pos hmem, List.filter_cons_of_neg (by simpa using hmem)]
    · -- what follows is not the report, so it is new in one list if it is in the other
      have hsame : reports.filter (· ∉ held ++ [report]) = reports.filter (· ∉ held) := by
        refine List.filter_congr fun r hr => ?_
        have hne : r ≠ report := fun heq => hnew (heq ▸ hr)
        simp [hne]
      rw [if_neg hmem, hsame, List.filter_cons_of_pos (by simpa using hmem), List.append_assoc]
      rfl

/-- **Buffers add up in order: what was held, then what is new.** -/
theorem addAll_eq (buffer : Buffer) {reports : List Reported} (hnodup : reports.Nodup) :
    buffer.addAll reports =
      some (buffer.getD [] ++ reports.filter (· ∉ buffer.getD [])) :=
  foldl_add (buffer.getD []) hnodup

/-- After reports were added the buffer holds them and what it held before. -/
theorem mem_addAll {reports : List Reported} (hnodup : reports.Nodup) {r : Reported} :
    r ∈ (buffer.addAll reports).getD [] ↔ r ∈ buffer.getD [] ∨ r ∈ reports := by
  rw [addAll_eq buffer hnodup]
  by_cases hmem : r ∈ buffer.getD [] <;> simp [hmem]

/-- Adding reports keeps a buffer sound. -/
theorem Sound.addAll (h : buffer.Sound) {reports : List Reported} (hne : reports ≠ [])
    (hnodup : reports.Nodup) : (buffer.addAll reports).Sound := by
  rw [addAll_eq buffer hnodup]
  refine sound_some ?_ ?_
  · intro hnil
    obtain ⟨hheld, hnew⟩ := List.append_eq_nil_iff.mp hnil
    rw [hheld] at hnew
    obtain ⟨report, hreport⟩ := List.exists_mem_of_ne_nil _ hne
    exact List.filter_eq_nil_iff.mp hnew report hreport (by simp)
  · refine List.nodup_append.mpr ⟨h.nodup, hnodup.filter _, ?_⟩
    rintro a ha b hb rfl
    exact absurd ha (by simpa using (List.mem_filter.mp hb).2)

/-- Taking reports out keeps a buffer sound: the last one takes the buffer along. -/
theorem Sound.retain (h : buffer.Sound) (keep : Reported → Bool) : (buffer.retain keep).Sound := by
  cases buffer with
  | none => exact sound_none
  | some held =>
    unfold Buffer.retain
    dsimp only
    split
    · exact sound_none
    · rename_i hkept
      exact sound_some hkept ((h held rfl).2.filter keep)

end Buffer

/-! ### Errors in a row -/

/-- What every error keeps, errors reported in order keep, however far that gets. -/
theorem Reporter.errorAll_induction {r : Reporter} {P : Channels → Prop} {channels : Channels}
    (hstep : ∀ report before, P before → P (r.error report before).2) (h : P channels)
    (reports : List Reported) : P (r.errorAll reports channels).2 := by
  induction reports generalizing channels with
  | nil => exact h
  | cons report reports ih =>
    have hfirst := hstep report channels h
    unfold errorAll
    rcases hreport : r.error report channels with ⟨_ | _, after⟩
    · rw [hreport] at hfirst
      exact hfirst
    · rw [hreport] at hfirst
      exact ih hfirst

/-! ### Sound channels -/

structure Buffers.Sound (held : Buffers) : Prop where
  errors : held.errors.Sound
  warnings : held.warnings.Sound

def Channels.Sound (channels : Channels) : Prop := ∀ id, (channels.buffersAt id).Sound

namespace Channels.Sound

variable {channels : Channels}

/-- A change that leaves one pair of buffers sound leaves all of them sound. -/
theorem modifyBuffers (h : channels.Sound) (id : BufferId) (change : Buffers → Buffers)
    (hchange : (change (channels.buffersAt id)).Sound) : (channels.modifyBuffers id change).Sound := by
  intro other
  rcases Nat.lt_or_ge id channels.buffers.size with hid | hid
  · by_cases heq : id = other
    · subst heq
      rw [channels.buffersAt_modifyBuffers hid]
      exact hchange
    · rw [channels.buffersAt_modifyBuffers_of_ne heq]
      exact h other
  · rw [channels.buffersAt_modifyBuffers_of_le hid]
    exact h other

theorem emitAll (h : channels.Sound) (sink : SinkId) (reports : List Reported) :
    (channels.emitAll sink reports).Sound := by
  intro id
  rw [channels.buffersAt_emitAll]
  exact h id

/-- Reporting an error keeps all buffers sound. -/
theorem error (h : channels.Sound) (r : Reporter) (report : Reported) :
    (r.error report channels).2.Sound := by
  unfold Reporter.error
  cases r.kind with
  | immediate => exact h
  | buffering =>
    exact h.modifyBuffers r.buffers _ ⟨(h r.buffers).errors.add report, (h r.buffers).warnings⟩
  | throwing => exact h
  | checking => exact h

/-- Reporting a warning keeps all buffers sound. -/
theorem warning (h : channels.Sound) (r : Reporter) (report : Reported) :
    (r.warning report channels).Sound := by
  unfold Reporter.warning
  split
  · exact h.modifyBuffers r.buffers _ ⟨(h r.buffers).errors, (h r.buffers).warnings.add report⟩
  · exact h

/-- Reporting an ambiguity keeps all buffers sound. -/
theorem ambiguity (h : channels.Sound) (r : Reporter) (report : Reported) (surface : Bool) :
    (r.ambiguity report surface channels).Sound := by
  unfold Reporter.ambiguity
  split
  · exact h
  · split
    · exact h.modifyBuffers r.buffers _ ⟨(h r.buffers).errors.add report, (h r.buffers).warnings⟩
    · exact h

theorem errorAll (h : channels.Sound) (r : Reporter) (reports : List Reported) :
    (r.errorAll reports channels).2.Sound :=
  Reporter.errorAll_induction (fun report _ h => h.error r report) h reports

end Channels.Sound

/-! ### Operations -/

/-- What can be done with a reporter that is there. -/
inductive Operation where
  | error (report : Reported)
  | warning (report : Reported)
  | issue (report : Reported)
  | ambiguity (report : Reported) (surface : Bool)
  | propagate (target : Reporter)
  | emitWarnings
  | retainErrors (keep : Reported → Bool)
  | clearErrors
  | clear

namespace Operation

def run (r : Reporter) (channels : Channels) : Operation → Except Abort Unit × Channels
  | error report => r.error report channels
  | warning report => (.ok (), r.warning report channels)
  | issue report => r.issue report channels
  | ambiguity report surface => (.ok (), r.ambiguity report surface channels)
  | propagate target => r.propagate target channels
  | emitWarnings => (.ok (), r.emitWarnings channels)
  | retainErrors keep => (.ok (), r.retainErrors keep channels)
  | clearErrors => (.ok (), r.clearErrors channels)
  | clear => (.ok (), r.clear channels)

def reports : Operation → List Reported
  | error report | warning report | issue report | ambiguity report _ => [report]
  | _ => []

/-- The other reporter taking part, if there is one. -/
def target? : Operation → Option Reporter
  | propagate target => some target
  | _ => none

end Operation

/-- Moving errors keeps all buffers sound. -/
theorem Channels.Sound.propagate {channels : Channels} (h : channels.Sound)
    (source target : Reporter) : (source.propagate target channels).2.Sound := by
  unfold Reporter.propagate
  split
  · exact h
  · have hsource := h source.buffers
    rcases herrors : (channels.buffersAt source.buffers).errors with _ | errors
    · exact h
    · obtain ⟨hne, hnodup⟩ := hsource.errors errors herrors
      have hreleased := h.modifyBuffers source.buffers (fun b => { b with errors := none })
        ⟨Buffer.sound_none, hsource.warnings⟩
      dsimp only
      split
      · have htarget := hreleased target.buffers
        exact hreleased.modifyBuffers target.buffers _
          ⟨htarget.errors.addAll hne hnodup, htarget.warnings⟩
      · exact hreleased.errorAll target errors

/-- **No operation leaves an empty buffer, or a buffer that holds a report twice.** -/
theorem Operation.sound {channels : Channels} (h : channels.Sound) (r : Reporter) (o : Operation) :
    (o.run r channels).2.Sound := by
  have hheld := h r.buffers
  cases o with
  | error report => exact h.error r report
  | warning report => exact h.warning r report
  | issue report =>
    show (r.issue report channels).2.Sound
    unfold Reporter.issue
    split
    · exact h.error r report
    · exact h.warning r report
  | ambiguity report surface => exact h.ambiguity r report surface
  | propagate target => exact h.propagate r target
  | emitWarnings =>
    exact (h.modifyBuffers r.buffers _ ⟨hheld.errors, Buffer.sound_none⟩).emitAll r.sink _
  | retainErrors keep => exact h.modifyBuffers r.buffers _ ⟨hheld.errors.retain keep, hheld.warnings⟩
  | clearErrors => exact h.modifyBuffers r.buffers _ ⟨Buffer.sound_none, hheld.warnings⟩
  | clear => exact h.modifyBuffers r.buffers _ ⟨Buffer.sound_none, Buffer.sound_none⟩

theorem Channels.Sound.toImmediate {channels : Channels} (h : channels.Sound) (r : Reporter) :
    (r.toImmediate channels).2.Sound :=
  (h.modifyBuffers r.buffers _ ⟨Buffer.sound_none, Buffer.sound_none⟩).emitAll r.sink _

/-- Fresh buffers are sound. -/
theorem Channels.Sound.addBuffers {channels : Channels} (h : channels.Sound) :
    channels.addBuffers.2.Sound := by
  intro id
  rw [channels.buffersAt_addBuffers]
  exact h id

end NameResolution
