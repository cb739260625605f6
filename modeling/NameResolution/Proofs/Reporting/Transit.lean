import NameResolution.Proofs.Reporting.Operations

/-!
# Reports in transit

Reports move between buffers and a log: buffered by one handle, sent out by another on the same
buffers, merged into the buffers of a third. As long as nothing is dropped on purpose, the log and
the buffers together hold what was reported and nothing else.

* `Channels.Gains`: what an operation adds to all that is held.
* `Operation.gains`: an operation that drops nothing adds what it reports, and
  `Reporter.gains_propagate` in particular adds nothing.
* `Course.conserves`: in the course of such operations no report is lost, and what a propagation
  leaves behind in the two reporters.
-/

namespace NameResolution

namespace Channels

/-- What a sink has logged; nothing if it keeps no log. -/
def logged (channels : Channels) (sink : SinkId) : List Reported :=
  match channels.sinks[sink]? with
  | some (.log entries) => entries
  | _ => []

def KeepsLog (channels : Channels) (sink : SinkId) : Prop :=
  ∃ entries, channels.sinks[sink]? = some (.log entries)

end Channels

def Buffers.reports (held : Buffers) : List Reported := held.errors.getD [] ++ held.warnings.getD []

namespace Channels

/-- A report is in the log or in one of the buffers. -/
def Holds (channels : Channels) (log : SinkId) (report : Reported) : Prop :=
  report ∈ channels.logged log ∨ ∃ id, report ∈ (channels.buffersAt id).reports

/-- A report is in the log or in buffers other than those at a place. -/
def HoldsBeside (channels : Channels) (log : SinkId) (id : BufferId) (report : Reported) : Prop :=
  report ∈ channels.logged log ∨
    ∃ other, other ≠ id ∧ report ∈ (channels.buffersAt other).reports

/-- Nothing that was held is lost, and what is held besides are the given reports. -/
structure Gains (log : SinkId) (before after : Channels) (reports : List Reported) : Prop where
  logs : after.KeepsLog log
  size : after.buffers.size = before.buffers.size
  holds : ∀ report, after.Holds log report ↔ before.Holds log report ∨ report ∈ reports

variable {channels : Channels} {log : SinkId}

/-! ### Sending reports out -/

theorem sinks_emitAll {entries : List Reported} (hlog : channels.sinks[log]? = some (.log entries))
    (reports : List Reported) :
    (channels.emitAll log reports).sinks[log]? = some (.log (entries ++ reports)) := by
  unfold emitAll
  induction reports generalizing channels entries with
  | nil => simpa using hlog
  | cons report reports ih =>
    have hfirst : (channels.emit log report).sinks[log]? = some (.log (entries ++ [report])) := by
      show (channels.sinks.modify log (Sink.receive report))[log]? = _
      rw [Array.getElem?_modify, if_pos rfl, hlog]
      rfl
    rw [List.foldl_cons, ih hfirst, List.append_assoc]
    rfl

theorem KeepsLog.emitAll (hlog : channels.KeepsLog log) (reports : List Reported) :
    (channels.emitAll log reports).KeepsLog log := by
  obtain ⟨entries, hentries⟩ := hlog
  exact ⟨entries ++ reports, sinks_emitAll hentries reports⟩

theorem KeepsLog.modifyBuffers (hlog : channels.KeepsLog log) (id : BufferId)
    (change : Buffers → Buffers) : (channels.modifyBuffers id change).KeepsLog log := hlog

theorem logged_emitAll (hlog : channels.KeepsLog log) (reports : List Reported) :
    (channels.emitAll log reports).logged log = channels.logged log ++ reports := by
  obtain ⟨entries, hentries⟩ := hlog
  unfold logged
  rw [sinks_emitAll hentries, hentries]

theorem gains_emitAll (hlog : channels.KeepsLog log) (reports : List Reported) :
    Gains log channels (channels.emitAll log reports) reports where
  logs := hlog.emitAll reports
  size := by rw [buffers_emitAll]
  holds := by
    intro report
    unfold Holds
    rw [logged_emitAll hlog]
    simp only [buffersAt_emitAll, List.mem_append]
    exact or_right_comm

/-! ### Changing one pair of buffers -/

theorem holds_iff (id : BufferId) (report : Reported) :
    channels.Holds log report ↔
      channels.HoldsBeside log id report ∨ report ∈ (channels.buffersAt id).reports := by
  constructor
  · rintro (hlogged | ⟨other, hheld⟩)
    · exact Or.inl (Or.inl hlogged)
    · by_cases heq : other = id
      · exact Or.inr (heq ▸ hheld)
      · exact Or.inl (Or.inr ⟨other, heq, hheld⟩)
  · rintro ((hlogged | ⟨other, -, hheld⟩) | hheld)
    · exact Or.inl hlogged
    · exact Or.inr ⟨other, hheld⟩
    · exact Or.inr ⟨id, hheld⟩

theorem holdsBeside_modifyBuffers (id : BufferId) (change : Buffers → Buffers) (report : Reported) :
    (channels.modifyBuffers id change).HoldsBeside log id report ↔
      channels.HoldsBeside log id report := by
  unfold HoldsBeside
  refine or_congr Iff.rfl (exists_congr fun other => and_congr_right fun hne => ?_)
  rw [channels.buffersAt_modifyBuffers_of_ne (Ne.symm hne)]

theorem holds_modifyBuffers {id : BufferId} (hid : id < channels.buffers.size)
    (change : Buffers → Buffers) (report : Reported) :
    (channels.modifyBuffers id change).Holds log report ↔
      channels.HoldsBeside log id report ∨
        report ∈ (change (channels.buffersAt id)).reports := by
  rw [holds_iff id, holdsBeside_modifyBuffers, channels.buffersAt_modifyBuffers hid]

/-- Adding reports to one pair of buffers adds them to all that is held. -/
theorem gains_modifyBuffers (hlog : channels.KeepsLog log) {id : BufferId}
    (hid : id < channels.buffers.size) {change : Buffers → Buffers} {reports : List Reported}
    (hchange : ∀ report, report ∈ (change (channels.buffersAt id)).reports ↔
      report ∈ (channels.buffersAt id).reports ∨ report ∈ reports) :
    Gains log channels (channels.modifyBuffers id change) reports where
  logs := hlog
  size := size_modifyBuffers ..
  holds := by
    intro report
    rw [holds_modifyBuffers hid, hchange, holds_iff id, or_assoc]

namespace Gains

variable {before after last : Channels} {reports more : List Reported}

theorem refl (hlog : channels.KeepsLog log) : Gains log channels channels [] :=
  ⟨hlog, rfl, fun _ => by simp⟩

/-- What is taken out of one pair of buffers and added again somewhere is not lost. -/
theorem of_released {id : BufferId} {change : Buffers → Buffers} (hid : id < before.buffers.size)
    (hchange : ∀ report, report ∈ (change (before.buffersAt id)).reports ∨ report ∈ reports ↔
      report ∈ (before.buffersAt id).reports)
    (h : Gains log (before.modifyBuffers id change) after reports) : Gains log before after [] where
  logs := h.logs
  size := h.size.trans (size_modifyBuffers ..)
  holds := by
    intro report
    rw [h.holds, holds_modifyBuffers hid, or_assoc, hchange, ← holds_iff id]
    simp

end Gains

end Channels

/-! ### Operations that drop nothing -/

open Channels

/-- A reporter sends errors to the log or buffers them, in buffers that are there. -/
structure Reporter.Logs (r : Reporter) (log : SinkId) (channels : Channels) : Prop where
  kind : r.kind = .immediate ∨ r.kind = .buffering
  sink : r.sink = log
  buffers : r.buffers < channels.buffers.size

/-- Whether the operation drops nothing on purpose. -/
def Operation.isLossless (r : Reporter) : Operation → Bool
  | ambiguity _ surface => surface || r.isBuffering
  | retainErrors _ | clearErrors | clear => false
  | _ => true

namespace Reporter

variable {r source target : Reporter} {log : SinkId} {channels : Channels}

theorem gains_keepError (hlog : channels.KeepsLog log) (hr : r.Logs log channels)
    (report : Reported) : Gains log channels (r.keepError report channels) [report] :=
  gains_modifyBuffers hlog hr.buffers fun x => by
    simp only [Buffers.reports, List.mem_append, Buffer.mem_add, List.mem_singleton]
    exact or_right_comm

theorem gains_keepWarning (hlog : channels.KeepsLog log) (hr : r.Logs log channels)
    (report : Reported) : Gains log channels (r.keepWarning report channels) [report] :=
  gains_modifyBuffers hlog hr.buffers fun x => by
    simp only [Buffers.reports, List.mem_append, Buffer.mem_add, List.mem_singleton]
    exact or_assoc.symm

theorem gains_emit (hlog : channels.KeepsLog log) (hr : r.Logs log channels) (report : Reported) :
    Gains log channels (channels.emit r.sink report) [report] := by
  rw [hr.sink]
  exact gains_emitAll hlog [report]

theorem gains_error (hlog : channels.KeepsLog log) (hr : r.Logs log channels) (report : Reported) :
    (r.error report channels).1 = .ok () ∧
      Gains log channels (r.error report channels).2 [report] := by
  unfold error
  rcases hr.kind with hkind | hkind
  · rw [hkind]
    exact ⟨rfl, gains_emit hlog hr report⟩
  · rw [hkind]
    exact ⟨rfl, gains_keepError hlog hr report⟩

theorem gains_warning (hlog : channels.KeepsLog log) (hr : r.Logs log channels)
    (report : Reported) : Gains log channels (r.warning report channels) [report] := by
  unfold warning
  split
  · exact gains_keepWarning hlog hr report
  · exact gains_emit hlog hr report

theorem gains_issue (hlog : channels.KeepsLog log) (hr : r.Logs log channels) (report : Reported) :
    (r.issue report channels).1 = .ok () ∧
      Gains log channels (r.issue report channels).2 [report] := by
  unfold issue
  split
  · exact gains_error hlog hr report
  · exact ⟨rfl, gains_warning hlog hr report⟩

/-- An ambiguity that is not surfaced is lost unless the reporter buffers. -/
theorem gains_ambiguity (hlog : channels.KeepsLog log) (hr : r.Logs log channels)
    (report : Reported) {surface : Bool} (hkeeps : (surface || r.isBuffering) = true) :
    Gains log channels (r.ambiguity report surface channels) [report] := by
  unfold ambiguity
  cases surface with
  | true => exact gains_emit hlog hr report
  | false =>
    have hbuffering : r.isBuffering = true := hkeeps
    rw [if_neg Bool.false_ne_true, if_pos hbuffering]
    exact gains_keepError hlog hr report

theorem gains_toImmediate (hlog : channels.KeepsLog log) (hr : r.Logs log channels) :
    Gains log channels (r.toImmediate channels).2 [] := by
  have hout : Gains log (channels.modifyBuffers r.buffers fun _ => {}) (r.toImmediate channels).2
      (channels.buffersAt r.buffers).reports := by
    show Gains log _ (emitAll _ r.sink _) _
    rw [hr.sink]
    exact gains_emitAll (hlog.modifyBuffers ..) _
  exact .of_released hr.buffers (fun report => by simp [Buffers.reports]) hout

theorem gains_emitWarnings (hlog : channels.KeepsLog log) (hr : r.Logs log channels) :
    Gains log channels (r.emitWarnings channels) [] := by
  have hout : Gains log (channels.modifyBuffers r.buffers fun b => { b with warnings := none })
      (r.emitWarnings channels) (r.warnings channels) := by
    show Gains log _ (emitAll _ r.sink _) _
    rw [hr.sink]
    exact gains_emitAll (hlog.modifyBuffers ..) _
  exact .of_released hr.buffers (fun report => by simp [Buffers.reports, warnings]) hout

/-- A reporter that reports immediately sends out errors in order. -/
theorem errorAll_of_immediate (hkind : r.kind = .immediate) (reports : List Reported)
    (channels : Channels) :
    r.errorAll reports channels = (.ok (), channels.emitAll r.sink reports) := by
  induction reports generalizing channels with
  | nil => rfl
  | cons report reports ih =>
    have hfirst : r.error report channels = (.ok (), channels.emit r.sink report) := by
      unfold error
      rw [hkind]
    unfold errorAll
    rw [hfirst]
    exact ih _

/-! ### Propagation -/

theorem propagate_of_shares (hshares : source.sharesBuffersWith target = true)
    (channels : Channels) : source.propagate target channels = (.ok (), channels) :=
  if_pos hshares

/-- Without an error buffer there is nothing to move. -/
theorem propagate_of_none (hnone : (channels.buffersAt source.buffers).errors = none) :
    source.propagate target channels = (.ok (), channels) := by
  unfold propagate
  split
  · rfl
  · rw [hnone]

theorem propagate_to_buffering (hshares : source.sharesBuffersWith target = false)
    (htarget : target.isBuffering = true) {errors : List Reported}
    (hsome : (channels.buffersAt source.buffers).errors = some errors) :
    source.propagate target channels =
      (.ok (), (source.clearErrors channels).modifyBuffers target.buffers fun b =>
        { b with errors := b.errors.addAll errors }) := by
  unfold propagate
  rw [if_neg (Bool.eq_false_iff.mp hshares), hsome]
  exact if_pos htarget

theorem propagate_to_immediate (hshares : source.sharesBuffersWith target = false)
    (htarget : target.kind = .immediate) {errors : List Reported}
    (hsome : (channels.buffersAt source.buffers).errors = some errors) :
    source.propagate target channels =
      (.ok (), (source.clearErrors channels).emitAll target.sink errors) := by
  have hnot : ¬ target.isBuffering = true := by simp [isBuffering, htarget]
  unfold propagate
  rw [if_neg (Bool.eq_false_iff.mp hshares), hsome]
  dsimp only
  rw [if_neg hnot, errorAll_of_immediate htarget]
  rfl

/-- The source is left without an error buffer. -/
theorem hasErrorBuffer_propagate (hshares : source.sharesBuffersWith target = false)
    (hsource : source.Logs log channels) (htarget : target.Logs log channels) :
    source.hasErrorBuffer (source.propagate target channels).2 = false := by
  have hne : target.buffers ≠ source.buffers := by
    intro heq
    simp [sharesBuffersWith, heq] at hshares
  have hcleared : ((source.clearErrors channels).buffersAt source.buffers).errors = none := by
    rw [clearErrors, buffersAt_modifyBuffers _ hsource.buffers]
  unfold hasErrorBuffer
  rcases hsome : (channels.buffersAt source.buffers).errors with _ | errors
  · rw [propagate_of_none hsome, hsome]
    rfl
  · rcases htarget.kind with hkind | hkind
    · rw [propagate_to_immediate hshares hkind hsome, buffersAt_emitAll, hcleared]
      rfl
    · rw [propagate_to_buffering hshares (by simp [isBuffering, hkind]) hsome,
        buffersAt_modifyBuffers_of_ne _ hne, hcleared]
      rfl

/-- A buffering target holds its errors as before, then those that are new to it in their order. -/
theorem errors_propagate (hshares : source.sharesBuffersWith target = false)
    (hbuffering : target.isBuffering = true) (hsound : channels.Sound)
    (htarget : target.Logs log channels) :
    target.errors (source.propagate target channels).2 =
      target.errors channels ++
        (source.errors channels).filter (· ∉ target.errors channels) := by
  have hne : source.buffers ≠ target.buffers := by simpa [sharesBuffersWith] using hshares
  have hcleared : (source.clearErrors channels).buffersAt target.buffers =
      channels.buffersAt target.buffers := buffersAt_modifyBuffers_of_ne _ hne _
  have hid : target.buffers < (source.clearErrors channels).buffers.size := by
    simpa [clearErrors] using htarget.buffers
  unfold errors
  rcases hsome : (channels.buffersAt source.buffers).errors with _ | errors
  · rw [propagate_of_none hsome]
    simp
  · rw [propagate_to_buffering hshares hbuffering hsome, buffersAt_modifyBuffers _ hid, hcleared,
      Buffer.addAll_eq _ ((hsound source.buffers).errors errors hsome).2]
    rfl

/-- Errors that are taken out and added again are not lost. -/
theorem gains_of_clearErrors (hsource : source.Logs log channels) {errors : List Reported}
    (hsome : (channels.buffersAt source.buffers).errors = some errors) {after : Channels}
    (h : Gains log (source.clearErrors channels) after errors) : Gains log channels after [] :=
  .of_released hsource.buffers (fun report => by simp [Buffers.reports, hsome, or_comm]) h

/-- **Propagation moves errors and loses none.** -/
theorem gains_propagate (hlog : channels.KeepsLog log) (hsound : channels.Sound)
    (hsource : source.Logs log channels) (htarget : target.Logs log channels) :
    (source.propagate target channels).1 = .ok () ∧
      Gains log channels (source.propagate target channels).2 [] := by
  have hcleared : (source.clearErrors channels).KeepsLog log := hlog.modifyBuffers ..
  cases hshares : source.sharesBuffersWith target with
  | true =>
    rw [propagate_of_shares hshares]
    exact ⟨rfl, .refl hlog⟩
  | false =>
    rcases hsome : (channels.buffersAt source.buffers).errors with _ | errors
    · rw [propagate_of_none hsome]
      exact ⟨rfl, .refl hlog⟩
    · rcases htarget.kind with hkind | hkind
      · rw [propagate_to_immediate hshares hkind hsome, htarget.sink]
        exact ⟨rfl, gains_of_clearErrors hsource hsome (gains_emitAll hcleared errors)⟩
      · rw [propagate_to_buffering hshares (by simp [isBuffering, hkind]) hsome]
        refine ⟨rfl, gains_of_clearErrors hsource hsome ?_⟩
        have hnodup := ((hsound source.buffers).errors errors hsome).2
        have hid : target.buffers < (source.clearErrors channels).buffers.size := by
          simpa [clearErrors] using htarget.buffers
        refine gains_modifyBuffers hcleared hid fun report => ?_
        simp only [Buffers.reports, List.mem_append, Buffer.mem_addAll hnodup]
        exact or_right_comm

end Reporter

/-- **An operation that drops nothing succeeds, and adds what it reports to all that is held.** -/
theorem Operation.gains {r : Reporter} {log : SinkId} {channels : Channels}
    (hlog : channels.KeepsLog log) (hsound : channels.Sound) (hr : r.Logs log channels)
    (o : Operation) (htarget : ∀ target ∈ o.target?, target.Logs log channels)
    (hlossless : o.isLossless r = true) :
    (o.run r channels).1 = .ok () ∧ Gains log channels (o.run r channels).2 o.reports := by
  cases o with
  | error report => exact Reporter.gains_error hlog hr report
  | warning report => exact ⟨rfl, Reporter.gains_warning hlog hr report⟩
  | issue report => exact Reporter.gains_issue hlog hr report
  | ambiguity report surface => exact ⟨rfl, Reporter.gains_ambiguity hlog hr report hlossless⟩
  | propagate target => exact Reporter.gains_propagate hlog hsound hr (htarget target rfl)
  | emitWarnings => exact ⟨rfl, Reporter.gains_emitWarnings hlog hr⟩
  | retainErrors keep => cases hlossless
  | clearErrors => cases hlossless
  | clear => cases hlossless

/-! ### The course of reporting -/

/--
What can happen to reporters on one log: they are made, or made from one another with shared buffers
or buffers of their own, and used in ways that drop nothing. With the channels come the reporters
made so far and what was reported.
-/
inductive Course (log : SinkId) : Channels → List Reporter → List Reported → Prop where
  | start {channels : Channels} (hbuffers : channels.buffers = #[])
      (hlog : channels.sinks[log]? = some (.log [])) : Course log channels [] []
  | create {channels : Channels} {made : List Reporter} {reported : List Reported}
      (h : Course log channels made reported) (kind : ReporterKind)
      (hkind : kind = .immediate ∨ kind = .buffering) :
      Course log (Reporter.create kind log channels).2
        ((Reporter.create kind log channels).1 :: made) reported
  | fork {channels : Channels} {made : List Reporter} {reported : List Reported} {r : Reporter}
      (h : Course log channels made reported) (hr : r ∈ made) :
      Course log (r.fork channels).2 ((r.fork channels).1 :: made) reported
  | toBuffering {channels : Channels} {made : List Reporter} {reported : List Reported}
      {r : Reporter} (h : Course log channels made reported) (hr : r ∈ made) :
      Course log channels (r.toBuffering :: made) reported
  | toImmediate {channels : Channels} {made : List Reporter} {reported : List Reported}
      {r : Reporter} (h : Course log channels made reported) (hr : r ∈ made) :
      Course log (r.toImmediate channels).2 ((r.toImmediate channels).1 :: made) reported
  | operate {channels : Channels} {made : List Reporter} {reported : List Reported} {r : Reporter}
      (h : Course log channels made reported) (hr : r ∈ made) (o : Operation)
      (htarget : ∀ target ∈ o.target?, target ∈ made) (hlossless : o.isLossless r = true) :
      Course log (o.run r channels).2 made (o.reports ++ reported)

/-- What holds throughout: the log is there, all buffers are sound, all reporters are on the log,
and what was reported is what is held. -/
structure Conserved (log : SinkId) (channels : Channels) (made : List Reporter)
    (reported : List Reported) : Prop where
  keepsLog : channels.KeepsLog log
  sound : channels.Sound
  logs : ∀ r ∈ made, r.Logs log channels
  holds : ∀ report, channels.Holds log report ↔ report ∈ reported

namespace Conserved

variable {log : SinkId} {channels after : Channels} {made : List Reporter}
  {reported reports : List Reported}

/-- New buffers hold nothing. -/
theorem addBuffers (h : Conserved log channels made reported) (kind : ReporterKind)
    (hkind : kind = .immediate ∨ kind = .buffering) :
    Conserved log channels.addBuffers.2 (⟨kind, channels.addBuffers.1, log⟩ :: made) reported where
  keepsLog := h.keepsLog
  sound := h.sound.addBuffers
  logs := by
    refine List.forall_mem_cons.mpr ⟨⟨hkind, rfl, ?_⟩, fun r hr => ?_⟩
    · rw [size_addBuffers]
      exact Nat.lt_succ_self _
    · obtain ⟨hkind, hsink, hbuffers⟩ := h.logs r hr
      refine ⟨hkind, hsink, ?_⟩
      rw [size_addBuffers]
      exact Nat.lt_succ_of_lt hbuffers
  holds := by
    intro report
    rw [← h.holds report]
    unfold Holds
    simp only [buffersAt_addBuffers]
    rfl

theorem gains (h : Conserved log channels made reported) (hsound : after.Sound)
    (hgains : Gains log channels after reports) :
    Conserved log after made (reports ++ reported) where
  keepsLog := hgains.logs
  sound := hsound
  logs := by
    intro r hr
    obtain ⟨hkind, hsink, hbuffers⟩ := h.logs r hr
    exact ⟨hkind, hsink, hgains.size ▸ hbuffers⟩
  holds := by
    intro report
    rw [hgains.holds, h.holds, List.mem_append, or_comm]

/-- A handle on buffers of a reporter that is there. -/
theorem handle (h : Conserved log channels made reported) {r : Reporter} (hr : r ∈ made)
    {kind : ReporterKind} (hkind : kind = .immediate ∨ kind = .buffering) :
    Conserved log channels ({ r with kind } :: made) reported :=
  ⟨h.keepsLog, h.sound,
    List.forall_mem_cons.mpr ⟨⟨hkind, (h.logs r hr).sink, (h.logs r hr).buffers⟩, h.logs⟩, h.holds⟩

end Conserved

theorem Course.conserved {log : SinkId} {channels : Channels} {made : List Reporter}
    {reported : List Reported} (h : Course log channels made reported) :
    Conserved log channels made reported := by
  induction h with
  | @start channels hbuffers hlog =>
    have hempty : ∀ id, channels.buffersAt id = {} := fun id => by simp [buffersAt, hbuffers]
    refine ⟨⟨[], hlog⟩, fun id => ?_, fun r hr => absurd hr List.not_mem_nil, fun report => ?_⟩
    · rw [hempty]
      exact ⟨Buffer.sound_none, Buffer.sound_none⟩
    · simp [Holds, logged, hlog, hempty, Buffers.reports]
  | create _ kind hkind ih => exact ih.addBuffers kind hkind
  | @fork channels made reported r _ hr ih =>
    have hforked := ih.addBuffers .buffering (Or.inr rfl)
    rw [← (ih.logs r hr).sink] at hforked ⊢
    exact hforked
  | toBuffering _ hr ih => exact ih.handle hr (Or.inr rfl)
  | @toImmediate channels made reported r _ hr ih =>
    have hgains := Reporter.gains_toImmediate ih.keepsLog (ih.logs r hr)
    exact (ih.gains (ih.sound.toImmediate r) hgains).handle hr (Or.inl rfl)
  | operate _ hr o htarget hlossless ih =>
    have hgains := o.gains ih.keepsLog ih.sound (ih.logs _ hr)
      (fun target htaking => ih.logs target (htarget target htaking)) hlossless
    exact ih.gains (o.sound ih.sound _) hgains.2

/-- **No report is lost in transit.** What was reported is in the log or in a buffer, and nothing
else is. A propagation between reporters on the same buffers changes nothing; any other leaves the
source without an error buffer, and adds to a buffering target, in order, the errors that are new to
it. -/
theorem Course.conserves {log : SinkId} {channels : Channels} {made : List Reporter}
    {reported : List Reported} (h : Course log channels made reported) :
    (∀ report, channels.Holds log report ↔ report ∈ reported) ∧
      ∀ source ∈ made, ∀ target ∈ made,
        (source.sharesBuffersWith target = true →
          source.propagate target channels = (.ok (), channels)) ∧
        (source.sharesBuffersWith target = false →
          let after := (source.propagate target channels).2
          (source.propagate target channels).1 = .ok () ∧
            source.hasErrorBuffer after = false ∧
            (target.isBuffering = true →
              target.errors after = target.errors channels ++
                (source.errors channels).filter (· ∉ target.errors channels) ∧
              (target.errors after).Nodup)) := by
  obtain ⟨hlog, hsound, hlogs, hholds⟩ := h.conserved
  refine ⟨hholds, fun source hsource target htarget => ⟨fun hshares => ?_, fun hshares => ?_⟩⟩
  · exact Reporter.propagate_of_shares hshares channels
  · have hs := hlogs source hsource
    have ht := hlogs target htarget
    refine ⟨(Reporter.gains_propagate hlog hsound hs ht).1,
      Reporter.hasErrorBuffer_propagate hshares hs ht, fun hbuffering => ⟨?_, ?_⟩⟩
    · exact Reporter.errors_propagate hshares hbuffering hsound ht
    · exact (hsound.propagate source target target.buffers).errors.nodup

/-- Two buffering reporters beside an immediate one: an error held by both, one held by the first
alone, and a warning sent out. -/
theorem Course.conserves_merged :
    let main := Reporter.create .immediate 0 { sinks := #[.log []] }
    let first := main.1.fork main.2
    let second := main.1.fork first.2
    let shared : Reported := ⟨.error .notFound, ⟨2⟩⟩
    let own : Reported := ⟨.error .inaccessible, ⟨3⟩⟩
    let remark : Reported := ⟨.warning .unusedImport, ⟨2⟩⟩
    let channels := second.2
    let channels := ((Operation.error shared).run second.1 channels).2
    let channels := ((Operation.error shared).run first.1 channels).2
    let channels := ((Operation.error own).run first.1 channels).2
    let channels := ((Operation.warning remark).run first.1 channels).2
    let channels := (Operation.emitWarnings.run first.1 channels).2
    (∀ report, channels.Holds 0 report ↔ report ∈ [remark, own, shared, shared]) ∧
      first.1.sharesBuffersWith second.1 = false ∧ second.1.isBuffering = true ∧
      second.1.errors (first.1.propagate second.1 channels).2 = [shared, own] := by
  intro main first second shared own remark c₀ c₁ c₂ c₃ c₄ channels
  have hmade : Course 0 c₀ [second.1, first.1, main.1] [] :=
    (((Course.start rfl rfl).create .immediate (Or.inl rfl)).fork List.mem_cons_self).fork
      (List.mem_cons_of_mem _ List.mem_cons_self)
  have hfirst : first.1 ∈ [second.1, first.1, main.1] := List.mem_cons_of_mem _ List.mem_cons_self
  have hsecond : second.1 ∈ [second.1, first.1, main.1] := List.mem_cons_self
  have h₁ : Course 0 c₁ [second.1, first.1, main.1] [shared] :=
    hmade.operate hsecond (.error shared) (fun _ h => nomatch h) rfl
  have h₂ : Course 0 c₂ [second.1, first.1, main.1] [shared, shared] :=
    h₁.operate hfirst (.error shared) (fun _ h => nomatch h) rfl
  have h₃ : Course 0 c₃ [second.1, first.1, main.1] [own, shared, shared] :=
    h₂.operate hfirst (.error own) (fun _ h => nomatch h) rfl
  have h₄ : Course 0 c₄ [second.1, first.1, main.1] [remark, own, shared, shared] :=
    h₃.operate hfirst (.warning remark) (fun _ h => nomatch h) rfl
  have hcourse : Course 0 channels [second.1, first.1, main.1] [remark, own, shared, shared] :=
    h₄.operate hfirst .emitWarnings (fun _ h => nomatch h) rfl
  obtain ⟨hholds, hpropagate⟩ := Course.conserves hcourse
  have herrors := ((hpropagate first.1 hfirst second.1 hsecond).2 rfl).2.2 rfl
  refine ⟨hholds, rfl, rfl, herrors.1.trans ?_⟩
  decide +kernel

end NameResolution
