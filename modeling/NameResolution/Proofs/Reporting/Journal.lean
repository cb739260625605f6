import Mathlib.Data.List.Induction
import Mathlib.Data.List.Nodup
import Mathlib.Logic.Function.Basic
import NameResolution.Proofs.Reporting.Transit

/-!
# What buffers keep

Buffers come into being with the first report and go with the last, in several operations each. What
they should keep is written down beside them: a `Journal` lists what arrived in a pair of buffers,
repetitions included, less what was dropped or sent out.

* `Buffer.Keeps`: a buffer is absent if nothing arrived, else it holds what arrived, each report
  once at the place of its first arrival.
* `Channels.Follows.operate`: every operation keeps the buffers in step with the journals.
* `Operation.spares_run`: it changes no buffers but those of the reporters taking part.
* `Reporter.Run.buffers_kept`: the same of all that is done with any reporters, in any order.
-/

namespace NameResolution

/-! ### First arrivals -/

section FirstArrivals

variable {α : Type} [DecidableEq α]

/-- What arrives last is dropped if it was there before. -/
theorem eraseDups_append_singleton (l : List α) (a : α) :
    (l ++ [a]).eraseDups = l.eraseDups ++ if a ∈ l then [] else [a] := by
  rw [List.eraseDups_append]
  by_cases ha : a ∈ l <;> simp [List.removeAll, ha, List.eraseDups_cons]

theorem nodup_eraseDups (l : List α) : l.eraseDups.Nodup := by
  induction l using List.reverseRecOn with
  | nil => exact List.nodup_nil
  | append_singleton l a ih =>
    rw [eraseDups_append_singleton]
    split
    · rwa [List.append_nil]
    · have hnew : a ∉ l.eraseDups := mt List.mem_eraseDups.mp ‹a ∉ l›
      exact ih.append (List.nodup_singleton a) (List.disjoint_singleton.mpr hnew)

/-- It makes no difference whether repetitions are dropped before a filter or after. -/
theorem eraseDups_filter (p : α → Bool) (l : List α) :
    (l.filter p).eraseDups = l.eraseDups.filter p := by
  induction l using List.reverseRecOn with
  | nil => rfl
  | append_singleton l a ih =>
    rw [List.filter_append, eraseDups_append_singleton, List.filter_append, ← ih]
    by_cases hp : p a = true
    · rw [List.filter_cons_of_pos hp, List.filter_nil, eraseDups_append_singleton]
      by_cases ha : a ∈ l <;> simp [ha, hp]
    · by_cases ha : a ∈ l <;> simp [ha, hp]

/-- What is left of a list is in the order of the first occurrences. -/
theorem pairwise_idxOf_eraseDups (l : List α) :
    l.eraseDups.Pairwise fun a b => l.idxOf a < l.idxOf b := by
  induction l using List.reverseRecOn with
  | nil => exact List.Pairwise.nil
  | append_singleton l a ih =>
    have hold : ∀ b ∈ l.eraseDups, (l ++ [a]).idxOf b = l.idxOf b := fun b hb => by
      rw [List.idxOf_append, if_pos (List.mem_eraseDups.mp hb)]
    have hkept : l.eraseDups.Pairwise fun b c => (l ++ [a]).idxOf b < (l ++ [a]).idxOf c := by
      refine ih.imp_of_mem fun hb hc hlt => ?_
      rwa [hold _ hb, hold _ hc]
    rw [eraseDups_append_singleton]
    split
    · rwa [List.append_nil]
    · refine List.pairwise_append.mpr ⟨hkept, List.pairwise_singleton _ a, fun b hb c hc => ?_⟩
      rw [List.mem_singleton.mp hc, hold b hb, List.idxOf_append, if_neg ‹a ∉ l›]
      have hb' : l.idxOf b < l.length := List.idxOf_lt_length_iff.mpr (List.mem_eraseDups.mp hb)
      omega

end FirstArrivals

namespace Buffer

/-- The buffer keeps what arrived. -/
structure Keeps (buffer : Buffer) (arrived : List Reported) : Prop where
  /-- It is there exactly if something arrived. -/
  absent : buffer = none ↔ arrived = []
  /-- If it is there it is not empty. -/
  nonempty : buffer ≠ some []
  distinct : (buffer.getD []).Nodup
  holds : ∀ report, report ∈ buffer.getD [] ↔ report ∈ arrived
  /-- The reports are in the order of their first arrivals. -/
  ordered : (buffer.getD []).Pairwise fun a b => arrived.idxOf a < arrived.idxOf b

def ofArrived : List Reported → Buffer
  | [] => none
  | report :: arrived => some (report :: arrived).eraseDups

theorem ofArrived_of_ne_nil {arrived : List Reported} (h : arrived ≠ []) :
    ofArrived arrived = some arrived.eraseDups := by
  cases arrived with
  | nil => exact absurd rfl h
  | cons => rfl

@[simp] theorem getD_ofArrived (arrived : List Reported) :
    (ofArrived arrived).getD [] = arrived.eraseDups := by
  cases arrived <;> rfl

/-- The buffer of what arrived keeps it. -/
theorem keeps_ofArrived (arrived : List Reported) : (ofArrived arrived).Keeps arrived where
  absent := by cases arrived <;> simp [ofArrived]
  nonempty := by cases arrived <;> simp [ofArrived, List.eraseDups_cons]
  distinct := getD_ofArrived arrived ▸ nodup_eraseDups arrived
  holds report := by rw [getD_ofArrived, List.mem_eraseDups]
  ordered := getD_ofArrived arrived ▸ pairwise_idxOf_eraseDups arrived

/-- Adding a report is one more arrival. -/
theorem add_ofArrived (arrived : List Reported) (report : Reported) :
    (ofArrived arrived).add report = ofArrived (arrived ++ [report]) := by
  rw [ofArrived_of_ne_nil (List.append_ne_nil_of_right_ne_nil _ (List.cons_ne_nil _ _))]
  cases arrived with
  | nil => rfl
  | cons first arrived =>
    rw [eraseDups_append_singleton, ofArrived, add_some]
    by_cases h : report ∈ first :: arrived
    · rw [if_pos (List.mem_eraseDups.mpr h), if_pos h, List.append_nil]
    · rw [if_neg (mt List.mem_eraseDups.mp h), if_neg h]

/-- Moving reports in is one arrival after the other. -/
theorem addAll_ofArrived (arrived : List Reported) {moved : List Reported} (hmoved : moved ≠ []) :
    (ofArrived arrived).addAll moved.eraseDups = ofArrived (arrived ++ moved) := by
  rw [addAll_eq _ (nodup_eraseDups moved), getD_ofArrived,
    ofArrived_of_ne_nil (List.append_ne_nil_of_right_ne_nil _ hmoved), List.eraseDups_append,
    List.removeAll, eraseDups_filter]
  simp

/-- Keeping those that pass a test strikes the others from what arrived. -/
theorem retain_ofArrived (arrived : List Reported) (keep : Reported → Bool) :
    (ofArrived arrived).retain keep = ofArrived (arrived.filter keep) := by
  cases arrived with
  | nil => rfl
  | cons first arrived =>
    rw [ofArrived, retain, ← eraseDups_filter]
    cases (first :: arrived).filter keep with
    | nil => rfl
    | cons kept rest => simp [ofArrived, List.eraseDups_cons]

end Buffer

/-! ### Journals -/

/-- What arrived in a pair of buffers, in order, less what was taken out again. -/
structure Journal where
  errors : List Reported := []
  warnings : List Reported := []

def Journal.buffers (journal : Journal) : Buffers :=
  ⟨.ofArrived journal.errors, .ofArrived journal.warnings⟩

abbrev Journals := BufferId → Journal

def Journals.amend (journals : Journals) (id : BufferId) (change : Journal → Journal) : Journals :=
  Function.update journals id (change (journals id))

namespace Reporter

variable (r : Reporter) (journals : Journals)

/-- An error arrives, if the reporter buffers. -/
def noteError (report : Reported) : Journals :=
  if r.isBuffering then
    journals.amend r.buffers fun j => { j with errors := j.errors ++ [report] }
  else journals

/-- A warning arrives, if the reporter buffers. -/
def noteWarning (report : Reported) : Journals :=
  if r.isBuffering then
    journals.amend r.buffers fun j => { j with warnings := j.warnings ++ [report] }
  else journals

/-- The errors leave, and arrive at the target if it buffers. -/
def noteMove (target : Reporter) : Journals :=
  if r.sharesBuffersWith target then journals
  else
    let released := journals.amend r.buffers fun j => { j with errors := [] }
    if target.isBuffering then
      released.amend target.buffers fun j =>
        { j with errors := j.errors ++ (journals r.buffers).errors }
    else released

end Reporter

/-- What an operation adds to the journals or strikes from them. -/
def Operation.note (r : Reporter) (journals : Journals) : Operation → Journals
  | error report => r.noteError journals report
  | warning report => r.noteWarning journals report
  | issue report =>
    if report.diagnostic.isError then r.noteError journals report
    else r.noteWarning journals report
  | ambiguity report surface => if surface then journals else r.noteError journals report
  | propagate target => r.noteMove journals target
  | emitWarnings => journals.amend r.buffers fun j => { j with warnings := [] }
  | retainErrors keep => journals.amend r.buffers fun j => { j with errors := j.errors.filter keep }
  | clearErrors => journals.amend r.buffers fun j => { j with errors := [] }
  | clear => journals.amend r.buffers fun _ => {}

/-! ### Reporters that do not buffer -/

namespace Reporter

variable {r : Reporter}

/-- A reporter that does not buffer reports past the buffers. -/
theorem buffers_error (h : r.isBuffering = false) (report : Reported) (channels : Channels) :
    (r.error report channels).2.buffers = channels.buffers := by
  have hkind : r.kind ≠ .buffering := by simpa [isBuffering] using h
  unfold error
  split
  · rfl
  · exact absurd ‹r.kind = .buffering› hkind
  · rfl
  · rfl

/-- So it does with many errors. -/
theorem buffers_errorAll (h : r.isBuffering = false) (reports : List Reported)
    (channels : Channels) : (r.errorAll reports channels).2.buffers = channels.buffers :=
  errorAll_induction (fun report before hsame => (buffers_error h report before).trans hsame) rfl
    reports

end Reporter

/-! ### Buffers in step with their journals -/

/-- All buffers keep what arrived in them. -/
def Channels.Follows (channels : Channels) (journals : Journals) : Prop :=
  ∀ id, channels.buffersAt id = (journals id).buffers

namespace Channels.Follows

variable {channels : Channels} {journals : Journals} {r : Reporter}

/-- Buffers and journal of one place may change together. -/
theorem modifyBuffers (h : channels.Follows journals) {id : BufferId}
    (hid : id < channels.buffers.size) {change : Buffers → Buffers} {amended : Journal → Journal}
    (hchange : change (journals id).buffers = (amended (journals id)).buffers) :
    (channels.modifyBuffers id change).Follows (journals.amend id amended) := by
  intro other
  by_cases heq : other = id
  · subst heq
    rw [channels.buffersAt_modifyBuffers hid, h, hchange, Journals.amend, Function.update_self]
  · rw [channels.buffersAt_modifyBuffers_of_ne (Ne.symm heq), h, Journals.amend,
      Function.update_of_ne heq]

theorem of_buffers_eq (h : channels.Follows journals) {after : Channels}
    (hsame : after.buffers = channels.buffers) : after.Follows journals := by
  intro id
  rw [← h id, buffersAt, hsame]
  rfl

theorem emitAll (h : channels.Follows journals) (sink : SinkId) (reports : List Reported) :
    (channels.emitAll sink reports).Follows journals :=
  h.of_buffers_eq (channels.buffers_emitAll sink reports)

/-- An error that is kept arrives. -/
theorem keepError (h : channels.Follows journals) (hr : r.buffers < channels.buffers.size)
    (hbuffering : r.isBuffering = true) (report : Reported) :
    (r.keepError report channels).Follows (r.noteError journals report) := by
  rw [Reporter.noteError, if_pos hbuffering]
  refine h.modifyBuffers hr ?_
  rw [Journal.buffers, Buffer.add_ofArrived]
  rfl

/-- An error arrives if the reporter buffers. -/
theorem error (h : channels.Follows journals) (hr : r.buffers < channels.buffers.size)
    (report : Reported) :
    (r.error report channels).2.Follows (r.noteError journals report) := by
  cases hbuffering : r.isBuffering with
  | true =>
    have hkind : r.kind = .buffering := by simpa [Reporter.isBuffering] using hbuffering
    rw [Reporter.error, hkind]
    exact h.keepError hr hbuffering report
  | false =>
    rw [Reporter.noteError, if_neg (Bool.eq_false_iff.mp hbuffering)]
    exact h.of_buffers_eq (Reporter.buffers_error hbuffering report channels)

/-- A warning arrives if the reporter buffers. -/
theorem warning (h : channels.Follows journals) (hr : r.buffers < channels.buffers.size)
    (report : Reported) :
    (r.warning report channels).Follows (r.noteWarning journals report) := by
  unfold Reporter.warning Reporter.noteWarning
  split
  · refine h.modifyBuffers hr ?_
    rw [Journal.buffers, Buffer.add_ofArrived]
    rfl
  · exact h.emitAll r.sink [report]

/-- An ambiguity arrives like an error, unless it is surfaced. -/
theorem ambiguity (h : channels.Follows journals) (hr : r.buffers < channels.buffers.size)
    (report : Reported) (surface : Bool) :
    (r.ambiguity report surface channels).Follows
      (if surface then journals else r.noteError journals report) := by
  unfold Reporter.ambiguity
  split
  · exact h.emitAll r.sink [report]
  · split
    · exact h.keepError hr ‹_› report
    · rw [Reporter.noteError, if_neg ‹_›]
      exact h

end Channels.Follows

/-! ### Buffers left alone -/

/-- No buffers but those at the given places have changed, and none are gone. -/
structure Channels.Spares (touched : List BufferId) (before after : Channels) : Prop where
  size : before.buffers.size ≤ after.buffers.size
  buffersAt : ∀ id, id ∉ touched → after.buffersAt id = before.buffersAt id

namespace Channels.Spares

variable {touched : List BufferId} {before after last : Channels}

theorem of_buffers_eq (h : after.buffers = before.buffers) : Spares touched before after :=
  ⟨Nat.le_of_eq (congrArg Array.size h.symm), fun id _ => by rw [Channels.buffersAt, h]; rfl⟩

/-- Two operations spare what both spare. -/
theorem trans (h : Spares touched before after) (hnext : Spares touched after last) :
    Spares touched before last :=
  ⟨Nat.le_trans h.size hnext.size, fun id hid =>
    (hnext.buffersAt id hid).trans (h.buffersAt id hid)⟩

theorem modifyBuffers {id : BufferId} (hid : id ∈ touched) (channels : Channels)
    (change : Buffers → Buffers) : Spares touched channels (channels.modifyBuffers id change) := by
  refine ⟨Nat.le_of_eq (channels.size_modifyBuffers id change).symm, fun other hother => ?_⟩
  have hne : id ≠ other := fun heq => hother (heq ▸ hid)
  exact channels.buffersAt_modifyBuffers_of_ne hne change

theorem emitAll (channels : Channels) (sink : SinkId) (reports : List Reported) :
    Spares touched channels (channels.emitAll sink reports) :=
  of_buffers_eq (channels.buffers_emitAll sink reports)

theorem addBuffers (channels : Channels) : Spares touched channels channels.addBuffers.2 :=
  ⟨by simp, fun id _ => channels.buffersAt_addBuffers id⟩

end Channels.Spares

namespace Reporter

open Channels

variable {r source target : Reporter} {touched : List BufferId} {channels : Channels}

/-- Reporting an error changes no buffers but those of the reporter. -/
theorem spares_error (hr : r.buffers ∈ touched) (report : Reported) (channels : Channels) :
    Spares touched channels (r.error report channels).2 := by
  unfold error
  split
  · exact .emitAll channels r.sink [report]
  · exact .modifyBuffers hr channels _
  · exact .of_buffers_eq rfl
  · exact .of_buffers_eq rfl

/-- Reporting a warning changes no buffers but those of the reporter. -/
theorem spares_warning (hr : r.buffers ∈ touched) (report : Reported) (channels : Channels) :
    Spares touched channels (r.warning report channels) := by
  unfold warning
  split
  · exact .modifyBuffers hr channels _
  · exact .emitAll channels r.sink [report]

/-- Nor does reporting many errors. -/
theorem spares_errorAll (hr : r.buffers ∈ touched) (reports : List Reported)
    (channels : Channels) : Spares touched channels (r.errorAll reports channels).2 :=
  errorAll_induction (fun report before hspares => hspares.trans (spares_error hr report before))
    (.of_buffers_eq rfl) reports

/-- Moving errors changes no buffers but those of the two reporters. -/
theorem spares_propagate (hsource : source.buffers ∈ touched) (htarget : target.buffers ∈ touched)
    (channels : Channels) : Spares touched channels (source.propagate target channels).2 := by
  unfold propagate
  split
  · exact .of_buffers_eq rfl
  · split
    · exact .of_buffers_eq rfl
    · have hreleased := Spares.modifyBuffers hsource channels fun b => { b with errors := none }
      dsimp only
      split
      · exact hreleased.trans (.modifyBuffers htarget _ _)
      · exact hreleased.trans (spares_errorAll htarget _ _)

end Reporter

def Operation.users (r : Reporter) (o : Operation) : List Reporter := r :: o.target?.toList

/-- **An operation changes no buffers but those of the reporters taking part.** -/
theorem Operation.spares_run (r : Reporter) (o : Operation) (channels : Channels) :
    Channels.Spares ((o.users r).map (·.buffers)) channels (o.run r channels).2 := by
  have hr : r.buffers ∈ (o.users r).map (·.buffers) := List.mem_cons_self
  cases o with
  | error report => exact Reporter.spares_error hr report channels
  | warning report => exact Reporter.spares_warning hr report channels
  | issue report =>
    show Channels.Spares _ channels (r.issue report channels).2
    unfold Reporter.issue
    split
    · exact Reporter.spares_error hr report channels
    · exact Reporter.spares_warning hr report channels
  | ambiguity report surface =>
    show Channels.Spares _ channels (r.ambiguity report surface channels)
    unfold Reporter.ambiguity
    split
    · exact .emitAll channels r.sink [report]
    · split
      · exact .modifyBuffers hr channels _
      · exact .of_buffers_eq rfl
  | propagate target =>
    exact Reporter.spares_propagate hr (List.mem_cons_of_mem _ List.mem_cons_self) channels
  | emitWarnings => exact (Channels.Spares.modifyBuffers hr channels _).trans (.emitAll _ _ _)
  | retainErrors keep => exact .modifyBuffers hr channels _
  | clearErrors => exact .modifyBuffers hr channels _
  | clear => exact .modifyBuffers hr channels _

/-! ### Propagation -/

theorem Journals.amend_eq_self {journals : Journals} {id : BufferId} {change : Journal → Journal}
    (h : change (journals id) = journals id) : journals.amend id change = journals := by
  rw [amend, h, Function.update_eq_self]

namespace Reporter

variable {source target : Reporter} {channels : Channels} {journals : Journals}

/-- Where no errors arrived there are none to move. -/
theorem noteMove_of_nil (hnone : (journals source.buffers).errors = []) :
    source.noteMove journals target = journals := by
  have hreleased : (journals.amend source.buffers fun j => { j with errors := [] }) = journals :=
    Journals.amend_eq_self (hnone ▸ rfl)
  unfold noteMove
  split
  · rfl
  · simp only [hreleased, hnone, List.append_nil]
    split
    · exact Journals.amend_eq_self rfl
    · rfl

/-- A target that does not buffer is told the errors one by one. -/
theorem propagate_to_other (hshares : source.sharesBuffersWith target = false)
    (htarget : target.isBuffering = false) {errors : List Reported}
    (hsome : (channels.buffersAt source.buffers).errors = some errors) :
    source.propagate target channels = target.errorAll errors (source.clearErrors channels) := by
  unfold propagate
  rw [if_neg (Bool.eq_false_iff.mp hshares), hsome]
  exact if_neg (Bool.eq_false_iff.mp htarget)

end Reporter

namespace Channels.Follows

variable {source target r : Reporter} {channels : Channels} {journals : Journals}

/-- Dropping the errors strikes them from the journal. -/
theorem clearErrors (h : channels.Follows journals) (hr : r.buffers < channels.buffers.size) :
    (r.clearErrors channels).Follows (journals.amend r.buffers fun j => { j with errors := [] }) :=
  h.modifyBuffers hr rfl

/-- **A propagation moves the errors with all their arrivals.** -/
theorem propagate (h : channels.Follows journals) (hsource : source.buffers < channels.buffers.size)
    (htarget : target.buffers < channels.buffers.size) :
    (source.propagate target channels).2.Follows (source.noteMove journals target) := by
  have hheld : (channels.buffersAt source.buffers).errors =
      .ofArrived (journals source.buffers).errors := congrArg Buffers.errors (h source.buffers)
  by_cases hnone : (journals source.buffers).errors = []
  · rw [hnone] at hheld
    rw [Reporter.propagate_of_none hheld, Reporter.noteMove_of_nil hnone]
    exact h
  · rw [Buffer.ofArrived_of_ne_nil hnone] at hheld
    have hreleased := h.clearErrors hsource
    unfold Reporter.noteMove
    cases hshares : source.sharesBuffersWith target with
    | true =>
      rw [Reporter.propagate_of_shares hshares, if_pos rfl]
      exact h
    | false =>
      rw [if_neg Bool.false_ne_true]
      dsimp only
      cases hbuffering : target.isBuffering with
      | true =>
        rw [Reporter.propagate_to_buffering hshares hbuffering hheld, if_pos rfl]
        refine hreleased.modifyBuffers (by simpa [Reporter.clearErrors] using htarget) ?_
        rw [Journal.buffers, Buffer.addAll_ofArrived _ hnone]
        rfl
      | false =>
        rw [Reporter.propagate_to_other hshares hbuffering hheld, if_neg Bool.false_ne_true]
        exact hreleased.of_buffers_eq (Reporter.buffers_errorAll hbuffering _ _)

/-- **An operation keeps the buffers in step with their journals.** -/
theorem operate (h : channels.Follows journals) (o : Operation)
    (hplaced : ∀ user ∈ o.users r, user.buffers < channels.buffers.size) :
    (o.run r channels).2.Follows (o.note r journals) := by
  have hr : r.buffers < channels.buffers.size := hplaced r List.mem_cons_self
  cases o with
  | error report => exact h.error hr report
  | warning report => exact h.warning hr report
  | issue report =>
    show (r.issue report channels).2.Follows (if _ then _ else _)
    unfold Reporter.issue
    split
    · exact h.error hr report
    · exact h.warning hr report
  | ambiguity report surface => exact h.ambiguity hr report surface
  | propagate target =>
    exact h.propagate hr (hplaced target (List.mem_cons_of_mem _ List.mem_cons_self))
  | emitWarnings =>
    have hreleased : (channels.modifyBuffers r.buffers fun b => { b with warnings := none }).Follows
        (journals.amend r.buffers fun j => { j with warnings := [] }) := h.modifyBuffers hr rfl
    exact hreleased.emitAll r.sink _
  | retainErrors keep =>
    refine h.modifyBuffers hr ?_
    rw [Journal.buffers, Buffer.retain_ofArrived]
    rfl
  | clearErrors => exact h.clearErrors hr
  | clear => exact h.modifyBuffers hr rfl

end Channels.Follows

/-! ### Runs -/

namespace Reporter

/-- What can be done with reporters: they are made, alone or from one another, and used. -/
inductive Action where
  | create (kind : ReporterKind) (sink : SinkId)
  | fork (r : Reporter)
  | toBuffering (r : Reporter)
  | toImmediate (r : Reporter)
  | operate (r : Reporter) (o : Operation)

namespace Action

def users : Action → List Reporter
  | create _ _ => []
  | fork r | toBuffering r | toImmediate r => [r]
  | operate r o => o.users r

/-- The reporter that is made, if any, and the channels afterwards. -/
def run (channels : Channels) : Action → List Reporter × Channels
  | create kind sink => ([(Reporter.create kind sink channels).1],
      (Reporter.create kind sink channels).2)
  | fork r => ([(r.fork channels).1], (r.fork channels).2)
  | toBuffering r => ([r.toBuffering], channels)
  | toImmediate r => ([(r.toImmediate channels).1], (r.toImmediate channels).2)
  | operate r o => ([], (o.run r channels).2)

/-- What is added to the journals or struck from them. -/
def note (journals : Journals) : Action → Journals
  | create _ _ | fork _ | toBuffering _ => journals
  | toImmediate r => journals.amend r.buffers fun _ => {}
  | operate r o => o.note r journals

/-- **What is done with reporters changes no buffers but theirs.** -/
theorem spares_run (a : Action) (channels : Channels) :
    Channels.Spares (a.users.map (·.buffers)) channels (a.run channels).2 := by
  cases a with
  | create kind sink => exact .addBuffers channels
  | fork r => exact .addBuffers channels
  | toBuffering r => exact .of_buffers_eq rfl
  | toImmediate r =>
    exact (Channels.Spares.modifyBuffers List.mem_cons_self channels _).trans (.emitAll _ _ _)
  | operate r o => exact o.spares_run r channels

end Action

/-- Channels on which reporters were made and used, from no buffers on, with all reporters made so
far and the journals. -/
inductive Run : Channels → List Reporter → Journals → Prop where
  | start {channels : Channels} (hbuffers : channels.buffers = #[]) : Run channels [] fun _ => {}
  | act {channels : Channels} {made : List Reporter} {journals : Journals}
      (h : Run channels made journals) (a : Action) (ha : ∀ user ∈ a.users, user ∈ made) :
      Run (a.run channels).2 ((a.run channels).1 ++ made) (a.note journals)

variable {channels : Channels} {made : List Reporter} {journals : Journals}

/-- One operation is a step of a run. -/
theorem Run.operate (h : Run channels made journals) {r : Reporter} (hr : r ∈ made) (o : Operation)
    (htarget : ∀ target ∈ o.target?, target ∈ made) :
    Run (o.run r channels).2 made (o.note r journals) :=
  h.act (.operate r o) (List.forall_mem_cons.mpr ⟨hr, fun target htaking =>
    htarget target (Option.mem_toList.mp htaking)⟩)

/-- The reporter that an action makes has buffers. -/
theorem Action.placed {a : Action} (ha : ∀ user ∈ a.users, user.buffers < channels.buffers.size) :
    ∀ r ∈ (a.run channels).1, r.buffers < (a.run channels).2.buffers.size := by
  have hsize := (a.spares_run channels).size
  cases a with
  | create kind sink =>
    exact List.forall_mem_singleton.mpr (by simp [run, Reporter.create, Channels.addBuffers])
  | fork r =>
    exact List.forall_mem_singleton.mpr
      (by simp [run, Reporter.fork, Reporter.create, Channels.addBuffers])
  | toBuffering r => exact List.forall_mem_singleton.mpr (ha r List.mem_cons_self)
  | toImmediate r =>
    exact List.forall_mem_singleton.mpr (Nat.lt_of_lt_of_le (ha r List.mem_cons_self) hsize)
  | operate r o => exact List.forall_mem_nil _

/-- **What is done with reporters keeps all buffers in line with what arrived.** -/
theorem Action.follows {a : Action} (ha : ∀ user ∈ a.users, user.buffers < channels.buffers.size)
    (h : channels.Follows journals) : (a.run channels).2.Follows (a.note journals) := by
  cases a with
  | create kind sink => exact fun id => (channels.buffersAt_addBuffers id).trans (h id)
  | fork r => exact fun id => (channels.buffersAt_addBuffers id).trans (h id)
  | toBuffering r => exact h
  | toImmediate r =>
    have hreleased : (channels.modifyBuffers r.buffers fun _ => {}).Follows
        (journals.amend r.buffers fun _ => {}) := h.modifyBuffers (ha r List.mem_cons_self) rfl
    exact hreleased.emitAll r.sink _
  | operate r o => exact h.operate o ha

/-- **At any point all buffers keep what arrived in them,** and no reporter is without buffers. -/
theorem Run.follows (h : Run channels made journals) :
    (∀ r ∈ made, r.buffers < channels.buffers.size) ∧ channels.Follows journals := by
  induction h with
  | start hbuffers =>
    refine ⟨nofun, fun id => ?_⟩
    simp [Channels.buffersAt, hbuffers, Journal.buffers, Buffer.ofArrived]
  | @act channels made journals _ a ha ih =>
    obtain ⟨hplaced, hfollows⟩ := ih
    have husers : ∀ user ∈ a.users, user.buffers < channels.buffers.size :=
      fun user huser => hplaced user (ha user huser)
    refine ⟨List.forall_mem_append.mpr ⟨Action.placed husers, fun r hr => ?_⟩,
      Action.follows husers hfollows⟩
    exact Nat.lt_of_lt_of_le (hplaced r hr) (a.spares_run channels).size

/-- Whether an error is buffered can be told from whether there is a buffer. -/
theorem hasErrors_eq_of_nonempty {r : Reporter}
    (h : (channels.buffersAt r.buffers).errors ≠ some []) :
    r.hasErrors channels = r.hasErrorBuffer channels := by
  unfold hasErrors hasErrorBuffer errors
  rcases herrors : (channels.buffersAt r.buffers).errors with _ | _ | ⟨_, _⟩
  · rfl
  · exact absurd herrors h
  · rfl

/-- **Buffers are absent or keep what arrived.** After any actions on any reporters, however they
share their buffers, each buffer is absent or holds, in order of first arrival and without
repetitions, what arrived in it and was not taken out again. So there are errors exactly if there is
an error buffer. An action changes no buffers but those of the reporters taking part. -/
theorem Run.buffers_kept (h : Run channels made journals) :
    (∀ id, (channels.buffersAt id).errors.Keeps (journals id).errors ∧
        (channels.buffersAt id).warnings.Keeps (journals id).warnings) ∧
      (∀ r : Reporter, r.hasErrors channels = r.hasErrorBuffer channels) ∧
      ∀ a : Action, ∀ id, (∀ user ∈ a.users, id ≠ user.buffers) →
        (a.run channels).2.buffersAt id = channels.buffersAt id := by
  have hkeeps : ∀ id, (channels.buffersAt id).errors.Keeps (journals id).errors ∧
      (channels.buffersAt id).warnings.Keeps (journals id).warnings := by
    intro id
    rw [h.follows.2 id]
    exact ⟨Buffer.keeps_ofArrived _, Buffer.keeps_ofArrived _⟩
  refine ⟨hkeeps, fun r => hasErrors_eq_of_nonempty (hkeeps r.buffers).1.nonempty, ?_⟩
  intro a id hother
  apply (a.spares_run channels).buffersAt id
  rintro hmem
  obtain ⟨user, huser, rfl⟩ := List.mem_map.mp hmem
  exact hother user huser rfl

/-- An error is dropped and reported again, so that it comes last, and both errors are moved to
where one of them arrived before. -/
theorem Run.buffers_kept_moved :
    let early : Reported := ⟨.error .notFound, ⟨2⟩⟩
    let late : Reported := ⟨.error .inaccessible, ⟨3⟩⟩
    let source := Reporter.create .buffering 0 {}
    let target := source.1.fork source.2
    let operate := fun (s : Channels × Journals) (step : Reporter × Operation) =>
      ((step.2.run step.1 s.1).2, step.2.note step.1 s.2)
    let last := [(source.1, .error early), (source.1, .error late),
      (source.1, .retainErrors (· != early)), (source.1, .error early), (target.1, .error early),
      (source.1, .propagate target.1)].foldl operate (target.2, fun _ => {})
    Run last.1 [target.1, source.1] last.2 ∧ (last.2 1).errors = [early, late, early] ∧
      target.1.errors last.1 = [early, late] ∧
      (last.1.buffersAt 1).errors.Keeps [early, late, early] ∧
      source.1.hasErrors last.1 = source.1.hasErrorBuffer last.1 ∧
      (target.1.fork last.1).2.buffersAt 0 = last.1.buffersAt 0 := by
  intro early late source target operate last
  have hstart : Run {} [] fun _ => {} := .start rfl
  have hmade : Run target.2 [target.1, source.1] fun _ => {} :=
    (hstart.act (.create .buffering 0) nofun).act (.fork source.1)
      (List.forall_mem_singleton.mpr List.mem_cons_self)
  have hsource : source.1 ∈ [target.1, source.1] := List.mem_cons_of_mem _ List.mem_cons_self
  have htarget : target.1 ∈ [target.1, source.1] := List.mem_cons_self
  have hreported := ((((hmade.operate hsource (.error early) nofun).operate hsource (.error late)
    nofun).operate hsource (.retainErrors (· != early)) nofun).operate hsource (.error early)
    nofun).operate htarget (.error early) nofun
  have hmoved := hreported.operate hsource (.propagate target.1)
    fun _ h => Option.mem_some_iff.mp h ▸ htarget
  have hrun : Run last.1 [target.1, source.1] last.2 := by
    simp only [last, List.foldl_cons, List.foldl_nil, operate]
    exact hmoved
  obtain ⟨hkeeps, hagree, hframe⟩ := Run.buffers_kept hrun
  have hjournal : (last.2 1).errors = [early, late, early] := by decide +kernel
  have herrors : target.1.errors last.1 = [early, late] := by decide +kernel
  have hkept : (last.1.buffersAt 1).errors.Keeps (last.2 1).errors := (hkeeps 1).1
  rw [hjournal] at hkept
  refine ⟨hrun, hjournal, herrors, hkept, hagree source.1, ?_⟩
  exact hframe (.fork target.1) 0 (List.forall_mem_singleton.mpr (by decide))

end Reporter

end NameResolution
