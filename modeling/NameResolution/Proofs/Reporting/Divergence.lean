import NameResolution.Attempt
import NameResolution.Proofs.Reporting.Confinement
import NameResolution.Proofs.Reporting.Transit

/-!
# Divergences

A search buffers its divergences, and `Context.divergenceOr` reports the first of them in preference
to another diagnostic. It takes all of them out of the buffer, so those that say something else than
the first are gone without having been reported.

* `Reporter.releases_issue`: a reporter that does not buffer lets out what it is given, once.
* `Context.divergenceOr_accounts`: what is taken out of the buffer of the search, what gets out, and
  when the two agree.
* `Context.divergenceOr_unreported`: of two divergences one gets out and both are gone.
-/

namespace NameResolution

namespace Reporter

variable {r search : Reporter} {report : Reported} {channels : Channels}
  {done : Except Abort Unit × Channels}

/-! ### What gets out -/

/-- The ways out of a reporter that does not buffer. -/
inductive Releases (r : Reporter) (report : Reported) (channels : Channels) :
    Except Abort Unit × Channels → Prop where
  | sent (h : r.kind = .immediate ∨ report.diagnostic.isError = false) :
      Releases r report channels (.ok (), channels.emit r.sink report)
  | raised (hkind : r.kind = .throwing) (herror : report.diagnostic.isError = true) :
      Releases r report channels (.error ⟨report.diagnostic⟩, channels)
  | checked (hkind : r.kind = .checking) (herror : report.diagnostic.isError = true) :
      Releases r report channels
        (.ok (), { channels with checked := channels.checked ++ [report.diagnostic] })

theorem releases_issue (hkind : r.isBuffering = false) (report : Reported) (channels : Channels) :
    r.Releases report channels (r.issue report channels) := by
  unfold issue
  cases herror : report.diagnostic.isError with
  | false =>
    rw [if_neg Bool.false_ne_true, warning, if_neg (by simp [hkind])]
    exact .sent (.inr herror)
  | true =>
    rw [if_pos rfl, error]
    cases hr : r.kind with
    | immediate => exact .sent (.inl hr)
    | buffering => simp [isBuffering, hr] at hkind
    | throwing => exact .raised hr herror
    | checking => exact .checked hr herror

/-- Buffers are left alone. -/
theorem Releases.errors_eq (h : r.Releases report channels done) (search : Reporter) :
    search.errors done.2 = search.errors channels := by
  cases h <;> rfl

/-- The diagnostics that got out: entered in the log, handed to checks, or raised. -/
def released (r : Reporter) (before : Channels) (done : Except Abort Unit × Channels) :
    List Diagnostic :=
  ((done.2.logged r.sink).drop (before.logged r.sink).length).map (·.diagnostic) ++
    done.2.checked.drop before.checked.length ++
    match done.1 with
    | .ok () => []
    | .error abort => [abort.diagnostic]

theorem Releases.released_eq (h : r.Releases report channels done)
    (hlog : channels.KeepsLog r.sink) : r.released channels done = [report.diagnostic] := by
  cases h with
  | sent =>
    have hlogged : (channels.emit r.sink report).logged r.sink = channels.logged r.sink ++ [report] :=
      Channels.logged_emitAll hlog [report]
    have hchecked : (channels.emit r.sink report).checked = channels.checked := rfl
    simp [released, hlogged, hchecked]
  | raised => simp [released]
  | checked =>
    have hlogged : Channels.logged
        { channels with checked := channels.checked ++ [report.diagnostic] } r.sink =
      channels.logged r.sink := rfl
    simp [released, hlogged]

/-! ### The buffer of a search -/

/-- A change of one pair of buffers changes the errors there, if there are any. -/
theorem errors_modifyBuffers (channels : Channels) (id : BufferId) (change : Buffers → Buffers) :
    search.errors (channels.modifyBuffers id change) =
      if id = search.buffers ∧ id < channels.buffers.size then
        (change (channels.buffersAt search.buffers)).errors.getD []
      else search.errors channels := by
  unfold errors
  split
  · next h =>
    obtain ⟨rfl, hid⟩ := h
    rw [channels.buffersAt_modifyBuffers hid]
  · next h =>
    by_cases heq : id = search.buffers
    · have hid : channels.buffers.size ≤ id := Nat.le_of_not_lt fun hlt => h ⟨heq, hlt⟩
      rw [channels.buffersAt_modifyBuffers_of_le hid]
    · rw [channels.buffersAt_modifyBuffers_of_ne heq]

/-- Reporting elsewhere leaves the errors of a search alone. -/
theorem errors_issue_of_apart
    (hapart : r.isBuffering = false ∨ r.sharesBuffersWith search = false) :
    search.errors (r.issue report channels).2 = search.errors channels := by
  obtain hkind | hshares := hapart
  · exact (releases_issue hkind report channels).errors_eq search
  · have hne : r.buffers ≠ search.buffers := by simpa [sharesBuffersWith] using hshares
    cases hkind : r.isBuffering with
    | false => exact (releases_issue hkind report channels).errors_eq search
    | true =>
      obtain ⟨change, -, hchange⟩ := (confined_issue report channels hkind).2
      rw [hchange, errors_modifyBuffers, if_neg fun h => hne h.1]

/-- Reporting takes no error out of any buffer. -/
theorem errors_subset_issue (r search : Reporter) (report : Reported) (channels : Channels) :
    search.errors channels ⊆ search.errors (r.issue report channels).2 := by
  cases hkind : r.isBuffering with
  | false =>
    rw [errors_issue_of_apart (.inl hkind)]
    exact List.Subset.refl _
  | true =>
    unfold issue
    split
    · have hbuffering : r.kind = .buffering := by simpa [isBuffering] using hkind
      rw [error, hbuffering]
      dsimp only
      rw [keepError, errors_modifyBuffers]
      split
      · intro held hheld
        exact Buffer.mem_add.mpr (.inl hheld)
      · exact List.Subset.refl _
    · rw [warning, if_pos hkind, keepWarning, errors_modifyBuffers]
      split <;> exact List.Subset.refl _

theorem errors_retainErrors (search : Reporter) (keep : Reported → Bool) (channels : Channels) :
    search.errors (search.retainErrors keep channels) = (search.errors channels).filter keep := by
  have hretain : ∀ buffer : Buffer, (buffer.retain keep).getD [] = (buffer.getD []).filter keep := by
    intro buffer
    cases buffer with
    | none => rfl
    | some held =>
      unfold Buffer.retain
      cases hkept : held.filter keep <;> simp [hkept]
  rw [retainErrors, errors_modifyBuffers]
  split
  · exact hretain _
  · next h =>
    -- Buffers that are not there hold nothing to begin with.
    have hnone : search.errors channels = [] := by
      have hid : channels.buffers.size ≤ search.buffers := Nat.le_of_not_lt fun hlt => h ⟨rfl, hlt⟩
      rw [errors, Channels.buffersAt, Array.getElem?_eq_none hid]
      rfl
    rw [hnone, List.filter_nil]

/-- The divergences that a search has buffered. -/
def divergences (search : Reporter) (channels : Channels) : List Reported :=
  (search.errors channels).filter Context.isDivergence

theorem firstError?_eq_head? (search : Reporter) (channels : Channels) :
    search.firstError? Context.isDivergence channels = (search.divergences channels).head? := by
  rw [firstError?, divergences, List.head?_filter]

/-- The errors taken out of a buffer between two moments. -/
def removed (search : Reporter) (before after : Channels) : List Reported :=
  (search.errors before).filter (· ∉ search.errors after)

theorem removed_eq_nil {before after : Channels}
    (h : search.errors before ⊆ search.errors after) : search.removed before after = [] :=
  List.filter_eq_nil_iff.mpr fun report hreport => by simpa using h hreport

theorem removed_eq_divergences {before after : Channels}
    (h : search.errors after =
      (search.errors before).filter fun report => !Context.isDivergence report) :
    search.removed before after = search.divergences before := by
  refine List.filter_congr fun report hreport => ?_
  rw [h]
  simp [hreport]

end Reporter

/-! ### Reporting a divergence -/

namespace Context

variable {cx : Context} {search : Reporter} {fallback : Diagnostic} {s : Store}
  {first : Reported} {rest : List Reported} {done : Except Abort Unit × Store}

/-- For want of a divergence the other diagnostic is reported. -/
structure FallsBack (cx : Context) (search : Reporter) (fallback : Diagnostic) (s : Store)
    (done : Except Abort Unit × Store) : Prop where
  issued : done = cx.issue fallback s
  removed : search.removed s.channels done.2.channels = []
  /-- Nothing is added either, unless the context buffers where the search does. -/
  unchanged : (cx.reporter s).isBuffering = false ∨
      (cx.reporter s).sharesBuffersWith search = false →
    search.errors done.2.channels = search.errors s.channels

/-- The first divergence gets out, and all of them leave the buffer of the search. -/
structure Replays (cx : Context) (search : Reporter) (s : Store) (first : Reported)
    (rest : List Reported) (done : Except Abort Unit × Store) : Prop where
  released : (cx.reporter s).Releases ⟨first.diagnostic, cx.owner⟩
    (search.retainErrors (fun report => !isDivergence report) s.channels) (done.1, done.2.channels)
  kept : search.errors done.2.channels =
    (search.errors s.channels).filter fun report => !isDivergence report
  removed : search.removed s.channels done.2.channels = first :: rest
  /-- What is removed is what got out just if all divergences say the same. -/
  exact_iff : s.channels.KeepsLog (cx.reporter s).sink →
    ((∀ d, d ∈ (search.removed s.channels done.2.channels).map (·.diagnostic) ↔
        d ∈ (cx.reporter s).released s.channels (done.1, done.2.channels)) ↔
      ∀ report ∈ rest, report.diagnostic = first.diagnostic)

theorem fallsBack_issue (cx : Context) (search : Reporter) (fallback : Diagnostic) (s : Store) :
    cx.FallsBack search fallback s (cx.issue fallback s) where
  issued := rfl
  removed := Reporter.removed_eq_nil (Reporter.errors_subset_issue ..)
  unchanged hapart := Reporter.errors_issue_of_apart hapart

theorem Replays.of_releases (hfirst : search.divergences s.channels = first :: rest)
    (hreleased : (cx.reporter s).Releases ⟨first.diagnostic, cx.owner⟩
      (search.retainErrors (fun report => !isDivergence report) s.channels)
      (done.1, done.2.channels)) :
    cx.Replays search s first rest done := by
  have hkept := (hreleased.errors_eq search).trans (search.errors_retainErrors _ s.channels)
  have hremoved := (Reporter.removed_eq_divergences hkept).trans hfirst
  refine ⟨hreleased, hkept, hremoved, fun hlog => ?_⟩
  have hout : (cx.reporter s).released s.channels (done.1, done.2.channels) = [first.diagnostic] :=
    hreleased.released_eq (hlog.modifyBuffers search.buffers _)
  rw [hremoved, List.map_cons]
  constructor
  · intro hexact report hreport
    have hsaid : report.diagnostic ∈ first.diagnostic :: rest.map (·.diagnostic) :=
      List.mem_cons_of_mem _ (List.mem_map_of_mem hreport)
    have hgot := (hexact report.diagnostic).mp hsaid
    rw [hout] at hgot
    exact List.mem_singleton.mp hgot
  · intro hsame d
    have hrest : d ∈ rest.map (·.diagnostic) → d = first.diagnostic := by
      intro hd
      obtain ⟨report, hreport, rfl⟩ := List.mem_map.mp hd
      exact hsame report hreport
    rw [hout, List.mem_cons, List.mem_singleton]
    exact ⟨fun h => h.elim (fun heq => heq) hrest, .inl⟩

/-- **What becomes of the divergences of a search.** If there is none, the other diagnostic is
reported. If there is one and the context buffers, nothing happens. Otherwise the first one gets out
and all leave the buffer: nothing is lost just if they all say the same. -/
theorem divergenceOr_accounts (cx : Context) (search : Reporter) (fallback : Diagnostic)
    (s : Store) :
    (search.divergences s.channels = [] →
        cx.FallsBack search fallback s (cx.divergenceOr search fallback s)) ∧
      ∀ first rest, search.divergences s.channels = first :: rest →
        ((cx.reporter s).isBuffering = true → cx.divergenceOr search fallback s = (.ok (), s)) ∧
          ((cx.reporter s).isBuffering = false →
            cx.Replays search s first rest (cx.divergenceOr search fallback s)) := by
  have hhead := search.firstError?_eq_head? s.channels
  refine ⟨fun hnone => ?_, fun first rest hfirst => ⟨fun hkind => ?_, fun hkind => ?_⟩⟩
  · rw [hnone] at hhead
    rw [divergenceOr, hhead]
    exact fallsBack_issue cx search fallback s
  · rw [hfirst] at hhead
    rw [divergenceOr, hhead]
    exact if_pos hkind
  · rw [hfirst] at hhead
    rw [divergenceOr, hhead]
    dsimp only [List.head?_cons]
    rw [if_neg (by simp [hkind])]
    exact .of_releases hfirst (Reporter.releases_issue hkind _ _)

/-- **A second divergence is lost.** Both leave the buffer, and only the first gets out. -/
theorem divergenceOr_unreported :
    let root := openRoot 0 .root 0
      { sessions := #[{ unit := ⟨⟨1⟩, .native⟩, sink := 0 }]
        channels := { sinks := #[.log []] } }
    let copy := root.1.silentCopy false root.2
    let first := (Diagnostic.error .divergentSearch).withMessage "first"
    let second := (Diagnostic.error .divergentSearch).withMessage "second"
    let search := copy.1.reporter copy.2
    let s := (copy.1.error second (copy.1.error first copy.2).2).2
    let done := root.1.divergenceOr search (.error .noImplicitValue) s
    search.removed s.channels done.2.channels = [⟨first, .root⟩, ⟨second, .root⟩] ∧
      (root.1.reporter s).released s.channels (done.1, done.2.channels) = [first] ∧
      ¬ ∀ d, d ∈ (search.removed s.channels done.2.channels).map (·.diagnostic) ↔
        d ∈ (root.1.reporter s).released s.channels (done.1, done.2.channels) := by
  intro root copy first second search s done
  have hremoved : search.removed s.channels done.2.channels = [⟨first, .root⟩, ⟨second, .root⟩] := by
    decide +kernel
  have hreleased : (root.1.reporter s).released s.channels (done.1, done.2.channels) = [first] := by
    decide +kernel
  refine ⟨hremoved, hreleased, fun hexact => ?_⟩
  rw [hremoved, hreleased] at hexact
  exact absurd ((hexact second).mp (by simp)) (by decide +kernel)

end Context

end NameResolution
