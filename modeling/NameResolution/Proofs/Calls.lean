import NameResolution.Attempt
import NameResolution.Proofs.Lookup.Effects
import NameResolution.Proofs.Reporting.Confinement

/-!
# Calls

The ways to report at a context, as data. None of them changes what contexts hold in the store. At a
context that buffers none of them fails, and what is reported ends up in the buffers in use there;
only an ambiguity goes straight to the sink, if the modes of the context say so.

* `Call.run_states`: the states of contexts stay as they are.
* `Call.retained`: where the report of a call to a context that buffers goes.
-/

namespace NameResolution

/-- A way to report at a context, on purpose or by looking a name up. -/
inductive Call where
  | issue (d : Diagnostic)
  | error (d : Diagnostic)
  | warning (d : Diagnostic)
  | ambiguity (d : Diagnostic)
  | reportLookup (u : Universe) (name : Name) (span : Span) (result : LookupResult)
  | divergenceOr (search : Reporter) (fallback : Diagnostic)
  | lookup (u : Universe) (name : Name) (qualifies : SymbolId → Bool)

namespace Call

def run (cx : Context) (s : Store) : Call → Except Abort Unit × Store
  | issue d => cx.issue d s
  | error d => cx.error d s
  | warning d => (.ok (), cx.warning d s)
  | ambiguity d => (.ok (), cx.ambiguity d s)
  | reportLookup u name span result => cx.reportLookup u name span result s
  | divergenceOr search fallback => cx.divergenceOr search fallback s
  | lookup u name qualifies => (.ok (), (cx.lookup u name qualifies s).2)

def ambiguity? (s : Store) : Call → Option Diagnostic
  | ambiguity d => some d
  | reportLookup u name span result =>
    if result.ambiguity?.isSome then result.diagnostic? u s.names name span else none
  | _ => none

/-- What a call sends straight to the sink: an ambiguity, where the modes say so. -/
def surfaced (cx : Context) (s : Store) (call : Call) : List Reported :=
  if cx.hasMode .ambiguousErrors s then (call.ambiguity? s).toList.map (⟨·, cx.owner⟩) else []

variable {call : Call} {s : Store}

/-- Calls that do not report an ambiguity surface nothing. -/
theorem surfaced_of_none (h : call.ambiguity? s = none) (cx : Context) :
    call.surfaced cx s = [] := by
  simp [surfaced, h]

/-- Without the mode nothing surfaces. -/
theorem surfaced_of_quiet {cx : Context} (h : cx.hasMode .ambiguousErrors s = false) :
    call.surfaced cx s = [] := by
  simp [surfaced, h]

/-- **A call changes nothing of what contexts hold in the store.** -/
theorem run_states (call : Call) (cx : Context) (s : Store) :
    (call.run cx s).2.states = s.states := by
  cases call with
  | issue d | error d | warning d | ambiguity d => rfl
  | reportLookup u name span result =>
    show (cx.reportLookup u name span result s).2.states = _
    unfold Context.reportLookup
    cases result.diagnostic? u s.names name span with
    | none => rfl
    | some d =>
      dsimp only
      split <;> rfl
  | divergenceOr search fallback =>
    show (cx.divergenceOr search fallback s).2.states = _
    unfold Context.divergenceOr
    cases search.firstError? Context.isDivergence s.channels with
    | none => rfl
    | some report =>
      dsimp only
      split <;> rfl
  | lookup u name qualifies =>
    show (cx.lookup u name qualifies s).2.states = _
    rw [Context.lookup_eq]

end Call

/-! ### At a context that buffers -/

/-- What was done at a context succeeded, sent the given reports to the sink, and changed nothing
else of the channels but the buffers in use there, which it kept sound. -/
structure Context.Retains (cx : Context) (s : Store) (surfaced : List Reported)
    (done : Except Abort Unit × Store) : Prop where
  succeeds : done.1 = .ok ()
  channels : (s.channels.emitAll (cx.reporter s).sink surfaced).MaintainsAt
    (cx.reporter s).buffers done.2.channels

namespace Context

variable {cx : Context} {s : Store}

/-- A buffering context retains what is issued to it. -/
theorem retains_issue (hkind : (cx.reporter s).isBuffering = true) (d : Diagnostic) :
    cx.Retains s [] (cx.issue d s) :=
  have hreport := Reporter.confined_issue ⟨d, cx.owner⟩ s.channels hkind
  ⟨hreport.1, hreport.2⟩

theorem retains_error (hkind : (cx.reporter s).isBuffering = true) (d : Diagnostic) :
    cx.Retains s [] (cx.error d s) :=
  have hreport := Reporter.confined_error ⟨d, cx.owner⟩ s.channels hkind
  ⟨hreport.1, hreport.2⟩

/-- It retains an ambiguity as well, but for the copy that the mode lets through. -/
theorem retains_ambiguity (hkind : (cx.reporter s).isBuffering = true) (d : Diagnostic) :
    cx.Retains s (if cx.hasMode .ambiguousErrors s then [⟨d, cx.owner⟩] else [])
      (.ok (), cx.ambiguity d s) :=
  ⟨rfl, Reporter.confined_ambiguity _ _ hkind _⟩

/-- A report on the result of a lookup is retained in the same way. -/
theorem retains_reportLookup (hkind : (cx.reporter s).isBuffering = true) (u : Universe)
    (name : Name) (span : Span) (result : LookupResult) :
    cx.Retains s ((Call.reportLookup u name span result).surfaced cx s)
      (cx.reportLookup u name span result s) := by
  unfold reportLookup
  cases hdiagnostic : result.diagnostic? u s.names name span with
  | none =>
    rw [Call.surfaced_of_none (by simp [Call.ambiguity?, hdiagnostic])]
    exact ⟨rfl, .refl _ _⟩
  | some d =>
    dsimp only
    cases hambiguous : result.ambiguity?.isSome with
    | true =>
      have hsurfaced : (Call.reportLookup u name span result).surfaced cx s =
          if cx.hasMode .ambiguousErrors s then [⟨d, cx.owner⟩] else [] := by
        simp [Call.surfaced, Call.ambiguity?, hdiagnostic, hambiguous]
      rw [hsurfaced]
      exact retains_ambiguity hkind d
    | false =>
      rw [Call.surfaced_of_none (by simp [Call.ambiguity?, hambiguous])]
      exact retains_error hkind d

/-- While the context buffers, a divergence stays in the buffer of the search. -/
theorem retains_divergenceOr (hkind : (cx.reporter s).isBuffering = true) (search : Reporter)
    (fallback : Diagnostic) : cx.Retains s [] (cx.divergenceOr search fallback s) := by
  unfold divergenceOr
  cases search.firstError? isDivergence s.channels with
  | none => exact retains_issue hkind fallback
  | some report =>
    dsimp only
    rw [if_pos hkind]
    exact ⟨rfl, .refl _ _⟩

/-- The warnings of a lookup are heard one by one. -/
theorem warned_eq (cx : Context) (s : Store) (ds : List Diagnostic) :
    cx.warned ds s = (cx.reporter s).hear (ds.map (⟨·, cx.owner⟩)) s.channels := by
  unfold warned Reporter.hear
  rw [List.foldl_map]

/-- The warnings of a lookup are retained. -/
theorem retains_lookup (hkind : (cx.reporter s).isBuffering = true) (u : Universe) (name : Name)
    (qualifies : SymbolId → Bool) :
    cx.Retains s [] (.ok (), (cx.lookup u name qualifies s).2) := by
  rw [lookup_eq, warned_eq]
  exact ⟨rfl, Reporter.confined_hear hkind _ _⟩

end Context

/-- **A call at a context that buffers succeeds, sends out the ambiguity it surfaces, and leaves the
rest in the buffers of the context.** -/
theorem Call.retained {cx : Context} {s : Store} (hkind : (cx.reporter s).isBuffering = true)
    (call : Call) : cx.Retains s (call.surfaced cx s) (call.run cx s) := by
  cases call with
  | issue d =>
    rw [surfaced_of_none rfl]
    exact Context.retains_issue hkind d
  | error d =>
    rw [surfaced_of_none rfl]
    exact Context.retains_error hkind d
  | warning d =>
    rw [surfaced_of_none rfl]
    exact ⟨rfl, Reporter.confined_warning _ _ hkind⟩
  | ambiguity d => exact Context.retains_ambiguity hkind d
  | reportLookup u name span result => exact Context.retains_reportLookup hkind u name span result
  | divergenceOr search fallback =>
    rw [surfaced_of_none rfl]
    exact Context.retains_divergenceOr hkind search fallback
  | lookup u name qualifies =>
    rw [surfaced_of_none rfl]
    exact Context.retains_lookup hkind u name qualifies

end NameResolution
