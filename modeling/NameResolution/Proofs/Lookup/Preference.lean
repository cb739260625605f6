import NameResolution.Proofs.Lookup.Settings
import NameResolution.Proofs.Lookup.Usage

/-!
# The warning about a preferred import

A foreign definition yields to any import that binds the name, also to one that is nested no deeper.
The lookup warns of that, and it does so when it meets the first such import, before the contest of
the imports has begun.

* `reported_of_overrules`, `reported_eq_nil`: in a native unit the warning is due exactly if the
  innermost import that binds the name is nested no deeper than the foreign definition found
  (`Overrules`), and it describes that import.
* `warnsOfOutcome_iff`: so it says what comes of the lookup (`WarnsOfOutcome`) exactly if the
  contest is won, and by an import of the same description.
* `Context.lookup_warns_of_loser`: two contests after which the warning is wrong.
-/

namespace NameResolution.Lookup.Query

open Precedence

variable (q : Query)

/-- The definition found is foreign, and the innermost import that binds the name, nested no deeper,
is preferred to it. -/
structure Overrules (found : Found) (first : Binding) : Prop where
  consults : q.ConsultsImports
  defined : q.InnermostDefinition found
  foreign : q.isForeign found.meaning = true
  innermost : q.bindings.head? = some first
  around : first.depth ≤ found.cx.depth

/-- The definition found is foreign, and the lookup succeeds with what an import binds that is
nested no deeper. -/
structure Prefers (found : Found) (w : Binding) : Prop where
  name : q.name.isConstructor = false
  defined : q.InnermostDefinition found
  foreign : q.isForeign found.meaning = true
  leads : w ∈ q.leading?
  succeeds : q.run.result = win w
  around : w.depth ≤ found.cx.depth

/-- The lookup warns of a preferred import exactly if it succeeds with one, and describes that. -/
structure WarnsOfOutcome : Prop where
  warns : q.run.reported .importPreferred ≠ [] ↔ ∃ found w, q.Prefers found w
  describes : ∀ found w, q.Prefers found w →
    q.run.reported .importPreferred = [q.importWarning found w.level]

variable {q} {found : Found} {first w : Binding}

/-! ### What is reported -/

theorem tolerant_reported (hname : q.name.isConstructor = false) :
    (q.tolerant true).reported .importPreferred = q.preference := by
  have hwarnings : (q.tolerant true).warnings = q.preference := by simp [tolerant, hname]
  unfold Answer.reported
  rw [hwarnings, List.filter_eq_self]
  intro d hd
  rw [code_of_mem_preference hd]
  rfl

theorem run_eq_judged (hcompat : q.view.settings.compatWarnings = true) :
    q.run =
      match q.hidden? with
      | some conflict => q.judged q.view.settings.enclosing conflict (q.tolerant true)
      | none => q.tolerant true := by
  have hsame : q.under q.view.settings.enclosing true = q := by
    rw [← hcompat]
    rfl
  have hrun := run_under (q := q) q.view.settings.enclosing true
  rw [hsame] at hrun
  exact hrun

/-- Where the imports are consulted, the preferred import is reported, whatever else is. -/
theorem reported_of_consults (hcompat : q.view.settings.compatWarnings = true)
    (hopen : q.ConsultsImports) : q.run.reported .importPreferred = q.preference := by
  rw [run_eq_judged hcompat, ← tolerant_reported hopen.name]
  cases hhidden : q.hidden? with
  | none => rfl
  | some conflict =>
    cases hpolicy : q.view.settings.enclosing with
    | allow => rfl
    | warn =>
      -- The warning about the conflict is of another kind.
      simp only [judged, Answer.reported_cons]
      exact if_neg Bool.false_ne_true
    | error =>
      unfold hidden? at hhidden
      rw [hopen.name] at hhidden
      obtain ⟨found, hfound, hconflict⟩ := Option.bind_eq_some_iff.mp hhidden
      rw [hopen.passes hpolicy found (definition?_eq_some_iff.mp hfound)] at hconflict
      cases hconflict

theorem reported_of_not_consults (hnot : ¬ q.ConsultsImports) :
    q.run.reported .importPreferred = [] := by
  obtain ⟨result, hrun⟩ := run_of_not_consults hnot
  rw [hrun]
  rfl

/-- In a native unit the import preferred to a foreign definition is the innermost that binds the
name, and there is a warning unless it is nested deeper. -/
theorem preference_of_foreign (hnative : q.view.unit.isInterop = false)
    (hdef : q.definition? = some found) (hforeign : q.isForeign found.meaning = true) :
    q.preference =
      match q.bindings.head? with
      | none => []
      | some first =>
        if first.depth ≤ found.cx.depth then [q.importWarning found first.level] else [] := by
  unfold preference
  rw [hdef, Option.map_some, ← firstImport_of_admits (admits_foreign hforeign)]
  cases himported : (q.firstImport (some (q.definitionKey found)) q.importLevels).1 with
  | none => rfl
  | some i =>
    obtain ⟨_, -, -, -, -, hadmission⟩ := firstImport_met himported
    rw [hnative] at hadmission
    show (if q.isForeign found.meaning && i.admission == .admittedForeign then
        [q.importWarning found i.level] else []) =
      if i.level.depth ≤ found.cx.depth then [q.importWarning found i.level] else []
    rw [hforeign, hadmission]
    by_cases hdeeper : found.cx.depth < i.level.depth
    · simp [admissionOf, definitionKey, importKey, hdeeper, Nat.not_le.mpr hdeeper]
    · simp [admissionOf, definitionKey, importKey, hforeign, hdeeper, Nat.not_lt.mp hdeeper]

/-- No warning is due for a definition of the unit. -/
theorem preference_of_own (hown : ∀ found, q.definition? = some found →
    q.isForeign found.meaning = false) : q.preference = [] := by
  unfold preference preferenceAmong
  split
  · rename_i found i hdef himported
    rw [hown found hdef]
    rfl
  · rfl

/-- **The innermost import is reported if it overrules the definition.** -/
theorem reported_of_overrules (hnative : q.view.unit.isInterop = false)
    (hcompat : q.view.settings.compatWarnings = true) (h : q.Overrules found first) :
    q.run.reported .importPreferred = [q.importWarning found first.level] := by
  rw [reported_of_consults hcompat h.consults,
    preference_of_foreign hnative (definition?_eq_some_iff.mpr h.defined) h.foreign, h.innermost]
  exact if_pos h.around

/-- **Otherwise nothing is.** -/
theorem reported_eq_nil (hnative : q.view.unit.isInterop = false)
    (hcompat : q.view.settings.compatWarnings = true)
    (hnot : ∀ found first, ¬ q.Overrules found first) : q.run.reported .importPreferred = [] := by
  by_cases hopen : q.ConsultsImports
  · rw [reported_of_consults hcompat hopen]
    by_cases hyields : ∃ found, q.definition? = some found ∧ q.isForeign found.meaning = true
    · obtain ⟨found, hdef, hforeign⟩ := hyields
      rw [preference_of_foreign hnative hdef hforeign]
      cases hfirst : q.bindings.head? with
      | none => rfl
      | some first =>
        have haround : ¬ first.depth ≤ found.cx.depth := fun hle =>
          hnot found first ⟨hopen, definition?_eq_some_iff.mp hdef, hforeign, hfirst, hle⟩
        exact if_neg haround
    · apply preference_of_own
      intro found hdef
      exact Bool.eq_false_iff.mpr fun hforeign => hyields ⟨found, hdef, hforeign⟩
  · exact reported_of_not_consults hopen

/-! ### What comes of the lookup -/

theorem yields_of_foreign (hdef : q.InnermostDefinition found)
    (hforeign : q.isForeign found.meaning = true) : q.Yields := by
  intro other hother
  rw [hother.unique hdef]
  exact hforeign

/-- A success after an import overruled the definition is the success of an import. -/
theorem Overrules.exists_prefers (hord : q.Ordered) (h : q.Overrules found first)
    (hsuccess : q.run.result.isSuccess = true) : ∃ w, q.Prefers found w := by
  have hyields := yields_of_foreign h.defined h.foreign
  obtain ⟨w, hleads, hresult⟩ :=
    exists_leading hord h.consults.name hyields h.innermost hsuccess
  obtain ⟨other, hother, hpeer⟩ := mem_peersAt_of_leading? hleads
  rw [h.innermost] at hother
  cases hother
  have hdepth : w.depth = first.depth := (mem_peersAt.mp hpeer).2
  refine ⟨w, h.consults.name, h.defined, h.foreign, hleads, hresult, ?_⟩
  rw [hdepth]
  exact h.around

/-- An import that is preferred lies as deep as the innermost that binds the name. -/
theorem Prefers.exists_overrules (h : q.Prefers found w) : ∃ first, q.Overrules found first := by
  have hsuccess : q.run.result.isSuccess = true := by
    rw [h.succeeds]
    rfl
  obtain ⟨first, hfirst, hpeer⟩ := mem_peersAt_of_leading? h.leads
  have hdepth : w.depth = first.depth := (mem_peersAt.mp hpeer).2
  refine ⟨first, consultsImports_of_success h.name hsuccess, h.defined, h.foreign, hfirst, ?_⟩
  rw [← hdepth]
  exact h.around

/-- **The warning is right exactly if the contest is won, and by an import that is described like
the innermost one.** -/
theorem warnsOfOutcome_iff (hord : q.Ordered) (hnative : q.view.unit.isInterop = false)
    (hcompat : q.view.settings.compatWarnings = true) :
    q.WarnsOfOutcome ↔ ∀ found first, q.Overrules found first →
      q.run.result.isSuccess = true ∧
        ∀ w ∈ q.leading?, q.importWarning found w.level = q.importWarning found first.level := by
  constructor
  · intro hlaw found first h
    have hreported := reported_of_overrules hnative hcompat h
    have hne : q.run.reported .importPreferred ≠ [] := by
      rw [hreported]
      exact List.cons_ne_nil _ _
    obtain ⟨other, w, hprefers⟩ := hlaw.warns.mp hne
    obtain rfl := hprefers.defined.unique h.defined
    refine ⟨?_, ?_⟩
    · rw [hprefers.succeeds]
      rfl
    · intro leader hleads
      obtain rfl : leader = w := Option.some.inj (hleads.symm.trans hprefers.leads)
      have hdescribed := hlaw.describes _ _ hprefers
      rw [hreported] at hdescribed
      exact (List.cons.inj hdescribed).1.symm
  · intro hwon
    refine ⟨⟨?_, ?_⟩, ?_⟩
    · intro hne
      by_contra hnone
      apply hne
      apply reported_eq_nil hnative hcompat
      intro found first h
      obtain ⟨w, hprefers⟩ := h.exists_prefers hord (hwon found first h).1
      exact hnone ⟨found, w, hprefers⟩
    · rintro ⟨found, w, hprefers⟩
      obtain ⟨first, h⟩ := hprefers.exists_overrules
      rw [reported_of_overrules hnative hcompat h]
      exact List.cons_ne_nil _ _
    · intro found w hprefers
      obtain ⟨first, h⟩ := hprefers.exists_overrules
      rw [reported_of_overrules hnative hcompat h, (hwon found first h).2 w hprefers.leads]

end NameResolution.Lookup.Query

namespace NameResolution

/-- **The warning is due once for a foreign definition that an import overrules, and never else. It
describes the innermost import, so it is right exactly if the lookup succeeds, and through an import
of the same description.** The lookup is taken to end (`Table.Settles`). -/
theorem Context.lookup_warnsOfOutcome_iff {cx : Context} (hbuilt : cx.Built) {u : Universe}
    {s : Store} {name : Name} {qualifies : SymbolId → Bool}
    (hnative : (s.session cx.session).unit.isInterop = false)
    (hcompat : (s.session cx.session).settings.compatWarnings = true) :
    let q := cx.query u name qualifies s
    -- what a lookup reports are the warnings of its answer
    (cx.lookup u name qualifies s).2.channels = cx.warned q.run.warnings s ∧
    (∀ found first, q.Overrules found first →
      q.run.reported .importPreferred = [q.importWarning found first.level]) ∧
    ((∀ found first, ¬ q.Overrules found first) → q.run.reported .importPreferred = []) ∧
    (q.WarnsOfOutcome ↔ ∀ found first, q.Overrules found first →
      (cx.lookup u name qualifies s).1.isSuccess = true ∧
        ∀ w ∈ q.leading?, q.importWarning found w.level = q.importWarning found first.level) := by
  intro q
  have hord : q.Ordered := Lookup.Query.ordered_of_grown hbuilt.grown
  refine ⟨?_, ?_, ?_, ?_⟩
  · rw [lookup_eq]
  · exact fun _ _ => Lookup.Query.reported_of_overrules hnative hcompat
  · exact Lookup.Query.reported_eq_nil hnative hcompat
  · exact Lookup.Query.warnsOfOutcome_iff hord hnative hcompat

/-! ### A foreign value -/

namespace ForeignValue

/-- The value of object 2, by its name. -/
def named : ImportClause := ⟨.path ⟨2⟩, [.named Sample.name], ⟨1, 2⟩, false⟩

/-- The lookup of the name inside one import more, where unit 2 declares the value of the root
package. -/
def query (cx : Context) (clause : ImportClause) : Lookup.Query :=
  (cx.makeImport clause (Sample.store #[])).1.query (Sample.tableBesides ⟨2⟩).toUniverse Sample.name
    (fun _ => true) (Sample.store #[])

end ForeignValue

/-- An import of the value of object 2 alone. -/
theorem Context.lookup_warnsOfOutcome_named :
    let q := ForeignValue.query Sample.root ForeignValue.named
    q.WarnsOfOutcome ∧ (q.run.reported .importPreferred).length = 1 := by
  intro q
  have hbuilt : Context.Built Sample.root := .openRoot 0 .root 0 _
  refine ⟨(lookup_warnsOfOutcome_iff (hbuilt.makeImport _ _) rfl rfl).2.2.2.mpr ?_, ?_⟩
  · intro found first h
    refine ⟨by decide +kernel, ?_⟩
    have hleads : q.leading? = q.bindings.head? := by decide +kernel
    intro w hw
    obtain rfl : w = first := Option.some.inj ((hw.symm.trans hleads).trans h.innermost)
    rfl
  · decide +kernel

/-- **The warning speaks of an import that the contest leaves behind.** Inside the import of the
value of object 2, another that names a value ties with it, and none is taken; one of everything is
outranked, and the warning points at it. -/
theorem Context.lookup_warns_of_loser :
    let named := (Sample.root.makeImport ForeignValue.named (Sample.store #[])).1
    let tied := ForeignValue.query named ⟨.path ⟨4⟩, [.named Sample.name], ⟨3, 4⟩, false⟩
    let outranked := ForeignValue.query named ⟨.path ⟨4⟩, [.wildcard], ⟨3, 4⟩, false⟩
    let places (q : Lookup.Query) :=
      (q.run.reported .importPreferred).map fun d => d.labels.map Label.span
    (¬ tied.WarnsOfOutcome ∧ places tied = [[⟨3, 4⟩]] ∧ tied.run.result =
      .ambiguous (.imports Sample.name ⟨.path ⟨4⟩, ⟨3, 4⟩, true⟩ ⟨.path ⟨2⟩, ⟨1, 2⟩, true⟩)) ∧
    (¬ outranked.WarnsOfOutcome ∧ places outranked = [[⟨3, 4⟩]] ∧
      outranked.run.result = .succeeded (some (.path ⟨2⟩)) (.single ⟨3⟩)) := by
  intro named tied outranked places
  have htied : places tied = [[⟨3, 4⟩]] := by decide +kernel
  have hambiguous : tied.run.result =
      .ambiguous (.imports Sample.name ⟨.path ⟨4⟩, ⟨3, 4⟩, true⟩ ⟨.path ⟨2⟩, ⟨1, 2⟩, true⟩) := by
    decide +kernel
  have houtranked : places outranked = [[⟨3, 4⟩]] := by decide +kernel
  have hsucceeded : outranked.run.result = .succeeded (some (.path ⟨2⟩)) (.single ⟨3⟩) := by
    decide +kernel
  refine ⟨⟨?_, htied, hambiguous⟩, ?_, houtranked, hsucceeded⟩
  · intro hlaw
    have hne : tied.run.reported .importPreferred ≠ [] := by
      intro hnil
      simp [places, hnil] at htied
    obtain ⟨found, w, hprefers⟩ := hlaw.warns.mp hne
    cases hambiguous.symm.trans hprefers.succeeds
  · intro hlaw
    -- the import of the value of object 2 is preferred, and its place is another
    have hprefers : outranked.Prefers Sample.besides ⟨⟨1, ⟨0, ForeignValue.named⟩⟩, .single ⟨3⟩⟩ :=
      ⟨rfl, Lookup.Query.definition?_eq_some_iff.mp (by decide +kernel), by decide +kernel,
        by decide +kernel, hsucceeded, by decide +kernel⟩
    simp only [places, hlaw.describes _ _ hprefers] at houtranked
    exact absurd houtranked (by decide +kernel)

end NameResolution
