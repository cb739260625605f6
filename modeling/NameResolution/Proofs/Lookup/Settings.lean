import NameResolution.Proofs.Lookup.Effects
import NameResolution.Proofs.Lookup.Enclosing

/-!
# Settings of a session and results

Of the settings of its session a lookup reads two: what to do where an inherited member hides an
enclosing definition, and whether to warn about an import that is preferred to a foreign definition.
Neither has a part in finding the definition, the conflict or the import, and what they decide is
the last step.

* `run_under`: under any settings a lookup answers what it answers where hiding is allowed
  (`tolerant`), unless a conflict is found (`hidden?`), which is a warning more or the result.
* `inheritedWarning_eq`: the warning for a conflict tells of the two symbols what the error for it
  tells (`hidingWarning`).
* `Context.lookup_configure`: lookups in sessions that differ in these settings agree on the result,
  save that the strictest policy rejects a reference exactly where the milder one warns of the same
  conflict.
-/

namespace NameResolution

/-- Sets the policy for inherited members and whether preferred imports are warned about. -/
def Store.configure (s : Store) (id : SessionId) (policy : EnclosingPolicy) (compat : Bool) :
    Store :=
  s.modifySession id fun session =>
    { session with
      settings := { session.settings with enclosing := policy, compatWarnings := compat } }

namespace Lookup

/-- The warnings with a code that a lookup reports. -/
def Answer.reported (answer : Answer) (code : DiagnosticCode) : List Diagnostic :=
  answer.warnings.filter fun d => d.code == code

theorem Answer.reported_cons (answer : Answer) (d : Diagnostic) (code : DiagnosticCode) :
    ({ answer with warnings := d :: answer.warnings } : Answer).reported code =
      if d.code == code then d :: answer.reported code else answer.reported code :=
  List.filter_cons

/-- The warning that an inherited member hides an enclosing definition. It points nowhere, for a
lookup does not know the place of the reference. -/
def hidingWarning (u : Universe) (names : Interner) (name : Name) (inherited enclosing : SymbolId) :
    Diagnostic :=
  let text := names.text name
  let around := u.pathText names (u.owner enclosing)
  let origin := u.simpleText names (u.owner inherited)
  { code := .inheritedPreferred
    severity := .warning
    message :=
      s!"reference to `{text}` is ambiguous: it is both defined in the enclosing" ++
        s!" {around} and inherited in {origin}"
    labels := [⟨.dummy, "ambiguous reference", true⟩]
    notes :=
      [s!"write `this.{text}` to select the inherited member, or qualify the enclosing one"] }

namespace Query

open Precedence

variable (q : Query)

def under (policy : EnclosingPolicy) (compat : Bool) : Query :=
  { q with
    view := { q.view with
      settings := { q.view.settings with enclosing := policy, compatWarnings := compat } } }

/-- The inherited member that the name means and the enclosing definition it hides. -/
def hidden? : Option (SymbolId × SymbolId) :=
  if q.name.isConstructor then none else q.definition?.bind q.conflict?

/-- The warning due when an import is preferred to a foreign definition for being so. -/
def preferenceAmong : Option Found → Option Imported → List Diagnostic
  | some f, some i =>
    if q.isForeign f.meaning && i.admission == .admittedForeign then [q.importWarning f i.level]
    else []
  | _, _ => []

/-- The warning that an import is preferred to the definition found, if it is. -/
def preference : List Diagnostic :=
  q.preferenceAmong q.definition?
    (q.firstImport (q.definition?.map q.definitionKey) q.importLevels).1

/-- What a lookup answers where hiding an enclosing definition is allowed. -/
def tolerant (compat : Bool) : Answer :=
  if q.name.isConstructor then { result := q.constructorResult }
  else
    { q.consultImports q.definition? with warnings := if compat then q.preference else [] }

/-- What the policy makes of an answer where a definition is hidden. -/
def judged (policy : EnclosingPolicy) (conflict : SymbolId × SymbolId) (answer : Answer) : Answer :=
  let ambiguity := Ambiguity.withEnclosing q.name conflict.1 conflict.2
  match policy with
  | .allow => answer
  | .warn => { answer with warnings := q.inheritedWarning ambiguity :: answer.warnings }
  | .error => { result := .ambiguous ambiguity }

variable {q}

/-! ### What is said of a conflict -/

theorem inheritedWarning_eq (name : Name) (inherited enclosing : SymbolId) :
    q.inheritedWarning (.withEnclosing name inherited enclosing) =
      hidingWarning q.view.program q.view.names name inherited enclosing :=
  rfl

/-! ### What reads no settings -/

/-- The first import is found under any settings. -/
theorem firstImport_under (policy : EnclosingPolicy) (compat : Bool)
    (definition : Option DefinitionKey) (levels : List ImportLevel) :
    (q.under policy compat).firstImport definition levels = q.firstImport definition levels := by
  induction levels with
  | nil => rfl
  | cons level outer ih =>
    unfold firstImport
    rw [ih]
    rfl

/-- Settling the leader does not depend on the settings. -/
theorem settle_under (policy : EnclosingPolicy) (compat : Bool) (leader : ImportLevel)
    (meaning : Meaning) (levels : List ImportLevel) :
    (q.under policy compat).settle leader meaning levels = q.settle leader meaning levels := by
  induction levels generalizing leader meaning with
  | nil => rfl
  | cons level outer ih =>
    unfold settle
    simp only [ih]
    rfl

/-- The imports contribute the same under all settings, but for the warning that one of them is
preferred. -/
theorem resolve_under (policy : EnclosingPolicy) (compat : Bool) (found : Option Found)
    (imported : Option Imported) :
    (q.under policy compat).resolve found imported =
      { q.resolve found imported with
        warnings := if compat then q.preferenceAmong found imported else [] } := by
  rcases found with _ | f <;> rcases imported with _ | i
  · cases compat <;> rfl
  · simp only [resolve, settle_under]
    cases compat <;> rfl
  · cases compat <;> rfl
  · -- precedence reads the same of both sides, so the two decide alike
    have hsame : arbitrate ((q.under policy compat).definitionKey f)
        ((q.under policy compat).isUnusable i) = arbitrate (q.definitionKey f) (q.isUnusable i) :=
      rfl
    rcases hforeign : q.isForeign f.meaning with _ | _
    · have hkey : arbitrate (q.definitionKey f) (q.isUnusable i) ≠ .imported := by
        simp only [arbitrate, definitionKey, hforeign]
        cases q.isUnusable i <;> decide
      simp only [resolve, hsame, preferenceAmong, hforeign]
      rcases hd : arbitrate (q.definitionKey f) (q.isUnusable i) with _ | _ | _
      · cases compat <;> rfl
      · exact absurd hd hkey
      · cases compat <;> rfl
    · have hkey : arbitrate (q.definitionKey f) (q.isUnusable i) = .imported := by
        simp [arbitrate, definitionKey, hforeign]
      simp only [resolve, hsame, hkey, settle_under, preferenceAmong, hforeign]
      cases compat <;> cases hadm : i.admission == .admittedForeign <;>
        simp [preferenceWarnings, hadm, under, importWarning]

/-- Settings decide only which warnings an import draws. -/
theorem consultImports_under (policy : EnclosingPolicy) (compat : Bool) (found : Option Found) :
    (q.under policy compat).consultImports found =
      { q.consultImports found with
        warnings :=
          if compat then
            q.preferenceAmong found (q.firstImport (found.map q.definitionKey) q.importLevels).1
          else [] } := by
  have hfirst : (q.under policy compat).firstImport
        (found.map (q.under policy compat).definitionKey) (q.under policy compat).importLevels =
      q.firstImport (found.map q.definitionKey) q.importLevels :=
    firstImport_under policy compat (found.map q.definitionKey) q.importLevels
  unfold consultImports
  rw [hfirst]
  dsimp only
  rw [resolve_under]

/-! ### What settings decide -/

/-- **Settings judge a conflict and leave the rest of an answer alone.** -/
theorem run_under (policy : EnclosingPolicy) (compat : Bool) :
    (q.under policy compat).run =
      match q.hidden? with
      | some conflict => q.judged policy conflict (q.tolerant compat)
      | none => q.tolerant compat := by
  by_cases hname : q.name.isConstructor = true
  · have hrun : (q.under policy compat).run = { result := q.constructorResult } := if_pos hname
    rw [hrun]
    simp [hidden?, tolerant, hname]
  · have hunder : (q.under policy compat).name.isConstructor = false := Bool.eq_false_iff.mpr hname
    have hdefinition : (q.under policy compat).definition? = q.definition? := rfl
    have hconsult := consultImports_under (q := q) policy compat
    unfold run
    rw [hunder, hdefinition]
    cases hfound : q.definition? with
    | none => simp [hidden?, tolerant, preference, hname, hfound, hconsult]
    | some found =>
      have hconflict : (q.under policy compat).conflict? found = q.conflict? found := rfl
      have hcheck : (q.under policy compat).view.settings.enclosing = policy := rfl
      simp only [hidden?, tolerant, preference, hname, hfound, checkEnclosing, hconflict, hcheck,
        hconsult, Option.bind_some]
      rcases q.conflict? found with _ | ⟨inherited, enclosing⟩
      · rfl
      · cases policy <;> rfl

/-- The tolerant lookup finds the same with the compatibility warning and without. -/
theorem tolerant_result (a b : Bool) : (q.tolerant a).result = (q.tolerant b).result := by
  unfold tolerant
  split <;> rfl

/-- The tolerant lookup never ends between an inherited and an enclosing symbol. -/
theorem tolerant_ne_withEnclosing (compat : Bool) (name : Name) (inherited enclosing : SymbolId) :
    (q.tolerant compat).result ≠ .ambiguous (.withEnclosing name inherited enclosing) := by
  unfold tolerant
  split
  · show q.constructorResult ≠ _
    unfold constructorResult
    dsimp only
    split
    · exact fun h => nomatch h
    · exact fun h => nomatch h
  · exact consultImports_ne_withEnclosing q.definition? name inherited enclosing

theorem code_of_mem_preference {d : Diagnostic} (hd : d ∈ q.preference) :
    d.code = .importPreferred := by
  unfold preference preferenceAmong at hd
  split at hd
  · split at hd
    · obtain rfl := List.mem_singleton.mp hd
      rfl
    · exact absurd hd List.not_mem_nil
  · exact absurd hd List.not_mem_nil

theorem code_of_mem_tolerant {compat : Bool} {d : Diagnostic}
    (hd : d ∈ (q.tolerant compat).warnings) : d.code = .importPreferred := by
  unfold tolerant at hd
  split at hd
  · exact absurd hd List.not_mem_nil
  · cases compat with
    | true => exact code_of_mem_preference hd
    | false => exact absurd hd List.not_mem_nil

/-- Nor does it warn of one. -/
theorem tolerant_reports_none (compat : Bool) :
    (q.tolerant compat).reported .inheritedPreferred = [] := by
  refine List.filter_eq_nil_iff.mpr fun d hd => ?_
  rw [code_of_mem_tolerant hd]
  decide

/-- Without the setting exactly the warnings about preferred imports are missing. -/
theorem tolerant_warnings_false :
    (q.tolerant false).warnings =
      (q.tolerant true).warnings.filter fun d => d.code != .importPreferred := by
  have hnone : (q.tolerant false).warnings = [] := by
    unfold tolerant
    split <;> rfl
  rw [hnone, eq_comm]
  refine List.filter_eq_nil_iff.mpr fun d hd => ?_
  rw [code_of_mem_tolerant hd]
  decide

theorem judged_warnings_false (policy : EnclosingPolicy) (conflict : SymbolId × SymbolId) :
    (q.judged policy conflict (q.tolerant false)).warnings =
      (q.judged policy conflict (q.tolerant true)).warnings.filter
        fun d => d.code != .importPreferred := by
  cases policy with
  | allow => exact tolerant_warnings_false
  | warn =>
    -- the warning about the conflict is of another kind
    show _ :: _ = List.filter _ (_ :: _)
    rw [List.filter_cons_of_pos (by rfl), tolerant_warnings_false]
  | error => rfl

theorem under_warnings_false (policy : EnclosingPolicy) :
    (q.under policy false).run.warnings =
      (q.under policy true).run.warnings.filter fun d => d.code != .importPreferred := by
  rw [run_under, run_under]
  cases q.hidden? with
  | none => exact tolerant_warnings_false
  | some conflict => exact judged_warnings_false policy conflict

/-- The result does not depend on whether the compatibility warning is on. -/
theorem under_result_eq (policy : EnclosingPolicy) (a b : Bool) :
    (q.under policy a).run.result = (q.under policy b).run.result := by
  rw [run_under, run_under]
  cases q.hidden? with
  | none => exact tolerant_result a b
  | some conflict =>
    cases policy with
    | allow => exact tolerant_result a b
    | warn => exact tolerant_result a b
    | error => rfl

/-- To allow is to be tolerant. -/
theorem under_allow_result (compat : Bool) :
    (q.under .allow compat).run.result = (q.tolerant compat).result := by
  rw [run_under]
  cases q.hidden? <;> rfl

/-- To warn finds what the tolerant lookup finds. -/
theorem under_warn_result (compat : Bool) :
    (q.under .warn compat).run.result = (q.tolerant compat).result := by
  rw [run_under]
  cases q.hidden? <;> rfl

/-- Where hiding is a warning, exactly what is hidden is reported. -/
theorem under_warn_reported (compat : Bool) :
    (q.under .warn compat).run.reported .inheritedPreferred =
      (q.hidden?.map fun conflict =>
        hidingWarning q.view.program q.view.names q.name conflict.1 conflict.2).toList := by
  rw [run_under]
  cases q.hidden? with
  | none => exact tolerant_reports_none compat
  | some conflict =>
    simp only [judged, inheritedWarning_eq, Answer.reported_cons, tolerant_reports_none]
    rfl

/-- Where hiding is an error, a reference is rejected for what is hidden and for nothing else. -/
theorem under_error_eq_iff {compat : Bool} {name : Name} {inherited enclosing : SymbolId} :
    (q.under .error compat).run.result = .ambiguous (.withEnclosing name inherited enclosing) ↔
      name = q.name ∧ q.hidden? = some (inherited, enclosing) := by
  rw [run_under]
  cases q.hidden? with
  | none => simpa using tolerant_ne_withEnclosing compat name inherited enclosing
  | some conflict => simp [judged, Prod.ext_iff, eq_comm]

/-- So does the error policy when nothing is hidden. -/
theorem under_error_result (hnone : q.hidden? = none) (compat : Bool) :
    (q.under .error compat).run.result = (q.tolerant compat).result := by
  rw [run_under, hnone]

end Query
end Lookup

theorem Store.session_configure {s : Store} {id : SessionId} (hsession : id < s.sessions.size)
    (policy : EnclosingPolicy) (compat : Bool) :
    (s.configure id policy compat).session id =
      { s.session id with
        settings :=
          { (s.session id).settings with enclosing := policy, compatWarnings := compat } } := by
  unfold Store.configure Store.modifySession Store.session
  dsimp only
  rw [Array.getElem?_modify, if_pos rfl, Array.getElem?_eq_getElem hsession]
  rfl

namespace Context

variable (cx : Context) (u : Universe) (name : Name) (qualifies : SymbolId → Bool) {s : Store}

/-- Configuring the session changes the settings of the query. -/
theorem query_configure (hsession : cx.session < s.sessions.size) (policy : EnclosingPolicy)
    (compat : Bool) :
    cx.query u name qualifies (s.configure cx.session policy compat) =
      (cx.query u name qualifies s).under policy compat := by
  unfold query view
  rw [Store.session_configure hsession]
  rfl

/-- **What the settings decide is whether a conflict is ignored, reported or an error, and whether a
preferred import is reported; no setting has another effect on what a name resolves to.** The one
warning about a conflict is of the symbols that the error is about, and says the same of them. The
lookups are taken to end (`Table.Settles`). -/
theorem lookup_configure (hsession : cx.session < s.sessions.size) :
    let store policy compat := s.configure cx.session policy compat
    let result policy compat := (cx.lookup u name qualifies (store policy compat)).1
    let answer policy compat := (cx.query u name qualifies (store policy compat)).run
    let conflict inherited enclosing := Ambiguity.withEnclosing name inherited enclosing
    -- what a lookup reports are the warnings of its answer
    (∀ policy compat, (cx.lookup u name qualifies (store policy compat)).2.channels =
      cx.warned (answer policy compat).warnings (store policy compat)) ∧
    (∀ a b, result .allow a = result .warn b) ∧
    (∀ a b, (∃ n i e, result .error a = .ambiguous (.withEnclosing n i e)) ↔
      ((answer .warn b).reported .inheritedPreferred).length = 1) ∧
    (∀ a b n i e, result .error a = .ambiguous (.withEnclosing n i e) →
      n = name ∧ (answer .warn b).reported .inheritedPreferred =
        [Lookup.hidingWarning u s.names name i e]) ∧
    (∀ i e, (conflict i e).diagnostic u s.names .dummy =
      { Lookup.hidingWarning u s.names name i e with
        code := .inheritedAndEnclosing
        severity := .error }) ∧
    (∀ a b, (¬ ∃ n i e, result .error a = .ambiguous (.withEnclosing n i e)) →
      result .error a = result .allow b ∧ (answer .warn b).reported .inheritedPreferred = []) ∧
    ∀ policy, result policy false = result policy true ∧
      (answer policy false).warnings =
        (answer policy true).warnings.filter fun d => d.code != .importPreferred := by
  intro store result answer conflict
  let q := cx.query u name qualifies s
  have hanswer : ∀ policy compat, answer policy compat = (q.under policy compat).run :=
    fun policy compat => congrArg (·.run) (query_configure cx u name qualifies hsession ..)
  have hresult : ∀ policy compat, result policy compat = (q.under policy compat).run.result :=
    fun policy compat => congrArg (·.result) (hanswer policy compat)
  have hconflict : ∀ a, (∃ n i e, result .error a = .ambiguous (.withEnclosing n i e)) ↔
      q.hidden?.isSome := by
    intro a
    simp only [hresult, Lookup.Query.under_error_eq_iff, Option.isSome_iff_exists, Prod.exists]
    simp
  refine ⟨fun policy compat => ?_, fun a b => ?_, fun a b => ?_, fun a b n i e herror => ?_,
    fun i e => ?_, fun a b hnot => ?_, fun policy => ⟨?_, ?_⟩⟩
  · exact congrArg (·.channels) (cx.lookup_eq u name qualifies (store policy compat))
  · rw [hresult, hresult, Lookup.Query.under_allow_result, Lookup.Query.under_warn_result]
    exact Lookup.Query.tolerant_result a b
  · rw [hconflict, hanswer, Lookup.Query.under_warn_reported]
    cases q.hidden? <;> simp
  · rw [hresult] at herror
    obtain ⟨rfl, hhidden⟩ := Lookup.Query.under_error_eq_iff.mp herror
    refine ⟨rfl, ?_⟩
    rw [hanswer, Lookup.Query.under_warn_reported, hhidden]
    rfl
  · exact congrArg (fun d => { d with code := .inheritedAndEnclosing, severity := .error })
      (Lookup.Query.inheritedWarning_eq (q := q) name i e)
  · rw [hconflict, Option.not_isSome_iff_eq_none] at hnot
    refine ⟨?_, ?_⟩
    · rw [hresult, hresult, Lookup.Query.under_allow_result,
        Lookup.Query.under_error_result hnot]
      exact Lookup.Query.tolerant_result a b
    · rw [hanswer, Lookup.Query.under_warn_reported, hnot]
      rfl
  · rw [hresult, hresult]
    exact Lookup.Query.under_result_eq policy false true
  · rw [hanswer, hanswer]
    exact Lookup.Query.under_warnings_false policy

end Context

/-! ### A hidden definition -/

namespace HiddenDefinition

/-- Class 4 inherits the value 3 of class 2; the unit declares the value 5 around it. -/
def table : Table :=
  let t := (Table.initial.addClass .root (.ofWord 9)).2
  let t := (t.addValue ⟨2⟩ Sample.name ∅).2
  let t := ((t.addClass .root (.ofWord 10)).2.addParent ⟨4⟩ ⟨2⟩)
  (t.addValue .root Sample.name ∅).2.setUnit ⟨5⟩ (some ⟨1⟩)

/-- The body of class 4, below the scope that holds the value 5. -/
def body : Context := (Sample.root.make .template ⟨4⟩ 1 (Sample.store #[])).1

end HiddenDefinition

/-- The value that the class inherits hides the one around it. -/
theorem Context.lookup_configure_hidden :
    let names := ["x", "Base", "Derived"].foldl Interner.record .initial
    let s := { Sample.store #[Scope.empty.enter Sample.name ⟨5⟩, .empty] with names }
    let u := HiddenDefinition.table.toUniverse
    let cx := HiddenDefinition.body
    cx.session < s.sessions.size ∧
      (cx.lookup u Sample.name (fun _ => true) (s.configure cx.session .error true)).1 =
        .ambiguous (.withEnclosing Sample.name ⟨3⟩ ⟨5⟩) ∧
      ((cx.query u Sample.name (fun _ => true)
          (s.configure cx.session .warn true)).run.reported .inheritedPreferred).map (·.message) =
        ["reference to `x` is ambiguous: it is both defined in the enclosing <root> and inherited" ++
          " in Base"] := by
  intro names s u cx
  have hsession : cx.session < s.sessions.size := by decide
  have hrejected : (cx.lookup u Sample.name (fun _ => true)
      (s.configure cx.session .error true)).1 =
        .ambiguous (.withEnclosing Sample.name ⟨3⟩ ⟨5⟩) := by
    decide +kernel
  obtain ⟨-, -, -, hwarned, -⟩ := cx.lookup_configure u Sample.name (fun _ => true) hsession
  refine ⟨hsession, hrejected, ?_⟩
  rw [(hwarned true true _ _ _ hrejected).2]
  decide +kernel

end NameResolution
