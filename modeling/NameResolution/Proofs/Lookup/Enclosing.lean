import NameResolution.Proofs.Lookup.Arbitration

/-!
# Inherited members against enclosing definitions

An inherited member may hide a definition of an enclosing context. Where the policy makes that an
error, the reference is rejected before any import is consulted; otherwise what is hidden has no
bearing on the result.

* `run_eq_verdict`: the result of a lookup that finds a definition, by what the definition hides.
* `verdict_eq_iff`: where hiding is an error, different conflicts give different results, for no
  other step rejects a reference with this reason (`consultImports_ne_withEnclosing`).
-/

namespace NameResolution.Lookup.Query

open Precedence

variable (q : Query)

/-- The inherited member found and the enclosing definition it hides, if the enclosing definitions
are looked for at the given contexts. -/
def conflictAmong (found : Found) (around : List Context) : Option (SymbolId × SymbolId) :=
  let inherited := found.meaning.first
  if !found.isMember || q.view.program.owner inherited == found.cx.owner then none
  else
    match around.findSome? q.enclosingAt? with
    | none => none
    | some (enclosing, pre) =>
      if enclosing == inherited || q.isSameStable inherited found.cx.selfType enclosing pre then none
      else some (inherited, enclosing)

/-- The result for a definition, given what it hides. -/
def verdict (found : Found) (conflict : Option (SymbolId × SymbolId)) : LookupResult :=
  match q.view.settings.enclosing, conflict with
  | .error, some (inherited, enclosing) => .ambiguous (.withEnclosing q.name inherited enclosing)
  | _, _ => (q.consultImports (some found)).result

variable {q}

theorem conflict?_eq (found : Found) :
    q.conflict? found = q.conflictAmong found (found.cx.chain.drop 1) := rfl

theorem run_eq_verdict (hname : q.name.isConstructor = false) {found : Found}
    (hfound : q.definition? = some found) : q.run.result = q.verdict found (q.conflict? found) := by
  cases hconflict : q.conflict? found with
  | none => simp [run, hname, hfound, checkEnclosing, hconflict, verdict]
  | some conflict =>
    cases hpolicy : q.view.settings.enclosing <;>
      simp [run, hname, hfound, checkEnclosing, hconflict, verdict, hpolicy]

/-- Imports are in conflict with each other or with the definition, never with what is hidden. -/
theorem settle_ne_withEnclosing (leader : ImportLevel) (meaning : Meaning)
    (levels : List ImportLevel) (name : Name) (inherited enclosing : SymbolId) :
    (q.settle leader meaning levels).1 ≠ .ambiguous (.withEnclosing name inherited enclosing) := by
  show q.settled ⟨leader, meaning⟩ levels ≠ _
  generalize (⟨leader, meaning⟩ : Binding) = leader
  induction levels generalizing leader with
  | nil => exact fun h => nomatch h
  | cons level outer ih =>
    rw [settled_cons]
    by_cases hkeep : keepsLooking (q.importKey leader.level) (q.importKey level) = true
    · rw [if_pos hkeep]
      cases q.boundBy (needsExplicit (q.importKey leader.level) (q.importKey level)) level with
      | none => exact ih leader
      | some meaning =>
        cases compareImports (q.importKey leader.level) (q.importKey level) with
        | inner => exact ih leader
        | outer => exact ih ⟨level, meaning⟩
        | tie =>
          dsimp only
          by_cases hagree : q.agrees leader ⟨level, meaning⟩ = true
          · rw [if_pos hagree]
            exact ih leader
          · rw [if_neg hagree]
            exact fun h => nomatch h
    · rw [if_neg hkeep]
      exact fun h => nomatch h

theorem consultImports_ne_withEnclosing (found : Option Found) (name : Name)
    (inherited enclosing : SymbolId) :
    (q.consultImports found).result ≠ .ambiguous (.withEnclosing name inherited enclosing) := by
  rw [consultImports_result]
  generalize (q.firstImport (found.map q.definitionKey) q.importLevels).1 = imported
  cases found with
  | none =>
    cases imported with
    | none =>
      show q.failure ≠ _
      unfold failure
      split
      · exact fun h => nomatch h
      · exact fun h => nomatch h
    | some i => exact settle_ne_withEnclosing i.level i.meaning i.outer name inherited enclosing
  | some f =>
    cases imported with
    | none => exact fun h => nomatch h
    | some i =>
      unfold resolve
      dsimp only
      split
      · exact fun h => nomatch h
      · exact settle_ne_withEnclosing i.level i.meaning i.outer name inherited enclosing
      · exact fun h => nomatch h

/-- Conflicts matter where they are errors, and then different ones give different results. -/
theorem verdict_eq_iff {found : Found} {a b : Option (SymbolId × SymbolId)} :
    q.verdict found a = q.verdict found b ↔ (q.view.settings.enclosing = .error → a = b) := by
  unfold verdict
  cases hpolicy : q.view.settings.enclosing with
  | allow => simp
  | warn => simp
  | error =>
    rcases a with _ | ⟨i, e⟩ <;> rcases b with _ | ⟨j, f⟩
    · simp
    · simpa using consultImports_ne_withEnclosing (some found) q.name j f
    · simpa using (consultImports_ne_withEnclosing (some found) q.name i e).symm
    · simp

end NameResolution.Lookup.Query

namespace NameResolution.Sample

/-- One session of a native unit in which hiding an enclosing definition is an error, and the scopes
given. -/
def strictStore (scopes : Array Scope) : Store where
  sessions := #[{ unit := ⟨⟨1⟩, .native⟩, settings := { enclosing := .error }, sink := 0 }]
  scopes := scopes

end NameResolution.Sample
