import NameResolution.Proofs.History
import NameResolution.Proofs.Lookup.Effects
import NameResolution.Proofs.Lookup.Usage
import NameResolution.UnusedImports

/-!
# Which selectors are reported as unused

A run looks references up one after the other. Looking up changes neither what lookups read nor
which imports there are, so every reference is resolved as at the start (`query_afterLookups`), and
in the end a selector was used if some lookup of the run used it (`isUsed_afterLookups`).

* `History.unused_iff`: after a run that starts with nothing used, a selector is reported exactly if
  it hides nothing and no lookup tried it. Had only those counted that a lookup resolves through,
  the report would be the same exactly if what is tried is resolved through at some time.
* `rejected_not_reported`: a selector that is not reported although no lookup resolves through it.
-/

namespace NameResolution

/-- A name to look up at a context, among the declarations of a universe that pass a test. -/
structure Reference where
  cx : Context
  program : Universe
  name : Name
  qualifies : SymbolId → Bool

def Reference.query (r : Reference) (s : Store) : Lookup.Query :=
  r.cx.query r.program r.name r.qualifies s

namespace Store

/-- The store once references were looked up one after the other. -/
def afterLookups (s : Store) (refs : List Reference) : Store :=
  refs.foldl (fun s r => (r.cx.lookup r.program r.name r.qualifies s).2) s

/-- The selectors of an import that were never used, by position; those that hide are left out. -/
def unusedEntries (s : Store) (imp : Import) : List (Selector × Nat) :=
  imp.clause.selectors.zipIdx.filter fun entry => !entry.1.isHide && !s.isUsed imp.id entry.2

/-! ### What a lookup leaves alone -/

variable {s : Store}

theorem query_lookup (r : Reference) (cx : Context) (u : Universe) (name : Name)
    (qualifies : SymbolId → Bool) (s : Store) :
    r.query (cx.lookup u name qualifies s).2 = r.query s := by
  rw [Context.lookup_eq]
  rfl

theorem session_afterLookups (refs : List Reference) (s : Store) (id : SessionId) :
    (s.afterLookups refs).session id = s.session id := by
  unfold afterLookups
  induction refs generalizing s with
  | nil => rfl
  | cons r refs ih =>
    rw [List.foldl_cons, ih, Context.lookup_eq]
    rfl

/-! ### What is used -/

theorem size_recordUses (uses : List Lookup.Use) (s : Store) :
    (s.recordUses uses).uses.size = s.uses.size := by
  unfold recordUses
  induction uses generalizing s with
  | nil => rfl
  | cons use uses ih =>
    rw [List.foldl_cons, ih]
    exact Array.size_modify

/-- Noting a use adds that use, if the import is registered. -/
theorem isUsed_recordUse {id position : Nat} (hid : id < s.uses.size) (use : Lookup.Use) :
    (s.recordUse use.importId use.position).isUsed id position = true ↔
      s.isUsed id position = true ∨ use = ⟨id, position⟩ := by
  obtain ⟨used, hused⟩ : ∃ used, s.uses[id]? = some used :=
    ⟨s.uses[id], Array.getElem?_eq_getElem hid⟩
  obtain ⟨importId, noted⟩ := use
  unfold isUsed usesOf recordUse
  rw [Array.getElem?_modify, hused]
  by_cases hsame : importId = id
  · subst hsame
    rw [if_pos rfl, Option.map_some, Option.getD_some, Option.getD_some]
    cases hnoted : used.contains noted with
    | true =>
      rw [if_pos rfl]
      constructor
      · exact Or.inl
      · rintro (h | h)
        · exact h
        · cases h
          exact hnoted
    | false =>
      rw [if_neg Bool.false_ne_true]
      simp only [List.contains_iff_mem, List.mem_append, List.mem_singleton, Lookup.Use.mk.injEq,
        true_and]
      exact or_congr_right eq_comm
  · rw [if_neg hsame]
    constructor
    · exact Or.inl
    · rintro (h | h)
      · exact h
      · cases h
        exact absurd rfl hsame

theorem isUsed_recordUses {id position : Nat} (hid : id < s.uses.size) (uses : List Lookup.Use) :
    (s.recordUses uses).isUsed id position = true ↔
      s.isUsed id position = true ∨ ⟨id, position⟩ ∈ uses := by
  unfold recordUses
  induction uses generalizing s with
  | nil => simp
  | cons use uses ih =>
    have hsize : (s.recordUse use.importId use.position).uses.size = s.uses.size :=
      Array.size_modify
    rw [List.foldl_cons, ih (by rw [hsize]; exact hid), isUsed_recordUse hid, List.mem_cons,
      or_assoc, eq_comm (a := use)]

/-- **What was used in the end was used before or by a lookup of the run.** -/
theorem isUsed_afterLookups {id position : Nat} (hid : id < s.uses.size) (refs : List Reference) :
    (s.afterLookups refs).isUsed id position = true ↔
      s.isUsed id position = true ∨ ∃ r ∈ refs, ⟨id, position⟩ ∈ (r.query s).run.uses := by
  unfold afterLookups
  induction refs generalizing s with
  | nil => simp
  | cons r refs ih =>
    have hsize : (r.cx.lookup r.program r.name r.qualifies s).2.uses.size = s.uses.size := by
      rw [Context.lookup_eq]
      exact size_recordUses _ s
    have hused : (r.cx.lookup r.program r.name r.qualifies s).2.isUsed id position = true ↔
        s.isUsed id position = true ∨ ⟨id, position⟩ ∈ (r.query s).run.uses := by
      rw [Context.lookup_eq]
      exact isUsed_recordUses hid _
    rw [List.foldl_cons, ih (by rw [hsize]; exact hid), hused]
    simp only [query_lookup, List.mem_cons, exists_eq_or_imp, or_assoc]

theorem unusedImports_eq (s : Store) (id : SessionId) :
    s.unusedImports id = (s.session id).imports.flatMap fun imp =>
      (s.unusedEntries imp).map fun entry => (imp, entry.1) := by
  unfold unusedImports unusedSelectors unusedEntries
  simp only [List.map_map]
  rfl

end Store

namespace History

variable {s : Store} {made : List Context}

section

variable {session : SessionId} {imp : Import} {position : Nat}

/-- What a lookup uses of an import in a log are the selectors of that import that it tries: no
other import on its chain shares the place. -/
theorem mem_run_uses_iff (h : History s made) (himp : imp ∈ (s.session session).imports)
    {r : Reference} (hr : r.cx ∈ made) :
    ⟨imp.id, position⟩ ∈ (r.query s).run.uses ↔ (r.query s).Tries imp position := by
  have hlogged : Occurs s made imp := Or.inr ⟨session, himp⟩
  have hsame : ∀ level ∈ (r.query s).importLevels, level.imp.id = imp.id → level.imp = imp := by
    intro level hlevel hid
    obtain ⟨c, hc, himported, -⟩ := Lookup.Query.mem_importLevels.mp hlevel
    exact h.tracked.coherent _ _ (Or.inl ⟨r.cx, hr, c, hc, himported⟩) hlogged hid
  have hord := Lookup.Query.ordered_of_grown (q := r.query s) (h.built r.cx hr).grown
  exact Lookup.Query.mem_run_uses_iff_tries hord (h.tracked.ofUnit session imp himp) hsame

/-- A selector stays unused if it hides nothing and no lookup tries it. -/
theorem mem_unusedEntries_iff (h : History s made) (hfresh : ∀ used ∈ s.uses, used = [])
    {refs : List Reference} (hrefs : ∀ r ∈ refs, r.cx ∈ made)
    (himp : imp ∈ (s.session session).imports) {selector : Selector}
    (hselector : (selector, position) ∈ imp.clause.selectors.zipIdx) :
    (selector, position) ∈ (s.afterLookups refs).unusedEntries imp ↔
      selector.isHide = false ∧ ∀ r ∈ refs, ¬ (r.query s).Tries imp position := by
  have hunused : s.isUsed imp.id position = false := by
    unfold Store.isUsed Store.usesOf
    cases hused : s.uses[imp.id]? with
    | none => rfl
    | some used =>
      rw [hfresh used (Array.mem_of_getElem? hused)]
      rfl
  have hused : (s.afterLookups refs).isUsed imp.id position = true ↔
      ∃ r ∈ refs, (r.query s).Tries imp position := by
    rw [Store.isUsed_afterLookups (h.tracked.registered imp (Or.inr ⟨session, himp⟩)), hunused]
    simp only [Bool.false_eq_true, false_or]
    exact exists_congr fun r => and_congr_right fun hr => h.mem_run_uses_iff himp (hrefs r hr)
  rw [Store.unusedEntries, List.mem_filter, and_iff_right hselector, Bool.and_eq_true,
    Bool.not_eq_true', Bool.not_eq_true', ← Bool.not_eq_true (Store.isUsed ..), hused]
  simp

end

/-- **After a run that starts with nothing used, what is reported is what no lookup tried.** All
lookups of the run are taken to end (`Table.Settles`). -/
theorem unused_iff (h : History s made) (hfresh : ∀ used ∈ s.uses, used = [])
    {refs : List Reference} (hrefs : ∀ r ∈ refs, r.cx ∈ made) (session : SessionId) :
    (s.afterLookups refs).unusedImports session =
        ((s.session session).imports.flatMap fun imp =>
          ((s.afterLookups refs).unusedEntries imp).map fun entry => (imp, entry.1)) ∧
      ∀ imp ∈ (s.session session).imports,
        ∀ selector position, (selector, position) ∈ imp.clause.selectors.zipIdx →
          ((selector, position) ∈ (s.afterLookups refs).unusedEntries imp ↔
            selector.isHide = false ∧ ∀ r ∈ refs, ¬ (r.query s).Tries imp position) ∧
          (((selector, position) ∈ (s.afterLookups refs).unusedEntries imp ↔
              selector.isHide = false ∧ ∀ r ∈ refs, ¬ (r.query s).Resolves imp position) ↔
            (selector.isHide = false → ∀ r ∈ refs, (r.query s).Tries imp position →
              ∃ r' ∈ refs, (r'.query s).Resolves imp position)) := by
  refine ⟨by rw [Store.unusedImports_eq, Store.session_afterLookups], ?_⟩
  intro imp himp selector position hselector
  have hlisted := h.mem_unusedEntries_iff hfresh hrefs himp hselector
  refine ⟨hlisted, ?_⟩
  rw [hlisted]
  constructor
  · intro hsame hshown r hr htried
    by_contra hnone
    have hunresolved : ∀ r' ∈ refs, ¬ (r'.query s).Resolves imp position := by
      intro r' hr' hresolves
      exact hnone ⟨r', hr', hresolves⟩
    exact (hsame.mpr ⟨hshown, hunresolved⟩).2 r hr htried
  · intro hall
    constructor
    · rintro ⟨hshown, huntried⟩
      refine ⟨hshown, ?_⟩
      intro r hr hresolves
      exact huntried r hr hresolves.tries
    · rintro ⟨hshown, hunresolved⟩
      refine ⟨hshown, ?_⟩
      intro r hr htried
      obtain ⟨r', hr', hresolves⟩ := hall hshown r hr htried
      exact hunresolved r' hr' hresolves

/-- A selector is not reported once a name was found through it, so the lookup tried it. -/
theorem unused_iff_named :
    let opened := Context.openRoot 0 .root 0 (Sample.store #[])
    let imported := opened.1.makeImport (Sample.naming ⟨4⟩) opened.2
    let r : Reference := ⟨imported.1, Sample.table.toUniverse, Sample.name, fun _ => true⟩
    (r.query imported.2).Tries ⟨0, Sample.naming ⟨4⟩⟩ 0 := by
  intro opened imported r
  have hmade : History imported.2 [imported.1, opened.1] :=
    .makeImport (.openRoot (.start rfl (by decide)) 0 .root 0) List.mem_cons_self _
  have hrefs : ∀ ref ∈ [r], ref.cx ∈ [imported.1, opened.1] :=
    List.forall_mem_singleton.mpr List.mem_cons_self
  obtain ⟨-, hentries⟩ := hmade.unused_iff (by decide) hrefs 0
  obtain ⟨hlisted, -⟩ := hentries ⟨0, Sample.naming ⟨4⟩⟩ (by decide) (.named Sample.name) 0
    (by decide)
  by_contra hnot
  have hmem := hlisted.mpr ⟨rfl, List.forall_mem_singleton.mpr hnot⟩
  revert hmem
  decide +kernel

end History

/-- **A selector that binds only what a reference rejects is not reported, though the lookup finds
nothing.** -/
theorem rejected_not_reported :
    let opened := Context.openRoot 0 .root 0 (Sample.store #[])
    let imported := opened.1.makeImport (Sample.naming ⟨4⟩) opened.2
    let r : Reference := ⟨imported.1, Sample.table.toUniverse, Sample.name, fun _ => false⟩
    History imported.2 [imported.1, opened.1] ∧
      (r.cx.lookup r.program r.name r.qualifies imported.2).1 = .notFound ∧
      imported.2.unusedImports 0 = [(⟨0, Sample.naming ⟨4⟩⟩, .named Sample.name)] ∧
      (imported.2.afterLookups [r]).unusedImports 0 = [] := by
  refine ⟨?_, ?_, ?_, ?_⟩
  · exact .makeImport (.openRoot (.start rfl (by decide)) 0 .root 0) List.mem_cons_self _
  · decide +kernel
  · decide +kernel
  · decide +kernel

/-- Nor is a wildcard that loses to a name at its depth: the lookup goes through the other import
only. -/
example :
    let opened := Context.openRoot 0 .root 0 (Sample.store #[])
    let outer := opened.1.makeImport (Sample.everything ⟨2⟩) opened.2
    let inner := outer.1.makeImport (Sample.naming ⟨4⟩) outer.2
    let r : Reference := ⟨inner.1, Sample.table.toUniverse, Sample.name, fun _ => true⟩
    (r.cx.lookup r.program r.name r.qualifies inner.2).1 =
        .succeeded (some (.path ⟨4⟩)) (.single ⟨5⟩) ∧
      inner.2.unusedImports 0 =
        [(⟨0, Sample.everything ⟨2⟩⟩, .wildcard), (⟨1, Sample.naming ⟨4⟩⟩, .named Sample.name)] ∧
      (inner.2.afterLookups [r]).unusedImports 0 = [] := by
  decide +kernel

end NameResolution
