import NameResolution.Proofs.Lookup.Arbitration

/-!
# Imports at the depth of a definition

In a unit of the other language an import that names the name competes with a definition at its own
depth. To compete is not to win: arbitration does not know why an import was admitted, and a
definition of the unit yields to none. Nor does every such import get to compete, as the search
stops at the first import that may not.

* `admits_interop`: which imports compete with a definition of a unit of the other language.
* `firstImport_of_open`, `unusable_of_screened`: where a single import challenges the definition
  (`SoleChallenger`), the search finds it unless another import at that depth stands before it
  (`Screened`).
* `run_of_open`, `run_of_screened`: in the one case the name is ambiguous, in the other the
  definition stands. The challenger is never taken for its own sake.
* `Context.lookup_challenged`: a program for either case.
-/

namespace NameResolution.Lookup.Query

open Precedence

variable (q : Query)

/-- The imports that name the name at the depth of a definition and bind it to something usable. -/
def challengers (found : Found) : List Binding :=
  q.bindings.filter fun b => b.depth == found.cx.depth && q.isExplicit b && !decide (q.Unusable b)

/-- A definition of the unit against which a single import stands, with none nested deeper. -/
structure SoleChallenger (found : Found) (e : Binding) : Prop where
  defined : q.InnermostDefinition found
  own : q.isForeign found.meaning = false
  deepest : ∀ b ∈ q.bindings, b.depth ≤ found.cx.depth
  sole : q.challengers found = [e]

/-- The imports that are met before one that binds the name. -/
def nearer (e : Binding) : List ImportLevel :=
  q.importLevels.takeWhile fun level => level != e.level

/-- Before the challenger comes an import at its depth that ends the search: one that does not name
the name, or one that binds it. -/
def Screened (found : Found) (e : Binding) : Prop :=
  ∃ level ∈ q.nearer e, level.depth = found.cx.depth ∧
    ((q.importKey level).explicit = true → (q.boundBy false level).isSome = true)

instance (found : Found) (e : Binding) : Decidable (q.Screened found e) :=
  inferInstanceAs (Decidable (∃ level ∈ q.nearer e, _))

variable {q} {found : Found} {e : Binding}

/-! ### The search -/

/-- In a unit of the other language an import competes with a definition of the unit also if it
names the name at the same depth. -/
theorem admits_interop (hinterop : q.view.unit.isInterop = true)
    (hown : q.isForeign found.meaning = false) {level : ImportLevel} :
    q.admits (some (q.definitionKey found)) level = true ↔
      found.cx.depth < level.depth ∨
        level.depth = found.cx.depth ∧ (q.importKey level).explicit = true := by
  unfold admits admissionOf definitionKey
  dsimp only
  rw [hown, hinterop]
  by_cases hdeeper : found.cx.depth < level.depth
  · simp [importKey, hdeeper, Admission.isAdmitted]
  · by_cases hpeer : level.depth = found.cx.depth
    · cases hnamed : (q.importKey level).explicit <;>
        simp [importKey, hpeer, Admission.isAdmitted]
    · simp [importKey, hdeeper, hpeer, Admission.isAdmitted]

/-- Of the imports that compete, those not nested deeper name the name at the same depth. -/
theorem peer_of_admits (hinterop : q.view.unit.isInterop = true)
    (hown : q.isForeign found.meaning = false) {level : ImportLevel}
    (hadmitted : q.admits (some (q.definitionKey found)) level = true)
    (hle : level.depth ≤ found.cx.depth) :
    level.depth = found.cx.depth ∧ (q.importKey level).explicit = true := by
  rcases (admits_interop hinterop hown).mp hadmitted with hdeeper | hpeer
  · exact absurd hdeeper (Nat.not_lt.mpr hle)
  · exact hpeer

theorem mem_challengers {b : Binding} :
    b ∈ q.challengers found ↔
      b ∈ q.bindings ∧ b.depth = found.cx.depth ∧ q.isExplicit b = true ∧ ¬ q.Unusable b := by
  simp [challengers, and_assoc]

theorem SoleChallenger.mem (h : q.SoleChallenger found e) :
    e ∈ q.bindings ∧ e.depth = found.cx.depth ∧ q.isExplicit e = true ∧ ¬ q.Unusable e := by
  rw [← mem_challengers, h.sole]
  exact List.mem_singleton_self e

/-- Imports nested deeper bind nothing. -/
theorem SoleChallenger.boundBy_eq_none (h : q.SoleChallenger found e) {level : ImportLevel}
    (hlevel : level ∈ q.importLevels) (hdeeper : found.cx.depth < level.depth) :
    q.boundBy false level = none := by
  rw [Option.eq_none_iff_forall_ne_some]
  intro meaning hbound
  have hle := h.deepest ⟨level, meaning⟩ (mem_bindings.mpr ⟨hlevel, hbound⟩)
  exact absurd hdeeper (Nat.not_lt.mpr hle)

theorem nearer_of_split {before after : List ImportLevel}
    (hsplit : q.importLevels = before ++ e.level :: after) (hnot : e.level ∉ before) :
    q.nearer e = before := by
  have hbefore : ∀ level ∈ before, (level != e.level) = true := by
    intro level hlevel
    rw [bne_iff_ne]
    rintro rfl
    exact hnot hlevel
  rw [nearer, hsplit, List.takeWhile_append_of_pos hbefore,
    List.takeWhile_cons_of_neg (by simp), List.append_nil]

/-- What comes before a challenger that nothing screens is admitted and binds nothing. -/
theorem passed_of_open (hinterop : q.view.unit.isInterop = true) (h : q.SoleChallenger found e)
    (hopen : ¬ q.Screened found e) {level : ImportLevel} (hnearer : level ∈ q.nearer e)
    (hle : found.cx.depth ≤ level.depth) :
    q.admits (some (q.definitionKey found)) level = true ∧ q.boundBy false level = none := by
  rw [admits_interop hinterop h.own]
  rcases Nat.lt_or_eq_of_le hle with hdeeper | hpeer
  · have hlevel : level ∈ q.importLevels := (List.takeWhile_sublist _).mem hnearer
    exact ⟨Or.inl hdeeper, h.boundBy_eq_none hlevel hdeeper⟩
  · have hpasses :
        ¬ ((q.importKey level).explicit = true → (q.boundBy false level).isSome = true) := by
      intro hends
      exact hopen ⟨level, hnearer, hpeer.symm, hends⟩
    obtain ⟨hexplicit, hnone⟩ := Classical.not_imp.mp hpasses
    exact ⟨Or.inr ⟨hpeer.symm, hexplicit⟩, by simpa using hnone⟩

/-- A challenger that nothing screens is found. -/
theorem firstImport_of_open (hord : q.Ordered) (hinterop : q.view.unit.isInterop = true)
    (h : q.SoleChallenger found e) (hopen : ¬ q.Screened found e) :
    (q.firstImport (some (q.definitionKey found)) q.importLevels).1.map Imported.binding =
      some e := by
  obtain ⟨hmem, hdepth, hnamed, -⟩ := h.mem
  obtain ⟨hlevel, hbound⟩ := mem_bindings.mp hmem
  obtain ⟨before, after, hsplit, hnot⟩ := List.eq_append_cons_of_mem hlevel
  have hpassed : ∀ level ∈ before,
      q.admits (some (q.definitionKey found)) level = true ∧ q.boundBy false level = none := by
    intro level hbefore
    apply passed_of_open hinterop h hopen
    · rw [nearer_of_split hsplit hnot]
      exact hbefore
    · rw [Ordered, hsplit, List.pairwise_append] at hord
      rw [← hdepth]
      exact hord.2.2 level hbefore e.level List.mem_cons_self
  have hadmitted : q.admits (some (q.definitionKey found)) e.level = true :=
    (admits_interop hinterop h.own).mpr (Or.inr ⟨hdepth, hnamed⟩)
  rw [firstImport_binding, hsplit,
    List.takeWhile_append_of_pos fun level hbefore => (hpassed level hbefore).1,
    List.takeWhile_cons_of_pos hadmitted, bindingsOf_append,
    bindingsOf_eq_nil fun level hbefore => (hpassed level hbefore).2, List.nil_append,
    bindingsOf_cons_some hbound]
  rfl

/-- Where the challenger is screened, only something unusable is found: the challenger itself would
have been met only past what screens it. -/
theorem unusable_of_screened (hinterop : q.view.unit.isInterop = true)
    (h : q.SoleChallenger found e) (hscreened : q.Screened found e) {i : Imported}
    (hi : (q.firstImport (some (q.definitionKey found)) q.importLevels).1 = some i) :
    q.Unusable i.binding := by
  obtain ⟨before, hsplit, hbefore, hadmitted, hbound, -⟩ := firstImport_met hi
  have hlevel : i.level ∈ q.importLevels := by
    rw [hsplit]
    exact List.mem_append_right _ List.mem_cons_self
  have hmem : i.binding ∈ q.bindings := mem_bindings.mpr ⟨hlevel, hbound⟩
  obtain ⟨hdepth, hnamed⟩ := peer_of_admits hinterop h.own hadmitted (h.deepest _ hmem)
  by_contra husable
  have hchallenges : i.binding ∈ q.challengers found :=
    mem_challengers.mpr ⟨hmem, hdepth, hnamed, husable⟩
  rw [h.sole, List.mem_singleton] at hchallenges
  subst hchallenges
  have hnot : i.level ∉ before := by
    intro hagain
    rw [(hbefore _ hagain).2] at hbound
    cases hbound
  obtain ⟨level, hnearer, hpeer, hends⟩ := hscreened
  rw [nearer_of_split hsplit hnot] at hnearer
  obtain ⟨hpassed, hnone⟩ := hbefore level hnearer
  have hbinds := hends (peer_of_admits hinterop h.own hpassed (Nat.le_of_eq hpeer)).2
  rw [hnone] at hbinds
  cases hbinds

/-! ### The lookup -/

/-- **A challenger that is met makes the name ambiguous.** -/
theorem run_of_open (hord : q.Ordered) (hinterop : q.view.unit.isInterop = true)
    (hallow : q.view.settings.enclosing = .allow) (hname : q.name.isConstructor = false)
    (h : q.SoleChallenger found e) (hopen : ¬ q.Screened found e) :
    q.run.result = q.contested found e := by
  rw [run_of_allow hname hallow (definition?_eq_some_iff.mpr h.defined),
    consultImports_of_own h.own, firstImport_of_open hord hinterop h hopen]
  exact if_neg h.mem.2.2.2

/-- **Where it is screened, the definition stands.** -/
theorem run_of_screened (hinterop : q.view.unit.isInterop = true)
    (hallow : q.view.settings.enclosing = .allow) (hname : q.name.isConstructor = false)
    (h : q.SoleChallenger found e) (hscreened : q.Screened found e) :
    q.run.result = q.definitionResult found := by
  rw [run_of_allow hname hallow (definition?_eq_some_iff.mpr h.defined),
    consultImports_of_own h.own]
  cases himported : (q.firstImport (some (q.definitionKey found)) q.importLevels).1 with
  | none => rfl
  | some i => exact if_pos (unusable_of_screened hinterop h hscreened himported)

end NameResolution.Lookup.Query

namespace NameResolution

/-- **A single import that names the name at the depth of a definition of the unit makes it
ambiguous or leaves the definition in place. The lookup answers what the import binds only where
that is what the definition is, or what the constructors of the class are.** It is taken to end
(`Table.Settles`). -/
theorem Context.lookup_eq_challenger_iff {cx : Context} (hbuilt : cx.Built) {u : Universe}
    {s : Store} {name : Name} {qualifies : SymbolId → Bool}
    (hinterop : (s.session cx.session).unit.isInterop = true)
    (hallow : (s.session cx.session).settings.enclosing = .allow)
    {found : Lookup.Found} {e : Lookup.Binding}
    (h : (cx.query u name qualifies s).SoleChallenger found e) :
    let q := cx.query u name qualifies s
    let result := (cx.lookup u name qualifies s).1
    (name.isConstructor = true → result = q.constructorResult) ∧
    (name.isConstructor = false → ¬ q.Screened found e → result = q.contested found e) ∧
    (name.isConstructor = false → q.Screened found e → result = q.definitionResult found) ∧
    (result = Lookup.Query.win e ↔
      name.isConstructor = true ∧ q.constructorResult = Lookup.Query.win e ∨
      name.isConstructor = false ∧ q.Screened found e ∧
        q.definitionResult found = Lookup.Query.win e) := by
  intro q result
  have hord : q.Ordered := Lookup.Query.ordered_of_grown hbuilt.grown
  have hclass : name.isConstructor = true → result = q.constructorResult :=
    Lookup.Query.run_of_constructor (q := q)
  have hopen : name.isConstructor = false → ¬ q.Screened found e →
      result = q.contested found e := by
    intro hname
    exact Lookup.Query.run_of_open hord hinterop hallow hname h
  have hscreened : name.isConstructor = false → q.Screened found e →
      result = q.definitionResult found := by
    intro hname
    exact Lookup.Query.run_of_screened hinterop hallow hname h
  refine ⟨hclass, hopen, hscreened, ?_⟩
  cases hname : name.isConstructor with
  | true => simp [hclass hname]
  | false =>
    by_cases hscreens : q.Screened found e
    · simp [hscreened hname hscreens, hscreens]
    · -- an ambiguity is no success
      simp [hopen hname hscreens, hscreens, Lookup.Query.contested, Lookup.Query.win]

/-! ### Challenged definitions -/

namespace Challenge

/-- One session of a unit of the other language, and the scopes given. -/
def store (scopes : Array Scope) : Store where
  sessions := #[{ unit := ⟨⟨1⟩, .interop⟩, settings := { enclosing := .allow }, sink := 0 }]
  scopes := scopes

/-- The root context with an import that names the value of object 2. -/
def named : Context := (Sample.root.makeImport (Sample.naming ⟨2⟩) (store #[])).1

/-- Inside it, an import that names nothing but a member of another name. -/
def unrelated : Context :=
  (named.makeImport ⟨.path ⟨4⟩, [.named (.ofWord 12)], .dummy, false⟩ (store #[])).1

/-- The value of object 2, imported at the same depth. -/
def challenger : Lookup.Binding := ⟨⟨1, ⟨0, Sample.naming ⟨2⟩⟩⟩, .single ⟨3⟩⟩

end Challenge

/-- The value 3 of a block, against an import in the block that names the value of object 6. -/
theorem Context.lookup_eq_challenger_block :
    let s := Challenge.store #[.empty, Scope.empty.enter Sample.name ⟨3⟩]
    let block := (Sample.root.make .block .root 1 s).1
    let cx := (block.makeImport (Sample.naming ⟨6⟩) s).1
    let q := cx.query Sample.table.toUniverse Sample.name (fun _ => true) s
    let e : Lookup.Binding := ⟨⟨2, ⟨0, Sample.naming ⟨6⟩⟩⟩, .single ⟨7⟩⟩
    q.SoleChallenger ⟨.single ⟨3⟩, cx, false⟩ e ∧
      (cx.lookup Sample.table.toUniverse Sample.name (fun _ => true) s).1 =
        q.contested ⟨.single ⟨3⟩, cx, false⟩ e := by
  intro s block cx q e
  have hbuilt : Context.Built Sample.root := .openRoot 0 .root 0 _
  have hsole : q.SoleChallenger ⟨.single ⟨3⟩, cx, false⟩ e :=
    ⟨Lookup.Query.definition?_eq_some_iff.mp (by decide +kernel), by decide +kernel,
      by decide +kernel, by decide +kernel⟩
  have hcx : cx.Built := (hbuilt.make .block .root 1 s).makeImport _ s
  have hresults := lookup_eq_challenger_iff hcx rfl rfl hsole
  exact ⟨hsole, hresults.2.1 rfl (by decide +kernel)⟩

/-- **The challenger is never taken.** Alone it makes the name ambiguous; with an import inside that
has nothing to do with the name, the definition is taken. -/
theorem Context.lookup_challenged :
    let u := (Sample.tableBesides ⟨1⟩).toUniverse
    let s := Challenge.store #[]
    let challenges (cx : Context) :=
      (cx.query u Sample.name (fun _ => true) s).SoleChallenger Sample.besides Challenge.challenger
    let result (cx : Context) := (cx.lookup u Sample.name (fun _ => true) s).1
    (Challenge.named.Built ∧ challenges Challenge.named ∧ result Challenge.named =
      .ambiguous (.definedAndImported Sample.name .root ⟨.path ⟨2⟩, .dummy, true⟩)) ∧
    (Challenge.unrelated.Built ∧ challenges Challenge.unrelated ∧
      result Challenge.unrelated = .succeeded none (.single ⟨8⟩)) ∧
    Lookup.Query.win Challenge.challenger = .succeeded (some (.path ⟨2⟩)) (.single ⟨3⟩) := by
  intro u s challenges result
  have hroot : Context.Built Sample.root := .openRoot 0 .root 0 _
  have hnamed : Challenge.named.Built := hroot.makeImport _ _
  refine ⟨⟨hnamed, ?_, by decide +kernel⟩, ⟨hnamed.makeImport _ _, ?_, by decide +kernel⟩, rfl⟩
  · exact ⟨Lookup.Query.definition?_eq_some_iff.mp (by decide +kernel), by decide +kernel,
      by decide +kernel, by decide +kernel⟩
  · exact ⟨Lookup.Query.definition?_eq_some_iff.mp (by decide +kernel), by decide +kernel,
      by decide +kernel, by decide +kernel⟩

end NameResolution
