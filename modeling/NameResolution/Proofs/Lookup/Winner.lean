import NameResolution.Proofs.Lookup.Arbitration

/-!
# What carries a successful lookup

A lookup succeeds through the enclosing class, through the innermost definition or through an
import; `Carried` says which, and what the others then have to be like.

* `prevails_of_verdict`: an import that wins the contest prevails over all that bind the name. None
  of them lies deeper, and those that could compete with it agree with it (`Prevails`).
* `consultImports_own_succeeded`: where a definition of the unit is found, a success is its own.
* `Context.lookup_succeeded_carried`: every successful lookup is carried, in units of either
  language and under every policy.
-/

namespace NameResolution.Lookup.Query

variable (q : Query)

/-- An import prevails if no binding lies deeper and none of equal standing says anything else: for
a named one, no other named one at its depth; for a wildcard, nothing at its depth, where nothing
may be named, and nothing that is bound by name further out. -/
structure Prevails (w : Binding) : Prop where
  mem : w ∈ q.bindings
  deepest : ∀ b ∈ q.bindings, b.depth ≤ w.depth
  named : q.isExplicit w = true →
    ∀ b ∈ q.bindings, b.depth = w.depth → q.isExplicit b = true → q.Agree w b
  peers : q.isExplicit w = false →
    ∀ b ∈ q.bindings, b.depth = w.depth → q.isExplicit b = false ∧ q.Agree w b
  outer : q.isExplicit w = false →
    ∀ b ∈ q.namedBindings, b.depth < w.depth → q.Agree w b

/-- What the result of a successful lookup comes from. -/
inductive Carried : LookupResult → Prop where
  /-- The name of constructors is looked up in the enclosing class alone. -/
  | ofClass (hname : q.name.isConstructor = true) : Carried q.constructorResult
  /-- The innermost definition carries it unless it is foreign and some import binds the name. -/
  | defined {found : Found} (hname : q.name.isConstructor = false)
      (hdef : q.InnermostDefinition found)
      (hstands : q.isForeign found.meaning = false ∨ q.bindings = []) :
      Carried (q.definitionResult found)
  /-- Otherwise an import carries it with what it binds, and that import prevails. -/
  | imported {w : Binding} (hname : q.name.isConstructor = false)
      (hyields : ∀ found, q.InnermostDefinition found → q.isForeign found.meaning = true)
      (hprevails : q.Prevails w) : Carried (win w)

variable {q}

/-! ### The import that prevails -/

/-- **The winner of the contest prevails.** -/
theorem prevails_of_verdict (hord : q.Ordered) {first : Binding} {qualifier : Option TypeRef}
    {meaning : Meaning} (hfirst : q.bindings.head? = some first)
    (h : q.importVerdict first = .succeeded qualifier meaning) :
    ∃ w, q.Prevails w ∧ win w = .succeeded qualifier meaning := by
  have hmem : first ∈ q.peersAt first.depth := List.mem_of_mem_head? (peersAt_head? hfirst)
  obtain ⟨w, hw, ⟨rfl, rfl⟩, hnamed, hwild⟩ := contest_eq_succeeded hmem h
  obtain ⟨hbound, hdepth⟩ := mem_peersAt.mp hw
  -- The winner lies at the depth of the first binding, so both have the same peers.
  have hpeers : ∀ b ∈ q.bindings, b.depth = w.depth → b ∈ q.peersAt first.depth := by
    intro b hb heq
    exact mem_peersAt.mpr ⟨hb, heq.trans hdepth⟩
  refine ⟨w, ⟨hbound, ?_, ?_, ?_, ?_⟩, rfl⟩
  · intro b hb
    rw [hdepth]
    exact depth_le_of_head? hord hfirst hb
  · intro hexp b hb heq
    exact hnamed hexp b (hpeers b hb heq)
  · intro hexp b hb heq
    exact (hwild hexp).1 b (hpeers b hb heq)
  · intro hexp b hb hlt
    rw [hdepth] at hlt
    exact (hwild hexp).2 b (List.mem_filter.mpr ⟨hb, decide_eq_true hlt⟩)

/-! ### Successes -/

theorem failure_ne_succeeded {qualifier : Option TypeRef} {meaning : Meaning} :
    q.failure ≠ .succeeded qualifier meaning := by
  unfold failure
  split <;> exact LookupResult.noConfusion

/-- A definition of the unit is never given up for an import, in a unit of either language. -/
theorem consultImports_own_succeeded {found : Found} {qualifier : Option TypeRef}
    {meaning : Meaning} (hown : q.isForeign found.meaning = false)
    (h : (q.consultImports (some found)).result = .succeeded qualifier meaning) :
    q.definitionResult found = .succeeded qualifier meaning := by
  rw [consultImports_of_own hown] at h
  split at h
  · exact h
  · split at h
    · exact h
    · cases h

/-- A successful search is carried by an import where no definition stands against it. -/
theorem carried_of_verdict (hord : q.Ordered) {first : Binding} {qualifier : Option TypeRef}
    {meaning : Meaning} (hname : q.name.isConstructor = false)
    (hyields : ∀ found, q.InnermostDefinition found → q.isForeign found.meaning = true)
    (hfirst : q.bindings.head? = some first)
    (h : q.importVerdict first = .succeeded qualifier meaning) :
    q.Carried (.succeeded qualifier meaning) := by
  obtain ⟨w, hprevails, hwin⟩ := prevails_of_verdict hord hfirst h
  rw [← hwin]
  exact .imported hname hyields hprevails

/-- **Every success is carried.** The cases are those of the search: no definition, a foreign one,
one of the unit. -/
theorem carried_of_run (hord : q.Ordered) {qualifier : Option TypeRef} {meaning : Meaning}
    (h : q.run.result = .succeeded qualifier meaning) :
    q.Carried (.succeeded qualifier meaning) := by
  cases hname : q.name.isConstructor with
  | true =>
    rw [run_of_constructor hname] at h
    rw [← h]
    exact .ofClass hname
  | false =>
    cases hdef : q.definition? with
    | none =>
      rw [run_of_none hname hdef, consultImports_none hord] at h
      cases hfirst : q.bindings.head? with
      | none =>
        rw [hfirst] at h
        exact absurd h failure_ne_succeeded
      | some first =>
        rw [hfirst] at h
        refine carried_of_verdict hord hname (fun found hfound => ?_) hfirst h
        exact absurd hfound (definition?_eq_none_iff_not_exists.mp hdef found)
    | some found =>
      have hinner := definition?_eq_some_iff.mp hdef
      -- A definition that the policy rejects is an ambiguity, so the imports were consulted.
      have hconsult : (q.consultImports (some found)).result = .succeeded qualifier meaning := by
        simp only [run, hname, hdef, Bool.false_eq_true, if_false] at h
        split at h
        · cases h
        · exact h
      cases hforeign : q.isForeign found.meaning with
      | false =>
        rw [← consultImports_own_succeeded hforeign hconsult]
        exact .defined hname hinner (Or.inl hforeign)
      | true =>
        rw [consultImports_foreign hord hforeign] at hconsult
        cases hfirst : q.bindings.head? with
        | none =>
          rw [hfirst] at hconsult
          rw [← hconsult]
          exact .defined hname hinner (Or.inr (List.head?_eq_none_iff.mp hfirst))
        | some first =>
          rw [hfirst] at hconsult
          refine carried_of_verdict hord hname (fun other hother => ?_) hfirst hconsult
          rw [← definition?_eq_some_iff, hdef] at hother
          cases hother
          exact hforeign

end NameResolution.Lookup.Query

namespace NameResolution

/-- **A lookup that ends, as it does where owners run in no circle (`Table.Settles`), and succeeds
through an import succeeds through one that prevails.** -/
theorem Context.lookup_succeeded_carried {cx : Context} (hbuilt : cx.Built) {u : Universe}
    {s : Store} {name : Name} {qualifies : SymbolId → Bool} {qualifier : Option TypeRef}
    {meaning : Meaning} (h : (cx.lookup u name qualifies s).1 = .succeeded qualifier meaning) :
    (cx.query u name qualifies s).Carried (.succeeded qualifier meaning) :=
  Lookup.Query.carried_of_run (Lookup.Query.ordered_of_grown hbuilt.grown) h

/-- An import that names the value of one object, around one of everything from another. -/
theorem Context.lookup_succeeded_carried_named :
    let s := Sample.store #[]
    let named := (Sample.root.makeImport (Sample.naming ⟨6⟩) s).1
    let cx := (named.makeImport (Sample.everything ⟨4⟩) s).1
    (cx.query Sample.table.toUniverse Sample.name (fun _ => true) s).Carried
      (.succeeded (some (.path ⟨6⟩)) (.single ⟨7⟩)) :=
  have hbuilt : Context.Built Sample.root := .openRoot 0 .root 0 _
  lookup_succeeded_carried ((hbuilt.makeImport _ _).makeImport _ _) (by decide +kernel)

end NameResolution
