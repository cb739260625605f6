import NameResolution.Proofs.Lookup.Enclosing
import NameResolution.Proofs.Lookup.Soundness
import NameResolution.Proofs.Lookup.Visibility

/-!
# Imports that tie

Two imports make a name ambiguous if they bind it to different things. What an import binds is a
group of declarations under the class of its qualifier, and groups count as different if their
classes are.

* `contest_tied`, `importVerdict_tied`: an ambiguity of imports names two imports that could compete
  with each other and disagree (`Rivals`). No other step of a lookup finds imports ambiguous
  (`run_tied`).
* `ofList?_of_boundBy`: a binding is settled by its qualifier and the declarations in it, for
  leaving some declarations out keeps the class of the others.
* `Context.lookup_tied`: imports that tie bind different declarations, except that both may bind one
  overload group through qualifiers of different classes (`SplitsGroup`).
* `Context.lookup_splits_group`: two objects that inherit the same overloaded method.
-/

namespace NameResolution.Lookup.Query

variable (q : Query)

/-- Two imports that may compete: nothing binds the name deeper than the first, and the second binds
it at the same depth, or further out by name. -/
structure Rivals (a b : Binding) : Prop where
  mem : a ∈ q.bindings
  deepest : ∀ c ∈ q.bindings, c.depth ≤ a.depth
  rival : (b ∈ q.bindings ∧ b.depth = a.depth) ∨ (b ∈ q.namedBindings ∧ b.depth < a.depth)

/-- Two imports bind the same overload group and list it under different classes. -/
def SplitsGroup (a b : Binding) : Prop :=
  ∃ group, a.meaning = .overloaded (q.view.program.classOf a.clause.qualifier) group ∧
    b.meaning = .overloaded (q.view.program.classOf b.clause.qualifier) group ∧
    q.view.program.classOf a.clause.qualifier ≠ q.view.program.classOf b.clause.qualifier

variable {q}

/-! ### Who ties -/

theorem not_agree_of_find? {leader rival : Binding} {rivals : List Binding}
    (h : rivals.find? (fun rival => !q.agrees leader rival) = some rival) :
    rival ∈ rivals ∧ ¬ q.Agree leader rival := by
  refine ⟨List.mem_of_find?_eq_some h, fun hagree => ?_⟩
  have hdisagree := List.find?_some h
  rw [agrees_iff.mpr hagree] at hdisagree
  cases hdisagree

theorem judge_tied {leader : Binding} {rivals : List Binding} {ambiguity : Ambiguity}
    (h : q.judge leader rivals = .ambiguous ambiguity) :
    ∃ rival ∈ rivals, ¬ q.Agree leader rival ∧ q.tie leader rival = .ambiguous ambiguity := by
  unfold judge at h
  split at h
  · rename_i rival hfind
    obtain ⟨hrival, hdisagree⟩ := not_agree_of_find? hfind
    exact ⟨rival, hrival, hdisagree, h⟩
  · cases h

/-- The contest ties one of the peers with another, or with what is bound by name further out. -/
theorem contest_tied {innermost : Binding} {peers outer : List Binding} {ambiguity : Ambiguity}
    (hmem : innermost ∈ peers) (h : q.contest innermost peers outer = .ambiguous ambiguity) :
    ∃ a ∈ peers, ∃ b, (b ∈ peers ∨ b ∈ outer) ∧ ¬ q.Agree a b ∧
      q.tie a b = .ambiguous ambiguity := by
  unfold contest at h
  split at h
  · obtain ⟨rival, hrival, hdisagree, htie⟩ := judge_tied h
    exact ⟨innermost, hmem, rival, List.mem_append.mp hrival, hdisagree, htie⟩
  · rename_i leader hleader
    split at h
    · rename_i rival hfind
      obtain ⟨hinside, hdisagree⟩ := not_agree_of_find? hfind
      have hrival : rival ∈ peers := (List.takeWhile_sublist _).subset hinside
      exact ⟨innermost, hmem, rival, Or.inl hrival, hdisagree, h⟩
    · obtain ⟨rival, hrival, hdisagree, htie⟩ := judge_tied h
      exact ⟨leader, List.mem_of_find?_eq_some hleader, rival,
        Or.inl (List.mem_filter.mp hrival).1, hdisagree, htie⟩

/-- **On a built chain the contest ties rivals that disagree.** -/
theorem importVerdict_tied (hord : q.Ordered) {first : Binding} {ambiguity : Ambiguity}
    (hfirst : q.bindings.head? = some first)
    (h : q.importVerdict first = .ambiguous ambiguity) :
    ∃ a b, q.Rivals a b ∧ ¬ q.Agree a b ∧ q.tie a b = .ambiguous ambiguity := by
  have hmem : first ∈ q.peersAt first.depth := List.mem_of_mem_head? (peersAt_head? hfirst)
  obtain ⟨a, ha, b, hb, hdisagree, htie⟩ := contest_tied hmem h
  obtain ⟨hbound, hdepth⟩ := mem_peersAt.mp ha
  refine ⟨a, b, ⟨hbound, fun c hc => ?_, ?_⟩, hdisagree, htie⟩
  · rw [hdepth]
    exact depth_le_of_head? hord hfirst hc
  · rw [hdepth]
    refine hb.imp mem_peersAt.mp fun houter => ?_
    obtain ⟨hnamed, hlt⟩ := List.mem_filter.mp houter
    exact ⟨hnamed, of_decide_eq_true hlt⟩

/-! ### Where ties come from -/

theorem constructorResult_ne_ambiguous {ambiguity : Ambiguity} :
    q.constructorResult ≠ .ambiguous ambiguity := by
  unfold constructorResult
  dsimp only
  split <;> exact LookupResult.noConfusion

theorem failure_ne_ambiguous {ambiguity : Ambiguity} : q.failure ≠ .ambiguous ambiguity := by
  unfold failure
  split <;> exact LookupResult.noConfusion

/-- A definition of the unit is tied with an import, never two imports with each other. -/
theorem consultImports_own_ne_imports {found : Found} (hown : q.isForeign found.meaning = false)
    {tied : Name} {one other : ImportSite} :
    (q.consultImports (some found)).result ≠ .ambiguous (.imports tied one other) := by
  rw [consultImports_of_own hown]
  split
  · exact LookupResult.noConfusion
  · split
    · exact LookupResult.noConfusion
    · exact fun h => nomatch LookupResult.ambiguous.inj h

/-- **A lookup finds imports ambiguous only where the contest does.** The cases are those of the
search: the name of constructors, no definition, a foreign one, one of the unit. -/
theorem run_tied (hord : q.Ordered) {tied : Name} {one other : ImportSite}
    (h : q.run.result = .ambiguous (.imports tied one other)) :
    ∃ a b, q.Rivals a b ∧ ¬ q.Agree a b ∧ q.tie a b = .ambiguous (.imports tied one other) := by
  cases hname : q.name.isConstructor with
  | true =>
    rw [run_of_constructor hname] at h
    exact absurd h constructorResult_ne_ambiguous
  | false =>
    cases hdef : q.definition? with
    | none =>
      rw [run_of_none hname hdef, consultImports_none hord] at h
      cases hfirst : q.bindings.head? with
      | none =>
        rw [hfirst] at h
        exact absurd h failure_ne_ambiguous
      | some first =>
        rw [hfirst] at h
        exact importVerdict_tied hord hfirst h
    | some found =>
      rw [run_eq_verdict hname hdef] at h
      have hconsult : (q.consultImports (some found)).result =
          .ambiguous (.imports tied one other) := by
        unfold verdict at h
        split at h
        · cases h
        · exact h
      cases hforeign : q.isForeign found.meaning with
      | false => exact absurd hconsult (consultImports_own_ne_imports hforeign)
      | true =>
        rw [consultImports_foreign hord hforeign] at hconsult
        cases hfirst : q.bindings.head? with
        | none =>
          rw [hfirst] at hconsult
          cases hconsult
        | some first =>
          rw [hfirst] at hconsult
          exact importVerdict_tied hord hfirst hconsult

/-! ### What rivals bind -/

/-- **A binding lists its declarations under the class of its qualifier.** -/
theorem ofList?_of_boundBy {explicitOnly : Bool} {level : ImportLevel} {meaning : Meaning}
    (h : q.boundBy explicitOnly level = some meaning) :
    Meaning.ofList? (q.view.program.classOf level.imp.clause.qualifier) meaning.alternatives =
      some meaning := by
  obtain ⟨⟨position, whole⟩, hbind, husable⟩ := Option.bind_eq_some_iff.mp h
  obtain ⟨original, himportable⟩ := ImportClause.importable_of_bindFrom hbind
  -- What is usable of the whole group is grouped as the whole group is.
  have hgroup : (level.imp.clause.importable q.view.program original).bind (·.filter fun sym =>
      q.isAccessible level.imp.clause.qualifier sym && q.qualifies sym) = some meaning := by
    rw [himportable]
    exact husable
  rw [ImportClause.importable, Meaning.ofList?_bind_filter] at hgroup
  rw [Meaning.alternatives_of_ofList? hgroup]
  exact hgroup

/-- The rival is bound by its import, with wildcards or without. -/
theorem Rivals.boundBy {a b : Binding} (h : q.Rivals a b) :
    ∃ explicitOnly, q.boundBy explicitOnly b.level = some b.meaning := by
  rcases h.rival with ⟨hmem, -⟩ | ⟨hmem, -⟩
  · exact ⟨false, (mem_bindings.mp hmem).2⟩
  · exact ⟨true, (mem_bindingsOf.mp hmem).2⟩

/-- **Rivals that disagree bind the same declarations exactly if they split a group.** A single
declaration is not listed under any class. -/
theorem Rivals.alternatives_eq_iff {a b : Binding} (h : q.Rivals a b)
    (hdisagree : ¬ q.Agree a b) :
    a.meaning.alternatives = b.meaning.alternatives ↔ q.SplitsGroup a b := by
  have ha := ofList?_of_boundBy (mem_bindings.mp h.mem).2
  obtain ⟨explicitOnly, hbound⟩ := h.boundBy
  have hb := ofList?_of_boundBy hbound
  constructor
  · intro hsame
    rw [hsame] at ha
    generalize b.meaning.alternatives = group at ha hb
    rcases group with _ | ⟨first, _ | ⟨second, rest⟩⟩
    · cases ha
    · have hsingle : a.meaning = .single first := (Option.some.inj ha).symm
      exact absurd (Or.inl (hsingle.trans (Option.some.inj hb))) hdisagree
    · have ha := Option.some.inj ha
      have hb := Option.some.inj hb
      refine ⟨first :: second :: rest, ha.symm, hb.symm, fun hclass => hdisagree (Or.inl ?_)⟩
      rw [← ha, ← hb, hclass]
  · rintro ⟨group, ha, hb, -⟩
    rw [ha, hb]
    rfl

end NameResolution.Lookup.Query

namespace NameResolution

/-- **Imports that tie are rivals that disagree, and they bind the same declarations exactly if they
split an overload group.** The lookup is taken to end (`Table.Settles`). -/
theorem Context.lookup_tied {cx : Context} (hbuilt : cx.Built) {u : Universe} {s : Store}
    {name : Name} {qualifies : SymbolId → Bool} {tied : Name} {one other : ImportSite}
    (h : (cx.lookup u name qualifies s).1 = .ambiguous (.imports tied one other)) :
    ∃ a b, (cx.query u name qualifies s).Rivals a b ∧
      tied = name ∧ one = a.clause.site name ∧ other = b.clause.site name ∧
      ¬ (cx.query u name qualifies s).Agree a b ∧
      (a.meaning.alternatives = b.meaning.alternatives ↔
        (cx.query u name qualifies s).SplitsGroup a b) := by
  obtain ⟨a, b, hrivals, hdisagree, htie⟩ :=
    Lookup.Query.run_tied (Lookup.Query.ordered_of_grown hbuilt.grown) h
  cases htie
  exact ⟨a, b, hrivals, rfl, rfl, rfl, hdisagree, hrivals.alternatives_eq_iff hdisagree⟩

/-- The values of two objects, each imported by name. -/
theorem Context.lookup_tied_named :
    let s := Sample.store #[]
    let cx := ((Sample.root.makeImport (Sample.naming ⟨6⟩) s).1.makeImport (Sample.naming ⟨4⟩) s).1
    let q := cx.query Sample.table.toUniverse Sample.name (fun _ => true) s
    ∃ a b, q.Rivals a b ∧ Sample.name = Sample.name ∧
      (⟨.path ⟨4⟩, .dummy, true⟩ : ImportSite) = a.clause.site Sample.name ∧
      (⟨.path ⟨6⟩, .dummy, true⟩ : ImportSite) = b.clause.site Sample.name ∧ ¬ q.Agree a b ∧
      (a.meaning.alternatives = b.meaning.alternatives ↔ q.SplitsGroup a b) :=
  have hbuilt : Context.Built Sample.root := .openRoot 0 .root 0 _
  lookup_tied ((hbuilt.makeImport _ _).makeImport _ _) (by decide +kernel)

/-! ### An inherited group -/

namespace InheritedGroup

/-- Class 2 with methods 3 and 4 of one name, and the objects 5 and 6 below it. -/
def table : Table :=
  let t := (Table.initial.addClass .root (.ofWord 9)).2
  let t := ((t.addMethod ⟨2⟩ Sample.name ∅).2.addMethod ⟨2⟩ Sample.name ∅).2
  let t := ((t.addObject .root (.ofWord 10)).2.addObject .root (.ofWord 11)).2
  (t.addParent ⟨5⟩ ⟨2⟩).addParent ⟨6⟩ ⟨2⟩

end InheritedGroup

/-- **Two objects inherit the same overloaded method from one class, and importing it from both
makes it ambiguous.** -/
theorem Context.lookup_splits_group :
    let u := InheritedGroup.table.toUniverse
    let s := Sample.store #[]
    let cx := ((Sample.root.makeImport (Sample.naming ⟨5⟩) s).1.makeImport (Sample.naming ⟨6⟩) s).1
    let q := cx.query u Sample.name (fun _ => true) s
    cx.Built ∧
      q.bindings.map (fun b => (b.clause.qualifier, b.meaning.alternatives)) =
        [(.path ⟨6⟩, [⟨3⟩, ⟨4⟩]), (.path ⟨5⟩, [⟨3⟩, ⟨4⟩])] ∧
      (cx.lookup u Sample.name (fun _ => true) s).1 =
        .ambiguous (.imports Sample.name ⟨.path ⟨6⟩, .dummy, true⟩ ⟨.path ⟨5⟩, .dummy, true⟩) := by
  have hroot : Context.Built Sample.root := .openRoot 0 .root 0 _
  exact ⟨(hroot.makeImport _ _).makeImport _ _, by decide +kernel, by decide +kernel⟩

end NameResolution
