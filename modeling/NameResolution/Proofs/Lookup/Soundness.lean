import NameResolution.Proofs.Lookup.Winner
import NameResolution.Proofs.Members

/-!
# Where a resolved name comes from

A successful lookup yields qualifying declarations of one origin: entries of one scope, accessible
members of one class, or what one import makes available. Members and imports can be selected again
from the qualifier of the result. An entry of a scope need not be a member of anything, whatever the
result is qualified with.

* `Context.Origin`: the three origins, for all alternatives of a result together.
* `importable_of_boundBy`: what an import binds is among the members of its qualifier, under the
  name it has there.
* `Context.lookup_succeeded_origin`: every success has an origin.
* `Context.lookup_entry_not_member`: an entry that is qualified with a class it is no member of.
-/

namespace NameResolution

theorem Scope.mem_lookupAll {scope : Scope} {name : Name} {sym : SymbolId} :
    sym ∈ scope.lookupAll name ↔ (name, sym) ∈ scope.entries := by
  rw [lookupAll_eq]
  simp only [List.mem_map, List.mem_filter, beq_iff_eq, Array.mem_toList_iff]
  constructor
  · rintro ⟨entry, ⟨hentry, rfl⟩, rfl⟩
    exact hentry
  · intro h
    exact ⟨(name, sym), ⟨h, rfl⟩, rfl⟩

theorem Meaning.mem_of_filter {d kept : Meaning} {keep : SymbolId → Bool}
    (h : d.filter keep = some kept) {sym : SymbolId} (hsym : sym ∈ kept.alternatives) :
    sym ∈ d.alternatives ∧ keep sym = true := by
  rw [alternatives_of_ofList? h] at hsym
  exact List.mem_filter.mp hsym

/-! ### What imports bind -/

namespace ImportClause

variable {clause : ImportClause} {u : Universe} {name : Name}

/-- Whatever a selector binds is importable under some name. -/
theorem importable_of_bindSelector {closed : Bool} {selector : Selector} {meaning : Meaning}
    (h : clause.bindSelector u name closed selector = some meaning) :
    ∃ original, clause.importable u original = some meaning := by
  cases selector with
  | pick member rename =>
    unfold bindSelector at h
    dsimp only at h
    split at h
    · exact ⟨_, h⟩
    · cases h
  | hide member => cases h
  | wildcard =>
    unfold bindSelector at h
    dsimp only at h
    split at h
    · cases h
    · exact ⟨name, h⟩

theorem importable_of_bindFrom {selectors : List Selector} {position : Nat} {closed : Bool}
    {found : Nat × Meaning} (h : clause.bindFrom u name selectors position closed = some found) :
    ∃ original, clause.importable u original = some found.2 := by
  induction selectors generalizing position closed with
  | nil => cases h
  | cons selector rest ih =>
    unfold bindFrom at h
    split at h
    · rename_i meaning hselector
      cases h
      exact importable_of_bindSelector hselector
    · exact ih h

/-- Importable declarations are members of the qualifier and not restricted to their instance. -/
theorem mem_importable {original : Name} {meaning : Meaning}
    (h : clause.importable u original = some meaning) {sym : SymbolId}
    (hsym : sym ∈ meaning.alternatives) :
    sym ∈ u.members clause.qualifier original ∧ (u.flags sym).contains .instanceOnly = false := by
  rw [Meaning.alternatives_of_ofList? h, List.mem_filter, Bool.not_eq_true'] at hsym
  exact hsym

end ImportClause

namespace Lookup.Query

variable {q : Query}

/-- **What an import binds to the name** qualifies, is accessible through the import, and is among
the members of its qualifier under one name. -/
theorem importable_of_boundBy {explicitOnly : Bool} {level : ImportLevel} {meaning : Meaning}
    (h : q.boundBy explicitOnly level = some meaning) :
    ∃ original, ∀ sym ∈ meaning.alternatives, q.qualifies sym = true ∧
      q.isAccessible level.imp.clause.qualifier sym = true ∧
      sym ∈ q.view.program.members level.imp.clause.qualifier original ∧
      (q.view.program.flags sym).contains .instanceOnly = false := by
  obtain ⟨found, hbind, husable⟩ := Option.bind_eq_some_iff.mp h
  obtain ⟨original, himportable⟩ := ImportClause.importable_of_bindFrom hbind
  refine ⟨original, fun sym hsym => ?_⟩
  obtain ⟨hfound, hkeep⟩ := Meaning.mem_of_filter husable hsym
  obtain ⟨haccessible, hqualifies⟩ := Bool.and_eq_true_iff.mp hkeep
  exact ⟨hqualifies, haccessible, ImportClause.mem_importable himportable hfound⟩

end Lookup.Query

/-! ### Origins -/

namespace Context

variable (cx : Context) (t : Table) (s : Store)

/-- A symbol can be selected at the context: it is a member of the prefix under the name, and
accessible. -/
def Selects (pre : TypeRef) (name : Name) (sym : SymbolId) : Prop :=
  sym ∈ t.members pre name ∧ (cx.view t.toUniverse s).isAccessible cx sym pre false = true

/-- All alternatives can be selected by their names from the qualifier, if there is one. -/
def Reselects (qualifier : Option TypeRef) (meaning : Meaning) : Prop :=
  ∀ pre ∈ qualifier, ∀ sym ∈ meaning.alternatives, cx.Selects t s pre (t.name sym) sym

/-- Where all alternatives of a result come from. -/
inductive Origin (name : Name) (qualifier : Option TypeRef) (meaning : Meaning) : Prop where
  /-- Entries of one scope. A qualifier is the self type around it, whatever its members. -/
  | entered {c : Context} (hc : c ∈ cx.chain)
      (hentries : ∀ sym ∈ meaning.alternatives, (name, sym) ∈ (s.scope c.scope).entries)
      (hqualifier : qualifier = none ∨ qualifier = some c.enclosingClass.selfType)
  /-- Accessible members of one class. -/
  | member {c : Context} (hc : c ∈ cx.chain) (hclass : c.opensClass = true)
      (hselects : ∀ sym ∈ meaning.alternatives, cx.Selects t s c.selfType name sym)
      (hqualifier : qualifier = none ∨ qualifier = some c.selfType)
      (hagain : cx.Reselects t s qualifier meaning)
  /-- Accessible members of the qualifier of one import, not restricted to their instance. -/
  | imported {c : Context} {imp : Import} (hc : c ∈ cx.chain) (himp : c.imported = some imp)
      (hselects : ∀ sym ∈ meaning.alternatives,
        cx.Selects t s imp.clause.qualifier (t.name sym) sym)
      (hfree : ∀ sym ∈ meaning.alternatives, (t.flags sym).contains .instanceOnly = false)
      (hqualifier : qualifier = some imp.clause.qualifier)
      (hagain : cx.Reselects t s qualifier meaning)

variable {cx t s}

/-- What can be selected under one name can be selected again under its own. -/
theorem Selects.again {pre : TypeRef} {name : Name} {sym : SymbolId}
    (h : cx.Selects t s pre name sym) : cx.Selects t s pre (t.name sym) sym := by
  rw [Table.name_of_mem_members h.1]
  exact h

theorem reselects_of_selects {pre : TypeRef} {qualifier : Option TypeRef} {meaning : Meaning}
    (hqualifier : qualifier = none ∨ qualifier = some pre)
    (h : ∀ sym ∈ meaning.alternatives, cx.Selects t s pre (t.name sym) sym) :
    cx.Reselects t s qualifier meaning := by
  intro other hother sym hsym
  rcases hqualifier with rfl | rfl
  · cases hother
  · cases hother
    exact h sym hsym

/-- The qualifier of a definition is the self type around the context that holds it, if any. -/
theorem definitionResult_eq_succeeded {q : Lookup.Query} {found : Lookup.Found}
    {qualifier : Option TypeRef} {meaning : Meaning}
    (h : q.definitionResult found = .succeeded qualifier meaning) :
    (qualifier = none ∨ qualifier = some found.cx.enclosingClass.selfType) ∧
      found.meaning = meaning := by
  unfold Lookup.Query.definitionResult at h
  dsimp only at h
  split at h
  · cases h
    exact ⟨Or.inr rfl, rfl⟩
  · cases h
    exact ⟨Or.inl rfl, rfl⟩

variable {name : Name} {qualifies : SymbolId → Bool}

/-- The members that a class context defines qualify and can be selected from it. -/
theorem selects_of_definedAs {found : Lookup.Found}
    (h : (cx.query t.toUniverse name qualifies s).DefinedAs found) (hmember : found.isMember = true)
    {sym : SymbolId} (hsym : sym ∈ found.meaning.alternatives) :
    qualifies sym = true ∧ cx.Selects t s found.cx.selfType name sym := by
  cases h with
  | entries => cases hmember
  | members _ _ hgroup =>
    rw [Meaning.alternatives_of_ofList? hgroup] at hsym
    obtain ⟨hmembers, haccessible⟩ := List.mem_filter.mp hsym
    obtain ⟨hlisted, hqualifies⟩ := List.mem_filter.mp hmembers
    exact ⟨hqualifies, hlisted, haccessible⟩

/-- What an import binds qualifies and can be selected from its qualifier. -/
theorem selects_of_mem_bindings {w : Lookup.Binding}
    (hw : w ∈ (cx.query t.toUniverse name qualifies s).bindings)
    {sym : SymbolId} (hsym : sym ∈ w.meaning.alternatives) :
    qualifies sym = true ∧ cx.Selects t s w.clause.qualifier (t.name sym) sym ∧
      (t.flags sym).contains .instanceOnly = false := by
  obtain ⟨-, hbound⟩ := Lookup.Query.mem_bindings.mp hw
  obtain ⟨original, hall⟩ := Lookup.Query.importable_of_boundBy hbound
  obtain ⟨hqualifies, haccessible, hmember, hfree⟩ := hall sym hsym
  exact ⟨hqualifies, Selects.again ⟨hmember, haccessible⟩, hfree⟩

/-- **A definition qualifies and comes from its context.** -/
theorem origin_of_definition {found : Lookup.Found} {qualifier : Option TypeRef}
    {meaning : Meaning} (hdef : (cx.query t.toUniverse name qualifies s).InnermostDefinition found)
    (h : (cx.query t.toUniverse name qualifies s).definitionResult found =
      .succeeded qualifier meaning) :
    (∀ sym ∈ meaning.alternatives, qualifies sym = true) ∧
      cx.Origin t s name qualifier meaning := by
  obtain ⟨hqualifier, rfl⟩ := definitionResult_eq_succeeded h
  obtain ⟨⟨inner, outer, hchain, -⟩, hdefined⟩ := hdef
  have hc : found.cx ∈ cx.chain := by
    show found.cx ∈ (cx.query t.toUniverse name qualifies s).cx.chain
    rw [hchain]
    exact List.mem_append_right _ List.mem_cons_self
  cases hdefined with
  | @entries c meaning hgroup =>
    have hentries : ∀ sym ∈ meaning.alternatives,
        sym ∈ (s.scope c.scope).lookupAll name ∧ qualifies sym = true := by
      rw [Meaning.alternatives_of_ofList? hgroup]
      exact fun sym hsym => List.mem_filter.mp hsym
    refine ⟨fun sym hsym => (hentries sym hsym).2, .entered hc (fun sym hsym => ?_) hqualifier⟩
    exact Scope.mem_lookupAll.mp (hentries sym hsym).1
  | @members c meaning hnone hclass hgroup =>
    have hselected : ∀ sym ∈ meaning.alternatives,
        qualifies sym = true ∧ cx.Selects t s c.selfType name sym :=
      fun sym hsym => selects_of_definedAs (.members hnone hclass hgroup) rfl hsym
    dsimp only at hqualifier
    rw [enclosingClass_of_opensClass hclass] at hqualifier
    refine ⟨fun sym hsym => (hselected sym hsym).1,
      .member hc hclass (fun sym hsym => (hselected sym hsym).2) hqualifier ?_⟩
    exact reselects_of_selects hqualifier fun sym hsym => (hselected sym hsym).2.again

/-- **What an import binds qualifies and comes from its qualifier.** -/
theorem origin_of_binding {w : Lookup.Binding}
    (hw : w ∈ (cx.query t.toUniverse name qualifies s).bindings) :
    (∀ sym ∈ w.meaning.alternatives, qualifies sym = true) ∧
      cx.Origin t s name (some w.clause.qualifier) w.meaning := by
  obtain ⟨c, hc, himp, -⟩ :=
    Lookup.Query.mem_importLevels.mp (Lookup.Query.mem_bindings.mp hw).1
  have hselects : ∀ sym ∈ w.meaning.alternatives,
      cx.Selects t s w.clause.qualifier (t.name sym) sym :=
    fun sym hsym => (selects_of_mem_bindings hw hsym).2.1
  refine ⟨fun sym hsym => (selects_of_mem_bindings hw hsym).1, ?_⟩
  exact .imported hc himp hselects (fun sym hsym => (selects_of_mem_bindings hw hsym).2.2) rfl
    (reselects_of_selects (Or.inr rfl) hselects)

/-- **Every success qualifies and has an origin.** Who may select the alternatives is told by
searches that end where owners run in no circle (`Table.Settles`). -/
theorem lookup_succeeded_origin (hbuilt : cx.Built) (hname : name.isConstructor = false)
    {qualifier : Option TypeRef} {meaning : Meaning}
    (h : (cx.lookup t.toUniverse name qualifies s).1 = .succeeded qualifier meaning) :
    (∀ sym ∈ meaning.alternatives, qualifies sym = true) ∧
      cx.Origin t s name qualifier meaning := by
  have hcarried := Lookup.Query.carried_of_run (Lookup.Query.ordered_of_grown hbuilt.grown) h
  -- The result is an index of `Carried`, so it is named before the cases.
  generalize hresult : LookupResult.succeeded qualifier meaning = result at hcarried
  cases hcarried with
  | ofClass hconstructor =>
    have hsame : name.isConstructor = true := hconstructor
    rw [hname] at hsame
    cases hsame
  | defined _ hdef _ => exact origin_of_definition hdef hresult.symm
  | imported _ _ hprevails =>
    cases hresult
    exact origin_of_binding hprevails.mem

/-- A value imported under another name. -/
theorem lookup_succeeded_origin_renamed :
    let s := Sample.store #[]
    let clause : ImportClause :=
      ⟨.path ⟨4⟩, [.renamed Sample.name (.ofWord 12)], .dummy, false⟩
    let cx := (Sample.root.makeImport clause s).1
    (∀ sym ∈ (Meaning.single ⟨5⟩).alternatives, (sym == ⟨5⟩) = true) ∧
      cx.Origin Sample.table s (.ofWord 12) (some (.path ⟨4⟩)) (.single ⟨5⟩) :=
  have hbuilt : Context.Built Sample.root := .openRoot 0 .root 0 _
  lookup_succeeded_origin (hbuilt.makeImport _ _) rfl (by decide +kernel)

/-- **An entry need not be a member of the class that qualifies it.** The template of one class has
an entry for a value that another class declares. -/
theorem lookup_entry_not_member :
    let (one, t) := Table.initial.addClass .root (.ofWord 9)
    let (other, t) := t.addClass .root (.ofWord 10)
    let (value, t) := t.addValue other Sample.name ∅
    let s := Sample.store #[.empty, Scope.empty.enter Sample.name value]
    let cx := (Sample.root.make .template one 1 s).1
    (cx.lookup t.toUniverse Sample.name (fun _ => true) s).1 =
        .succeeded (some (.self one)) (.single value) ∧
      t.members (.self one) (t.name value) = [] := by
  decide +kernel

end Context

end NameResolution
