import Mathlib.Data.List.Basic
import NameResolution.Proofs.Lookup.Enclosing

/-!
# Declarations that do not count

A lookup takes only declarations that pass a test. `restrict` takes the others out of the scopes and
of the answers of the universe before the lookup starts, so that the test has nothing left to do.
Definitions and what is reported for want of one do not tell the difference
(`definition?_restricted`, `failure_restricted`). Two of the searches do:

* `enclosingCandidateAt?_restricted_iff`: at a class, entries of the scope that all fail the test
  keep the declared members from being looked at (`Screens`);
* `boundBy_restricted_iff`: of the selectors of an import the first that binds anything counts, also
  if all it binds fails the test (`Obstructs`).

Where neither happens, what fails the test is as good as not there (`Context.lookup_restrict_eq`).
`Context.lookup_obstructed` is a program where it does.
-/

namespace NameResolution

/-! ### Leaving out declarations -/

def Universe.restrict (u : Universe) (keep : SymbolId → Bool) : Universe :=
  { u with
    members := fun ty name => (u.members ty name).filter keep
    declared := fun ty name => (u.declared ty name).filter keep }

def Scope.restrict (scope : Scope) (keep : SymbolId → Bool) : Scope :=
  Scope.empty.enterAll (scope.entries.toList.filter fun entry => keep entry.2)

/-- The store without the entries that fail a test. -/
def Store.restrict (s : Store) (keep : SymbolId → Bool) : Store :=
  { s with scopes := s.scopes.map (·.restrict keep) }

/-- Every scope answers what it answered before, less what fails the test. -/
theorem Scope.lookupAll_restrict (scope : Scope) (keep : SymbolId → Bool) (name : Name) :
    (scope.restrict keep).lookupAll name = (scope.lookupAll name).filter keep := by
  rw [restrict, lookupAll_enterAll, lookupAll_eq scope, List.filter_map, List.filter_comm]
  rfl

theorem Store.scope_restrict (s : Store) (keep : SymbolId → Bool) (id : ScopeId) :
    (s.restrict keep).scope id = (s.scope id).restrict keep := by
  unfold scope restrict
  rw [Array.getElem?_map]
  cases s.scopes[id]? <;> rfl

/-- Hidden declarations have the owners they had. -/
theorem Universe.owners_restrict (u : Universe) (keep : SymbolId → Bool) :
    (u.restrict keep).owners = u.owners := by
  have hwithin : ∀ limit sym,
      (u.restrict keep).ownersWithin limit sym = u.ownersWithin limit sym := by
    intro limit
    induction limit with
    | zero => exact fun _ => rfl
    | succ limit ih =>
      intro sym
      simp only [ownersWithin, ih]
      rfl
  exact funext fun sym => hwithin (u.size + 1) sym

theorem Universe.pathText_restrict (u : Universe) (keep : SymbolId → Bool) (names : Interner) :
    (u.restrict keep).pathText names = u.pathText names := by
  funext sym
  unfold pathText pathSymbols
  rw [owners_restrict]
  rfl

theorem Denial.text_restrict (u : Universe) (keep : SymbolId → Bool) (names : Interner)
    (denial : Denial) : denial.text (u.restrict keep) names = denial.text u names := by
  have hpath := u.pathText_restrict keep names
  have htype : ∀ ty, (u.restrict keep).typeText names ty = u.typeText names ty := by
    intro ty
    cases ty with
    | noPrefix => rfl
    | error => rfl
    | self sym => rfl
    | path sym => exact congrFun hpath sym
    | named sym => exact congrFun hpath sym
  unfold text
  rw [hpath, funext htype]

namespace Meaning

/-- Grouping commutes with leaving out. -/
theorem ofList?_bind_filter (owner : SymbolId) (symbols : List SymbolId) (keep : SymbolId → Bool) :
    (ofList? owner symbols).bind (·.filter keep) = ofList? owner (symbols.filter keep) := by
  rcases symbols with _ | ⟨a, _ | ⟨b, rest⟩⟩
  · rfl
  · show ofList? .absent ([a].filter keep) = ofList? owner ([a].filter keep)
    cases hkeep : keep a <;> simp [hkeep, ofList?]
  · rfl

theorem filter_bind_filter (d : Meaning) (first second : SymbolId → Bool) :
    (d.filter first).bind (·.filter second) = d.filter fun sym => second sym && first sym := by
  unfold filter
  rw [show (fun d : Meaning => ofList? d.owner (d.alternatives.filter second)) =
    fun d => d.filter second from rfl, ofList?_bind_filter, List.filter_filter]

/-- Nothing is left exactly if no alternative is kept. -/
theorem filter_eq_none_iff {d : Meaning} {keep : SymbolId → Bool} :
    d.filter keep = none ↔ d.alternatives.any keep = false := by
  rw [filter, ofList?_eq_none_iff, List.filter_eq_nil_iff]
  simp

end Meaning

/-! ### What selectors bind -/

namespace ImportClause

variable {clause : ImportClause} {u : Universe} {name : Name} {keep : SymbolId → Bool}

/-- What may be imported is filtered. -/
theorem importable_restrict :
    clause.importable (u.restrict keep) name =
      (clause.importable u name).bind (·.filter keep) := by
  unfold importable
  rw [Meaning.ofList?_bind_filter]
  show Meaning.ofList? (u.classOf clause.qualifier)
    (((u.members clause.qualifier name).filter keep).filter _) = _
  rw [List.filter_comm]
  rfl

/-- A selector binds the part that is kept. -/
theorem bindSelector_restrict {closed : Bool} {selector : Selector} :
    clause.bindSelector (u.restrict keep) name closed selector =
      (clause.bindSelector u name closed selector).bind (·.filter keep) := by
  cases selector with
  | pick member rename =>
    unfold bindSelector
    dsimp only
    split
    · exact importable_restrict
    · rfl
  | hide member => rfl
  | wildcard =>
    cases closed with
    | true => rfl
    | false => exact importable_restrict

variable (clause u name) in
/-- What the listed selectors bind to the name, each of them that does, in their order. -/
def meaningsFrom : List Selector → Bool → List Meaning
  | [], _ => []
  | selector :: rest, closed =>
    (clause.bindSelector u name closed selector).toList ++
      meaningsFrom rest (closed || selector.takesAway name.toTerm)

/-- The first selector that binds anything decides. -/
theorem bindFrom_map_snd (selectors : List Selector) (position : Nat) (closed : Bool) :
    (clause.bindFrom u name selectors position closed).map Prod.snd =
      (clause.meaningsFrom u name selectors closed).head? := by
  induction selectors generalizing position closed with
  | nil => rfl
  | cons selector rest ih =>
    rw [bindFrom, meaningsFrom]
    cases clause.bindSelector u name closed selector with
    | none => exact ih (position + 1) _
    | some meaning => rfl

/-- The selectors bind what they bound, as far as it is kept. -/
theorem meaningsFrom_restrict (selectors : List Selector) (closed : Bool) :
    clause.meaningsFrom (u.restrict keep) name selectors closed =
      (clause.meaningsFrom u name selectors closed).filterMap (·.filter keep) := by
  induction selectors generalizing closed with
  | nil => rfl
  | cons selector rest ih =>
    rw [meaningsFrom, meaningsFrom, bindSelector_restrict, ih, List.filterMap_append]
    cases clause.bindSelector u name closed selector with
    | none => rfl
    | some meaning => cases hkept : meaning.filter keep <;> simp [hkept]

end ImportClause

/-! ### The view of what is left -/

namespace View

/-- What a view shows of the declarations that pass a test. -/
def restrict (v : View) (keep : SymbolId → Bool) : View :=
  { v with
    program := v.program.restrict keep
    entered := fun id name => (v.entered id name).filter keep }

variable (v : View) (keep : SymbolId → Bool)

/-- Access asks for no members. -/
theorem denial?_restrict (cx : Context) (sym : SymbolId) (pre : TypeRef) (throughSuper : Bool) :
    (v.restrict keep).denial? cx sym pre throughSuper = v.denial? cx sym pre throughSuper := by
  have howners : (v.restrict keep).program.owners = v.program.owners :=
    v.program.owners_restrict keep
  have hwithin : (v.restrict keep).isWithin cx = v.isWithin cx := by
    unfold isWithin
    rw [howners]
    rfl
  unfold denial? isInsideBoundary
  rw [hwithin]
  rfl

end View

theorem Context.view_restrict (cx : Context) (u : Universe) (s : Store) (keep : SymbolId → Bool) :
    cx.view (u.restrict keep) (s.restrict keep) = (cx.view u s).restrict keep := by
  have hentered : (fun id name => ((s.restrict keep).scope id).lookupAll name) =
      fun id name => ((s.scope id).lookupAll name).filter keep := by
    funext id name
    rw [Store.scope_restrict, Scope.lookupAll_restrict]
  unfold view
  rw [hentered]
  rfl

namespace Lookup.Query

variable (q : Query)

/-- The query among the declarations that pass its test, all of which count. -/
def restricted : Query :=
  { q with view := q.view.restrict q.qualifies, qualifies := fun _ => true }

variable {q}

theorem entriesAt_restricted : q.restricted.entriesAt = q.entriesAt :=
  funext fun _ => List.filter_eq_self.mpr fun _ _ => rfl

theorem membersAt_restricted : q.restricted.membersAt = q.membersAt :=
  funext fun _ => List.filter_eq_self.mpr fun _ _ => rfl

theorem isAccessible_restricted : q.restricted.isAccessible = q.isAccessible := by
  funext pre sym
  exact congrArg Option.isNone (q.view.denial?_restrict q.qualifies q.cx sym pre false)

/-! ### Definitions and failures -/

theorem memberMeaning?_restricted : q.restricted.memberMeaning? = q.memberMeaning? := by
  unfold memberMeaning?
  rw [membersAt_restricted, isAccessible_restricted]
  rfl

/-- **The innermost definition is the same.** -/
theorem definition?_restricted : q.restricted.definition? = q.definition? := by
  unfold definition? definitionAt?
  rw [entriesAt_restricted, memberMeaning?_restricted]
  rfl

theorem failure_restricted : q.restricted.failure = q.failure := by
  have hdenial : ∀ sym pre, q.restricted.view.denial? q.restricted.cx sym pre false =
      q.view.denial? q.cx sym pre false :=
    fun sym pre => q.view.denial?_restrict q.qualifies q.cx sym pre false
  have htext : ∀ denial : Denial, denial.text q.restricted.view.program q.restricted.view.names =
      denial.text q.view.program q.view.names :=
    Denial.text_restrict q.view.program q.qualifies q.view.names
  have hblocked : q.restricted.blockedAt? = q.blockedAt? := by
    unfold blockedAt?
    simp only [entriesAt_restricted, memberMeaning?_restricted, membersAt_restricted, hdenial,
      htext]
    rfl
  unfold failure
  rw [hblocked]
  rfl

theorem constructorResult_restricted : q.restricted.constructorResult = q.constructorResult := by
  have hdeclared : ∀ ty,
      (q.restricted.view.program.declared ty q.restricted.name).filter q.restricted.qualifies =
        (q.view.program.declared ty q.name).filter q.qualifies := by
    intro ty
    exact List.filter_eq_self.mpr fun _ _ => rfl
  unfold constructorResult
  dsimp only
  rw [hdeclared]
  rfl

/-! ### Enclosing definitions -/

variable (q)

/-- The scope of a class context has entries under the name, all of which fail the test, and the
class declares members that pass it. -/
structure Screens (c : Context) : Prop where
  entered : q.view.entered c.scope q.name ≠ []
  failing : q.entriesAt c = []
  opensClass : c.opensClass = true
  declared : (q.view.program.declared c.selfType q.name).any q.qualifies = true

variable {q}

theorem enclosingCandidateAt?_restricted (c : Context) :
    q.restricted.enclosingCandidateAt? c =
      if (q.entriesAt c).isEmpty && c.opensClass then
        (q.view.program.declared c.selfType q.name).find? q.qualifies
      else (q.view.entered c.scope q.name).find? q.qualifies := by
  have hfind : ∀ l : List SymbolId, (l.filter q.qualifies).find? (fun _ => true) =
      l.find? q.qualifies := by
    intro l
    rw [List.find?_filter]
    simp
  unfold enclosingCandidateAt?
  show (if (q.entriesAt c).isEmpty && c.opensClass then
      (q.view.program.declared c.selfType q.name).filter q.qualifies
    else (q.view.entered c.scope q.name).filter q.qualifies).find? (fun _ => true) = _
  split
  · exact hfind _
  · exact hfind _

/-- **What a context offers as an enclosing definition is the same exactly if its scope does not
screen its class.** -/
theorem enclosingCandidateAt?_restricted_iff {c : Context} :
    q.restricted.enclosingCandidateAt? c = q.enclosingCandidateAt? c ↔ ¬ q.Screens c := by
  rw [enclosingCandidateAt?_restricted]
  unfold enclosingCandidateAt?
  by_cases hclass : c.opensClass = true
  · rcases hentered : q.view.entered c.scope q.name with _ | ⟨first, rest⟩
    · -- Nothing is entered, so both look at the declared members.
      have hnil : q.entriesAt c = [] := by simp [entriesAt, hentered]
      refine iff_of_true (by simp [hnil, hclass]) fun h => h.entered hentered
    · rcases hentries : q.entriesAt c with _ | ⟨kept, more⟩
      · -- What is entered fails the test: only without it the declared members are looked at.
        have hnone : (first :: rest).find? q.qualifies = none := by
          rw [List.find?_eq_none, ← hentered]
          exact List.filter_eq_nil_iff.mp hentries
        have hscreens : q.Screens c ↔
            (q.view.program.declared c.selfType q.name).any q.qualifies = true :=
          ⟨fun h => h.declared, fun h => ⟨by simp [hentered], hentries, hclass, h⟩⟩
        rw [hscreens]
        simp [hclass, hnone, List.find?_eq_none]
      · refine iff_of_true (by simp [hclass]) ?_
        intro h
        rw [h.failing] at hentries
        cases hentries
  · refine iff_of_true ?_ fun h => hclass h.opensClass
    simp [hclass]

/-- A definition hides the same as long as no context around it screens its class. -/
theorem conflict?_restricted {found : Found}
    (h : found.isMember = true → ∀ c ∈ found.cx.chain.drop 1, ¬ q.Screens c) :
    q.restricted.conflict? found = q.conflict? found := by
  cases hmember : found.isMember with
  | false => simp [conflict?, hmember]
  | true =>
    have hat : ∀ c ∈ found.cx.chain.drop 1, q.restricted.enclosingAt? c = q.enclosingAt? c := by
      intro c hc
      unfold enclosingAt?
      rw [enclosingCandidateAt?_restricted_iff.mpr (h hmember c hc)]
      rfl
    have hfirst : (found.cx.chain.drop 1).findSome? q.restricted.enclosingAt? =
        (found.cx.chain.drop 1).findSome? q.enclosingAt? := by
      rw [← List.head?_filterMap, ← List.head?_filterMap, List.filterMap_congr hat]
    unfold conflict?
    rw [hfirst]
    rfl

/-! ### What imports bind -/

variable (q)

/-- What the selectors of an import bind to the name, in their order. -/
def selectedBy (explicitOnly : Bool) (level : ImportLevel) : List Meaning :=
  level.imp.clause.meaningsFrom q.view.program q.name level.imp.clause.selectors explicitOnly

/-- The first selector that binds the name binds only what fails the test; of those after it, the
first that binds something that passes binds something that may be used. -/
structure Obstructs (explicitOnly : Bool) (level : ImportLevel) : Prop where
  failing : ∃ first ∈ (q.selectedBy explicitOnly level).head?,
    first.alternatives.any q.qualifies = false
  later : ∃ next ∈ (q.selectedBy explicitOnly level).find? fun d => d.alternatives.any q.qualifies,
    (q.usablePart level next).isSome = true

instance (explicitOnly : Bool) (level : ImportLevel) : Decidable (q.Obstructs explicitOnly level) :=
  decidable_of_iff (_ ∧ _) ⟨fun h => ⟨h.1, h.2⟩, fun h => ⟨h.1, h.2⟩⟩

variable {q}

/-- A level binds by the first selector that applies. -/
theorem boundBy_eq_head? (explicitOnly : Bool) (level : ImportLevel) :
    q.boundBy explicitOnly level =
      (q.selectedBy explicitOnly level).head?.bind (q.usablePart level) := by
  rw [selectedBy, ← ImportClause.bindFrom_map_snd _ 0, Option.bind_map]
  rfl

/-- A part may be used as far as it passes the test and is accessible. -/
theorem usablePart_eq (level : ImportLevel) (meaning : Meaning) :
    q.usablePart level meaning = (meaning.filter q.qualifies).bind
      (·.filter (q.isAccessible level.imp.clause.qualifier)) := by
  rw [Meaning.filter_bind_filter]
  rfl

/-- A meaning without a qualifying alternative is of no use. -/
theorem usablePart_eq_none {level : ImportLevel} {meaning : Meaning}
    (h : meaning.alternatives.any q.qualifies = false) : q.usablePart level meaning = none := by
  rw [usablePart_eq, Meaning.filter_eq_none_iff.mpr h]
  rfl

theorem usablePart_restricted (level : ImportLevel) (meaning : Meaning) :
    q.restricted.usablePart level meaning =
      meaning.filter (q.isAccessible level.imp.clause.qualifier) := by
  unfold usablePart
  rw [isAccessible_restricted]
  exact congrArg meaning.filter (funext fun sym => Bool.and_true _)

/-- Among what passes the test, the first selector that binds any of it decides. -/
theorem boundBy_restricted (explicitOnly : Bool) (level : ImportLevel) :
    q.restricted.boundBy explicitOnly level =
      ((q.selectedBy explicitOnly level).find? fun d => d.alternatives.any q.qualifies).bind
        (q.usablePart level) := by
  have hselected : q.restricted.selectedBy explicitOnly level =
      (q.selectedBy explicitOnly level).filterMap (·.filter q.qualifies) :=
    ImportClause.meaningsFrom_restrict _ _
  rw [boundBy_eq_head?, hselected]
  induction q.selectedBy explicitOnly level with
  | nil => rfl
  | cons first rest ih =>
    cases hpasses : first.alternatives.any q.qualifies with
    | false =>
      rw [List.filterMap_cons, Meaning.filter_eq_none_iff.mpr hpasses, List.find?_cons, hpasses]
      exact ih
    | true =>
      rw [List.filterMap_cons, List.find?_cons, hpasses, Option.bind_some, usablePart_eq]
      cases hkept : first.filter q.qualifies with
      | none =>
        rw [Meaning.filter_eq_none_iff.mp hkept] at hpasses
        cases hpasses
      | some kept =>
        exact usablePart_restricted level kept

/-- **What an import binds is the same exactly if it does not obstruct itself.** -/
theorem boundBy_restricted_iff {explicitOnly : Bool} {level : ImportLevel} :
    q.restricted.boundBy explicitOnly level = q.boundBy explicitOnly level ↔
      ¬ q.Obstructs explicitOnly level := by
  rw [boundBy_restricted, boundBy_eq_head?]
  cases hselected : q.selectedBy explicitOnly level with
  | nil =>
    refine iff_of_true rfl ?_
    rintro ⟨⟨first, hfirst, -⟩, -⟩
    rw [hselected] at hfirst
    cases hfirst
  | cons first rest =>
    cases hpasses : first.alternatives.any q.qualifies with
    | true =>
      refine iff_of_true ?_ ?_
      · rw [List.find?_cons, hpasses, List.head?_cons]
      · rintro ⟨⟨other, hother, hfails⟩, -⟩
        rw [hselected] at hother
        cases hother
        rw [hfails] at hpasses
        cases hpasses
    | false =>
      rw [List.head?_cons, Option.bind_some, usablePart_eq_none hpasses]
      constructor
      · rintro hnone ⟨-, next, hnext, hsome⟩
        rw [hselected] at hnext
        rw [hnext, Option.bind_some] at hnone
        rw [hnone] at hsome
        cases hsome
      · intro hnot
        rw [Option.bind_eq_none_iff]
        intro next hnext
        by_contra hne
        rw [← hselected] at hnext
        apply hnot
        constructor
        · exact ⟨first, by rw [hselected]; rfl, hpasses⟩
        · exact ⟨next, hnext, Option.isSome_iff_ne_none.mpr hne⟩

/-! ### The decision among the imports -/

variable {levels : List ImportLevel}

/-- The first import is the same if every level binds the same. -/
theorem firstImport_restricted (definition : Option Precedence.DefinitionKey)
    (h : ∀ level ∈ levels, q.restricted.boundBy false level = q.boundBy false level) :
    (q.restricted.firstImport definition levels).1 = (q.firstImport definition levels).1 := by
  induction levels with
  | nil => rfl
  | cons level outer ih =>
    rw [firstImport_cons, firstImport_cons, h level List.mem_cons_self,
      ih fun l hl => h l (List.mem_cons_of_mem _ hl)]
    rfl

/-- So is what the leader settles to. -/
theorem settled_restricted (leader : Binding)
    (h : ∀ level ∈ levels, ∀ explicitOnly,
      q.restricted.boundBy explicitOnly level = q.boundBy explicitOnly level) :
    q.restricted.settled leader levels = q.settled leader levels := by
  induction levels generalizing leader with
  | nil => rfl
  | cons level outer ih =>
    have ih := fun leader => ih leader fun l hl => h l (List.mem_cons_of_mem _ hl)
    simp only [settled_cons, h level List.mem_cons_self, ih]
    rfl

/-- **Where every import binds the same, the decision is the same.** -/
theorem consultImports_restricted (found : Option Found)
    (h : ∀ level ∈ q.importLevels, ∀ explicitOnly,
      q.restricted.boundBy explicitOnly level = q.boundBy explicitOnly level) :
    (q.restricted.consultImports found).result = (q.consultImports found).result := by
  have hfirst : (q.restricted.firstImport (found.map q.restricted.definitionKey)
      q.restricted.importLevels).1 =
        (q.firstImport (found.map q.definitionKey) q.importLevels).1 :=
    firstImport_restricted (found.map q.definitionKey) fun level hlevel => h level hlevel false
  rw [consultImports_result, consultImports_result, hfirst]
  cases himported : (q.firstImport (found.map q.definitionKey) q.importLevels).1 with
  | none =>
    cases found with
    | none => exact failure_restricted
    | some f => rfl
  | some i =>
    obtain ⟨before, hsplit, -, -⟩ := firstImport_split himported
    have hsettled : (q.restricted.settle i.level i.meaning i.outer).1 =
        (q.settle i.level i.meaning i.outer).1 := by
      refine settled_restricted i.binding fun level hlevel => h level ?_
      rw [hsplit]
      exact List.mem_append_right _ (List.mem_cons_of_mem _ hlevel)
    cases found with
    | none => exact hsettled
    | some f =>
      have harbitrate : Precedence.arbitrate (q.restricted.definitionKey f)
          (q.restricted.isUnusable i) =
            Precedence.arbitrate (q.definitionKey f) (q.isUnusable i) := rfl
      unfold resolve
      dsimp only
      rw [harbitrate]
      cases Precedence.arbitrate (q.definitionKey f) (q.isUnusable i) with
      | definition => rfl
      | imported => exact hsettled
      | ambiguous => rfl

/-! ### The whole lookup -/

variable (q)

/-- Nothing that fails the test keeps something that passes it from being found. -/
structure Unobstructed : Prop where
  /-- Where hiding an enclosing definition is an error, the contexts around the definition found. -/
  enclosing : q.view.settings.enclosing = .error → ∀ found, q.InnermostDefinition found →
    found.isMember = true → ∀ c ∈ found.cx.chain.drop 1, ¬ q.Screens c
  imports : ∀ level ∈ q.importLevels, ∀ explicitOnly, ¬ q.Obstructs explicitOnly level

variable {q}

/-- **Where nothing obstructs, the rejected declarations may as well not exist.** -/
theorem run_restricted (h : q.name.isConstructor = false → q.Unobstructed) :
    q.restricted.run.result = q.run.result := by
  cases hname : q.name.isConstructor with
  | true =>
    rw [run_of_constructor hname, run_of_constructor (q := q.restricted) hname]
    exact constructorResult_restricted
  | false =>
    have hbound : ∀ level ∈ q.importLevels, ∀ explicitOnly,
        q.restricted.boundBy explicitOnly level = q.boundBy explicitOnly level := by
      intro level hlevel explicitOnly
      exact boundBy_restricted_iff.mpr ((h hname).imports level hlevel explicitOnly)
    cases hdef : q.definition? with
    | none =>
      rw [run_of_none hname hdef, run_of_none (q := q.restricted) hname
        (definition?_restricted.trans hdef)]
      exact consultImports_restricted none hbound
    | some found =>
      rw [run_eq_verdict hname hdef, run_eq_verdict (q := q.restricted) hname
        (definition?_restricted.trans hdef)]
      have hresult := consultImports_restricted (some found) hbound
      have hsettings : q.restricted.view.settings = q.view.settings := rfl
      unfold verdict
      rw [hresult, hsettings]
      cases hpolicy : q.view.settings.enclosing with
      | allow => rfl
      | warn => rfl
      | error =>
        rw [conflict?_restricted ((h hname).enclosing hpolicy found
          (definition?_eq_some_iff.mp hdef))]
        rfl

end Lookup.Query

namespace Context

/-- **What fails the test is as good as not there, unless it obstructs an import or screens a class
from the search for enclosing definitions.** Both lookups are taken to end (`Table.Settles`). -/
theorem lookup_restrict_eq {cx : Context} {u : Universe} {name : Name}
    {qualifies : SymbolId → Bool} {s : Store}
    (h : name.isConstructor = false → (cx.query u name qualifies s).Unobstructed) :
    (cx.lookup (u.restrict qualifies) name (fun _ => true) (s.restrict qualifies)).1 =
      (cx.lookup u name qualifies s).1 := by
  have hquery : cx.query (u.restrict qualifies) name (fun _ => true) (s.restrict qualifies) =
      (cx.query u name qualifies s).restricted := by
    unfold query Lookup.Query.restricted
    rw [view_restrict]
  show (cx.query (u.restrict qualifies) name (fun _ => true) (s.restrict qualifies)).run.result = _
  rw [hquery]
  exact Lookup.Query.run_restricted h

/-- An entry that does not count inside an import. -/
theorem lookup_restrict_eq_block :
    let u := Sample.table.toUniverse
    let s := Sample.store #[.empty, Scope.empty.enter Sample.name ⟨3⟩]
    let qualifies : SymbolId → Bool := (· != ⟨3⟩)
    let cx := ((Sample.root.makeImport (Sample.naming ⟨4⟩) s).1.make .block .root 1 s).1
    (cx.lookup (u.restrict qualifies) Sample.name (fun _ => true) (s.restrict qualifies)).1 =
      (cx.lookup u Sample.name qualifies s).1 :=
  lookup_restrict_eq fun _ => ⟨fun h => (nomatch h), by decide +kernel⟩

end Context

/-! ### Programs where it makes a difference -/

namespace Hindrance

/-- Object 2 with values 3 and 4. -/
def table : Table :=
  let t := (Table.initial.addObject .root (.ofWord 9)).2
  (((t.addValue ⟨2⟩ (.ofWord 10) ∅).2).addValue ⟨2⟩ (.ofWord 11) ∅).2

def clause : ImportClause :=
  ⟨.path ⟨2⟩, [.renamed (.ofWord 10) Sample.name, .renamed (.ofWord 11) Sample.name], .dummy, false⟩

/-- Everything but the first value. -/
def qualifies : SymbolId → Bool := (· != ⟨3⟩)

/-- Class 3 inherits the value 5 from class 2, class 4 declares 6, and 7 stands alone. -/
def classes : Table :=
  let t := ((Table.initial.addClass .root (.ofWord 9)).2.addClass .root (.ofWord 10)).2
  let t := ((t.addClass .root (.ofWord 11)).2).addParent ⟨3⟩ ⟨2⟩
  let t := ((t.addValue ⟨2⟩ Sample.name ∅).2.addValue ⟨4⟩ Sample.name ∅).2
  ((t.addValue .root Sample.name ∅).2).setUnit ⟨6⟩ (some ⟨1⟩)

end Hindrance

/-- **A selector that binds what fails the test hinders the one after it.** -/
theorem Context.lookup_obstructed :
    let u := Hindrance.table.toUniverse
    let s := Sample.store #[]
    let cx := (Sample.root.makeImport Hindrance.clause s).1
    cx.Built ∧ (cx.lookup u Sample.name Hindrance.qualifies s).1 = .notFound ∧
      (cx.lookup (u.restrict Hindrance.qualifies) Sample.name (fun _ => true)
          (s.restrict Hindrance.qualifies)).1 = .succeeded (some (.path ⟨2⟩)) (.single ⟨4⟩) := by
  have hroot : Context.Built Sample.root := .openRoot 0 .root 0 _
  refine ⟨hroot.makeImport _ _, ?_, ?_⟩
  · decide +kernel
  · decide +kernel

/-- An entry that fails the test hinders the search for an enclosing definition. The body of class 3
stands in that of class 4, in whose scope 7 is entered. -/
example :
    let u := Hindrance.classes.toUniverse
    let s := Sample.strictStore #[.empty, Scope.empty.enter Sample.name ⟨7⟩, .empty]
    let qualifies : SymbolId → Bool := (· != ⟨7⟩)
    let cx := ((Sample.root.make .template ⟨4⟩ 1 s).1.make .template ⟨3⟩ 2 s).1
    (cx.lookup u Sample.name qualifies s).1 = .succeeded (some (.self ⟨3⟩)) (.single ⟨5⟩) ∧
      (cx.lookup (u.restrict qualifies) Sample.name (fun _ => true) (s.restrict qualifies)).1 =
        .ambiguous (.withEnclosing Sample.name ⟨5⟩ ⟨6⟩) := by
  decide +kernel

end NameResolution
