import Mathlib.Data.List.Destutter
import NameResolution.Proofs.Lookup.Copies

/-!
# Local names in constructor calls

The arguments of a constructor call are resolved outside the class. What was entered around the call
is copied into one new scope, the outermost first, so that all of it is one nesting level there.

* `entriesAt_constructor`: the new scope holds what the collected scopes hold, one after the other
  (`Context.constructorScopes`).
* `holders_eq`: of the collected scopes that hold the name, the last is the one in which a lookup at
  the call finds it.
* `Context.lookup_constructor_local`: a local name denotes the same declarations in the arguments as
  at the call exactly if one collected scope holds it. If several do, it denotes all of them
  together.
* `Context.lookup_constructor_overloads`: a parameter and a local value of the same name.
-/

namespace NameResolution

/-! ### Lists without repetitions -/

theorem eraseReps_eq_destutter {α : Type} [DecidableEq α] (l : List α) :
    l.eraseReps = l.destutter (· ≠ ·) := by
  have hloop : ∀ (l : List α) (a : α) (done : List α),
      List.eraseRepsBy.loop (· == ·) a l done = done.reverse ++ l.destutter' (· ≠ ·) a := by
    intro l
    induction l with
    | nil => exact fun a done => List.reverse_cons
    | cons b rest ih =>
      intro a done
      unfold List.eraseRepsBy.loop
      by_cases hsame : a = b
      · simp [hsame, ih]
      · simp [beq_false_of_ne hsame, ih, hsame]
  cases l with
  | nil => rfl
  | cons a rest => exact hloop rest a []

/-- Leaving out repetitions keeps the last element of any kind. -/
theorem getLast?_filter_eraseReps {α : Type} [DecidableEq α] (p : α → Bool) (l : List α) :
    (l.eraseReps.filter p).getLast? = (l.filter p).getLast? := by
  rw [eraseReps_eq_destutter]
  cases l with
  | nil => rfl
  | cons a rest =>
    rw [List.destutter_cons']
    induction rest generalizing a with
    | nil => rfl
    | cons b rest ih =>
      by_cases hsame : a = b
      · subst hsame
        rw [List.destutter'_cons_neg _ (by simp), ih]
        cases hp : p a <;> simp [hp, List.getLast?_cons]
      · rw [List.destutter'_cons_pos _ hsame, List.filter_cons, List.filter_cons (x := a)]
        split
        · rw [List.getLast?_cons, List.getLast?_cons, ih]
        · exact ih b

/-! ### The scope of a constructor context -/

namespace Context

variable (cx : Context) (u : Universe) (s : Store)

/-- The scopes around a constructor call that are copied, outermost first. A scope that several
contexts in a row share is copied once. -/
def constructorScopes : List ScopeId := ((cx.termContexts u).reverse.map (·.scope)).eraseReps

/-- The term contexts around a constructor call that lie inside the class, innermost first. -/
def localContexts : List Context := (cx.termContexts u).takeWhile fun c => !c.opensClass

variable {cx u s}

theorem localContexts_within (cx : Context) (u : Universe) :
    cx.localContexts u <+: cx.termContexts u :=
  List.takeWhile_prefix _

theorem opensClass_of_mem_localContexts {c : Context} (hc : c ∈ cx.localContexts u) :
    c.opensClass = false := by
  simpa using List.mem_takeWhile_imp hc

/-- **The scope holds the entries of the copied scopes, one after the other.** -/
theorem lookupAll_constructor (name : Name) :
    ((cx.makeConstructor u s).2.scope (cx.makeConstructor u s).1.scope).lookupAll name =
      (cx.constructorScopes u).flatMap fun id => (s.scope id).lookupAll name := by
  have hscope : (cx.makeConstructor u s).2.scope (cx.makeConstructor u s).1.scope =
      Scope.empty.enterAll (cx.constructorEntries u s) :=
    (s.scope_addScope _ _).trans (if_pos rfl)
  rw [hscope, Scope.lookupAll_enterAll, Scope.lookupAll_eq]
  show [] ++ (((cx.constructorScopes u).flatMap fun id => (s.scope id).entries.toList).filter
    fun entry => entry.1 == name).map (·.2) = _
  simp only [List.nil_append, List.filter_flatMap, List.map_flatMap, Scope.lookupAll_eq]

end Context

namespace Lookup.Query

variable (q : Query)

/-- The qualifying entries of a scope. -/
def heldIn (id : ScopeId) : List SymbolId := (q.view.entered id q.name).filter q.qualifies

/-- Those of the listed scopes that hold the name. -/
def holders (scopes : List ScopeId) : List ScopeId := scopes.filter fun id => !(q.heldIn id).isEmpty

variable {q}

theorem mem_holders {scopes : List ScopeId} {id : ScopeId} :
    id ∈ q.holders scopes ↔ id ∈ scopes ∧ q.heldIn id ≠ [] := by
  simp [holders]

theorem flatMap_heldIn_holders (scopes : List ScopeId) :
    (q.holders scopes).flatMap q.heldIn = scopes.flatMap q.heldIn := by
  induction scopes with
  | nil => rfl
  | cons id rest ih =>
    rw [holders] at ih ⊢
    cases hheld : q.heldIn id with
    | nil => simp [hheld, ih]
    | cons => simp [hheld, ih]

/-- What the scopes hold one after the other is what the last holds exactly if no other holds
anything. -/
theorem flatMap_heldIn_eq_iff {scopes outer : List ScopeId} {last : ScopeId}
    (hholders : q.holders scopes = outer ++ [last]) :
    scopes.flatMap q.heldIn = q.heldIn last ↔ ∃ id, q.holders scopes = [id] := by
  rw [← flatMap_heldIn_holders, hholders, List.flatMap_append, List.flatMap_singleton,
    List.append_left_eq_self, List.flatMap_eq_nil_iff]
  constructor
  · intro hnone
    have hnil : outer = [] := List.eq_nil_iff_forall_not_mem.mpr fun id hid => by
      have hheld : id ∈ q.holders scopes := hholders ▸ List.mem_append_left _ hid
      exact (mem_holders.mp hheld).2 (hnone id hid)
    exact ⟨last, by rw [hnil, List.nil_append]⟩
  · rintro ⟨id, hid⟩
    have hnil : outer = [] := by simpa using congrArg List.dropLast hid
    simp [hnil]

/-! ### Lookups of local names -/

theorem consultImports_of_unbound (hnone : q.bindings = []) (found : Found) :
    (q.consultImports (some found)).result = q.definitionResult found := by
  have himported := firstImport_binding (q := q) (some (q.definitionKey found)) q.importLevels
  have hnothing : q.bindingsOf false
      (q.importLevels.takeWhile (q.admits (some (q.definitionKey found)))) = [] := by
    refine bindingsOf_eq_nil fun level hlevel => Option.eq_none_iff_forall_ne_some.mpr ?_
    intro meaning hbound
    have hmem : ⟨level, meaning⟩ ∈ q.bindings :=
      mem_bindings.mpr ⟨(List.takeWhile_sublist _).subset hlevel, hbound⟩
    rw [hnone] at hmem
    cases hmem
  rw [hnothing, List.head?_nil, Option.map_eq_none_iff] at himported
  rw [consultImports_result, Option.map_some, himported]
  rfl

/-- **A name that no import binds denotes the entries of the innermost scope that holds it**, if no
class in between defines it. -/
theorem run_of_entries {inner outer : List Context} {c : Context}
    (hname : q.name.isConstructor = false) (hnone : q.bindings = [])
    (hchain : q.cx.chain = inner ++ c :: outer) (hinner : ∀ d ∈ inner, ¬ q.Defines d)
    (hentries : q.entriesAt c ≠ []) :
    ∃ qualifier meaning, q.run.result = .succeeded qualifier meaning ∧
      meaning.alternatives = q.entriesAt c := by
  obtain ⟨meaning, hgroup⟩ : ∃ meaning, Meaning.ofList? c.owner (q.entriesAt c) = some meaning :=
    Option.ne_none_iff_exists'.mp (mt Meaning.ofList?_eq_none_iff.mp hentries)
  have hfound : q.InnermostDefinition ⟨meaning, c, false⟩ :=
    ⟨⟨inner, outer, hchain, hinner⟩, .entries hgroup⟩
  -- An entry of a scope hides nothing, so the policy has no say.
  have hresult : q.run.result = q.definitionResult ⟨meaning, c, false⟩ := by
    rw [run_eq_verdict hname (definition?_eq_some_iff.mpr hfound),
      ← consultImports_of_unbound hnone]
    show q.verdict ⟨meaning, c, false⟩ none = _
    unfold verdict
    split <;> trivial
  exact ⟨_, meaning, hresult, Meaning.alternatives_of_ofList? hgroup⟩

end Lookup.Query

namespace Context

variable {cx : Context} {u : Universe} {s : Store} {name : Name} {qualifies : SymbolId → Bool}

theorem entriesAt_constructor :
    ((cx.makeConstructor u s).1.query u name qualifies (cx.makeConstructor u s).2).entriesAt
        (cx.makeConstructor u s).1 =
      (cx.constructorScopes u).flatMap (cx.query u name qualifies s).heldIn := by
  show (((cx.makeConstructor u s).2.scope (cx.makeConstructor u s).1.scope).lookupAll name).filter
    qualifies = _
  rw [lookupAll_constructor, List.filter_flatMap]
  rfl

/-- The scopes are collected outermost first, so the innermost that holds the name comes last. -/
theorem holders_eq {c : Context}
    (hfirst : (cx.localContexts u).find?
      (fun c => !((cx.query u name qualifies s).entriesAt c).isEmpty) = some c) :
    ∃ outer, (cx.query u name qualifies s).holders (cx.constructorScopes u) =
      outer ++ [c.scope] := by
  rw [← List.getLast?_eq_some_iff]
  unfold Lookup.Query.holders constructorScopes
  rw [getLast?_filter_eraseReps, List.map_reverse, List.filter_reverse, List.getLast?_reverse,
    List.head?_filter, List.find?_map]
  obtain ⟨rest, hrest⟩ := localContexts_within cx u
  rw [← hrest, List.find?_append]
  have hsame : (cx.localContexts u).find?
      ((fun id => !((cx.query u name qualifies s).heldIn id).isEmpty) ∘ fun c => c.scope) =
        some c := hfirst
  rw [hsame]
  rfl

/-- At the call a local name denotes the entries of the innermost local context that has any. -/
theorem lookup_local (hname : name.isConstructor = false)
    (hunbound : (cx.query u name qualifies s).bindings = []) {c : Context}
    (hfirst : (cx.localContexts u).find?
      (fun c => !((cx.query u name qualifies s).entriesAt c).isEmpty) = some c) :
    ∃ qualifier meaning, (cx.lookup u name qualifies s).1 = .succeeded qualifier meaning ∧
      meaning.alternatives = (cx.query u name qualifies s).entriesAt c := by
  obtain ⟨hentries, inner, more, hlocal, hinner⟩ := List.find?_eq_some_iff_append.mp hfirst
  obtain ⟨rest, hchain⟩ := (localContexts_within cx u).trans (List.takeWhile_prefix _)
  rw [hlocal, List.append_assoc] at hchain
  have hundefined : ∀ d ∈ inner, ¬ (cx.query u name qualifies s).Defines d := by
    intro d hd
    have hclass : d.opensClass = false :=
      opensClass_of_mem_localContexts (hlocal ▸ List.mem_append_left _ hd)
    rintro (hdefined | ⟨hopens, -⟩)
    · exact hdefined (by simpa using hinner d hd)
    · rw [hclass] at hopens
      cases hopens
  exact Lookup.Query.run_of_entries (q := cx.query u name qualifies s) hname hunbound hchain.symm
    hundefined (by simpa using hentries)

/-- In the arguments it denotes the entries of all the scopes collected. -/
theorem lookup_collected (hname : name.isConstructor = false)
    (hunbound : ((cx.makeConstructor u s).1.query u name qualifies
      (cx.makeConstructor u s).2).bindings = [])
    (hentries : (cx.constructorScopes u).flatMap (cx.query u name qualifies s).heldIn ≠ []) :
    ∃ qualifier meaning,
      ((cx.makeConstructor u s).1.lookup u name qualifies (cx.makeConstructor u s).2).1 =
        .succeeded qualifier meaning ∧
      meaning.alternatives =
        (cx.constructorScopes u).flatMap (cx.query u name qualifies s).heldIn := by
  rw [← entriesAt_constructor] at hentries ⊢
  have hchain : (cx.makeConstructor u s).1.chain =
      [] ++ (cx.makeConstructor u s).1 :: cx.constructorBase.chain := rfl
  exact Lookup.Query.run_of_entries
    (q := (cx.makeConstructor u s).1.query u name qualifies (cx.makeConstructor u s).2) hname
    hunbound hchain (by simp) hentries

/-- **A local name denotes in the arguments of a constructor call what it denotes at the call,
exactly if one scope around the call holds it.** The lookups are taken to end (`Table.Settles`). -/
theorem lookup_constructor_local (hname : name.isConstructor = false)
    (hheld : ∃ c ∈ cx.localContexts u, (cx.query u name qualifies s).entriesAt c ≠ [])
    (hunbound : (cx.query u name qualifies s).bindings = [])
    (hunbound' : ((cx.makeConstructor u s).1.query u name qualifies
      (cx.makeConstructor u s).2).bindings = []) :
    ∃ qualifier meaning qualifier' meaning',
      (cx.lookup u name qualifies s).1 = .succeeded qualifier meaning ∧
      ((cx.makeConstructor u s).1.lookup u name qualifies (cx.makeConstructor u s).2).1 =
        .succeeded qualifier' meaning' ∧
      (meaning'.alternatives = meaning.alternatives ↔
        ∃ id, (cx.query u name qualifies s).holders (cx.constructorScopes u) = [id]) := by
  obtain ⟨c, hfirst⟩ : ∃ c, (cx.localContexts u).find?
      (fun c => !((cx.query u name qualifies s).entriesAt c).isEmpty) = some c := by
    obtain ⟨c, hc, hentries⟩ := hheld
    exact Option.isSome_iff_exists.mp (List.find?_isSome.mpr ⟨c, hc, by simpa using hentries⟩)
  obtain ⟨outer, hholders⟩ := holders_eq hfirst
  have hcollected : (cx.constructorScopes u).flatMap (cx.query u name qualifies s).heldIn ≠ [] := by
    have hlast : c.scope ∈ (cx.query u name qualifies s).holders (cx.constructorScopes u) := by
      simp [hholders]
    obtain ⟨hscope, hheld⟩ := Lookup.Query.mem_holders.mp hlast
    exact fun hnil => hheld (List.flatMap_eq_nil_iff.mp hnil _ hscope)
  obtain ⟨qualifier, meaning, hresult, hmeaning⟩ := lookup_local hname hunbound hfirst
  obtain ⟨qualifier', meaning', hresult', hmeaning'⟩ := lookup_collected hname hunbound' hcollected
  refine ⟨qualifier, meaning, qualifier', meaning', hresult, hresult', ?_⟩
  rw [hmeaning, hmeaning']
  exact Lookup.Query.flatMap_heldIn_eq_iff hholders

end Context

/-! ### A parameter and a local value -/

namespace ConstructorCall

/-- Class 2 with a method 3, which has a parameter 4 and a local value 5 of the same name. -/
def table : Table :=
  let t := (Table.initial.addClass .root (.ofWord 9)).2
  let t := (t.addMethod ⟨2⟩ (.ofWord 10) ∅).2
  let t := (t.addValue ⟨3⟩ Sample.name (.ofList [.param])).2
  (t.addValue ⟨3⟩ Sample.name ∅).2

/-- The scopes of the unit, the class, the method and a block in it. -/
def store (block : Scope) : Store :=
  Sample.store #[.empty, .empty, Scope.empty.enter Sample.name ⟨4⟩, block]

/-- The body of the method. -/
def method (s : Store) : Context :=
  let body := (Sample.root.make .template ⟨2⟩ 1 s).1
  (body.make (.method false) ⟨3⟩ 2 s).1

/-- A block in the method. -/
def block (s : Store) : Context := ((method s).make .block ⟨3⟩ 3 s).1

end ConstructorCall

/-- A parameter that no other scope holds, seen from a block. -/
theorem Context.lookup_constructor_parameter :
    let u := ConstructorCall.table.toUniverse
    let s := ConstructorCall.store .empty
    let cx := ConstructorCall.block s
    let k := cx.makeConstructor u s
    ∃ qualifier meaning qualifier' meaning',
      (cx.lookup u Sample.name (fun _ => true) s).1 = .succeeded qualifier meaning ∧
      (k.1.lookup u Sample.name (fun _ => true) k.2).1 = .succeeded qualifier' meaning' ∧
      (meaning'.alternatives = meaning.alternatives ↔
        ∃ id, (cx.query u Sample.name (fun _ => true) s).holders (cx.constructorScopes u) = [id]) :=
  lookup_constructor_local rfl
    ⟨ConstructorCall.method (ConstructorCall.store .empty), by decide +kernel, by decide +kernel⟩
    (by decide +kernel) (by decide +kernel)

/-- **A local value shadows a parameter at the call, and in the arguments the two are overloaded.**
-/
theorem Context.lookup_constructor_overloads :
    let u := ConstructorCall.table.toUniverse
    let s := ConstructorCall.store (Scope.empty.enter Sample.name ⟨5⟩)
    let cx := ConstructorCall.block s
    let k := cx.makeConstructor u s
    cx.Built ∧ cx.constructorScopes u = [2, 3] ∧
      (cx.lookup u Sample.name (fun _ => true) s).1 = .succeeded none (.single ⟨5⟩) ∧
      (k.1.lookup u Sample.name (fun _ => true) k.2).1 =
        .succeeded none (.overloaded ⟨3⟩ [⟨4⟩, ⟨5⟩]) := by
  have hroot : Context.Built Sample.root := .openRoot 0 .root 0 _
  refine ⟨((hroot.make .template ⟨2⟩ 1 _).make (.method false) ⟨3⟩ 2 _).make .block ⟨3⟩ 3 _, ?_⟩
  decide +kernel

end NameResolution
