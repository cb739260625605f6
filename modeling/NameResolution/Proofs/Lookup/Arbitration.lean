import Mathlib.Data.List.TakeWhile
import NameResolution.Proofs.Lookup.Contest
import NameResolution.Table.Universe
import NameResolution.Context.Construction

/-!
# Definitions against imports

What a name means is settled between the innermost definition and the imports that bind the name.
`Means` says it case by case on the chain; the lookup interleaves the two searches and stops early.

* `definitionResult_eq`, `isForeign_iff`: what `Means` says of a definition is what the lookup asks.
* `consultImports_none`, `consultImports_foreign`, `consultImports_own`: the result once the
  definition is known, by whether there is one and whether it is foreign. That the search for
  imports may stop at the first it rejects rests on `Grown.depth_antitone`.
* `failure_eq_inaccessible`, `failure_eq_notFound`: the result if nothing usable binds the name.
* `run_eq_iff_means`: in a native unit, where inherited members may hide enclosing definitions, the
  search answers what `Means` allows and nothing else.
-/

namespace NameResolution.Lookup.Query

open Precedence

variable (q : Query)

/-- The innermost import nested deeper than a definition that binds the name. -/
def deeperBinding? (found : Found) : Option Binding :=
  q.bindings.find? fun b => found.cx.depth < b.depth

/-- A binding to an erroneous symbol or to a constructor cannot stand for a definition. -/
def Unusable (b : Binding) : Prop :=
  (q.view.program.flags b.meaning.first).contains .erroneous = true ∨
    (q.view.program.flags b.meaning.first).contains .isConstructor = true

instance (b : Binding) : Decidable (q.Unusable b) :=
  inferInstanceAs (Decidable (_ ∨ _))

/-- A definition is foreign if a package owns a declaration of it that the unit does not declare. -/
def Foreign (found : Found) : Prop :=
  ∃ sym ∈ found.meaning.alternatives,
    (q.view.program.flags (q.view.program.owner sym)).isPackage = true ∧
      q.view.program.unit sym ≠ some q.view.unit.id

/-- A class that is no package owns the symbol, which is no type parameter of it. -/
def IsMember (sym : SymbolId) : Prop :=
  (q.view.program.flags (q.view.program.owner sym)).isClass = true ∧
    (q.view.program.flags (q.view.program.owner sym)).isPackage = false ∧
      (q.view.program.flags sym).contains .typeParam = false

instance (sym : SymbolId) : Decidable (q.IsMember sym) := inferInstanceAs (Decidable (_ ∧ _ ∧ _))

/-- What a definition is selected from: members of a class from the self type of the class around
the context that has them. -/
def selector? (found : Found) : Option TypeRef :=
  if q.IsMember found.meaning.first then some found.cx.enclosingClass.selfType else none

def contested (found : Found) (b : Binding) : LookupResult :=
  .ambiguous (.definedAndImported q.name (q.view.program.owner found.meaning.first)
    (b.clause.site q.name))

/-- Whether a class context has qualifying members under the name, accessible or not. -/
def hasMembers (c : Context) : Bool := c.opensClass && !(q.membersAt c).isEmpty

/-- What the name means, by the innermost definition and the imports that bind the name. -/
inductive Means : LookupResult → Prop where
  /-- A definition that is not foreign stands if no import nested deeper binds the name. -/
  | defined {found : Found} (hdef : q.InnermostDefinition found) (hown : ¬ q.Foreign found)
      (hnone : q.deeperBinding? found = none) :
      Means (.succeeded (q.selector? found) found.meaning)
  /-- It stands against an import that binds the name to something unusable. -/
  | unusable {found : Found} {b : Binding} (hdef : q.InnermostDefinition found)
      (hown : ¬ q.Foreign found) (hdeeper : q.deeperBinding? found = some b)
      (hunusable : q.Unusable b) : Means (.succeeded (q.selector? found) found.meaning)
  /-- Any other import nested deeper makes the name ambiguous. -/
  | contested {found : Found} {b : Binding} (hdef : q.InnermostDefinition found)
      (hown : ¬ q.Foreign found) (hdeeper : q.deeperBinding? found = some b)
      (husable : ¬ q.Unusable b) : Means (q.contested found b)
  /-- Without a definition, or with a foreign one, the imports settle it among themselves. -/
  | imported {b : Binding} (hyields : ∀ found, q.InnermostDefinition found → q.Foreign found)
      (hfirst : q.bindings.head? = some b) : Means (q.importVerdict b)
  /-- A foreign definition stands if no import binds the name. -/
  | foreign {found : Found} (hdef : q.InnermostDefinition found) (hforeign : q.Foreign found)
      (hnone : q.bindings = []) : Means (.succeeded (q.selector? found) found.meaning)
  /-- If nothing usable binds the name, the members of the innermost class that has any are
  reported, with what keeps the first of them out. -/
  | inaccessible {c : Context} {meaning : Meaning} {denial : Denial}
      (hdef : ∀ found, ¬ q.InnermostDefinition found) (hnone : q.bindings = [])
      (hfirst : q.cx.chain.find? q.hasMembers = some c)
      (hgroup : Meaning.ofList? (q.view.program.classOf c.selfType) (q.membersAt c) = some meaning)
      (hdenied : q.view.denial? q.cx meaning.first c.selfType false = some denial) :
      Means (.inaccessible meaning (denial.text q.view.program q.view.names))
  | notFound (hdef : ∀ found, ¬ q.InnermostDefinition found) (hnone : q.bindings = [])
      (hmembers : q.cx.chain.find? q.hasMembers = none) : Means .notFound

variable {q}

/-! ### What the lookup asks of a definition -/

theorem isForeign_iff {found : Found} : q.isForeign found.meaning = true ↔ q.Foreign found := by
  simp only [isForeign, Foreign, Meaning.any, List.any_eq_true, Bool.and_eq_true, bne_iff_ne]

theorem isForeign_eq_false_iff {found : Found} :
    q.isForeign found.meaning = false ↔ ¬ q.Foreign found := by
  rw [← isForeign_iff, Bool.not_eq_true]

/-- The result for a definition is its declarations, selected from what they are members of. -/
theorem definitionResult_eq (found : Found) :
    q.definitionResult found = .succeeded (q.selector? found) found.meaning := by
  have hselected (sym : SymbolId) :
      ((q.view.program.flags (q.view.program.owner sym)).isClass &&
        !(q.view.program.flags (q.view.program.owner sym)).isPackage &&
        !(q.view.program.flags sym).contains .typeParam) = true ↔ q.IsMember sym := by
    simp [IsMember, and_assoc]
  unfold definitionResult selector?
  dsimp only
  by_cases hmember : q.IsMember found.meaning.first
  · rw [if_pos ((hselected _).mpr hmember), if_pos hmember]
  · rw [if_neg (mt (hselected _).mp hmember), if_neg hmember]

/-! ### Which imports compete -/

theorem admits_none (level : ImportLevel) : q.admits none level = true := rfl

theorem admits_foreign {found : Found} (hforeign : q.isForeign found.meaning = true)
    (level : ImportLevel) : q.admits (some (q.definitionKey found)) level = true := by
  unfold admits admissionOf definitionKey
  dsimp only
  rw [hforeign]
  split <;> rfl

/-- In a native unit an import competes with a definition of the unit exactly if it is nested
deeper. -/
theorem admits_own {found : Found} (hnative : q.view.unit.isInterop = false)
    (hown : q.isForeign found.meaning = false) (level : ImportLevel) :
    q.admits (some (q.definitionKey found)) level = decide (found.cx.depth < level.depth) := by
  unfold admits admissionOf definitionKey importKey
  dsimp only
  rw [hown, hnative]
  by_cases hdeeper : found.cx.depth < level.depth <;> simp [hdeeper, Admission.isAdmitted]

/-- Where every import competes, the first that binds the name is found. -/
theorem firstImport_of_admits {definition : Option DefinitionKey}
    (h : ∀ level, q.admits definition level = true) :
    (q.firstImport definition q.importLevels).1.map Imported.binding = q.bindings.head? := by
  have hall : q.importLevels.takeWhile (q.admits definition) = q.importLevels :=
    List.takeWhile_eq_self_iff.mpr fun level _ => h level
  rw [firstImport_binding, hall, bindings]

theorem firstImport_of_own {found : Found} (hord : q.Ordered)
    (hnative : q.view.unit.isInterop = false) (hown : q.isForeign found.meaning = false) :
    (q.firstImport (some (q.definitionKey found)) q.importLevels).1.map Imported.binding =
      q.deeperBinding? found := by
  have hadmits : q.admits (some (q.definitionKey found)) =
      fun level => decide (found.cx.depth < level.depth) :=
    funext (admits_own hnative hown)
  rw [firstImport_binding, hadmits, takeWhile_deeper hord, bindingsOf_filter, List.head?_filter]
  rfl

/-! ### The result once the definition is known -/

theorem consultImports_result (found : Option Found) :
    (q.consultImports found).result =
      (q.resolve found (q.firstImport (found.map q.definitionKey) q.importLevels).1).result := rfl

theorem consultImports_none (hord : q.Ordered) :
    (q.consultImports none).result =
      match q.bindings.head? with
      | none => q.failure
      | some b => q.importVerdict b := by
  rw [consultImports_result, Option.map_none, ← firstImport_of_admits admits_none]
  cases himported : (q.firstImport none q.importLevels).1 with
  | none => rfl
  | some i => exact settled_eq_importVerdict hord himported

theorem consultImports_foreign {found : Found} (hord : q.Ordered)
    (hforeign : q.isForeign found.meaning = true) :
    (q.consultImports (some found)).result =
      match q.bindings.head? with
      | none => q.definitionResult found
      | some b => q.importVerdict b := by
  rw [consultImports_result, Option.map_some, ← firstImport_of_admits (admits_foreign hforeign)]
  cases himported : (q.firstImport (some (q.definitionKey found)) q.importLevels).1 with
  | none => rfl
  | some i =>
    have harbitrate : arbitrate (q.definitionKey found) (q.isUnusable i) = .imported := by
      simp [arbitrate, definitionKey, hforeign]
    rw [Option.map_some, resolve]
    simp only [harbitrate]
    exact settled_eq_importVerdict hord himported

theorem isUnusable_iff {i : Imported} : q.isUnusable i = true ↔ q.Unusable i.binding := by
  simp [isUnusable, Unusable, SwitchSet.containsAny, Imported.binding]

/-- The verdict between a definition of the unit and an import. -/
theorem resolve_own {found : Found} (hown : q.isForeign found.meaning = false) (i : Imported) :
    (q.resolve (some found) (some i)).result =
      if q.Unusable i.binding then q.definitionResult found else q.contested found i.binding := by
  have harbitrate : arbitrate (q.definitionKey found) (q.isUnusable i) =
      if q.isUnusable i = true then .definition else .ambiguous := by
    simp [arbitrate, definitionKey, hown]
  simp only [resolve, harbitrate]
  by_cases hunusable : q.isUnusable i = true
  · rw [if_pos (isUnusable_iff.mp hunusable)]
    simp only [hunusable, if_true]
  · rw [if_neg (mt isUnusable_iff.mpr hunusable)]
    simp only [hunusable]
    rfl

/-- A definition of the unit stands, unless the search finds an import that binds the name to
something usable. -/
theorem consultImports_of_own {found : Found} (hown : q.isForeign found.meaning = false) :
    (q.consultImports (some found)).result =
      match (q.firstImport (some (q.definitionKey found)) q.importLevels).1.map Imported.binding with
      | none => q.definitionResult found
      | some b => if q.Unusable b then q.definitionResult found else q.contested found b := by
  rw [consultImports_result, Option.map_some]
  cases (q.firstImport (some (q.definitionKey found)) q.importLevels).1 with
  | none => rfl
  | some i => exact resolve_own hown i

theorem consultImports_own {found : Found} (hord : q.Ordered)
    (hnative : q.view.unit.isInterop = false) (hown : q.isForeign found.meaning = false) :
    (q.consultImports (some found)).result =
      match q.deeperBinding? found with
      | none => q.definitionResult found
      | some b => if q.Unusable b then q.definitionResult found else q.contested found b := by
  rw [consultImports_of_own hown, firstImport_of_own hord hnative hown]

/-! ### Nothing usable -/

theorem blockedAt?_eq_none {c : Context} (hmembers : q.hasMembers c = false) :
    q.blockedAt? c = none := by
  unfold hasMembers at hmembers
  unfold blockedAt?
  cases hclass : c.opensClass with
  | false => simp
  | true =>
    have hnil : q.membersAt c = [] := by simpa [hclass] using hmembers
    simp [hnil]

/-- Of several declarations the group holds the first first. -/
theorem exists_group (owner first : SymbolId) (rest : List SymbolId) :
    ∃ meaning, Meaning.ofList? owner (first :: rest) = some meaning ∧ meaning.first = first := by
  cases hgroup : Meaning.ofList? owner (first :: rest) with
  | none => cases Meaning.ofList?_eq_none_iff.mp hgroup
  | some meaning =>
    refine ⟨meaning, rfl, ?_⟩
    rw [Meaning.first, Meaning.alternatives_of_ofList? hgroup]
    rfl

/-- What is not accessible is denied. -/
theorem exists_denial {pre : TypeRef} {sym : SymbolId} (h : q.isAccessible pre sym = false) :
    ∃ denial, q.view.denial? q.cx sym pre false = some denial := by
  unfold isAccessible View.isAccessible at h
  exact Option.isSome_iff_exists.mp (by simpa using h)

/-- The members of a class that defines nothing are all denied. -/
theorem blockedAt?_eq_some {c : Context} (hnot : ¬ q.Defines c) (hmembers : q.hasMembers c = true) :
    ∃ meaning denial,
      Meaning.ofList? (q.view.program.classOf c.selfType) (q.membersAt c) = some meaning ∧
      q.view.denial? q.cx meaning.first c.selfType false = some denial ∧
      q.blockedAt? c = some (meaning, denial.text q.view.program q.view.names) := by
  rw [hasMembers, Bool.and_eq_true] at hmembers
  obtain ⟨hclass, hnonempty⟩ := hmembers
  have hnil : q.entriesAt c = [] := Classical.not_not.mp fun h => hnot (Or.inl h)
  have hdenied : ∀ sym ∈ q.membersAt c, q.isAccessible c.selfType sym = false := fun sym hsym =>
    Bool.eq_false_iff.mpr fun h => hnot (Or.inr ⟨hclass, sym, hsym, h⟩)
  cases hlist : q.membersAt c with
  | nil => rw [hlist] at hnonempty; cases hnonempty
  | cons first rest =>
    obtain ⟨meaning, hgroup, hfirst⟩ :=
      exists_group (q.view.program.classOf c.selfType) first rest
    obtain ⟨denial, hdenial⟩ := exists_denial (hdenied first (hlist ▸ List.mem_cons_self))
    -- The first member is denied like the others, so there is a reason to report.
    have hunusable : q.memberMeaning? c = none := by
      rw [memberMeaning?, Meaning.ofList?_eq_none_iff, List.filter_eq_nil_iff]
      exact fun sym hsym => by simp [hdenied sym hsym]
    refine ⟨meaning, denial, hgroup, hfirst ▸ hdenial, ?_⟩
    simp [blockedAt?, hclass, hnil, hunusable, hlist, hgroup, hdenial]

theorem failure_eq_notFound (hmembers : q.cx.chain.find? q.hasMembers = none) :
    q.failure = .notFound := by
  have hnone : q.cx.chain.findSome? q.blockedAt? = none :=
    List.findSome?_eq_none_iff.mpr fun c hc =>
      blockedAt?_eq_none (by simpa using List.find?_eq_none.mp hmembers c hc)
  rw [failure, hnone]

/-- The innermost class with members under the name is reported. -/
theorem failure_eq_inaccessible {c : Context} (hnot : ∀ c ∈ q.cx.chain, ¬ q.Defines c)
    (hfirst : q.cx.chain.find? q.hasMembers = some c) :
    ∃ meaning denial,
      Meaning.ofList? (q.view.program.classOf c.selfType) (q.membersAt c) = some meaning ∧
      q.view.denial? q.cx meaning.first c.selfType false = some denial ∧
      q.failure = .inaccessible meaning (denial.text q.view.program q.view.names) := by
  obtain ⟨hmembers, inner, outer, hchain, hinner⟩ := List.find?_eq_some_iff_append.mp hfirst
  obtain ⟨meaning, denial, hgroup, hdenied, hblocked⟩ :=
    blockedAt?_eq_some (hnot c (List.mem_of_find?_eq_some hfirst)) hmembers
  have hfound : q.cx.chain.findSome? q.blockedAt? =
      some (meaning, denial.text q.view.program q.view.names) := by
    rw [List.findSome?_eq_some_iff]
    exact ⟨inner, c, outer, hchain, hblocked,
      fun c hc => blockedAt?_eq_none (by simpa using hinner c hc)⟩
  exact ⟨meaning, denial, hgroup, hdenied, by rw [failure, hfound]⟩

/-- Where there is neither a definition nor a binding, the failure is one that `Means` allows. -/
theorem means_failure (hnot : ∀ found, ¬ q.InnermostDefinition found) (hnone : q.bindings = []) :
    q.Means q.failure := by
  have hundefined := definition?_eq_none_iff.mp (definition?_eq_none_iff_not_exists.mpr hnot)
  cases hfirst : q.cx.chain.find? q.hasMembers with
  | none =>
    rw [failure_eq_notFound hfirst]
    exact .notFound hnot hnone hfirst
  | some c =>
    obtain ⟨meaning, denial, hgroup, hdenied, hfailure⟩ := failure_eq_inaccessible hundefined hfirst
    rw [hfailure]
    exact .inaccessible hnot hnone hfirst hgroup hdenied

/-! ### The lookup -/

theorem run_of_constructor (hname : q.name.isConstructor = true) :
    q.run.result = q.constructorResult := by
  simp [run, hname]

theorem run_of_none (hname : q.name.isConstructor = false) (hdef : q.definition? = none) :
    q.run.result = (q.consultImports none).result := by
  simp [run, hname, hdef]

theorem checkEnclosing_of_allow (hallow : q.view.settings.enclosing = .allow) (found : Found) :
    q.checkEnclosing found = .passed [] := by
  unfold checkEnclosing
  split
  · rfl
  · simp only [hallow]

theorem run_of_allow {found : Found} (hname : q.name.isConstructor = false)
    (hallow : q.view.settings.enclosing = .allow) (hdef : q.definition? = some found) :
    q.run.result = (q.consultImports (some found)).result := by
  simp [run, hname, hdef, checkEnclosing_of_allow hallow]

/-- Without a definition the first binding opens the contest. -/
theorem run_undefined (hord : q.Ordered) (hname : q.name.isConstructor = false)
    (hnot : ∀ found, ¬ q.InnermostDefinition found) :
    q.run.result =
      match q.bindings.head? with
      | none => q.failure
      | some b => q.importVerdict b := by
  rw [run_of_none hname (definition?_eq_none_iff_not_exists.mpr hnot), consultImports_none hord]

/-- A foreign definition leaves the contest to the bindings. -/
theorem run_foreign {found : Found} (hord : q.Ordered)
    (hallow : q.view.settings.enclosing = .allow) (hname : q.name.isConstructor = false)
    (hdef : q.InnermostDefinition found) (hforeign : q.isForeign found.meaning = true) :
    q.run.result =
      match q.bindings.head? with
      | none => q.definitionResult found
      | some b => q.importVerdict b := by
  rw [run_of_allow hname hallow (definition?_eq_some_iff.mpr hdef),
    consultImports_foreign hord hforeign]

/-- Any other definition stands or is contested. -/
theorem run_own {found : Found} (hord : q.Ordered) (hnative : q.view.unit.isInterop = false)
    (hallow : q.view.settings.enclosing = .allow) (hname : q.name.isConstructor = false)
    (hdef : q.InnermostDefinition found) (hown : q.isForeign found.meaning = false) :
    q.run.result =
      match q.deeperBinding? found with
      | none => q.definitionResult found
      | some b => if q.Unusable b then q.definitionResult found else q.contested found b := by
  rw [run_of_allow hname hallow (definition?_eq_some_iff.mpr hdef),
    consultImports_own hord hnative hown]

/-- There is at most one innermost definition. -/
theorem InnermostDefinition.unique {a b : Found} (ha : q.InnermostDefinition a)
    (hb : q.InnermostDefinition b) : a = b := by
  rw [← definition?_eq_some_iff] at ha hb
  exact Option.some.inj (ha.symm.trans hb)

/-- The result of the lookup is one that `Means` allows. -/
theorem means_run (hord : q.Ordered) (hnative : q.view.unit.isInterop = false)
    (hallow : q.view.settings.enclosing = .allow) (hname : q.name.isConstructor = false) :
    q.Means q.run.result := by
  by_cases hdefined : ∃ found, q.InnermostDefinition found
  · obtain ⟨found, hdef⟩ := hdefined
    cases hforeign : q.isForeign found.meaning with
    | true =>
      rw [run_foreign hord hallow hname hdef hforeign]
      cases hfirst : q.bindings.head? with
      | none =>
        simp only [definitionResult_eq]
        exact .foreign hdef (isForeign_iff.mp hforeign) (List.head?_eq_none_iff.mp hfirst)
      | some b =>
        refine .imported (fun other hother => ?_) hfirst
        rw [hother.unique hdef]
        exact isForeign_iff.mp hforeign
    | false =>
      have hown := isForeign_eq_false_iff.mp hforeign
      rw [run_own hord hnative hallow hname hdef hforeign]
      simp only [definitionResult_eq]
      cases hdeeper : q.deeperBinding? found with
      | none => exact .defined hdef hown hdeeper
      | some b =>
        by_cases hunusable : q.Unusable b
        · simpa only [hunusable, if_true] using .unusable hdef hown hdeeper hunusable
        · simpa only [hunusable, if_false] using .contested hdef hown hdeeper hunusable
  · have hnot : ∀ found, ¬ q.InnermostDefinition found := not_exists.mp hdefined
    rw [run_undefined hord hname hnot]
    cases hfirst : q.bindings.head? with
    | none => exact means_failure hnot (List.head?_eq_none_iff.mp hfirst)
    | some b => exact .imported (fun found hfound => absurd hfound (hnot found)) hfirst

/-- Whatever `Means` allows is the result of the lookup. -/
theorem Means.run_eq {r : LookupResult} (hord : q.Ordered) (hnative : q.view.unit.isInterop = false)
    (hallow : q.view.settings.enclosing = .allow) (hname : q.name.isConstructor = false)
    (h : q.Means r) : q.run.result = r := by
  cases h with
  | defined hdef hown hnone =>
    have hforeign := isForeign_eq_false_iff.mpr hown
    rw [run_own hord hnative hallow hname hdef hforeign, hnone]
    exact definitionResult_eq _
  | unusable hdef hown hdeeper hunusable =>
    have hforeign := isForeign_eq_false_iff.mpr hown
    rw [run_own hord hnative hallow hname hdef hforeign, hdeeper, ← definitionResult_eq]
    exact if_pos hunusable
  | contested hdef hown hdeeper husable =>
    have hforeign := isForeign_eq_false_iff.mpr hown
    rw [run_own hord hnative hallow hname hdef hforeign, hdeeper]
    exact if_neg husable
  | imported hyields hfirst =>
    by_cases hdefined : ∃ found, q.InnermostDefinition found
    · obtain ⟨found, hdef⟩ := hdefined
      rw [run_foreign hord hallow hname hdef (isForeign_iff.mpr (hyields found hdef)), hfirst]
    · rw [run_undefined hord hname (not_exists.mp hdefined), hfirst]
  | foreign hdef hforeign hnone =>
    rw [run_foreign hord hallow hname hdef (isForeign_iff.mpr hforeign), hnone]
    exact definitionResult_eq _
  | inaccessible hnot hnone hfirst hgroup hdenied =>
    have hundefined := definition?_eq_none_iff.mp (definition?_eq_none_iff_not_exists.mpr hnot)
    obtain ⟨meaning', denial', hgroup', hdenied', hfailure⟩ :=
      failure_eq_inaccessible hundefined hfirst
    obtain rfl := Option.some.inj (hgroup.symm.trans hgroup')
    obtain rfl := Option.some.inj (hdenied.symm.trans hdenied')
    rw [run_undefined hord hname hnot, hnone, ← hfailure]
    rfl
  | notFound hnot hnone hmembers =>
    rw [run_undefined hord hname hnot, hnone, ← failure_eq_notFound hmembers]
    rfl

/-- **The search answers what `Means` allows, and nothing else.** -/
theorem run_eq_iff_means {r : LookupResult} (hord : q.Ordered)
    (hnative : q.view.unit.isInterop = false) (hallow : q.view.settings.enclosing = .allow)
    (hname : q.name.isConstructor = false) : q.run.result = r ↔ q.Means r := by
  constructor
  · rintro rfl
    exact means_run hord hnative hallow hname
  · exact Means.run_eq hord hnative hallow hname

end NameResolution.Lookup.Query

namespace NameResolution

/-! ### A small program -/

namespace Sample

def name : Name := .ofWord 8

/-- Declares an object with a value of that name. -/
def addHolder (t : Table) (holder : Name) : Table :=
  let (object, t) := t.addObject .root holder
  (t.addValue object name ∅).2

/-- Objects 2, 4 and 6, each with a value of that name. -/
def table : Table := [.ofWord 9, .ofWord 10, .ofWord 11].foldl addHolder .initial

/-- One session of a native unit, and the scopes given. -/
def store (scopes : Array Scope) : Store where
  sessions := #[{ unit := ⟨⟨1⟩, .native⟩, settings := { enclosing := .allow }, sink := 0 }]
  scopes := scopes

def root : Context := (Context.openRoot 0 .root 0 (store #[])).1

def everything (object : SymbolId) : ImportClause := .everything (.path object) .dummy

/-- The value of an object by its name. -/
def naming (object : SymbolId) : ImportClause := ⟨.path object, [.named name], .dummy, false⟩

/-- The program with a value 8 of the root package besides, which the given unit declares. -/
def tableBesides (unit : UnitId) : Table := (table.addValue .root name ∅).2.setUnit ⟨8⟩ (some unit)

/-- That value as a lookup finds it. -/
def besides : Lookup.Found := ⟨.single ⟨8⟩, root, true⟩

end Sample

end NameResolution
