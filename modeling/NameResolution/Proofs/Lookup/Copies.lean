import Mathlib.Logic.Relation
import NameResolution.Proofs.Access
import NameResolution.Proofs.Lookup.Enclosing

/-!
# Lookup at copies

A speculative copy is one more context inside the one it copies, with the same construct, owner and
scope. Almost every question a lookup asks has the same answer at both (`Repeats.denial?`,
`definition?_moveTo_of_some`, `consultImports_moveTo`). The one exception is the search for an
enclosing definition that an inherited member hides: it starts around the context that inherits, and
around a copied class stands the class itself, with all it declares.

* `run_moveTo_eq_iff`: the copy answers what the original answers exactly if what the class itself
  declares makes no difference to that search (`ConflictsWithItself`).
* `ConflictsWithItself.opensClass`: it makes none but at a class.
* `not_conflictsWithItself_of_repeats`: a copy of a copy makes no difference any more.
* `Context.lookup_copy_eq_iff`: both for copies of any depth on a built chain.
* `Context.lookup_copy_inherited`: a class that the copy finds ambiguous with itself.
-/

namespace NameResolution

/-! ### Copies on the chain -/

namespace Context

/-- A silent or an implicit copy, made at whatever store. -/
inductive IsCopy (cx : Context) : Context → Prop where
  | silent (surface : Bool) (s : Store) : IsCopy cx (cx.silentCopy surface s).1
  | implicit (surface : Bool) (s : Store) : IsCopy cx (cx.implicitCopy surface s).1

/-- A context made inside another that says the same, but holds no import. -/
structure Repeats (copy cx : Context) : Prop where
  outer : copy.outer? = some cx
  node : copy.node = cx.node
  owner : copy.owner = cx.owner
  scope : copy.scope = cx.scope
  session : copy.session = cx.session
  depth : copy.depth = cx.depth
  selfType : copy.selfType = cx.selfType
  imported : copy.imported = none

theorem Grown.selfType_of_opensClass {cx : Context} (h : cx.Grown) (hclass : cx.opensClass = true) :
    cx.selfType = .self cx.owner := by
  cases h with
  | root _ _ hself _ => exact hself
  | nested _ id ext => exact if_pos hclass

/-- A silent copy repeats the context it is made at. -/
theorem repeats_silentCopy {cx : Context} (h : cx.Grown) (surface : Bool) (s : Store) :
    (cx.silentCopy surface s).1.Repeats cx where
  outer := rfl
  node := rfl
  owner := rfl
  scope := rfl
  session := rfl
  depth := by
    show (if false || cx.scope != cx.scope then cx.depth + 1 else cx.depth) = cx.depth
    simp
  selfType := by
    show (if cx.opensClass then TypeRef.self cx.owner else cx.selfType) = cx.selfType
    split
    · rename_i hclass
      exact (h.selfType_of_opensClass hclass).symm
    · rfl
  imported := rfl

/-- So does a copy of any kind. -/
theorem IsCopy.repeats {cx copy : Context} (hcopy : cx.IsCopy copy) (h : cx.Grown) :
    copy.Repeats cx := by
  cases hcopy with
  | silent surface s => exact repeats_silentCopy h surface s
  | implicit surface s => exact repeats_silentCopy h surface s

theorem IsCopy.grown {cx copy : Context} (hcopy : cx.IsCopy copy) (h : cx.Grown) : copy.Grown := by
  cases hcopy with
  | silent surface s => exact h.silentCopy surface s
  | implicit surface s => exact h.silentCopy surface s

namespace Repeats

variable {copy cx : Context}

theorem chain_eq (h : copy.Repeats cx) : copy.chain = copy :: cx.chain := chain_of_outer? h.outer

theorem opensClass (h : copy.Repeats cx) : copy.opensClass = cx.opensClass :=
  congrArg NodeKind.opensClass h.node

/-- Both see the same program. -/
theorem view (h : copy.Repeats cx) (u : Universe) (s : Store) : copy.view u s = cx.view u s := by
  unfold Context.view
  rw [h.session]

/-- The enclosing class is the same, or it is copied. -/
theorem enclosingClass (h : copy.Repeats cx) :
    copy.enclosingClass = cx.enclosingClass ∨
      copy.enclosingClass = copy ∧ cx.enclosingClass = cx := by
  by_cases hclass : cx.opensClass = true
  · right
    have hcopied : copy.opensClass = true := h.opensClass.trans hclass
    exact ⟨enclosingClass_of_opensClass hcopied, enclosingClass_of_opensClass hclass⟩
  · left
    have hcopied : ¬ copy.opensClass = true := h.opensClass ▸ hclass
    cases copy with
    | root frame => cases h.outer
    | nested frame outer =>
      cases h.outer
      rw [enclosingClass_nested]
      exact if_neg hcopied

theorem enclosingClass_owner (h : copy.Repeats cx) :
    copy.enclosingClass.owner = cx.enclosingClass.owner := by
  rcases h.enclosingClass with heq | ⟨hcopy, hcx⟩
  · rw [heq]
  · rw [hcopy, hcx, h.owner]

theorem enclosingClass_selfType (h : copy.Repeats cx) :
    copy.enclosingClass.selfType = cx.enclosingClass.selfType := by
  rcases h.enclosingClass with heq | ⟨hcopy, hcx⟩
  · rw [heq]
  · rw [hcopy, hcx, h.selfType]

/-- A copied class stands twice in a row among the classes around. -/
theorem enclosingSubclass? (h : copy.Repeats cx) (v : View) (base : SymbolId) :
    v.enclosingSubclass? copy base = v.enclosingSubclass? cx base := by
  rw [View.enclosingSubclass?_eq_find?, View.enclosingSubclass?_eq_find?, classContexts,
    h.chain_eq]
  by_cases hclass : cx.opensClass = true
  · obtain ⟨around, hchain⟩ := cx.chain_eq_cons
    rw [classContexts, hchain, List.filter_cons_of_pos (h.opensClass.trans hclass),
      List.filter_cons_of_pos hclass, List.map_cons, List.map_cons, h.owner]
    cases hderives : v.program.isSubclass cx.owner base with
    | true => simp [hderives]
    | false => simp [hderives]
  · rw [List.filter_cons_of_neg (h.opensClass ▸ hclass)]
    rfl

/-- **What may be used at a context may be used at its copies.** -/
theorem denial? (h : copy.Repeats cx) (v : View) (sym : SymbolId) (pre : TypeRef)
    (throughSuper : Bool) : v.denial? copy sym pre throughSuper = v.denial? cx sym pre throughSuper :=
  v.denial?_congr h.owner (h.enclosingSubclass? v) h.enclosingClass_owner sym pre throughSuper

end Repeats

end Context

namespace Lookup

/-! ### The same query elsewhere -/

/-- The definition as it is found at another context. -/
def Found.moveTo (found : Found) (c : Context) : Found := { found with cx := c }

namespace Query

variable (q : Query)

/-- The query for the same name at another context. -/
def moveTo (c : Context) : Query := { q with cx := c }

variable {q} {copy : Context}

/-- Access is the same from a copy. -/
theorem isAccessible_moveTo (h : copy.Repeats q.cx) :
    (q.moveTo copy).isAccessible = q.isAccessible := by
  funext pre sym
  exact congrArg Option.isNone (h.denial? q.view sym pre false)

theorem definitionAt?_moveTo (h : copy.Repeats q.cx) :
    (q.moveTo copy).definitionAt? = q.definitionAt? := by
  funext c
  unfold definitionAt? memberMeaning?
  rw [isAccessible_moveTo h]
  rfl

/-- A copy defines what the original defines. -/
theorem definitionAt?_copy (h : copy.Repeats q.cx) :
    q.definitionAt? copy = (q.definitionAt? q.cx).map (·.moveTo copy) := by
  unfold definitionAt? memberMeaning? entriesAt membersAt
  rw [h.owner, h.scope, h.opensClass, h.selfType]
  cases Meaning.ofList? q.cx.owner ((q.view.entered q.cx.scope q.name).filter q.qualifies) with
  | some meaning => rfl
  | none =>
    dsimp only
    split
    · rw [Option.map_map]
      rfl
    · rfl

theorem definition?_of_some {found : Found} (hat : q.definitionAt? q.cx = some found) :
    q.definition? = some found := by
  obtain ⟨around, hchain⟩ := q.cx.chain_eq_cons
  rw [definition?, hchain, List.findSome?_cons, hat]

/-- From a copy the search for a definition starts one context further in. -/
theorem definition?_moveTo (h : copy.Repeats q.cx) :
    (q.moveTo copy).definition? = (q.definitionAt? copy).or q.definition? := by
  show (copy.chain).findSome? (q.moveTo copy).definitionAt? = _
  rw [definitionAt?_moveTo h, h.chain_eq, List.findSome?_cons]
  cases q.definitionAt? copy <;> rfl

/-- What is defined at the context itself is found at the copy. -/
theorem definition?_moveTo_of_some (h : copy.Repeats q.cx) {found : Found}
    (hat : q.definitionAt? q.cx = some found) :
    (q.moveTo copy).definition? = some (found.moveTo copy) := by
  rw [definition?_moveTo h, definitionAt?_copy h, hat]
  rfl

/-- What is defined around the context is found where it was. -/
theorem definition?_moveTo_of_none (h : copy.Repeats q.cx) (hat : q.definitionAt? q.cx = none) :
    (q.moveTo copy).definition? = q.definition? := by
  rw [definition?_moveTo h, definitionAt?_copy h, hat]
  rfl

/-! ### Imports and failures -/

/-- Inside a context without an import of its own the same imports are in effect. -/
theorem importLevels_moveTo {inside : Context} (houter : inside.outer? = some q.cx)
    (himported : inside.imported = none) : (q.moveTo inside).importLevels = q.importLevels := by
  show inside.chain.filterMap _ = _
  rw [Context.chain_of_outer? houter, List.filterMap_cons, himported]
  rfl

/-- Every import level binds the same from a copy. -/
theorem consult_moveTo (h : copy.Repeats q.cx) : (q.moveTo copy).consult = q.consult := by
  funext level explicitOnly
  unfold consult usablePart
  rw [isAccessible_moveTo h]
  rfl

theorem firstImport_moveTo (h : copy.Repeats q.cx) (definition : Option Precedence.DefinitionKey)
    (levels : List ImportLevel) :
    (q.moveTo copy).firstImport definition levels = q.firstImport definition levels := by
  induction levels with
  | nil => rfl
  | cons level outer ih =>
    unfold firstImport
    rw [consult_moveTo h, ih]
    rfl

theorem settle_moveTo (h : copy.Repeats q.cx) (leader : ImportLevel) (meaning : Meaning)
    (levels : List ImportLevel) :
    (q.moveTo copy).settle leader meaning levels = q.settle leader meaning levels := by
  induction levels generalizing leader meaning with
  | nil => rfl
  | cons level outer ih =>
    unfold settle
    simp only [consult_moveTo h, ih]
    rfl

/-- What blocks the search blocks it from a copy. -/
theorem blockedAt?_moveTo (h : copy.Repeats q.cx) :
    (q.moveTo copy).blockedAt? = q.blockedAt? := by
  have hdenial : ∀ sym pre, (q.moveTo copy).view.denial? (q.moveTo copy).cx sym pre false =
      q.view.denial? q.cx sym pre false := fun sym pre => h.denial? q.view sym pre false
  funext c
  unfold blockedAt? memberMeaning?
  simp only [isAccessible_moveTo h, hdenial]
  rfl

theorem blockedAt?_copy (h : copy.Repeats q.cx) : q.blockedAt? copy = q.blockedAt? q.cx := by
  unfold blockedAt? memberMeaning? entriesAt membersAt
  rw [h.scope, h.opensClass, h.selfType]

/-- A lookup that fails fails in the same way. -/
theorem failure_moveTo (h : copy.Repeats q.cx) : (q.moveTo copy).failure = q.failure := by
  have hfirst : (q.moveTo copy).cx.chain.findSome? (q.moveTo copy).blockedAt? =
      q.cx.chain.findSome? q.blockedAt? := by
    obtain ⟨around, hchain⟩ := q.cx.chain_eq_cons
    show copy.chain.findSome? _ = _
    rw [blockedAt?_moveTo h, h.chain_eq, hchain, List.findSome?_cons, List.findSome?_cons,
      blockedAt?_copy h]
    cases q.blockedAt? q.cx <;> rfl
  unfold failure
  rw [hfirst]

/-- **Once the definition is known, the copy decides as the original.** -/
theorem consultImports_moveTo (h : copy.Repeats q.cx) (found : Option Found) :
    (q.moveTo copy).consultImports found = q.consultImports found := by
  unfold consultImports resolve
  simp only [importLevels_moveTo h.outer h.imported, firstImport_moveTo h, settle_moveTo h,
    failure_moveTo h]
  rfl

/-- Nothing depends on whether a definition was found at a context or at its copy. -/
theorem consultImports_found_moveTo {found : Found} (h : copy.Repeats found.cx) :
    q.consultImports (some (found.moveTo copy)) = q.consultImports (some found) := by
  have hkey : q.definitionKey (found.moveTo copy) = q.definitionKey found := by
    unfold definitionKey
    rw [← h.depth]
    rfl
  have hresult : q.definitionResult (found.moveTo copy) = q.definitionResult found := by
    unfold definitionResult
    rw [← h.enclosingClass_selfType]
    rfl
  have hresolve : ∀ imported, q.resolve (some (found.moveTo copy)) imported =
      q.resolve (some found) imported := by
    intro imported
    cases imported with
    | none => simp only [resolve, hresult]
    | some i =>
      simp only [resolve, hkey, hresult]
      rfl
  unfold consultImports
  simp only [Option.map_some, hkey, hresolve]

theorem constructorResult_moveTo (h : copy.Repeats q.cx) :
    (q.moveTo copy).constructorResult = q.constructorResult := by
  unfold constructorResult
  rw [← h.enclosingClass_selfType]
  rfl

/-! ### Hidden definitions -/

variable (q)

/-- At a class that inherits what the name means, and where hiding an enclosing definition is an
error, it matters whether the class itself is among the contexts around it. -/
def ConflictsWithItself : Prop :=
  q.view.settings.enclosing = .error ∧ ∃ found, q.InnermostDefinition found ∧ found.cx = q.cx ∧
    q.conflictAmong found q.cx.chain ≠ q.conflictAmong found (q.cx.chain.drop 1)

variable {q}

/-- The verdict on a definition is the same, with a conflict or without. -/
theorem verdict_moveTo (h : copy.Repeats q.cx) {found : Found} (hcx : found.cx = q.cx)
    (conflict : Option (SymbolId × SymbolId)) :
    (q.moveTo copy).verdict (found.moveTo copy) conflict = q.verdict found conflict := by
  unfold verdict
  rw [consultImports_moveTo h, consultImports_found_moveTo (hcx ▸ h)]
  rfl

/-- Around a copy of the class stands the class itself. -/
theorem conflict?_moveTo (h : copy.Repeats q.cx) {found : Found} (hcx : found.cx = q.cx) :
    (q.moveTo copy).conflict? (found.moveTo copy) = q.conflictAmong found q.cx.chain := by
  have hchain : (found.moveTo copy).cx.chain.drop 1 = q.cx.chain := by
    show copy.chain.drop 1 = _
    rw [h.chain_eq]
    rfl
  have howner : (found.moveTo copy).cx.owner = found.cx.owner := by
    rw [hcx]
    exact h.owner
  have hself : (found.moveTo copy).cx.selfType = found.cx.selfType := by
    rw [hcx]
    exact h.selfType
  rw [conflict?_eq, hchain]
  unfold conflictAmong
  rw [howner, hself]
  rfl

/-- What is defined around the original is judged alike at the copy. -/
theorem run_moveTo_of_none (h : copy.Repeats q.cx) (hat : q.definitionAt? q.cx = none) :
    (q.moveTo copy).run = q.run := by
  have hname : (q.moveTo copy).name = q.name := rfl
  have hcheck : (q.moveTo copy).checkEnclosing = q.checkEnclosing := rfl
  unfold run
  simp only [definition?_moveTo_of_none h hat, constructorResult_moveTo h, hname, hcheck,
    consultImports_moveTo h]

/-! ### The lookup at the copy -/

/-- **A copy answers as the original exactly if the original is in no conflict with itself.** -/
theorem run_moveTo_eq_iff (h : copy.Repeats q.cx) (hname : q.name.isConstructor = false) :
    (q.moveTo copy).run.result = q.run.result ↔ ¬ q.ConflictsWithItself := by
  cases hat : q.definitionAt? q.cx with
  | some found =>
    obtain ⟨hcx, -⟩ := definitionAt?_eq_some_iff.mp hat
    have hfound := definition?_of_some hat
    rw [run_eq_verdict (q := q.moveTo copy) hname (definition?_moveTo_of_some h hat),
      run_eq_verdict hname hfound, verdict_moveTo h hcx, conflict?_moveTo h hcx, verdict_eq_iff,
      conflict?_eq, hcx]
    constructor
    · rintro heq ⟨herror, other, hother, -, hne⟩
      rw [← hother.unique (definition?_eq_some_iff.mp hfound)] at heq
      exact hne (heq herror)
    · intro hnot herror
      by_contra hne
      exact hnot ⟨herror, found, definition?_eq_some_iff.mp hfound, hcx, hne⟩
  | none =>
    refine iff_of_true (congrArg Answer.result (run_moveTo_of_none h hat)) ?_
    rintro ⟨-, found, hdef, hcx, -⟩
    have hsome := definitionAt?_eq_some_iff.mpr ⟨hcx, hdef.definedAs⟩
    rw [hat] at hsome
    cases hsome

/-- Constructors are found at the class, which a copy shares. -/
theorem run_moveTo_of_constructor (h : copy.Repeats q.cx) (hname : q.name.isConstructor = true) :
    (q.moveTo copy).run.result = q.run.result := by
  rw [run_of_constructor hname, run_of_constructor (q := q.moveTo copy) hname,
    constructorResult_moveTo h]

/-- Only a class is in conflict with itself: entries of a scope hide nothing. -/
theorem ConflictsWithItself.opensClass (h : q.ConflictsWithItself) : q.cx.opensClass = true := by
  obtain ⟨-, found, hfound, hcx, hne⟩ := h
  cases hfound.definedAs with
  | entries hgroup => exact absurd rfl hne
  | members hnone hclass hgroup =>
    rw [← hcx]
    exact hclass

/-- A copy is in no conflict with itself: what stands around it declares the same. -/
theorem not_conflictsWithItself_of_repeats {cx : Context} (h : q.cx.Repeats cx) :
    ¬ q.ConflictsWithItself := by
  rintro ⟨-, found, -, -, hne⟩
  have hsame : q.enclosingAt? q.cx = q.enclosingAt? cx := by
    unfold enclosingAt? enclosingCandidateAt?
    rw [h.scope, h.opensClass, h.selfType]
  have hfirst : q.cx.chain.findSome? q.enclosingAt? =
      (q.cx.chain.drop 1).findSome? q.enclosingAt? := by
    obtain ⟨around, hchain⟩ := cx.chain_eq_cons
    rw [h.chain_eq, List.drop_one, List.tail_cons, hchain, List.findSome?_cons, hsame,
      List.findSome?_cons]
    cases q.enclosingAt? cx <;> rfl
  apply hne
  unfold conflictAmong
  rw [hfirst]

end Query

end Lookup

namespace Context

/-- The lookup at a copy is the same query at another context. -/
theorem query_copy {cx copy : Context} (h : copy.Repeats cx) (u : Universe) (name : Name)
    (qualifies : SymbolId → Bool) (s : Store) :
    copy.query u name qualifies s = (cx.query u name qualifies s).moveTo copy := by
  unfold query Lookup.Query.moveTo
  rw [h.view]

theorem lookup_isCopy_eq_iff {cx copy : Context} (hgrown : cx.Grown) (hcopy : cx.IsCopy copy)
    (u : Universe) (name : Name) (qualifies : SymbolId → Bool) (s : Store) :
    (copy.lookup u name qualifies s).1 = (cx.lookup u name qualifies s).1 ↔
      name.isConstructor = true ∨ ¬ (cx.query u name qualifies s).ConflictsWithItself := by
  have hrepeats := hcopy.repeats hgrown
  show (copy.query u name qualifies s).run.result = (cx.query u name qualifies s).run.result ↔ _
  rw [query_copy hrepeats]
  cases hname : name.isConstructor with
  | true => exact iff_of_true (Lookup.Query.run_moveTo_of_constructor hrepeats hname) (Or.inl rfl)
  | false =>
    rw [Lookup.Query.run_moveTo_eq_iff (q := cx.query u name qualifies s) hrepeats hname]
    simp

/-- Copies of a copy answer as the copy. -/
theorem lookup_copies_eq {cx copy last : Context} (hgrown : cx.Grown) (hcopy : cx.IsCopy copy)
    (hlast : Relation.ReflTransGen IsCopy copy last) (u : Universe) (name : Name)
    (qualifies : SymbolId → Bool) (s : Store) :
    (last.lookup u name qualifies s).1 = (copy.lookup u name qualifies s).1 := by
  -- Along the copies the last one always stands next to a context it repeats.
  suffices h : (∃ c, last.Repeats c) ∧ last.Grown ∧
      (last.lookup u name qualifies s).1 = (copy.lookup u name qualifies s).1 from h.2.2
  induction hlast with
  | refl => exact ⟨⟨cx, hcopy.repeats hgrown⟩, hcopy.grown hgrown, rfl⟩
  | @tail c d _ hnext ih =>
    obtain ⟨⟨around, hrepeats⟩, hgrown, heq⟩ := ih
    refine ⟨⟨c, hnext.repeats hgrown⟩, hnext.grown hgrown, Eq.trans ?_ heq⟩
    exact (lookup_isCopy_eq_iff hgrown hnext u name qualifies s).mpr
      (Or.inr (Lookup.Query.not_conflictsWithItself_of_repeats hrepeats))

/-- **Copies of any depth answer as the original, exactly if it is in no conflict with itself.**
Where owners run in a circle (`Table.Settles`) neither need answer. -/
theorem lookup_copy_eq_iff {cx copy : Context} (hbuilt : cx.Built)
    (hcopy : Relation.TransGen IsCopy cx copy) (u : Universe) (name : Name)
    (qualifies : SymbolId → Bool) (s : Store) :
    (copy.lookup u name qualifies s).1 = (cx.lookup u name qualifies s).1 ↔
      name.isConstructor = true ∨ ¬ (cx.query u name qualifies s).ConflictsWithItself := by
  obtain ⟨first, hfirst, hrest⟩ := Relation.TransGen.head'_iff.mp hcopy
  rw [lookup_copies_eq hbuilt.grown hfirst hrest]
  exact lookup_isCopy_eq_iff hbuilt.grown hfirst u name qualifies s

/-- A copy of a copy inside an import. -/
theorem lookup_copy_eq_import :
    let s := Sample.store #[]
    let cx := (Sample.root.makeImport (Sample.naming ⟨6⟩) s).1
    let copy := ((cx.silentCopy true s).1.implicitCopy false s).1
    (copy.lookup Sample.table.toUniverse Sample.name (fun _ => true) s).1 =
      (cx.lookup Sample.table.toUniverse Sample.name (fun _ => true) s).1 :=
  have hbuilt : Context.Built Sample.root := .openRoot 0 .root 0 _
  (lookup_copy_eq_iff (hbuilt.makeImport _ _) (.tail (.single (.silent true _)) (.implicit false _))
    _ _ _ _).mpr (Or.inr fun h => nomatch h.1)

end Context

/-! ### A class in conflict with itself -/

namespace SelfConflict

/-- Class 3 inherits the value 5 from class 2 and declares 6, which only object 4 may use. -/
def table : Table :=
  let t := ((Table.initial.addClass .root (.ofWord 9)).2.addClass .root (.ofWord 10)).2
  let t := ((t.addParent ⟨3⟩ ⟨2⟩).addObject .root (.ofWord 11)).2
  let t := ((t.addValue ⟨2⟩ Sample.name ∅).2.addValue ⟨3⟩ Sample.name ∅).2
  (t.setAccessQualifier ⟨6⟩ ⟨4⟩).setUnit ⟨6⟩ (some ⟨1⟩)

end SelfConflict

/-- **The body of a class finds the value it inherits, and its copy finds that value in conflict
with the one the class declares itself.** -/
theorem Context.lookup_copy_inherited :
    let u := SelfConflict.table.toUniverse
    let s := Sample.strictStore #[.empty, .empty]
    let body := (Sample.root.make .template ⟨3⟩ 1 s).1
    let copy := (body.silentCopy true s).1
    body.Built ∧ body.IsCopy copy ∧
      (body.lookup u Sample.name (fun _ => true) s).1 =
        .succeeded (some (.self ⟨3⟩)) (.single ⟨5⟩) ∧
      (copy.lookup u Sample.name (fun _ => true) s).1 =
        .ambiguous (.withEnclosing Sample.name ⟨5⟩ ⟨6⟩) := by
  have hroot : Context.Built Sample.root := .openRoot 0 .root 0 _
  refine ⟨hroot.make .template ⟨3⟩ 1 _, .silent true _, ?_, ?_⟩
  · decide +kernel
  · decide +kernel

end NameResolution
