import NameResolution.Proofs.Access
import NameResolution.Proofs.Lookup.Arbitration

/-!
# Leaving out imports

`Context.filterImports` leaves out imports of a chain and nothing else. What a chain defines, and
what may be accessed from it, does not depend on its imports (`View.denial?_filterImports`,
`definition?_filterImports_eq`), and the bindings that are left are those of the imports that are
left (`bindings_filterImports`).

An import that names a declaration ranks above the wildcards at its depth, as soon as they meet. But
wildcards that lie inside the first named import meet before, and two that disagree make the name
ambiguous.

* `run_withoutWildcards_eq_iff`: leaving out the wildcards at the depth of a named import changes
  nothing exactly if those inside the first named one agree (`WildcardsAgree`).
* `Context.lookup_withoutWildcards_iff`: the same for lookups on a built chain, for any name.
-/

namespace NameResolution

/-! ### The chain without some imports -/

namespace Context

/-- The chain without the imports that fail a test of depth and import. -/
def filterImports (keep : Nat → Import → Bool) : Context → Context
  | root frame => root { frame with imported := frame.imported.filter (keep frame.depth) }
  | nested frame outer =>
    nested { frame with imported := frame.imported.filter (keep frame.depth) }
      (filterImports keep outer)

variable (keep : Nat → Import → Bool) (cx : Context)

@[simp] theorem filterImports_owner : (cx.filterImports keep).owner = cx.owner := by
  cases cx <;> rfl

@[simp] theorem filterImports_scope : (cx.filterImports keep).scope = cx.scope := by
  cases cx <;> rfl

@[simp] theorem filterImports_session : (cx.filterImports keep).session = cx.session := by
  cases cx <;> rfl

@[simp] theorem filterImports_depth : (cx.filterImports keep).depth = cx.depth := by
  cases cx <;> rfl

@[simp] theorem filterImports_selfType : (cx.filterImports keep).selfType = cx.selfType := by
  cases cx <;> rfl

@[simp] theorem filterImports_imported :
    (cx.filterImports keep).imported = cx.imported.filter (keep cx.depth) := by
  cases cx <;> rfl

@[simp] theorem filterImports_opensClass : (cx.filterImports keep).opensClass = cx.opensClass := by
  cases cx <;> rfl

/-- Filtering imports keeps the chain, context by context. -/
theorem chain_filterImports :
    (cx.filterImports keep).chain = cx.chain.map (filterImports keep) := by
  induction cx with
  | root frame => rfl
  | nested frame outer ih => exact congrArg (_ :: ·) ih

theorem enclosingClass_filterImports :
    (cx.filterImports keep).enclosingClass = cx.enclosingClass.filterImports keep := by
  induction cx with
  | root frame => rfl
  | nested frame outer ih =>
    simp only [filterImports, enclosingClass_nested]
    split
    · rfl
    · exact ih

theorem classContexts_filterImports :
    (cx.filterImports keep).classContexts = cx.classContexts.map (filterImports keep) := by
  have hclass : opensClass ∘ filterImports keep = opensClass :=
    funext (filterImports_opensClass keep)
  rw [classContexts, chain_filterImports, List.filter_map, hclass, classContexts]

theorem view_filterImports (u : Universe) (s : Store) :
    (cx.filterImports keep).view u s = cx.view u s := by
  simp [view]

end Context

/-! ### Access does not depend on imports -/

namespace View

variable (v : View)

/-- Access does not look at imports. -/
theorem denial?_filterImports (keep : Nat → Import → Bool) (cx : Context) (sym : SymbolId)
    (pre : TypeRef) (throughSuper : Bool) :
    v.denial? (cx.filterImports keep) sym pre throughSuper = v.denial? cx sym pre throughSuper := by
  refine v.denial?_congr (cx.filterImports_owner keep) ?_ ?_ sym pre throughSuper
  · intro base
    have howner : Context.owner ∘ Context.filterImports keep = Context.owner :=
      funext (Context.filterImports_owner keep)
    rw [enclosingSubclass?_eq_find?, enclosingSubclass?_eq_find?,
      Context.classContexts_filterImports, List.map_map, howner]
  · rw [Context.enclosingClass_filterImports, Context.filterImports_owner]

end View

namespace Lookup

/-- What is found at the same place once some imports are left out. -/
def Found.filterImports (keep : Nat → Import → Bool) (found : Found) : Found :=
  { found with cx := found.cx.filterImports keep }

namespace Query

/-! ### Lookup without some imports -/

variable (q : Query) (keep : Nat → Import → Bool)

/-- The query at the same place without some imports. -/
def filterImports : Query := { q with cx := q.cx.filterImports keep }

variable {q keep}

theorem isAccessible_filterImports : (q.filterImports keep).isAccessible = q.isAccessible := by
  funext pre sym
  show (q.view.denial? (q.cx.filterImports keep) sym pre false).isNone =
    (q.view.denial? q.cx sym pre false).isNone
  rw [View.denial?_filterImports]

theorem boundBy_filterImports : (q.filterImports keep).boundBy = q.boundBy := by
  funext explicitOnly level
  show (level.imp.clause.bind? q.view.program q.name explicitOnly).bind
      (fun found => found.2.filter fun sym =>
        (q.filterImports keep).isAccessible level.imp.clause.qualifier sym && q.qualifies sym) =
    q.boundBy explicitOnly level
  rw [isAccessible_filterImports]
  rfl

/-- The levels left are those of the imports that are kept. -/
theorem importLevels_filterImports : (q.filterImports keep).importLevels =
    q.importLevels.filter fun level => keep level.depth level.imp := by
  show (q.cx.filterImports keep).chain.filterMap _ = _
  rw [Context.chain_filterImports, List.filterMap_map, importLevels, List.filter_filterMap]
  refine congrArg (List.filterMap · q.cx.chain) (funext fun c => ?_)
  simp only [Function.comp_apply, Context.filterImports_imported, Context.filterImports_depth]
  cases himp : c.imported with
  | none => rfl
  | some imp => cases hkeep : keep c.depth imp <;> simp [Option.filter_some, hkeep]

/-- The imports that are left bind what they bound before. -/
theorem bindingsOf_filterImports (explicitOnly : Bool) :
    (q.filterImports keep).bindingsOf explicitOnly (q.filterImports keep).importLevels =
      (q.bindingsOf explicitOnly q.importLevels).filter fun b => keep b.depth b.level.imp := by
  unfold bindingsOf
  rw [boundBy_filterImports, importLevels_filterImports]
  exact bindingsOf_filter explicitOnly _ _

/-- So are the bindings. -/
theorem bindings_filterImports : (q.filterImports keep).bindings =
    q.bindings.filter fun b => keep b.depth b.level.imp :=
  bindingsOf_filterImports false

/-- A context defines the name with its imports or without. -/
theorem defines_filterImports {c : Context} :
    (q.filterImports keep).Defines (c.filterImports keep) ↔ q.Defines c := by
  unfold Defines entriesAt membersAt
  rw [isAccessible_filterImports]
  simp [filterImports]

/-- **Leaving out imports makes nothing a definition and leaves every definition.** -/
theorem definition?_filterImports :
    (q.filterImports keep).definition? = none ↔ q.definition? = none := by
  rw [definition?_eq_none_iff, definition?_eq_none_iff]
  show (∀ c ∈ (q.cx.filterImports keep).chain, _) ↔ _
  simp only [Context.chain_filterImports, List.forall_mem_map, defines_filterImports]

theorem definitionAt?_filterImports (c : Context) :
    (q.filterImports keep).definitionAt? (c.filterImports keep) =
      (q.definitionAt? c).map (·.filterImports keep) := by
  have hentries : (q.filterImports keep).entriesAt (c.filterImports keep) = q.entriesAt c := by
    simp [entriesAt, filterImports]
  have hmembers :
      (q.filterImports keep).memberMeaning? (c.filterImports keep) = q.memberMeaning? c := by
    unfold memberMeaning? membersAt
    rw [isAccessible_filterImports]
    simp [filterImports]
  unfold definitionAt?
  rw [hentries, hmembers, Context.filterImports_owner, Context.filterImports_opensClass]
  cases Meaning.ofList? c.owner (q.entriesAt c) with
  | some meaning => rfl
  | none =>
    dsimp only
    split
    · cases q.memberMeaning? c <;> rfl
    · rfl

/-- What is defined does not depend on the imports. -/
theorem definition?_filterImports_eq :
    (q.filterImports keep).definition? = q.definition?.map (·.filterImports keep) := by
  have hat : (q.filterImports keep).definitionAt? ∘ Context.filterImports keep =
      fun c => (q.definitionAt? c).map (·.filterImports keep) :=
    funext definitionAt?_filterImports
  show (q.cx.filterImports keep).chain.findSome? _ = _
  rw [Context.chain_filterImports, List.findSome?_map, hat]
  exact (List.map_findSome? ..).symm

/-- Nor does what a definition hides. -/
theorem conflict?_filterImports (found : Found) :
    (q.filterImports keep).conflict? (found.filterImports keep) = q.conflict? found := by
  have hat : (q.filterImports keep).enclosingAt? ∘ Context.filterImports keep = q.enclosingAt? := by
    funext c
    simp [enclosingAt?, enclosingCandidateAt?, filterImports]
  have hfirst :
      ((found.cx.filterImports keep).chain.drop 1).findSome? (q.filterImports keep).enclosingAt? =
        (found.cx.chain.drop 1).findSome? q.enclosingAt? := by
    rw [Context.chain_filterImports, ← List.map_drop, List.findSome?_map, hat]
  unfold conflict?
  simp only [Found.filterImports, hfirst, Context.filterImports_owner,
    Context.filterImports_selfType]
  rfl

/-- A definition means the same when imports are filtered. -/
theorem definitionResult_filterImports (found : Found) :
    (q.filterImports keep).definitionResult (found.filterImports keep) =
      q.definitionResult found := by
  have hclass : (found.cx.filterImports keep).enclosingClass.selfType =
      found.cx.enclosingClass.selfType := by
    rw [Context.enclosingClass_filterImports, Context.filterImports_selfType]
  unfold definitionResult
  simp only [Found.filterImports, hclass]
  rfl

theorem constructorResult_filterImports :
    (q.filterImports keep).constructorResult = q.constructorResult := by
  have hclass : (q.cx.filterImports keep).enclosingClass.selfType =
      q.cx.enclosingClass.selfType := by
    rw [Context.enclosingClass_filterImports, Context.filterImports_selfType]
  unfold constructorResult
  simp only [filterImports, hclass]

theorem ordered_filterImports (hord : q.Ordered) : (q.filterImports keep).Ordered := by
  unfold Ordered
  rw [importLevels_filterImports]
  exact List.Pairwise.filter _ hord

/-! ### Wildcards next to a named import -/

variable (q)

/-- The query at the same place without the wildcards of one depth. -/
def withoutWildcards (depth : Nat) : Query :=
  q.filterImports fun d imp => d != depth || imp.clause.isExplicit q.name

/-- The wildcards of one depth inside the first named import there agree with the innermost. -/
def WildcardsAgree (depth : Nat) : Prop :=
  ∀ innermost ∈ (q.peersAt depth).head?, ∀ b ∈ q.inside (q.peersAt depth), q.Agree innermost b

instance (depth : Nat) : Decidable (q.WildcardsAgree depth) :=
  inferInstanceAs (Decidable (∀ innermost ∈ (q.peersAt depth).head?, _))

variable {q}

/-- Without the wildcards of a depth its explicit bindings stay, and those of other depths. -/
theorem mem_bindings_withoutWildcards {depth : Nat} {b : Binding} :
    b ∈ (q.withoutWildcards depth).bindings ↔
      b ∈ q.bindings ∧ (b.depth ≠ depth ∨ q.isExplicit b = true) := by
  rw [withoutWildcards, bindings_filterImports, List.mem_filter, Bool.or_eq_true, bne_iff_ne]
  rfl

/-- What is left at the depth are the named imports. -/
theorem peersAt_withoutWildcards (depth : Nat) :
    (q.withoutWildcards depth).peersAt depth = (q.peersAt depth).filter q.isExplicit := by
  rw [peersAt, withoutWildcards, bindings_filterImports, peersAt, List.filter_filter,
    List.filter_filter]
  refine List.filter_congr fun b _ => ?_
  have hnamed : b.level.imp.clause.isExplicit q.name = q.isExplicit b := rfl
  by_cases hdepth : b.depth = depth
  · simp [hdepth, hnamed]
  · rw [beq_false_of_ne hdepth, Bool.false_and, Bool.and_false]

/-- Without the wildcards the named imports are judged among themselves. -/
theorem run_withoutWildcards (hord : q.Ordered) (hname : q.name.isConstructor = false)
    (hnot : ∀ found, ¬ q.InnermostDefinition found) {e : Binding} (he : e ∈ q.bindings)
    (hexplicit : q.isExplicit e = true) (hdeepest : ∀ b ∈ q.bindings, b.depth ≤ e.depth) :
    ∃ leader, (q.peersAt e.depth).find? q.isExplicit = some leader ∧
      (q.withoutWildcards e.depth).run.result =
        q.judge leader ((q.peersAt e.depth).filter q.isExplicit) := by
  have hord' : (q.withoutWildcards e.depth).Ordered := ordered_filterImports hord
  have hnot' : ∀ found, ¬ (q.withoutWildcards e.depth).InnermostDefinition found :=
    definition?_eq_none_iff_not_exists.mp (definition?_filterImports.mpr
      (definition?_eq_none_iff_not_exists.mpr hnot))
  -- The named import is still there, and still none lies deeper.
  obtain ⟨leader, hfirst, hdepth, hpeers⟩ := exists_first hord'
    (mem_bindings_withoutWildcards.mpr ⟨he, Or.inr hexplicit⟩)
    fun b hb => hdeepest b (mem_bindings_withoutWildcards.mp hb).1
  rw [peersAt_withoutWildcards, List.head?_filter] at hpeers
  have hnamed : (q.withoutWildcards e.depth).isExplicit leader = true := List.find?_some hpeers
  refine ⟨leader, hpeers, ?_⟩
  rw [run_undefined hord' hname hnot', hfirst]
  dsimp only
  rw [importVerdict_of_named hfirst hnamed, hdepth, peersAt_withoutWildcards]
  show q.judge leader (((q.peersAt e.depth).filter q.isExplicit).filter q.isExplicit) = _
  rw [List.filter_filter]
  simp only [Bool.and_self]

/-- **Leaving out the wildcards next to a named import changes nothing exactly if those met before
it agree.** -/
theorem run_withoutWildcards_eq_iff (hord : q.Ordered) (hname : q.name.isConstructor = false)
    (hnot : ∀ found, ¬ q.InnermostDefinition found) {e : Binding} (he : e ∈ q.bindings)
    (hexplicit : q.isExplicit e = true) (hdeepest : ∀ b ∈ q.bindings, b.depth ≤ e.depth) :
    (q.withoutWildcards e.depth).run.result = q.run.result ↔ q.WildcardsAgree e.depth := by
  obtain ⟨leader, hleader, hleft⟩ := run_withoutWildcards hord hname hnot he hexplicit hdeepest
  obtain ⟨first, hfirst, hdepth, hpeers⟩ := exists_first hord he hdeepest
  rw [hleft, run_undefined hord hname hnot, hfirst]
  dsimp only
  rw [importVerdict, hdepth, eq_comm, contest_eq_judge_iff hpeers hleader, WildcardsAgree, hpeers]
  simp

end Query

end Lookup

namespace Context

/-- The chain without the imports of one depth that do not name the name. -/
def withoutWildcards (name : Name) (depth : Nat) (cx : Context) : Context :=
  cx.filterImports fun d imp => d != depth || imp.clause.isExplicit name

/-- **A named import outranks the wildcards at its depth as long as those inside it agree.** Both
lookups are taken to end (`Table.Settles`). -/
theorem lookup_withoutWildcards_iff {cx : Context} (hbuilt : cx.Built) {u : Universe} {s : Store}
    {name : Name} {qualifies : SymbolId → Bool} {e : Lookup.Binding}
    (hdef : ∀ found, ¬ (cx.query u name qualifies s).InnermostDefinition found)
    (he : e ∈ (cx.query u name qualifies s).bindings)
    (hexplicit : (cx.query u name qualifies s).isExplicit e = true)
    (hdeepest : ∀ b ∈ (cx.query u name qualifies s).bindings, b.depth ≤ e.depth) :
    ((cx.withoutWildcards name e.depth).lookup u name qualifies s).1 =
        (cx.lookup u name qualifies s).1 ↔
      name.isConstructor = true ∨ (cx.query u name qualifies s).WildcardsAgree e.depth := by
  have hquery : (cx.withoutWildcards name e.depth).query u name qualifies s =
      (cx.query u name qualifies s).withoutWildcards e.depth := by
    unfold query withoutWildcards
    rw [view_filterImports]
    rfl
  have hord : (cx.query u name qualifies s).Ordered := Lookup.Query.ordered_of_grown hbuilt.grown
  show ((cx.withoutWildcards name e.depth).query u name qualifies s).run.result =
    (cx.query u name qualifies s).run.result ↔ _
  rw [hquery]
  cases hname : name.isConstructor with
  | true =>
    refine iff_of_true ?_ (Or.inl rfl)
    rw [Lookup.Query.run_of_constructor hname, Lookup.Query.run_of_constructor hname]
    exact Lookup.Query.constructorResult_filterImports
  | false =>
    rw [Lookup.Query.run_withoutWildcards_eq_iff hord hname hdef he hexplicit hdeepest]
    simp

/-- Two wildcards for one object next to an import that names the value of another. -/
theorem lookup_withoutWildcards_agreeing :
    let s := Sample.store #[]
    let named := (Sample.root.makeImport (Sample.naming ⟨6⟩) s).1
    let once := (named.makeImport (Sample.everything ⟨4⟩) s).1
    let cx := (once.makeImport (Sample.everything ⟨4⟩) s).1
    ((cx.withoutWildcards Sample.name 1).lookup Sample.table.toUniverse Sample.name
        (fun _ => true) s).1 =
      (cx.lookup Sample.table.toUniverse Sample.name (fun _ => true) s).1 :=
  have hbuilt : Context.Built Sample.root := .openRoot 0 .root 0 _
  (lookup_withoutWildcards_iff (e := ⟨⟨1, ⟨0, Sample.naming ⟨6⟩⟩⟩, .single ⟨7⟩⟩)
    (((hbuilt.makeImport _ _).makeImport _ _).makeImport _ _)
    (Lookup.Query.definition?_eq_none_iff_not_exists.mp (by decide +kernel)) (by decide +kernel)
    (by decide +kernel) (by decide +kernel)).mpr (Or.inr (by decide +kernel))

/-- **Two wildcards that disagree inside a named import of their depth are ambiguous.** Nothing is
defined, the named import is as deep as any that binds the name, and yet it does not decide. -/
theorem lookup_ambiguous_wildcards :
    let u := Sample.table.toUniverse
    let s := Sample.store #[]
    let named := (Sample.root.makeImport (Sample.naming ⟨6⟩) s).1
    let outer := (named.makeImport (Sample.everything ⟨4⟩) s).1
    let cx := (outer.makeImport (Sample.everything ⟨2⟩) s).1
    let q := cx.query u Sample.name (fun _ => true) s
    let e : Lookup.Binding := ⟨⟨1, ⟨0, Sample.naming ⟨6⟩⟩⟩, .single ⟨7⟩⟩
    (q.definition? = none ∧ e ∈ q.bindings ∧ q.isExplicit e = true ∧
      ∀ b ∈ q.bindings, b.depth ≤ e.depth) ∧
    (cx.lookup u Sample.name (fun _ => true) s).1 =
      .ambiguous (.imports Sample.name ⟨.path ⟨2⟩, .dummy, false⟩ ⟨.path ⟨4⟩, .dummy, false⟩) ∧
    ((cx.withoutWildcards Sample.name 1).lookup u Sample.name (fun _ => true) s).1 =
      .succeeded (some (.path ⟨6⟩)) (.single ⟨7⟩) := by
  decide +kernel

end Context

end NameResolution
