import NameResolution.Proofs.Lookup.Enclosing

/-!
# Selectors that a lookup uses

A selector counts as used as soon as the lookup goes through its import and it binds the name,
whatever becomes of the binding. Which imports that are, `Consulted` says on the chain:

* the search consults the imports that may compete, up to the first that binds the name;
* if no definition stands against them, the contest goes on around that one: at its depth until two
  disagree, and further out only if nothing named was met.

`mem_run_uses` proves this of the lookup, from one lemma for the search (`mem_firstImport_uses`) and
one for the contest (`mem_settle_uses`). A selector that a successful lookup goes through is used
(`Resolves.tries`), but not only those.
-/

namespace NameResolution.Lookup.Query

open Precedence

variable (q : Query)

/-! ### What is consulted -/

/-- The lookup gets as far as the imports unless the definition found is rejected for what it
hides. -/
structure ConsultsImports : Prop where
  name : q.name.isConstructor = false
  passes : q.view.settings.enclosing = .error →
    ∀ found, q.InnermostDefinition found → q.conflict? found = none

/-- No definition stands against the imports. -/
def Yields : Prop := ∀ found, q.InnermostDefinition found → q.isForeign found.meaning = true

/-- The contest gets from a leading binding past the imports `between`: no two of them disagreed,
and beyond the depth of the leader it goes on only if no selector names any of them. -/
structure Reaches (leader : Binding) (between : List ImportLevel) (level : ImportLevel) : Prop where
  agreed : (q.settled leader between).isSuccess = true
  depth : level.depth = leader.depth ∨
    ∀ b ∈ leader :: q.bindingsOf false (between.filter fun l => l.depth == leader.depth),
      q.isExplicit b = false

/-- The imports whose selectors the lookup goes through, the wildcards left out where the flag is
set. -/
inductive Consulted : ImportLevel → Bool → Prop where
  | searched {before after : List ImportLevel} {level : ImportLevel} (hopen : q.ConsultsImports)
      (hsplit : q.importLevels = before ++ level :: after)
      (hcompete : ∀ l ∈ before ++ [level], q.admits (q.definition?.map q.definitionKey) l = true)
      (hnone : q.bindingsOf false before = []) : Consulted level false
  | contested {before between after : List ImportLevel} {first : Binding} {level : ImportLevel}
      (hopen : q.ConsultsImports) (hyields : q.Yields)
      (hsplit : q.importLevels = before ++ first.level :: (between ++ level :: after))
      (hnone : q.bindingsOf false before = [])
      (hfirst : q.boundBy false first.level = some first.meaning)
      (hreaches : q.Reaches first between level) : Consulted level (first.depth != level.depth)

/-- The leader of the contest past one more import: a rival may take over. None once it is decided.
-/
def leaderAfter (leader : Binding) (level : ImportLevel) : Option Binding :=
  let inner := q.importKey leader.level
  let other := q.importKey level
  if keepsLooking inner other then
    match q.boundBy (needsExplicit inner other) level with
    | none => some leader
    | some meaning =>
      match compareImports inner other with
      | .inner => some leader
      | .outer => some ⟨level, meaning⟩
      | .tie => if q.agrees leader ⟨level, meaning⟩ then some leader else none
  else none

/-- The lookup goes through an import, and the selector at the position binds the name. -/
def Tries (imp : Import) (position : Nat) : Prop :=
  ∃ level explicitOnly meaning, q.Consulted level explicitOnly ∧ level.imp = imp ∧
    imp.clause.bind? q.view.program q.name explicitOnly = some (position, meaning)

variable {q}

/-! ### Steps -/

/-- A place in a list is the first one or a place in the rest. -/
theorem exists_split_cons {α : Type} {head : α} {rest : List α} {p : List α → α → Prop} :
    (∃ before a after, head :: rest = before ++ a :: after ∧ p before a) ↔
      p [] head ∨ ∃ before a after, rest = before ++ a :: after ∧ p (head :: before) a := by
  constructor
  · rintro ⟨before, a, after, hsplit, hp⟩
    cases before with
    | nil =>
      cases hsplit
      exact Or.inl hp
    | cons first before =>
      cases hsplit
      exact Or.inr ⟨before, a, after, rfl, hp⟩
  · rintro (hp | ⟨before, a, after, rfl, hp⟩)
    · exact ⟨[], head, rest, rfl, hp⟩
    · exact ⟨head :: before, a, after, rfl, hp⟩

/-- The uses of a selector are those of its binding, but for imports above the unit. -/
theorem mem_consult_uses {level : ImportLevel} {explicitOnly : Bool} {use : Use} :
    use ∈ (q.consult level explicitOnly).2 ↔
      level.imp.clause.isRoot = false ∧ use.importId = level.imp.id ∧ ∃ meaning,
        level.imp.clause.bind? q.view.program q.name explicitOnly =
          some (use.position, meaning) := by
  unfold consult
  cases hbind : level.imp.clause.bind? q.view.program q.name explicitOnly with
  | none => simp
  | some found =>
    obtain ⟨position, meaning⟩ := found
    unfold ImportLevel.usesOf
    cases hroot : level.imp.clause.isRoot with
    | true => simp
    | false =>
      obtain ⟨id, at_⟩ := use
      simp [eq_comm]

theorem firstImport_cons_uses (definition : Option DefinitionKey) (level : ImportLevel)
    (outer : List ImportLevel) :
    (q.firstImport definition (level :: outer)).2 =
      if q.admits definition level then
        (q.consult level false).2 ++
          if (q.boundBy false level).isSome then [] else (q.firstImport definition outer).2
      else [] := by
  rw [firstImport, admits, ← consult_fst]
  cases (admissionOf (q.importKey level) definition q.view.unit.isInterop).isAdmitted with
  | false => rfl
  | true =>
    rcases q.consult level false with ⟨_ | meaning, uses⟩
    · rfl
    · simp

theorem settle_cons_uses (leader : Binding) (level : ImportLevel) (outer : List ImportLevel) :
    (q.settle leader.level leader.meaning (level :: outer)).2 =
      (if keepsLooking (q.importKey leader.level) (q.importKey level) then
        (q.consult level (needsExplicit (q.importKey leader.level) (q.importKey level))).2
      else []) ++
      match q.leaderAfter leader level with
      | none => []
      | some next => (q.settle next.level next.meaning outer).2 := by
  unfold leaderAfter
  dsimp only
  rw [settle, ← consult_fst]
  dsimp only
  cases keepsLooking (q.importKey leader.level) (q.importKey level) with
  | false => rfl
  | true =>
    simp only [Bool.not_true, Bool.false_eq_true, if_false, if_true]
    rcases q.consult level (needsExplicit (q.importKey leader.level) (q.importKey level)) with
      ⟨_ | meaning, uses⟩
    · rfl
    · cases compareImports (q.importKey leader.level) (q.importKey level) with
      | inner => rfl
      | outer => rfl
      | tie =>
        dsimp only
        rw [← isEquivalent_eq_agrees]
        split
        · rfl
        · simp

theorem depth_eq_of_compareImports {inner outer : ImportKey}
    (h : compareImports inner outer = .outer) : inner.depth = outer.depth := by
  unfold compareImports at h
  by_contra hne
  rw [if_neg (by simpa using hne)] at h
  split at h
  · cases h
  · cases h

/-- Only a rival at the depth of the leader takes over. -/
theorem depth_of_leaderAfter {leader next : Binding} {level : ImportLevel}
    (h : q.leaderAfter leader level = some next) : next.depth = leader.depth := by
  unfold leaderAfter at h
  dsimp only at h
  split at h
  · split at h
    · cases h
      rfl
    · rename_i meaning hbound
      split at h
      · cases h
        rfl
      · rename_i hcompare
        cases h
        exact (depth_eq_of_compareImports hcompare).symm
      · split at h
        · cases h
          rfl
        · cases h
  · cases h

/-! ### The search -/

/-- **The search goes through the imports that may compete, up to the first that binds the name.**
-/
theorem mem_firstImport_uses {definition : Option DefinitionKey} {levels : List ImportLevel}
    {use : Use} :
    use ∈ (q.firstImport definition levels).2 ↔
      ∃ before level after, levels = before ++ level :: after ∧
        (∀ l ∈ before ++ [level], q.admits definition l = true) ∧
        q.bindingsOf false before = [] ∧ use ∈ (q.consult level false).2 := by
  induction levels with
  | nil => simp [firstImport]
  | cons head outer ih =>
    rw [firstImport_cons_uses, exists_split_cons]
    by_cases hadmits : q.admits definition head = true
    · rw [if_pos hadmits, List.mem_append]
      refine or_congr (by simp [hadmits]) ?_
      cases hbound : q.boundBy false head with
      | none => simp [ih, hadmits, bindingsOf_cons_none hbound]
      | some meaning => simp [bindingsOf_cons_some hbound]
    · rw [if_neg hadmits]
      simp [hadmits]

/-! ### The contest -/

theorem not_isSuccess_tie (a b : Binding) : (q.tie a b).isSuccess = false := rfl

theorem reaches_iff {leader : Binding} {between : List ImportLevel} {level : ImportLevel} :
    q.Reaches leader between level ↔ (q.settled leader between).isSuccess = true ∧
      (level.depth = leader.depth ∨
        ∀ b ∈ leader :: q.bindingsOf false (between.filter fun l => l.depth == leader.depth),
          q.isExplicit b = false) :=
  ⟨fun h => ⟨h.agreed, h.depth⟩, fun h => ⟨h.1, h.2⟩⟩

theorem reaches_nil {leader : Binding} {level : ImportLevel} :
    q.Reaches leader [] level ↔
      keepsLooking (q.importKey leader.level) (q.importKey level) = true := by
  have hexplicit : (q.importKey leader.level).explicit = q.isExplicit leader := rfl
  have hwin : (q.settled leader []).isSuccess = true := rfl
  rw [reaches_iff, keepsLooking, Bool.or_eq_true, beq_iff_eq, hexplicit]
  simp only [hwin, true_and, List.filter_nil, bindingsOf_nil, List.forall_mem_singleton,
    Bool.not_eq_true', eq_comm (a := level.depth)]
  rfl

variable {leader : Binding} {l level : ImportLevel} {between : List ImportLevel}

theorem reaches_peer_none (hdepth : l.depth = leader.depth) (hbound : q.boundBy false l = none) :
    q.Reaches leader (l :: between) level ↔ q.Reaches leader between level := by
  rw [reaches_iff, reaches_iff, settled_peer_none hdepth hbound,
    List.filter_cons_of_pos (by simpa using hdepth), bindingsOf_cons_none hbound]

/-- At the depth of the leader equals have to agree, and a named rival takes over. -/
theorem reaches_peer_some {meaning : Meaning} (hdepth : l.depth = leader.depth)
    (hbound : q.boundBy false l = some meaning) :
    q.Reaches leader (l :: between) level ↔
      if q.isExplicit leader = q.isExplicit ⟨l, meaning⟩ then
        q.agrees leader ⟨l, meaning⟩ = true ∧ q.Reaches leader between level
      else if q.isExplicit leader then q.Reaches leader between level
      else q.Reaches ⟨l, meaning⟩ between level := by
  have hrival : (⟨l, meaning⟩ : Binding).depth = leader.depth := hdepth
  rw [reaches_iff, reaches_iff, reaches_iff, settled_peer_some hdepth hbound,
    List.filter_cons_of_pos (by simpa using hdepth), bindingsOf_cons_some hbound, hrival]
  cases hleader : q.isExplicit leader <;> cases hnamed : q.isExplicit ⟨l, meaning⟩
  case false.false =>
    cases q.agrees leader ⟨l, meaning⟩ <;> simp [hleader, hnamed, not_isSuccess_tie]
  case false.true => simp [hleader, hnamed]
  case true.false => simp [hleader, hnamed]
  case true.true =>
    cases q.agrees leader ⟨l, meaning⟩ <;> simp [hleader, hnamed, not_isSuccess_tie]

/-- Further out nothing is reached past a named leader. -/
theorem not_reaches_outer_of_explicit (hlevel : level.depth ≠ leader.depth)
    (hleader : q.isExplicit leader = true) : ¬ q.Reaches leader between level := by
  rintro ⟨-, hdepth | hwild⟩
  · exact hlevel hdepth
  · rw [hwild leader List.mem_cons_self] at hleader
    cases hleader

/-- Further out what is bound by name has to agree with a wildcard. -/
theorem reaches_outer_of_wildcard (hl : l.depth ≠ leader.depth)
    (hleader : q.isExplicit leader = false) :
    q.Reaches leader (l :: between) level ↔
      (∀ meaning ∈ q.boundBy true l, q.agrees leader ⟨l, meaning⟩ = true) ∧
        q.Reaches leader between level := by
  rw [reaches_iff, reaches_iff, settled_outer_of_wildcard hl hleader,
    List.filter_cons_of_neg (by simpa using hl)]
  cases hbound : q.boundBy true l with
  | none => simp
  | some meaning =>
    cases hagree : q.agrees leader ⟨l, meaning⟩ <;> simp [hagree, not_isSuccess_tie]

/-- **One step of the contest.** -/
theorem reaches_cons (hlevel : level.depth ≤ l.depth) (hl : l.depth ≤ leader.depth) :
    q.Reaches leader (l :: between) level ↔
      ∃ next ∈ q.leaderAfter leader l, q.Reaches next between level := by
  have hinner : leader.level.imp.clause.isExplicit q.name = q.isExplicit leader := rfl
  by_cases hdepth : l.depth = leader.depth
  · have hkeys : leader.level.depth = l.depth := hdepth.symm
    cases hbound : q.boundBy false l with
    | none =>
      rw [reaches_peer_none hdepth hbound]
      simp [leaderAfter, keepsLooking, needsExplicit, importKey, hkeys, hbound]
    | some meaning =>
      have houter : l.imp.clause.isExplicit q.name = q.isExplicit ⟨l, meaning⟩ := rfl
      rw [reaches_peer_some hdepth hbound]
      cases hleader : q.isExplicit leader <;> cases hnamed : q.isExplicit ⟨l, meaning⟩ <;>
        cases hagree : q.agrees leader ⟨l, meaning⟩ <;>
          simp [leaderAfter, keepsLooking, needsExplicit, importKey, compareImports, hkeys, hbound,
            hinner, houter, hleader, hnamed, hagree]
  · have hbeq : (leader.level.depth == l.depth) = false := beq_false_of_ne (Ne.symm hdepth)
    have hbne : (leader.level.depth != l.depth) = true := bne_iff_ne.mpr (Ne.symm hdepth)
    cases hleader : q.isExplicit leader with
    | true =>
      have hfurther : level.depth ≠ leader.depth := by omega
      refine iff_of_false (not_reaches_outer_of_explicit hfurther hleader) ?_
      simp [leaderAfter, keepsLooking, importKey, hbeq, hinner, hleader]
    | false =>
      rw [reaches_outer_of_wildcard hdepth hleader]
      cases hbound : q.boundBy true l with
      | none =>
        simp [leaderAfter, keepsLooking, needsExplicit, importKey, hbne, hinner, hleader, hbound]
      | some meaning =>
        have houter : l.imp.clause.isExplicit q.name = true :=
          isExplicit_of_boundBy (b := ⟨l, meaning⟩) hbound
        cases hagree : q.agrees leader ⟨l, meaning⟩ <;>
          simp [leaderAfter, keepsLooking, needsExplicit, importKey, compareImports, hbeq, hbne,
            hinner, houter, hleader, hbound, hagree]

/-- **The contest goes through the imports it reaches.** The induction is on the imports around the
leader, for every leader: a rival may take over. -/
theorem mem_settle_uses {levels : List ImportLevel} {use : Use}
    (hord : levels.Pairwise fun inner outer => outer.depth ≤ inner.depth)
    (hle : ∀ l ∈ levels, l.depth ≤ leader.depth) :
    use ∈ (q.settle leader.level leader.meaning levels).2 ↔
      ∃ between level after, levels = between ++ level :: after ∧ q.Reaches leader between level ∧
        use ∈ (q.consult level (leader.depth != level.depth)).2 := by
  induction levels generalizing leader with
  | nil => simp [settle]
  | cons l rest ih =>
    obtain ⟨hhead, htail⟩ := List.pairwise_cons.mp hord
    obtain ⟨hl, hrest⟩ := List.forall_mem_cons.mp hle
    have hbefore : ∀ {between level after}, rest = between ++ level :: after →
        level.depth ≤ l.depth := fun hsplit => hhead _ (by simp [hsplit])
    rw [settle_cons_uses, exists_split_cons, reaches_nil, List.mem_append]
    refine or_congr ?_ ?_
    · cases keepsLooking (q.importKey leader.level) (q.importKey l) with
      | false => simp
      | true =>
        simp only [if_true, true_and]
        rfl
    · cases hnext : q.leaderAfter leader l with
      | none =>
        refine iff_of_false List.not_mem_nil ?_
        rintro ⟨between, level, after, hsplit, hreach, -⟩
        rw [reaches_cons (hbefore hsplit) hl, hnext] at hreach
        obtain ⟨next, hmem, -⟩ := hreach
        cases hmem
      | some next =>
        have hdepth := depth_of_leaderAfter hnext
        dsimp only
        rw [ih htail (by rw [hdepth]; exact hrest), hdepth]
        apply exists₃_congr
        intro between level after
        apply and_congr_right
        intro hsplit
        rw [reaches_cons (hbefore hsplit) hl, hnext]
        simp

/-! ### The whole lookup -/

omit l level between in
theorem admits_of_yields (h : q.Yields) (level : ImportLevel) :
    q.admits (q.definition?.map q.definitionKey) level = true := by
  cases hdef : q.definition? with
  | none => exact admits_none level
  | some found => exact admits_foreign (h found (definition?_eq_some_iff.mp hdef)) level

/-- The search finds the first import that binds the name. -/
theorem firstImport_of_split {definition : Option DefinitionKey}
    {levels before after : List ImportLevel} {first : Binding}
    (hadmits : ∀ l, q.admits definition l = true)
    (hsplit : levels = before ++ first.level :: after) (hnone : q.bindingsOf false before = [])
    (hfirst : q.boundBy false first.level = some first.meaning) :
    ∃ i, (q.firstImport definition levels).1 = some i ∧ i.binding = first ∧ i.outer = after := by
  subst hsplit
  induction before with
  | nil =>
    rw [List.nil_append, firstImport_cons, if_pos (hadmits _), hfirst]
    exact ⟨_, rfl, rfl, rfl⟩
  | cons head before ih =>
    cases hbound : q.boundBy false head with
    | none =>
      rw [bindingsOf_cons_none hbound] at hnone
      rw [List.cons_append, firstImport_cons, if_pos (hadmits _), hbound]
      exact ih hnone
    | some meaning =>
      rw [bindingsOf_cons_some hbound] at hnone
      cases hnone

/-- The contest takes place if no definition stands against the imports. -/
theorem mem_resolve_uses {imported : Option Imported} {use : Use} :
    use ∈ (q.resolve q.definition? imported).uses ↔
      q.Yields ∧ ∃ i ∈ imported, use ∈ (q.settle i.level i.meaning i.outer).2 := by
  cases imported with
  | none =>
    refine iff_of_false ?_ ?_
    · cases q.definition? with
      | none => exact List.not_mem_nil
      | some found => exact List.not_mem_nil
    · rintro ⟨-, i, hi, -⟩
      cases hi
  | some i =>
    cases hdef : q.definition? with
    | none =>
      have hyields : q.Yields := by
        intro found hfound
        exact absurd hfound (definition?_eq_none_iff_not_exists.mp hdef found)
      simp [resolve, hyields]
    | some found =>
      have hyields : q.Yields ↔ q.isForeign found.meaning = true := by
        constructor
        · intro h
          exact h found (definition?_eq_some_iff.mp hdef)
        · intro h other hother
          rw [hother.unique (definition?_eq_some_iff.mp hdef)]
          exact h
      have harbitrate : arbitrate (q.definitionKey found) (q.isUnusable i) =
          if q.isForeign found.meaning then .imported
          else if q.isUnusable i then .definition else .ambiguous := rfl
      rw [hyields]
      simp only [resolve, harbitrate]
      cases q.isForeign found.meaning with
      | true => simp
      | false => cases q.isUnusable i <;> simp

theorem run_uses_of_consults (h : q.ConsultsImports) :
    q.run.uses = (q.consultImports q.definition?).uses := by
  cases hdef : q.definition? with
  | none => simp [run, h.name, hdef]
  | some found =>
    cases hconflict : q.conflict? found with
    | none => simp [run, h.name, hdef, checkEnclosing, hconflict]
    | some conflict =>
      cases hpolicy : q.view.settings.enclosing with
      | allow => simp [run, h.name, hdef, checkEnclosing, hconflict, hpolicy]
      | warn => simp [run, h.name, hdef, checkEnclosing, hconflict, hpolicy]
      | error =>
        have hnone := h.passes hpolicy found (definition?_eq_some_iff.mp hdef)
        rw [hconflict] at hnone
        cases hnone

/-- The imports are not consulted where a definition is rejected for what it hides. -/
theorem exists_rejected (hname : q.name.isConstructor = false) (h : ¬ q.ConsultsImports) :
    ∃ found conflict, q.definition? = some found ∧ q.view.settings.enclosing = .error ∧
      q.conflict? found = some conflict := by
  by_contra hnot
  apply h
  refine ⟨hname, ?_⟩
  intro hpolicy found hfound
  cases hconflict : q.conflict? found with
  | none => rfl
  | some conflict =>
    exact absurd ⟨found, conflict, definition?_eq_some_iff.mpr hfound, hpolicy, hconflict⟩ hnot

theorem run_of_consults (h : q.ConsultsImports) :
    q.run.result = (q.consultImports q.definition?).result := by
  cases hdef : q.definition? with
  | none => exact run_of_none h.name hdef
  | some found =>
    rw [run_eq_verdict h.name hdef]
    unfold verdict
    cases hpolicy : q.view.settings.enclosing with
    | allow => rfl
    | warn => rfl
    | error =>
      rw [h.passes hpolicy found (definition?_eq_some_iff.mp hdef)]

theorem run_of_rejected (hname : q.name.isConstructor = false) {found : Found}
    {conflict : SymbolId × SymbolId} (hdef : q.definition? = some found)
    (hpolicy : q.view.settings.enclosing = .error) (hconflict : q.conflict? found = some conflict) :
    q.run.result = .ambiguous (.withEnclosing q.name conflict.1 conflict.2) := by
  rw [run_eq_verdict hname hdef]
  unfold verdict
  rw [hpolicy, hconflict]

/-- Where the imports are not consulted, a lookup leaves nothing behind. -/
theorem run_of_not_consults (h : ¬ q.ConsultsImports) : ∃ result, q.run = { result } := by
  cases hname : q.name.isConstructor with
  | true => exact ⟨q.constructorResult, by simp [run, hname]⟩
  | false =>
    obtain ⟨found, conflict, hdef, hpolicy, hconflict⟩ := exists_rejected hname h
    refine ⟨.ambiguous (.withEnclosing q.name conflict.1 conflict.2), ?_⟩
    simp [run, hname, hdef, checkEnclosing, hconflict, hpolicy]

theorem run_uses_of_not (h : ¬ q.ConsultsImports) : q.run.uses = [] := by
  obtain ⟨result, hrun⟩ := run_of_not_consults h
  rw [hrun]

omit l level between leader in
/-- The imports around one are no deeper, and come in an order in which their depth never grows. -/
theorem ordered_of_split (hord : q.Ordered) {before outer : List ImportLevel} {leader : Binding}
    (hsplit : q.importLevels = before ++ leader.level :: outer) :
    outer.Pairwise (fun inner outer => outer.depth ≤ inner.depth) ∧
      ∀ l ∈ outer, l.depth ≤ leader.depth := by
  rw [Ordered, hsplit, List.pairwise_append, List.pairwise_cons] at hord
  exact ⟨hord.2.1.2, hord.2.1.1⟩

/-- **A lookup uses what binds the name in the imports it consults.** -/
theorem mem_run_uses (hord : q.Ordered) {use : Use} :
    use ∈ q.run.uses ↔
      ∃ level explicitOnly, q.Consulted level explicitOnly ∧
        use ∈ (q.consult level explicitOnly).2 := by
  by_cases hopen : q.ConsultsImports
  · rw [run_uses_of_consults hopen]
    show use ∈ (q.firstImport (q.definition?.map q.definitionKey) q.importLevels).2 ++
      (q.resolve q.definition? _).uses ↔ _
    rw [List.mem_append, mem_firstImport_uses, mem_resolve_uses]
    constructor
    · rintro (⟨before, level, after, hsplit, hall, hnone, huse⟩ | ⟨hyields, i, hi, huse⟩)
      · exact ⟨level, false, .searched hopen hsplit hall hnone, huse⟩
      · obtain ⟨before, hsplit, hnone, hbound⟩ := firstImport_split hi
        have hsplit : q.importLevels = before ++ i.binding.level :: i.outer := hsplit
        obtain ⟨houter, hle⟩ := ordered_of_split hord hsplit
        obtain ⟨between, level, after, hrest, hreach, huse⟩ := (mem_settle_uses houter hle).mp huse
        rw [hrest] at hsplit
        exact ⟨level, _, .contested hopen hyields hsplit hnone hbound hreach, huse⟩
    · rintro ⟨level, explicitOnly, hconsulted, huse⟩
      cases hconsulted with
      | searched _ hsplit hall hnone => exact Or.inl ⟨_, level, _, hsplit, hall, hnone, huse⟩
      | contested _ hyields hsplit hnone hfirst hreach =>
        right
        obtain ⟨i, hi, rfl, houter⟩ :=
          firstImport_of_split (admits_of_yields hyields) hsplit hnone hfirst
        obtain ⟨hpairs, hle⟩ := ordered_of_split hord hsplit
        rw [← houter] at hpairs hle
        exact ⟨hyields, i, hi, (mem_settle_uses hpairs hle).mpr ⟨_, level, _, houter, hreach, huse⟩⟩
  · rw [run_uses_of_not hopen]
    refine iff_of_false List.not_mem_nil ?_
    rintro ⟨level, explicitOnly, hconsulted, -⟩
    cases hconsulted with
    | searched h => exact hopen h
    | contested h => exact hopen h

/-! ### Selectors that a lookup goes through -/

variable (q)

/-- The import a contest without disagreement ends with: at the depth of the innermost binding the
first that a selector names, else the innermost. -/
def leading? : Option Binding :=
  q.bindings.head?.map fun first => ((q.peersAt first.depth).find? q.isExplicit).getD first

/-- The lookup succeeds with what an import binds, and the selector at the position binds it. -/
structure Resolves (imp : Import) (position : Nat) : Prop where
  name : q.name.isConstructor = false
  yields : q.Yields
  leads : ∃ w ∈ q.leading?, q.run.result = win w ∧ w.level.imp = imp ∧
    ∃ meaning, imp.clause.bind? q.view.program q.name false = some (position, meaning)

variable {q}

/-- A success is the success of the leading import. -/
theorem contest_eq_win {innermost : Binding} {peers outer : List Binding}
    (h : (q.contest innermost peers outer).isSuccess = true) :
    q.contest innermost peers outer = win ((peers.find? q.isExplicit).getD innermost) := by
  have hjudge : ∀ b rivals, (q.judge b rivals).isSuccess = true → q.judge b rivals = win b := by
    intro b rivals hsuccess
    unfold judge at hsuccess ⊢
    split at hsuccess
    · cases hsuccess
    · rfl
  unfold contest at h ⊢
  cases hleader : peers.find? q.isExplicit with
  | none =>
    rw [hleader] at h
    exact hjudge _ _ h
  | some leader =>
    rw [hleader] at h
    dsimp only at h ⊢
    split at h
    · cases h
    · exact hjudge _ _ h

/-- Up to any import the contest was without disagreement if it is in the end. -/
theorem isSuccess_of_append {leader : Binding} {between outer : List ImportLevel}
    (h : (q.settled leader (between ++ outer)).isSuccess = true) :
    (q.settled leader between).isSuccess = true := by
  induction between generalizing leader with
  | nil => rfl
  | cons level between ih =>
    rw [List.cons_append, settled_cons] at h
    rw [settled_cons]
    cases hkeep : keepsLooking (q.importKey leader.level) (q.importKey level) with
    | false => rfl
    | true =>
      rw [hkeep, if_pos rfl] at h
      rw [if_pos rfl]
      cases hbound : q.boundBy (needsExplicit (q.importKey leader.level) (q.importKey level))
          level with
      | none =>
        rw [hbound] at h
        exact ih h
      | some meaning =>
        rw [hbound] at h
        cases hcompare : compareImports (q.importKey leader.level) (q.importKey level) with
        | inner =>
          rw [hcompare] at h
          exact ih h
        | outer =>
          rw [hcompare] at h
          exact ih h
        | tie =>
          rw [hcompare] at h
          dsimp only at h ⊢
          split at h
          · rename_i hagree
            rw [if_pos hagree]
            exact ih h
          · cases h

/-- A rejected definition is no success. -/
theorem consultsImports_of_success (hname : q.name.isConstructor = false)
    (h : q.run.result.isSuccess = true) : q.ConsultsImports where
  name := hname
  passes := by
    intro hpolicy found hfound
    rw [run_eq_verdict hname (definition?_eq_some_iff.mpr hfound)] at h
    cases hconflict : q.conflict? found with
    | none => rfl
    | some conflict =>
      simp [verdict, hpolicy, hconflict, LookupResult.isSuccess] at h

/-- Where nothing stands against the imports, the contest decides. -/
theorem run_eq_settled (hopen : q.ConsultsImports) (hyields : q.Yields) {i : Imported}
    (hi : (q.firstImport (q.definition?.map q.definitionKey) q.importLevels).1 = some i) :
    q.run.result = q.settled i.binding i.outer := by
  rw [run_of_consults hopen, consultImports_result, hi]
  cases hdef : q.definition? with
  | none => rfl
  | some found =>
    have harbitrate : arbitrate (q.definitionKey found) (q.isUnusable i) = .imported := by
      simp [arbitrate, definitionKey, hyields found (definition?_eq_some_iff.mp hdef)]
    rw [resolve]
    simp only [harbitrate]
    rfl

/-- The leading import lies at the depth of the innermost binding. -/
theorem mem_peersAt_of_leading? {w : Binding} (hw : w ∈ q.leading?) :
    ∃ first, q.bindings.head? = some first ∧ w ∈ q.peersAt first.depth := by
  obtain ⟨first, hfirst, rfl⟩ := Option.map_eq_some_iff.mp hw
  refine ⟨first, hfirst, ?_⟩
  cases hleader : (q.peersAt first.depth).find? q.isExplicit with
  | none => exact List.mem_of_mem_head? (peersAt_head? hfirst)
  | some leader => exact List.mem_of_find?_eq_some hleader

/-- Where nothing stands against the imports, the first that binds the name opens the contest. -/
theorem run_eq_importVerdict (hord : q.Ordered) (hopen : q.ConsultsImports) (hyields : q.Yields)
    {first : Binding} (hfirst : q.bindings.head? = some first) :
    q.run.result = q.importVerdict first := by
  have hmap := firstImport_of_admits (admits_of_yields hyields)
  rw [hfirst] at hmap
  obtain ⟨i, hi, rfl⟩ := Option.map_eq_some_iff.mp hmap
  rw [run_eq_settled hopen hyields hi, settled_eq_importVerdict hord hi]

/-- Where nothing stands against the imports, a success is that of the leading one. -/
theorem exists_leading (hord : q.Ordered) (hname : q.name.isConstructor = false)
    (hyields : q.Yields) {first : Binding} (hfirst : q.bindings.head? = some first)
    (hsuccess : q.run.result.isSuccess = true) : ∃ w ∈ q.leading?, q.run.result = win w := by
  have hverdict :=
    run_eq_importVerdict hord (consultsImports_of_success hname hsuccess) hyields hfirst
  have hleads : q.leading? = some (((q.peersAt first.depth).find? q.isExplicit).getD first) := by
    rw [leading?, hfirst, Option.map_some]
  refine ⟨_, hleads, ?_⟩
  rw [hverdict] at hsuccess ⊢
  exact contest_eq_win hsuccess

/-- **What a successful lookup goes through is used.** -/
theorem Resolves.tries {imp : Import} {position : Nat} (h : q.Resolves imp position) :
    q.Tries imp position := by
  obtain ⟨w, hw, hresult, rfl, meaning, hbind⟩ := h.leads
  have hsuccess : q.run.result.isSuccess = true := by
    rw [hresult]
    rfl
  have hopen := consultsImports_of_success h.name hsuccess
  have hadmits := admits_of_yields h.yields
  obtain ⟨first, hfirst, hpeer⟩ := mem_peersAt_of_leading? hw
  -- The first import that binds the name, and those around it.
  have hmap := firstImport_of_admits hadmits
  rw [hfirst] at hmap
  obtain ⟨i, hi, rfl⟩ := Option.map_eq_some_iff.mp hmap
  obtain ⟨before, hsplit, hnone, hbound⟩ := firstImport_split hi
  suffices hconsulted : q.Consulted w.level false from
    ⟨w.level, false, meaning, hconsulted, rfl, hbind⟩
  have hpeers : q.peersAt i.binding.depth = i.binding :: q.bindingsOf false
      (i.outer.filter fun l => l.depth == i.binding.depth) := peersAt_split hsplit hnone hbound
  rw [hpeers] at hpeer
  rcases List.mem_cons.mp hpeer with rfl | hmem
  · exact .searched hopen hsplit (fun l _ => hadmits l) hnone
  · obtain ⟨houter, -⟩ := mem_bindingsOf.mp hmem
    obtain ⟨hmem, hdepth⟩ := List.mem_filter.mp houter
    obtain ⟨between, after, hrest⟩ := List.append_of_mem hmem
    rw [run_eq_settled hopen h.yields hi, hrest] at hsuccess
    have hreach : q.Reaches i.binding between w.level :=
      ⟨isSuccess_of_append hsuccess, Or.inl (beq_iff_eq.mp hdepth)⟩
    have hflag : (i.binding.depth != w.level.depth) = false := by
      rw [bne_eq_false_iff_eq]
      exact (beq_iff_eq.mp hdepth).symm
    rw [hrest] at hsplit
    rw [← hflag]
    exact .contested hopen h.yields hsplit hnone hbound hreach

/-! ### Uses by import -/

theorem Consulted.mem_importLevels {level : ImportLevel} {explicitOnly : Bool}
    (h : q.Consulted level explicitOnly) : level ∈ q.importLevels := by
  cases h with
  | searched _ hsplit => simp [hsplit]
  | contested _ _ hsplit => simp [hsplit]

/-- Where imports of one identity are one import, the uses of an import are those of its selectors
that the lookup tries. -/
theorem mem_run_uses_iff_tries (hord : q.Ordered) {imp : Import}
    (hunit : imp.clause.isRoot = false)
    (hsame : ∀ level ∈ q.importLevels, level.imp.id = imp.id → level.imp = imp) {position : Nat} :
    ⟨imp.id, position⟩ ∈ q.run.uses ↔ q.Tries imp position := by
  rw [mem_run_uses hord]
  constructor
  · rintro ⟨level, explicitOnly, hconsulted, huse⟩
    obtain ⟨-, hid, meaning, hbind⟩ := mem_consult_uses.mp huse
    have himp := hsame level hconsulted.mem_importLevels hid.symm
    rw [himp] at hbind
    exact ⟨level, explicitOnly, meaning, hconsulted, himp, hbind⟩
  · rintro ⟨level, explicitOnly, meaning, hconsulted, rfl, hbind⟩
    exact ⟨level, explicitOnly, hconsulted, mem_consult_uses.mpr ⟨hunit, rfl, meaning, hbind⟩⟩

end NameResolution.Lookup.Query
