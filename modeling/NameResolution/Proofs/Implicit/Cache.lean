import NameResolution.Implicit

/-!
# Kept and fresh levels

A call for the level of a context answers what is kept for the current round, or else collects the
level and keeps it. With a universe that answers by itself both can be told apart from the store the
call starts with: what is kept (`Context.keptLevel?`), and what would be collected now
(`Context.freshLevel?`), which no slot has a say in.

* `freshLevel?_eq_none_iff`: there is no fresh level exactly if the context opens the body of a
  class that is not complete.
* `askLevel_eq`: a call answers the level kept, or else the fresh one, or else the empty level, and
  touches no slot but its own.
* `kept?_slotAfter`, `currentLevel_askLevel`: it keeps what it answers, unless there was no fresh
  level, and makes no difference to what other calls answer.
* `answers_askLevels`: the levels of a context and all around it are answered as if each was asked
  for alone.
-/

namespace NameResolution

/-- The level that a slot keeps for a round. -/
def LevelSlot.kept? (round : UInt32) : LevelSlot → Option (List Candidate)
  | collected kept level => if kept = round then some level else none
  | absent | inProgress => none

namespace Context

variable (cx : Context) (u : Universe) (s : Store)

/-! ### Levels -/

/-- The level as it would be collected now, whatever is kept; none if it has to be deferred. -/
def freshLevel? : Option (List Candidate) :=
  cx.collect u s (((cx.levelSource u s).request?.map u.implicitMembers).getD [])
    (cx.levelSource u s)

def keptLevel? : Option (List Candidate) :=
  (s.stateOf cx.id).level.kept? (s.session cx.session).round

/-- What a call for the level should answer: what is kept, or else what can be collected. -/
def currentLevel : List Candidate := ((cx.keptLevel? s).or (cx.freshLevel? u s)).getD []

/-- What a call should leave in the slot: what is kept, or else what can be collected. -/
def slotAfter : LevelSlot :=
  match cx.keptLevel? s, cx.freshLevel? u s with
  | some _, _ => (s.stateOf cx.id).level
  | none, some level => .collected (s.session cx.session).round level
  | none, none => .absent

def askLevel : List Candidate × Store :=
  Id.run ((cx.implicitLevel u (u.oracle (m := Id))).run s)

def askLevels : List (List Candidate) × Store :=
  Id.run ((cx.implicitLevels u (u.oracle (m := Id))).run s)

/-- The context opens the body of a class that is not complete. -/
structure Defers : Prop where
  native : (s.session cx.session).unit.isInterop = false
  opensBody : cx.opensBody u s = true
  incomplete : u.isComplete cx.owner = false

/-- A level is deferred for the body of an incomplete class, and for nothing else. -/
theorem levelSource_eq_deferred_iff : cx.levelSource u s = .deferred ↔ cx.Defers u s := by
  have hdefers : cx.Defers u s ↔ (s.session cx.session).unit.isInterop = false ∧
      cx.opensBody u s = true ∧ u.isComplete cx.owner = false :=
    ⟨fun h => ⟨h.native, h.opensBody, h.incomplete⟩, fun h => ⟨h.1, h.2.1, h.2.2⟩⟩
  rw [hdefers]
  unfold levelSource
  dsimp only
  cases (s.session cx.session).unit.isInterop with
  | true => simp
  | false =>
    cases cx.opensBody u s with
    | true => cases u.isComplete cx.owner <;> simp
    | false =>
      rw [if_neg Bool.false_ne_true, if_neg Bool.false_ne_true]
      refine iff_of_false ?_ (fun h => Bool.false_ne_true h.2.1)
      split
      · simp
      · cases cx.ownImport? with
        | some imp => simp
        | none =>
          dsimp only
          split <;> simp

/-- **A level is deferred only at the body of a class that is not complete.** -/
theorem freshLevel?_eq_none_iff : cx.freshLevel? u s = none ↔ cx.Defers u s := by
  rw [← levelSource_eq_deferred_iff]
  unfold freshLevel?
  cases cx.levelSource u s <;> simp [collect]

/-! ### Slots -/

variable (level : LevelSlot)

theorem stateOf_setLevel (id : ContextId) :
    (cx.setLevel level s).stateOf id =
      if id = cx.id ∧ id < s.states.size then { s.stateOf id with level } else s.stateOf id :=
  s.stateOf_modifyState cx.id _ id

/-- Of two levels that are set the later one stays. -/
theorem setLevel_setLevel (other : LevelSlot) :
    cx.setLevel level (cx.setLevel other s) = cx.setLevel level s := by
  unfold setLevel Store.modifyState
  congr 1
  apply Array.ext_getElem?
  intro i
  simp only [Array.getElem?_modify]
  split
  · cases s.states[i]? <;> rfl
  · rfl

theorem setLevel_self : cx.setLevel (s.stateOf cx.id).level s = s := by
  unfold setLevel Store.modifyState
  have hsame : s.states.modify cx.id (fun c => { c with level := (s.stateOf cx.id).level }) =
      s.states := by
    apply Array.ext_getElem?
    intro i
    rw [Array.getElem?_modify]
    split
    · rename_i hid
      subst hid
      unfold Store.stateOf
      cases s.states[cx.id]? <;> rfl
    · rfl
  rw [hsame]

variable (c : Context)

/-- The modes do not depend on the level. -/
theorem modes_setLevel : c.modes (cx.setLevel level s) = c.modes s := by
  unfold modes
  rw [stateOf_setLevel]
  split <;> rfl

theorem importedCandidates_setLevel (clause : ImportClause) (members : List SymbolId)
    (selectors : List Selector) :
    c.importedCandidates u (cx.setLevel level s) clause members selectors =
      c.importedCandidates u s clause members selectors := by
  induction selectors with
  | nil => rfl
  | cons selector rest ih =>
    cases selector with
    | wildcard => rfl
    | hide name =>
      unfold importedCandidates
      rw [ih]
    | pick member rename =>
      unfold importedCandidates
      rw [ih]
      rfl

/-- No slot has a say in what is collected. -/
theorem freshLevel?_setLevel : c.freshLevel? u (cx.setLevel level s) = c.freshLevel? u s := by
  have hsource : c.levelSource u (cx.setLevel level s) = c.levelSource u s := by
    unfold levelSource opensBody hasMode
    rw [modes_setLevel]
    rfl
  unfold freshLevel?
  rw [hsource]
  cases c.levelSource u s with
  | imported imp => exact congrArg some (importedCandidates_setLevel ..)
  | _ => rfl

/-! ### One call -/

/-- Collecting a level with the answers at hand. -/
theorem run_collectLevel (round : UInt32) :
    Id.run ((cx.collectLevel u (u.oracle (m := Id)) round).run s) =
      match cx.freshLevel? u s with
      | some level => (level, cx.setLevel (.collected round level) s)
      | none => ([], cx.setLevel .absent s) := by
  rw [← freshLevel?_setLevel cx u s .inProgress cx]
  unfold collectLevel freshLevel?
  simp only [StateT.run_bind, StateT.run_modify, StateT.run_get, pure_bind, bind_pure_comp]
  cases hrequest : (cx.levelSource u (cx.setLevel .inProgress s)).request? with
  | none =>
    cases hlevel : cx.collect u (cx.setLevel .inProgress s) []
        (cx.levelSource u (cx.setLevel .inProgress s)) <;>
      simp [hlevel, setLevel_setLevel]
  | some ty =>
    cases hlevel : cx.collect u (cx.setLevel .inProgress s) (u.implicitMembers ty)
        (cx.levelSource u (cx.setLevel .inProgress s)) <;>
      simp [Universe.oracle, hlevel, setLevel_setLevel]

/-- A call reads the slot before it collects anything. -/
theorem askLevel_eq (hidle : (s.stateOf cx.id).level ≠ .inProgress) :
    cx.askLevel u s = (cx.currentLevel u s, cx.setLevel (cx.slotAfter u s) s) := by
  have hcollect : cx.keptLevel? s = none →
      Id.run ((cx.collectLevel u (u.oracle (m := Id)) (s.session cx.session).round).run s) =
        (cx.currentLevel u s, cx.setLevel (cx.slotAfter u s) s) := by
    intro hkept
    rw [run_collectLevel]
    unfold currentLevel slotAfter
    rw [hkept]
    cases cx.freshLevel? u s <;> rfl
  unfold askLevel implicitLevel
  simp only [StateT.run_bind, StateT.run_get, pure_bind]
  cases hslot : (s.stateOf cx.id).level with
  | inProgress => exact absurd hslot hidle
  | absent => exact hcollect (by simp [keptLevel?, hslot, LevelSlot.kept?])
  | collected round level =>
    dsimp only
    split
    · rename_i hround
      have hkept : cx.keptLevel? s = some level := by
        simp [keptLevel?, hslot, LevelSlot.kept?, hround]
      unfold currentLevel slotAfter
      rw [hkept, setLevel_self]
      rfl
    · rename_i hround
      exact hcollect (by simp [keptLevel?, hslot, LevelSlot.kept?, hround])

variable {cx u s}

/-! ### After a call -/

/-- No level is left in progress. -/
theorem slotAfter_ne_inProgress (hidle : (s.stateOf cx.id).level ≠ .inProgress) :
    cx.slotAfter u s ≠ .inProgress := by
  unfold slotAfter
  split
  · exact hidle
  · exact fun h => nomatch h
  · exact fun h => nomatch h

/-- What a slot keeps for the round is what it kept before, or else the fresh level. -/
theorem kept?_slotAfter :
    (cx.slotAfter u s).kept? (s.session cx.session).round =
      (cx.keptLevel? s).or (cx.freshLevel? u s) := by
  unfold slotAfter
  split
  · rename_i level hkept
    rw [hkept]
    exact hkept
  · rename_i level hkept hfresh
    rw [hkept, hfresh]
    exact if_pos rfl
  · rename_i hkept hfresh
    rw [hkept, hfresh]
    rfl

variable {c : Context}

/-- What a slot holds after a call it held before, or it is of the current round. -/
theorem round_of_slotAfter {round : UInt32} {level : List Candidate}
    (h : cx.slotAfter u s = .collected round level) :
    (s.stateOf cx.id).level = .collected round level ∨ round = (s.session cx.session).round := by
  unfold slotAfter at h
  split at h
  · exact Or.inl h
  · cases h
    exact Or.inr rfl
  · cases h

/-- A deferred level is not kept. -/
theorem slotAfter_of_defers (hkept : cx.keptLevel? s = none) (hdefers : cx.Defers u s) :
    cx.slotAfter u s = .absent := by
  unfold slotAfter
  rw [hkept, (cx.freshLevel?_eq_none_iff u s).mpr hdefers]

theorem level_askLevel (hidle : (s.stateOf cx.id).level ≠ .inProgress)
    (hplace : cx.id < s.states.size) :
    ((cx.askLevel u s).2.stateOf cx.id).level = cx.slotAfter u s := by
  rw [askLevel_eq cx u s hidle, stateOf_setLevel, if_pos ⟨rfl, hplace⟩]

/-- Asking one context leaves the states of the others alone. -/
theorem stateOf_askLevel_of_ne (hidle : (s.stateOf cx.id).level ≠ .inProgress) {id : ContextId}
    (hother : id ≠ cx.id) : (cx.askLevel u s).2.stateOf id = s.stateOf id := by
  rw [askLevel_eq cx u s hidle, stateOf_setLevel, if_neg fun hsame => hother hsame.1]

theorem size_states_askLevel (hidle : (s.stateOf cx.id).level ≠ .inProgress) :
    (cx.askLevel u s).2.states.size = s.states.size := by
  rw [askLevel_eq cx u s hidle]
  exact Array.size_modify

theorem sessions_askLevel (hidle : (s.stateOf cx.id).level ≠ .inProgress) :
    (cx.askLevel u s).2.sessions = s.sessions := by
  rw [askLevel_eq cx u s hidle]
  rfl

/-- A call makes no difference to what calls answer. -/
theorem currentLevel_askLevel (hidle : (s.stateOf cx.id).level ≠ .inProgress)
    (hplace : c.id = cx.id → c = cx) :
    c.currentLevel u (cx.askLevel u s).2 = c.currentLevel u s := by
  rw [askLevel_eq cx u s hidle]
  unfold currentLevel
  rw [freshLevel?_setLevel]
  unfold keptLevel?
  rw [stateOf_setLevel]
  split
  · rename_i hsame
    obtain rfl := hplace hsame.1
    show (((c.slotAfter u s).kept? (s.session c.session).round).or _).getD [] = _
    rw [kept?_slotAfter, Option.or_assoc, Option.or_self]
    rfl
  · rfl

/-- A context that is idle is idle after a question. -/
theorem idle_askLevel (hidle : (s.stateOf cx.id).level ≠ .inProgress) {id : ContextId}
    (hother : (s.stateOf id).level ≠ .inProgress) :
    ((cx.askLevel u s).2.stateOf id).level ≠ .inProgress := by
  rw [askLevel_eq cx u s hidle, stateOf_setLevel]
  split
  · exact slotAfter_ne_inProgress hidle
  · exact hother

/-! ### One call after the other -/

def askEach (u : Universe) : List Context → Store → List (List Candidate) × Store
  | [], s => ([], s)
  | cx :: rest, s =>
    let (level, s) := cx.askLevel u s
    let (levels, s) := askEach u rest s
    (level :: levels, s)

/-- The levels asked are those along the chain that are not empty. -/
theorem askLevels_eq :
    cx.askLevels u s =
      ((askEach u cx.chain s).1.filter fun level => !level.isEmpty, (askEach u cx.chain s).2) := by
  have hrun : ∀ (contexts : List Context) (s : Store),
      Id.run ((contexts.mapM fun c : Context => c.implicitLevel u (u.oracle (m := Id))).run s) =
        askEach u contexts s := by
    intro contexts
    induction contexts with
    | nil => exact fun s => rfl
    | cons first rest ih =>
      intro s
      have hrest := ih (first.askLevel u s).2
      show _ = ((first.askLevel u s).1 :: (askEach u rest (first.askLevel u s).2).1,
        (askEach u rest (first.askLevel u s).2).2)
      rw [← hrest, List.mapM_cons]
      rfl
  unfold askLevels implicitLevels
  rw [← hrun]
  rfl

/-- **Levels are answered as if each was asked for alone.** -/
theorem answers_askEach {contexts : List Context}
    (hidle : ∀ c ∈ contexts, (s.stateOf c.id).level ≠ .inProgress)
    (hapart : ∀ a ∈ contexts, ∀ b ∈ contexts, a.id = b.id → a = b) :
    (askEach u contexts s).1 = contexts.map fun c => c.currentLevel u s := by
  induction contexts generalizing s with
  | nil => rfl
  | cons first rest ih =>
    have hfirst := hidle first List.mem_cons_self
    have hrest : ∀ c ∈ rest, ((first.askLevel u s).2.stateOf c.id).level ≠ .inProgress :=
      fun c hc => idle_askLevel hfirst (hidle c (List.mem_cons_of_mem _ hc))
    show (first.askLevel u s).1 :: (askEach u rest (first.askLevel u s).2).1 = _
    have hlater : ∀ c ∈ rest, c.currentLevel u (first.askLevel u s).2 = c.currentLevel u s :=
      fun c hc => currentLevel_askLevel hfirst
        (hapart c (List.mem_cons_of_mem _ hc) first List.mem_cons_self)
    rw [ih hrest fun a ha b hb =>
        hapart a (List.mem_cons_of_mem _ ha) b (List.mem_cons_of_mem _ hb),
      List.map_congr_left hlater, askLevel_eq first u s hfirst]
    rfl

/-- The levels of a context and all around it, as far as they are not empty. -/
theorem answers_askLevels (hidle : ∀ c ∈ cx.chain, (s.stateOf c.id).level ≠ .inProgress)
    (hapart : ∀ a ∈ cx.chain, ∀ b ∈ cx.chain, a.id = b.id → a = b) :
    (cx.askLevels u s).1 =
      (cx.chain.map fun c => c.currentLevel u s).filter fun level => !level.isEmpty := by
  rw [askLevels_eq, answers_askEach hidle hapart]

end Context

end NameResolution
