import NameResolution.Proofs.Implicit.Cache
import NameResolution.Proofs.Lookup.Arbitration
import NameResolution.Proofs.Openings

/-!
# Levels over the rounds of a session

`LevelRun` closes a store without contexts under opening contexts of one session, editing the table,
any change that concerns neither contexts nor rounds, new rounds, and calls for levels. It keeps the
calls, each with the table and the store it was made at.

* `Coherent`: a slot keeps for the current round what the first call that was not deferred collected
  (`settled?`); what it keeps for another round is not so old that the count of rounds, which wraps
  around, has come back to it.
* `Coherent.askEach`, `Coherent.nextRound`: calls and new rounds keep it so.
* `LevelRun.coherent`: so it is over fewer than 2³² rounds.
* `LevelRun.answers`: what a call answers, for one context and for all around it.
-/

namespace NameResolution

structure LevelCall where
  cx : Context
  /-- How many rounds were started before. -/
  round : Nat
  table : Table
  /-- The store when the levels were asked for; slots apart, nothing changes until they are
  answered. -/
  store : Store

/-- The level that could be collected when the call was made; none if it was to be deferred. -/
def LevelCall.collected? (call : LevelCall) : Option (List Candidate) :=
  call.cx.freshLevel? call.table.toUniverse call.store

/-- The level of the first call for the context in the round that was not deferred. -/
def settled? (calls : List LevelCall) (cx : Context) (round : Nat) : Option (List Candidate) :=
  calls.findSome? fun call => if call.cx = cx ∧ call.round = round then call.collected? else none

/--
What happens to the contexts of one session. With the table and the store come the number of rounds
started so far, the contexts opened, and the calls for levels in order.
-/
inductive LevelRun (id : SessionId) :
    Nat → Table → Store → List Context → List LevelCall → Prop where
  | start {t : Table} {s : Store} (hstates : s.states = #[]) (hsession : id < s.sessions.size) :
      LevelRun id 0 t s [] []
  | openRoot {rounds : Nat} {t : Table} {s : Store} {opened : List Context} {calls : List LevelCall}
      (h : LevelRun id rounds t s opened calls) (owner : SymbolId) (scope : ScopeId) :
      LevelRun id rounds t (Context.openRoot id owner scope s).2
        ((Context.openRoot id owner scope s).1 :: opened) calls
  | opening {rounds : Nat} {t : Table} {s : Store} {opened : List Context} {calls : List LevelCall}
      (h : LevelRun id rounds t s opened calls) {cx : Context} (hcx : cx ∈ opened) (o : Opening) :
      LevelRun id rounds t (o.run cx s).2 ((o.run cx s).1 :: opened) calls
  | edit {rounds : Nat} {t : Table} {s : Store} {opened : List Context} {calls : List LevelCall}
      (h : LevelRun id rounds t s opened calls) (edited : Table) :
      LevelRun id rounds edited s opened calls
  /-- Entering declarations, changing modes, looking up, reporting, and whatever else concerns
  neither contexts nor levels nor rounds. -/
  | change {rounds : Nat} {t : Table} {s s' : Store} {opened : List Context}
      {calls : List LevelCall} (h : LevelRun id rounds t s opened calls)
      (hstates : s'.states.size = s.states.size) (hsessions : s'.sessions.size = s.sessions.size)
      (hround : (s'.session id).round = (s.session id).round)
      (hlevels : ∀ cx ∈ opened, (s'.stateOf cx.id).level = (s.stateOf cx.id).level) :
      LevelRun id rounds t s' opened calls
  | nextRound {rounds : Nat} {t : Table} {s : Store} {opened : List Context}
      {calls : List LevelCall} (h : LevelRun id rounds t s opened calls) :
      LevelRun id (rounds + 1) t (s.modifySession id Session.nextRound) opened calls
  | level {rounds : Nat} {t : Table} {s : Store} {opened : List Context} {calls : List LevelCall}
      (h : LevelRun id rounds t s opened calls) {cx : Context} (hcx : cx ∈ opened) :
      LevelRun id rounds t (cx.askLevel t.toUniverse s).2 opened
        (calls ++ [⟨cx, rounds, t, s⟩])
  | levels {rounds : Nat} {t : Table} {s : Store} {opened : List Context} {calls : List LevelCall}
      (h : LevelRun id rounds t s opened calls) {cx : Context} (hcx : cx ∈ opened) :
      LevelRun id rounds t (cx.askLevels t.toUniverse s).2 opened
        (calls ++ cx.chain.map fun c => ⟨c, rounds, t, s⟩)

/-- What the slots hold after some calls, over the rounds of a session. -/
structure Coherent (id : SessionId) (rounds : Nat) (s : Store) (opened : List Context)
    (calls : List LevelCall) : Prop where
  placed : Placed s opened
  started : id < s.sessions.size
  session : ∀ cx ∈ opened, cx.session = id
  called : ∀ call ∈ calls, call.cx ∈ opened ∧ call.round ≤ rounds
  idle : ∀ cx ∈ opened, (s.stateOf cx.id).level ≠ .inProgress
  settled : ∀ cx ∈ opened, cx.keptLevel? s = settled? calls cx rounds
  aged : ∀ cx ∈ opened, ∀ round level, (s.stateOf cx.id).level = .collected round level →
    ∃ age ≤ rounds, round + UInt32.ofNat age = (s.session id).round

/-! ### Calls -/

section Calls

variable {calls : List LevelCall} {cx : Context} {round : Nat}

theorem settled?_eq_none (h : ∀ call ∈ calls, call.cx = cx → call.round ≠ round) :
    settled? calls cx round = none := by
  unfold settled?
  rw [List.findSome?_eq_none_iff]
  intro call hcall
  exact if_neg fun hsame => h call hcall hsame.1 hsame.2

theorem settled?_append_self {call : LevelCall} (hcx : call.cx = cx) (hround : call.round = round) :
    settled? (calls ++ [call]) cx round = (settled? calls cx round).or call.collected? := by
  unfold settled?
  rw [List.findSome?_append, List.findSome?_singleton, if_pos ⟨hcx, hround⟩]

theorem settled?_append_of_ne {call : LevelCall} (hcx : call.cx ≠ cx) :
    settled? (calls ++ [call]) cx round = settled? calls cx round := by
  unfold settled?
  rw [List.findSome?_append, List.findSome?_singleton, if_neg fun hsame => hcx hsame.1,
    Option.or_none]

end Calls

/-- The count of rounds wraps around, but not that soon. -/
theorem ne_next_of_age {round current : UInt32} {age : Nat}
    (hage : round + UInt32.ofNat age = current) (hlt : age + 1 < UInt32.size) :
    round ≠ current + 1 := by
  rintro rfl
  have hsize : UInt32.size = 4294967296 := rfl
  have hsum := congrArg UInt32.toNat hage
  simp only [UInt32.toNat_add, UInt32.toNat_ofNat, UInt32.toNat_ofNat'] at hsum
  have := current.toNat_lt
  omega

/-! ### What a step preserves -/

namespace Coherent

variable {id : SessionId} {rounds : Nat} {s s' : Store} {opened : List Context}
  {calls : List LevelCall}

theorem none (hsession : id < s.sessions.size) : Coherent id 0 s [] [] where
  placed := .none s
  started := hsession
  session := fun _ hcx => nomatch hcx
  called := fun _ hcall => nomatch hcall
  idle := fun _ hcx => nomatch hcx
  settled := fun _ hcx => nomatch hcx
  aged := fun _ hcx => nomatch hcx

/-- Nothing but the slots and the round matters. -/
theorem change (h : Coherent id rounds s opened calls) (hstates : s.states.size ≤ s'.states.size)
    (hsessions : s'.sessions.size = s.sessions.size)
    (hround : (s'.session id).round = (s.session id).round)
    (hlevels : ∀ cx ∈ opened, (s'.stateOf cx.id).level = (s.stateOf cx.id).level) :
    Coherent id rounds s' opened calls where
  placed := h.placed.change hstates
  started := hsessions ▸ h.started
  session := h.session
  called := h.called
  idle := fun cx hcx => hlevels cx hcx ▸ h.idle cx hcx
  settled := by
    intro cx hcx
    rw [← h.settled cx hcx]
    unfold Context.keptLevel?
    rw [hlevels cx hcx, h.session cx hcx, hround]
  aged := by
    intro cx hcx
    rw [hlevels cx hcx, hround]
    exact h.aged cx hcx

/-- Nobody has asked for the level of a new context. -/
theorem add (h : Coherent id rounds s opened calls) {new : Context}
    (hplaced : Placed s (new :: opened)) (hnew : new ∉ opened) (hsession : new.session = id)
    (hempty : (s.stateOf new.id).level = .absent) : Coherent id rounds s (new :: opened) calls where
  placed := hplaced
  started := h.started
  session := List.forall_mem_cons.mpr ⟨hsession, h.session⟩
  called := fun call hcall =>
    ⟨List.mem_cons_of_mem _ (h.called call hcall).1, (h.called call hcall).2⟩
  idle := by
    refine List.forall_mem_cons.mpr ⟨?_, h.idle⟩
    rw [hempty]
    exact fun hslot => nomatch hslot
  settled := by
    refine List.forall_mem_cons.mpr ⟨?_, h.settled⟩
    have hkept : new.keptLevel? s = Option.none := by
      unfold Context.keptLevel?
      rw [hempty]
      rfl
    rw [hkept, settled?_eq_none]
    intro call hcall hsame
    exact absurd (hsame ▸ (h.called call hcall).1) hnew
  aged := by
    refine List.forall_mem_cons.mpr ⟨?_, h.aged⟩
    intro round level hslot
    rw [hempty] at hslot
    cases hslot

theorem openRoot (h : Coherent id rounds s opened calls) (owner : SymbolId) (scope : ScopeId) :
    Coherent id rounds (Context.openRoot id owner scope s).2
      ((Context.openRoot id owner scope s).1 :: opened) calls := by
  have hlater : Coherent id rounds (Context.openRoot id owner scope s).2 opened calls := by
    refine h.change ?_ rfl rfl fun cx hcx => ?_
    · show s.states.size ≤ (s.states.push _).size
      rw [Array.size_push]
      exact Nat.le_succ _
    · show (((s.states.push _)[cx.id]?).getD default).level = _
      rw [Array.getElem?_push_lt (h.placed.registered cx hcx),
        ← Array.getElem?_eq_getElem (h.placed.registered cx hcx)]
      rfl
  refine hlater.add (h.placed.openRoot id owner scope) ?_ rfl ?_
  · exact fun hmem => Nat.lt_irrefl _ (h.placed.registered _ hmem)
  · show (((s.states.push _)[s.states.size]?).getD default).level = _
    simp

theorem opening (h : Coherent id rounds s opened calls) {cx : Context} (hcx : cx ∈ opened)
    (o : Opening) : Coherent id rounds (o.run cx s).2 ((o.run cx s).1 :: opened) calls := by
  have hlater : Coherent id rounds (o.run cx s).2 opened calls := by
    refine h.change ?_ (o.sessions_run cx s).1 ((o.sessions_run cx s).2 id) fun c hc => ?_
    · rw [o.size_states]
      exact Nat.le_succ _
    · rw [o.stateOf_of_lt cx s (h.placed.registered c hc)]
  refine hlater.add (h.placed.opening hcx o) ?_ ?_ (o.level_run cx s)
  · intro hmem
    have hlt := h.placed.registered _ hmem
    rw [o.run_id] at hlt
    exact Nat.lt_irrefl _ hlt
  · obtain ⟨base, hbase, hsession⟩ := o.session_run cx s
    rw [hsession, h.session base (h.placed.around cx hcx base hbase)]

/-- What is kept is not that old, so nothing is kept for a new round. -/
theorem nextRound (h : Coherent id rounds s opened calls) (hrounds : rounds + 1 < UInt32.size) :
    Coherent id (rounds + 1) (s.modifySession id Session.nextRound) opened calls := by
  have hround : ((s.modifySession id Session.nextRound).session id).round =
      (s.session id).round + 1 := by
    unfold Store.session Store.modifySession
    rw [Array.getElem?_modify, if_pos rfl, Array.getElem?_eq_getElem h.started]
    rfl
  exact {
    placed := h.placed.change (Nat.le_refl _)
    started := by
      show id < (s.sessions.modify id Session.nextRound).size
      rw [Array.size_modify]
      exact h.started
    session := h.session
    called := fun call hcall =>
      ⟨(h.called call hcall).1, Nat.le_succ_of_le (h.called call hcall).2⟩
    idle := h.idle
    settled := by
      intro cx hcx
      have hnew : ∀ call ∈ calls, call.cx = cx → call.round ≠ rounds + 1 := fun call hcall _ =>
        Nat.ne_of_lt (Nat.lt_succ_of_le (h.called call hcall).2)
      rw [settled?_eq_none hnew]
      show (s.stateOf cx.id).level.kept? _ = _
      rw [h.session cx hcx, hround]
      cases hslot : (s.stateOf cx.id).level with
      | absent | inProgress => rfl
      | collected round level =>
        -- Kept for the new round, the level would be 2³² rounds old.
        obtain ⟨age, hage, hsum⟩ := h.aged cx hcx round level hslot
        exact if_neg (ne_next_of_age hsum (by omega))
    aged := by
      intro cx hcx round level hslot
      obtain ⟨age, hage, hsum⟩ := h.aged cx hcx round level hslot
      refine ⟨age + 1, Nat.succ_le_succ hage, ?_⟩
      rw [hround, ← hsum, UInt32.ofNat_add, UInt32.add_assoc]
      rfl }

/-- A call settles the level of its context, unless it is deferred. -/
theorem askLevel (h : Coherent id rounds s opened calls) {cx : Context} (hcx : cx ∈ opened)
    {t : Table} {started : Store}
    (hfresh : cx.freshLevel? t.toUniverse started = cx.freshLevel? t.toUniverse s) :
    Coherent id rounds (cx.askLevel t.toUniverse s).2 opened
      (calls ++ [⟨cx, rounds, t, started⟩]) := by
  have hidle := h.idle cx hcx
  have hself := Context.level_askLevel (u := t.toUniverse) hidle (h.placed.registered cx hcx)
  -- No other context opened has the place of this one.
  have hother : ∀ c ∈ opened, c ≠ cx →
      (cx.askLevel t.toUniverse s).2.stateOf c.id = s.stateOf c.id := fun c hc hne =>
    Context.stateOf_askLevel_of_ne hidle fun hid => hne (h.placed.apart c hc cx hcx hid)
  have hsession : ∀ other, (cx.askLevel t.toUniverse s).2.session other = s.session other := by
    intro other
    unfold Store.session
    rw [Context.sessions_askLevel hidle]
  exact {
    placed := h.placed.change (Nat.le_of_eq (Context.size_states_askLevel hidle).symm)
    started := by
      rw [Context.sessions_askLevel hidle]
      exact h.started
    session := h.session
    called := by
      refine List.forall_mem_append.mpr ⟨h.called, List.forall_mem_singleton.mpr ?_⟩
      exact ⟨hcx, Nat.le_refl _⟩
    idle := fun c hc => Context.idle_askLevel hidle (h.idle c hc)
    settled := by
      intro c hc
      unfold Context.keptLevel?
      rw [hsession]
      by_cases hsame : c = cx
      · subst hsame
        rw [hself, Context.kept?_slotAfter, settled?_append_self rfl rfl, h.settled c hc, ← hfresh]
        rfl
      · rw [hother c hc hsame, settled?_append_of_ne (Ne.symm hsame)]
        exact h.settled c hc
    aged := by
      intro c hc round level hslot
      rw [hsession]
      by_cases hsame : c = cx
      · subst hsame
        rw [hself] at hslot
        rcases Context.round_of_slotAfter hslot with hbefore | hcurrent
        · exact h.aged c hc round level hbefore
        · rw [hcurrent, h.session c hc]
          exact ⟨0, Nat.zero_le _, UInt32.add_zero _⟩
      · rw [hother c hc hsame] at hslot
        exact h.aged c hc round level hslot }

/-- So do calls one after the other. -/
theorem askEach (h : Coherent id rounds s opened calls) {contexts : List Context}
    (hcontexts : ∀ c ∈ contexts, c ∈ opened) {t : Table} {started : Store}
    (hfresh : ∀ c : Context, c.freshLevel? t.toUniverse started = c.freshLevel? t.toUniverse s) :
    Coherent id rounds (Context.askEach t.toUniverse contexts s).2 opened
      (calls ++ contexts.map fun c => ⟨c, rounds, t, started⟩) := by
  induction contexts generalizing s calls with
  | nil =>
    rw [List.map_nil, List.append_nil]
    exact h
  | cons first rest ih =>
    have hfirst := hcontexts first List.mem_cons_self
    have hafter : ∀ c : Context, c.freshLevel? t.toUniverse started =
        c.freshLevel? t.toUniverse (first.askLevel t.toUniverse s).2 := by
      intro c
      rw [hfresh c, Context.askLevel_eq first t.toUniverse s (h.idle first hfirst),
        Context.freshLevel?_setLevel]
    rw [List.map_cons, List.append_cons]
    exact ih (h.askLevel hfirst (hfresh first))
      (fun c hc => hcontexts c (List.mem_cons_of_mem _ hc)) hafter

end Coherent

/-! ### Runs -/

namespace LevelRun

variable {id : SessionId} {rounds : Nat} {t : Table} {s : Store} {opened : List Context}
  {calls : List LevelCall}

theorem enter (h : LevelRun id rounds t s opened calls) (scope : ScopeId) (name : Name)
    (sym : SymbolId) : LevelRun id rounds t (s.enter scope name sym) opened calls :=
  h.change rfl rfl rfl fun _ _ => rfl

theorem setModes (h : LevelRun id rounds t s opened calls) (cx : Context) (modes : Modes) :
    LevelRun id rounds t (cx.setModes modes s) opened calls := by
  refine h.change Array.size_modify rfl rfl fun c _ => ?_
  unfold Context.setModes
  rw [s.stateOf_modifyState]
  split <;> rfl

/-- **Slots are coherent over fewer than 2³² rounds.** -/
theorem coherent (h : LevelRun id rounds t s opened calls) (hrounds : rounds < UInt32.size) :
    Coherent id rounds s opened calls := by
  -- The bound on the rounds holds of every part of the run, as rounds are only added.
  induction h with
  | start _ hsession => exact .none hsession
  | openRoot _ owner scope ih => exact (ih hrounds).openRoot owner scope
  | opening _ hcx o ih => exact (ih hrounds).opening hcx o
  | edit _ _ ih => exact ih hrounds
  | change _ hstates hsessions hround hlevels ih =>
    exact (ih hrounds).change (Nat.le_of_eq hstates.symm) hsessions hround hlevels
  | nextRound _ ih => exact (ih (Nat.lt_of_succ_lt hrounds)).nextRound hrounds
  | level _ hcx ih => exact (ih hrounds).askLevel hcx rfl
  | @levels rounds t s opened calls _ cx hcx ih =>
    rw [Context.askLevels_eq]
    exact (ih hrounds).askEach ((ih hrounds).placed.around cx hcx) fun _ => rfl

/-- **What a call answers.** No slot is in progress between calls. A call answers the level of the
first call in the round that was not deferred, or else the level as it can be collected now; for
a context and all around it these are answered together. In a round without calls for the context
nothing but the state at the call counts. A call that is deferred answers the empty level and leaves
an empty slot. -/
theorem answers (h : LevelRun id rounds t s opened calls) (hrounds : rounds < UInt32.size)
    {cx : Context} (hcx : cx ∈ opened) :
    let u := t.toUniverse
    let answer := fun c : Context => ((settled? calls c rounds).or (c.freshLevel? u s)).getD []
    (s.stateOf cx.id).level ≠ .inProgress ∧
      (cx.askLevel u s).1 = answer cx ∧
      (cx.askLevels u s).1 = (cx.chain.map answer).filter (fun level => !level.isEmpty) ∧
      ((∀ call ∈ calls, call.cx = cx → call.round ≠ rounds) →
        (cx.askLevel u s).1 = (cx.freshLevel? u s).getD []) ∧
      (settled? calls cx rounds = none → cx.Defers u s →
        (cx.askLevel u s).1 = [] ∧ ((cx.askLevel u s).2.stateOf cx.id).level = .absent) := by
  intro u answer
  have hcoherent := h.coherent hrounds
  have haround := hcoherent.placed.around cx hcx
  have hanswer : ∀ c ∈ opened, c.currentLevel u s = answer c := by
    intro c hc
    unfold Context.currentLevel
    rw [hcoherent.settled c hc]
  have hcall : (cx.askLevel u s).1 = answer cx := by
    rw [Context.askLevel_eq cx u s (hcoherent.idle cx hcx), hanswer cx hcx]
  refine ⟨hcoherent.idle cx hcx, hcall, ?_, fun hfirst => ?_, fun hunsettled hdefers => ?_⟩
  · rw [Context.answers_askLevels (fun c hc => hcoherent.idle c (haround c hc))
      (hcoherent.placed.apart_chain hcx)]
    congr 1
    exact List.map_congr_left fun c hc => hanswer c (haround c hc)
  · rw [hcall]
    show ((settled? calls cx rounds).or _).getD [] = _
    rw [settled?_eq_none hfirst, Option.none_or]
  · have hfresh := (cx.freshLevel?_eq_none_iff u s).mpr hdefers
    refine ⟨?_, ?_⟩
    · rw [hcall]
      show ((settled? calls cx rounds).or (cx.freshLevel? u s)).getD [] = []
      rw [hunsettled, hfresh]
      rfl
    · rw [Context.level_askLevel (hcoherent.idle cx hcx) (hcoherent.placed.registered cx hcx)]
      exact Context.slotAfter_of_defers ((hcoherent.settled cx hcx).trans hunsettled) hdefers

end LevelRun

/-! ### A class that is completed and edited -/

namespace Edited

/-- Class 2 with the implicit value 3, complete or not. -/
def before (isComplete : Bool) : Table :=
  let t := (Table.initial.addClass .root (.ofWord 9)).2
  (t.addValue ⟨2⟩ Sample.name (.ofList [.implicit])).2.setComplete ⟨2⟩ isComplete

/-- The class once it is complete and has another implicit value 4. -/
def after : Table := ((before true).addValue ⟨2⟩ (.ofWord 12) (.ofList [.implicit])).2

/-- The body of the class at the root, and the store with it. -/
def body : Context × Store :=
  let root := Context.openRoot 0 .root 0 (Sample.store #[.empty, .empty])
  root.1.make .template ⟨2⟩ 1 root.2

end Edited

/-- The body of a class is asked for its level before and after the class is complete. What is
entered, switched and declared afterwards counts in the next round only. -/
theorem LevelRun.answers_edited :
    let cx := Edited.body.1
    let u := Edited.after.toUniverse
    let deferred := cx.askLevel (Edited.before false).toUniverse Edited.body.2
    let settled := cx.askLevels (Edited.before true).toUniverse deferred.2
    let s := cx.setModes ∅ (settled.2.enter 1 Sample.name ⟨3⟩)
    let next := s.modifySession 0 Session.nextRound
    deferred.1 = [] ∧
      (cx.askLevel u s).1 = [⟨Sample.name, .self ⟨2⟩, ⟨3⟩⟩] ∧
      (cx.askLevel u next).1 = (cx.freshLevel? u next).getD [] ∧
      (cx.askLevel u next).1 =
        [⟨Sample.name, .self ⟨2⟩, ⟨3⟩⟩, ⟨.ofWord 12, .self ⟨2⟩, ⟨4⟩⟩] := by
  intro cx u deferred settled s next
  have hstart : LevelRun 0 0 (Edited.before false) (Sample.store #[.empty, .empty]) [] [] :=
    .start rfl (by decide)
  have hbody := (hstart.openRoot .root 0).opening List.mem_cons_self (.make .template ⟨2⟩ 1)
  have hasked := (hbody.level List.mem_cons_self).edit (Edited.before true)
  have hrun := (((hasked.levels List.mem_cons_self).enter 1 Sample.name ⟨3⟩).setModes cx ∅).edit
    Edited.after
  obtain ⟨-, hkept, -⟩ := hrun.answers (by decide) List.mem_cons_self
  obtain ⟨-, -, -, hfirst, -⟩ := hrun.nextRound.answers (by decide) List.mem_cons_self
  refine ⟨by decide +kernel, hkept.trans (by decide +kernel), hfirst (by decide +kernel),
    by decide +kernel⟩

end NameResolution
