import NameResolution.Store

/-!
# Scopes and their handles

The index of a scope answers for its entries: whatever was entered, every question about a name has
the answer that a search of the history gives (`Scope.Records`). Handles are told apart by the
creation they descend from, and a handle's scope holds what was entered through the handles of that
creation, whichever they were, and nothing else.

* `Scope.Records.enter`, `Scope.Records.enterAll`: a scope's records after one more entry, and after
  any number of them.
* `ScopeHandle.Accounts.share`, `ScopeHandle.Accounts.enter`, `ScopeHandle.Run.accounts`: what is
  kept of scopes and handles as they come about.
* `ScopeHandle.Run.scopes_separate`: scopes on their own and scopes shared by handles keep records;
  clones agree, and other scopes are left alone.
-/

namespace NameResolution

namespace Scope

variable {scope : Scope} {history : List (Name × SymbolId)} {name : Name}

/-! ### What the index finds -/

/-- A group of the index is what the index has for its name. -/
theorem lookup_of_mem_index {group : Name × List Nat} (h : group ∈ scope.index) :
    scope.index.lookup group.1 = some group.2 := by
  obtain ⟨before, after, hindex⟩ := List.append_of_mem h
  have hsingle := scope.indexed.single
  rw [hindex, List.map_append, List.map_cons] at hsingle
  refine List.lookup_eq_some_iff.mpr ⟨before, after, hindex, fun other hother => ?_⟩
  -- Groups before this one have other names.
  have hne := (List.nodup_append.mp hsingle).2.2 other.1 (List.mem_map_of_mem hother) group.1
    List.mem_cons_self
  simpa using Ne.symm hne

/-- The first symbol of a name is the head of all its symbols. -/
theorem lookup?_eq_head? (scope : Scope) (name : Name) :
    scope.lookup? name = (scope.lookupAll name).head? :=
  List.head?_map.symm

/-- A name has no symbol exactly if the index has no position for it. -/
theorem lookupAll_eq_nil_iff : scope.lookupAll name = [] ↔ scope.index.positions name = [] := by
  rw [lookupAll, List.map_eq_nil_iff, List.attach_eq_nil_iff]

theorem contains_iff : scope.contains name = true ↔ scope.lookupAll name ≠ [] := by
  rw [contains, Ne, lookupAll_eq_nil_iff, NameIndex.positions]
  cases hgroup : scope.index.lookup name with
  | none => simp
  | some group =>
    have hfilled := ((scope.indexed.lookup_eq_some_iff name group).mp hgroup).2
    simp [hfilled]

/-- A stored position has an entry, and it is one of the name that the position is kept for. -/
theorem entry_of_stored {group : Name × List Nat} (hgroup : group ∈ scope.index) {position : Nat}
    (hposition : position ∈ group.2) :
    ∃ sym, scope.entries[position]? = some (group.1, sym) := by
  have hlookup := lookup_of_mem_index hgroup
  obtain ⟨hlist, -⟩ := (scope.indexed.lookup_eq_some_iff group.1 group.2).mp hlookup
  rw [hlist, mem_positionsOf] at hposition
  simpa using hposition

/-! ### Records -/

/-- What a scope answers when a history of declarations was entered. -/
structure Records (scope : Scope) (history : List (Name × SymbolId)) : Prop where
  /-- The entries are the history. -/
  entries : scope.entries.toList = history
  size : scope.size = history.length
  isEmpty_iff : scope.isEmpty = true ↔ history = []
  /-- Under a name there is what was entered under it, in order and with repetitions. -/
  lookupAll : ∀ name,
    scope.lookupAll name = (history.filter fun entry => entry.1 = name).map (·.2)
  lookup? : ∀ name, scope.lookup? name = (scope.lookupAll name).head?
  contains_iff : ∀ name, scope.contains name = true ↔ scope.lookupAll name ≠ []
  /-- Every position of the index lies within the entries. -/
  within : ∀ group ∈ scope.index, ∀ position ∈ group.2, position < scope.size
  /-- The positions of the index are those of the names in the history. -/
  stored : ∀ group ∈ scope.index, ∀ position ∈ group.2,
    ∃ sym, history[position]? = some (group.1, sym)

/-- A scope records the history its entries spell out. -/
theorem records_of_entries (h : scope.entries.toList = history) : scope.Records history where
  entries := h
  size := by rw [← h, Array.length_toList, size]
  isEmpty_iff := by rw [← h, isEmpty, Array.isEmpty_iff, Array.toList_eq_nil_iff]
  lookupAll name := by rw [lookupAll_eq, h]; rfl
  lookup? := scope.lookup?_eq_head?
  contains_iff _ := contains_iff
  within group hgroup position hposition := by
    obtain ⟨sym, hat⟩ := entry_of_stored hgroup hposition
    exact (Array.getElem?_eq_some_iff.mp hat).1
  stored group hgroup position hposition := by
    obtain ⟨sym, hat⟩ := entry_of_stored hgroup hposition
    exact ⟨sym, by rw [← h, Array.getElem?_toList, hat]⟩

theorem records_empty : empty.Records [] := records_of_entries rfl

/-- **An entry is recorded last.** -/
theorem Records.enter (h : scope.Records history) (name : Name) (sym : SymbolId) :
    (scope.enter name sym).Records (history ++ [(name, sym)]) := by
  apply records_of_entries
  rw [Scope.enter, Array.toList_push, h.entries]

/-- Entries are recorded in order. -/
theorem Records.enterAll (h : scope.Records history) (entries : List (Name × SymbolId)) :
    (scope.enterAll entries).Records (history ++ entries) := by
  induction entries generalizing scope history with
  | nil =>
    rw [List.append_nil]
    exact h
  | cons entry rest ih =>
    rw [List.append_cons]
    exact ih (h.enter entry.1 entry.2)

end Scope

/-! ### Handles -/

/-- A handle on a scope. Its origin tells which creation of a scope, by number, the handle or the
handle it was cloned from comes from. -/
structure ScopeHandle where
  scope : ScopeId
  origin : Nat

namespace ScopeHandle

/-- The declarations entered by origin, in order of entry. -/
abbrev Log : Type := List (Nat × Name × SymbolId)

def Log.of (log : Log) (origin : Nat) : List (Name × SymbolId) :=
  (log.filter (·.1 = origin)).map (·.2)

/-- Scopes and handles as they come about, with the number of creations and what was entered. -/
inductive Run : Store → List ScopeHandle → Nat → Log → Prop where
  | start (s : Store) : Run s [] 0 []
  /-- A scope is shared: a new one, or one that declarations were entered in before. -/
  | share {s handles created log} (h : Run s handles created log)
      (entries : List (Name × SymbolId)) :
      Run (s.addScope (Scope.empty.enterAll entries)).2
        (⟨(s.addScope (Scope.empty.enterAll entries)).1, created⟩ :: handles) (created + 1)
        (log ++ entries.map fun entry => (created, entry))
  | clone {s handles created log} (h : Run s handles created log) {handle : ScopeHandle}
      (hhandle : handle ∈ handles) : Run s (handle :: handles) created log
  | enter {s handles created log} (h : Run s handles created log) {handle : ScopeHandle}
      (hhandle : handle ∈ handles) (name : Name) (sym : SymbolId) :
      Run (s.enter handle.scope name sym) handles created (log ++ [(handle.origin, name, sym)])
  /-- Anything else that happens to the store. -/
  | elsewhere {s handles created log} (h : Run s handles created log) {after : Store}
      (hscopes : after.scopes = s.scopes) : Run after handles created log

variable {s : Store} {handles : List ScopeHandle} {created : Nat} {log : Log}

/-- The log of an origin is read off step by step. -/
theorem Log.of_append (log more : Log) (origin : Nat) :
    (log ++ more).of origin = log.of origin ++ Log.of more origin := by
  simp [Log.of]

theorem Log.of_singleton (origin entered : Nat) (entry : Name × SymbolId) :
    Log.of [(entered, entry)] origin = if entered = origin then [entry] else [] := by
  by_cases h : entered = origin <;> simp [Log.of, h]

theorem Log.of_map_same (origin : Nat) (entries : List (Name × SymbolId)) :
    Log.of (entries.map fun entry => (origin, entry)) origin = entries := by
  simp [Log.of, List.filter_map, Function.comp_def]

/-- What is entered elsewhere does not show in the log of an origin. -/
theorem Log.of_map_other {origin other : Nat} (h : origin ≠ other)
    (entries : List (Name × SymbolId)) :
    Log.of (entries.map fun entry => (other, entry)) origin = [] := by
  simp [Log.of, List.filter_map, Function.comp_def, Ne.symm h]

/-- What is kept of scopes and handles: every handle refers to a scope, handles refer to one scope
exactly if they have one origin, and a scope records what was entered by that origin. -/
structure Accounts (s : Store) (handles : List ScopeHandle) (created : Nat) (log : Log) :
    Prop where
  placed : ∀ handle ∈ handles, handle.scope < s.scopes.size
  numbered : ∀ handle ∈ handles, handle.origin < created
  logged : ∀ entry ∈ log, entry.1 < created
  same_iff : ∀ handle ∈ handles, ∀ other ∈ handles,
    handle.scope = other.scope ↔ handle.origin = other.origin
  records : ∀ handle ∈ handles, (s.scope handle.scope).Records (log.of handle.origin)

namespace Accounts

theorem start (s : Store) : Accounts s [] 0 [] := ⟨nofun, nofun, nofun, nofun, nofun⟩

/-- Nothing was entered by an origin that is yet to come. -/
theorem of_created (h : Accounts s handles created log) : log.of created = [] := by
  rw [Log.of, List.map_eq_nil_iff, List.filter_eq_nil_iff]
  intro entry hentry
  simpa using Nat.ne_of_lt (h.logged entry hentry)

/-- **A scope that is shared is apart from all others.** -/
theorem share (h : Accounts s handles created log) (entries : List (Name × SymbolId)) :
    Accounts (s.addScope (Scope.empty.enterAll entries)).2
      (⟨(s.addScope (Scope.empty.enterAll entries)).1, created⟩ :: handles) (created + 1)
      (log ++ entries.map fun entry => (created, entry)) where
  placed handle hhandle := by
    rw [Store.addScope, Array.size_push]
    obtain rfl | hold := List.mem_cons.mp hhandle
    · exact Nat.lt_succ_self _
    · exact Nat.lt_succ_of_lt (h.placed handle hold)
  numbered handle hhandle := by
    obtain rfl | hold := List.mem_cons.mp hhandle
    · exact Nat.lt_succ_self _
    · exact Nat.lt_succ_of_lt (h.numbered handle hold)
  logged := by
    refine List.forall_mem_append.mpr ⟨fun entry hentry => ?_, fun entry hentry => ?_⟩
    · exact Nat.lt_succ_of_lt (h.logged entry hentry)
    · obtain ⟨_, -, rfl⟩ := List.mem_map.mp hentry
      exact Nat.lt_succ_self _
  same_iff handle hhandle other hother := by
    -- The new place and the new number are beyond the old ones.
    obtain rfl | hhandle := List.mem_cons.mp hhandle <;>
      obtain rfl | hother := List.mem_cons.mp hother
    · exact iff_of_true rfl rfl
    · exact iff_of_false (Nat.ne_of_gt (h.placed other hother))
        (Nat.ne_of_gt (h.numbered other hother))
    · exact iff_of_false (Nat.ne_of_lt (h.placed handle hhandle))
        (Nat.ne_of_lt (h.numbered handle hhandle))
    · exact h.same_iff handle hhandle other hother
  records handle hhandle := by
    rw [Store.scope_addScope, Log.of_append]
    obtain rfl | hold := List.mem_cons.mp hhandle
    · have hplace : (s.addScope (Scope.empty.enterAll entries)).1 = s.scopes.size := rfl
      rw [if_pos hplace, h.of_created, Log.of_map_same]
      exact Scope.records_empty.enterAll entries
    · rw [if_neg (Nat.ne_of_lt (h.placed handle hold)),
        Log.of_map_other (Nat.ne_of_lt (h.numbered handle hold)), List.append_nil]
      exact h.records handle hold

/-- A clone shares the scope of its handle, and with it the log. -/
theorem clone (h : Accounts s handles created log) {handle : ScopeHandle}
    (hhandle : handle ∈ handles) : Accounts s (handle :: handles) created log := by
  have hknown : ∀ other ∈ handle :: handles, other ∈ handles :=
    List.forall_mem_cons.mpr ⟨hhandle, fun _ hother => hother⟩
  exact ⟨fun other hother => h.placed other (hknown other hother),
    fun other hother => h.numbered other (hknown other hother), h.logged,
    fun one hone other hother => h.same_iff one (hknown one hone) other (hknown other hother),
    fun other hother => h.records other (hknown other hother)⟩

/-- **What is entered through a handle is recorded for the handles of its origin.** -/
theorem enter (h : Accounts s handles created log) {handle : ScopeHandle}
    (hhandle : handle ∈ handles) (name : Name) (sym : SymbolId) :
    Accounts (s.enter handle.scope name sym) handles created
      (log ++ [(handle.origin, name, sym)]) where
  placed other hother := by
    rw [Store.enter, Array.size_modify]
    exact h.placed other hother
  numbered := h.numbered
  logged := List.forall_mem_append.mpr
    ⟨h.logged, List.forall_mem_singleton.mpr (h.numbered handle hhandle)⟩
  same_iff := h.same_iff
  records other hother := by
    rw [s.scope_enter (h.placed handle hhandle), Log.of_append, Log.of_singleton]
    by_cases hsame : handle.origin = other.origin
    · have hscope := (h.same_iff handle hhandle other hother).mpr hsame
      rw [if_pos hscope.symm, if_pos hsame, ← hsame]
      exact (h.records handle hhandle).enter name sym
    · have hscope := mt (h.same_iff handle hhandle other hother).mp hsame
      rw [if_neg (Ne.symm hscope), if_neg hsame, List.append_nil]
      exact h.records other hother

/-- What leaves the scopes alone leaves the accounts alone. -/
theorem elsewhere (h : Accounts s handles created log) {after : Store}
    (hscopes : after.scopes = s.scopes) : Accounts after handles created log where
  placed := hscopes ▸ h.placed
  numbered := h.numbered
  logged := h.logged
  same_iff := h.same_iff
  records handle hhandle := by
    rw [Store.scope, hscopes]
    exact h.records handle hhandle

end Accounts

/-- **At any point the scopes agree with the log.** -/
theorem Run.accounts (h : Run s handles created log) : Accounts s handles created log := by
  induction h with
  | start s => exact .start s
  | share _ entries ih => exact ih.share entries
  | clone _ hhandle ih => exact ih.clone hhandle
  | enter _ hhandle name sym ih => exact ih.enter hhandle name sym
  | elsewhere _ hscopes ih => exact ih.elsewhere hscopes

/-- **Scopes answer for what was entered in them, and only handles of one origin share one.** -/
theorem Run.scopes_separate (h : Run s handles created log) :
    (∀ entries, (Scope.empty.enterAll entries).Records entries) ∧
      (∀ handle ∈ handles, (s.scope handle.scope).Records (log.of handle.origin)) ∧
      (∀ handle ∈ handles, ∀ other ∈ handles,
        handle.scope = other.scope ↔ handle.origin = other.origin) ∧
      ∀ handle ∈ handles, ∀ other ∈ handles, ∀ name sym,
        (s.enter handle.scope name sym).scope other.scope =
          if handle.origin = other.origin then (s.scope other.scope).enter name sym
          else s.scope other.scope := by
  have haccounts := h.accounts
  refine ⟨fun entries => Scope.records_empty.enterAll entries, haccounts.records,
    haccounts.same_iff, fun handle hhandle other hother name sym => ?_⟩
  have hsame := haccounts.same_iff handle hhandle other hother
  rw [s.scope_enter (haccounts.placed handle hhandle)]
  by_cases horigin : handle.origin = other.origin
  · rw [if_pos (hsame.mpr horigin).symm, if_pos horigin, hsame.mpr horigin]
  · rw [if_neg (Ne.symm (mt hsame.mp horigin)), if_neg horigin]

/-- A value is entered through a handle, through its clone a type of the same text and the value
again; another scope had the value before it was shared. -/
theorem Run.scopes_separate_clone :
    let value : Name := .ofIndex 8
    let first := Store.addScope {} .empty
    let second := first.2.addScope (Scope.empty.enter value ⟨7⟩)
    let handle : ScopeHandle := ⟨first.1, 0⟩
    let other : ScopeHandle := ⟨second.1, 1⟩
    let handles := [other, handle, handle]
    let log : Log := [(1, value, ⟨7⟩), (0, value, ⟨3⟩), (0, value.toType, ⟨4⟩), (0, value, ⟨5⟩)]
    let s := ((second.2.enter handle.scope value ⟨3⟩).enter handle.scope value.toType ⟨4⟩).enter
      handle.scope value ⟨5⟩
    Run s handles 2 log ∧
      (s.scope handle.scope).lookupAll value = [⟨3⟩, ⟨5⟩] ∧
      (s.scope handle.scope).index = [(value, [0, 2]), (value.toType, [1])] ∧
      (s.scope other.scope).lookupAll value = [⟨7⟩] ∧
      (s.scope handle.scope).Records (log.of 0) ∧ (s.scope other.scope).Records (log.of 1) ∧
      handle.scope ≠ other.scope ∧
      (s.enter other.scope value ⟨6⟩).scope handle.scope = s.scope handle.scope := by
  intro value first second handle other handles log s
  have hhandle : handle ∈ handles := List.mem_cons_of_mem _ List.mem_cons_self
  have hother : other ∈ handles := List.mem_cons_self
  have hshared : Run second.2 handles 2 [(1, value, ⟨7⟩)] :=
    (((Run.start {}).share []).clone List.mem_cons_self).share [(value, ⟨7⟩)]
  have hrun : Run s handles 2 log :=
    ((hshared.enter hhandle value ⟨3⟩).enter hhandle value.toType ⟨4⟩).enter hhandle value ⟨5⟩
  obtain ⟨-, hrecords, hsame, henter⟩ := Run.scopes_separate hrun
  refine ⟨hrun, by decide +kernel, by decide +kernel, by decide +kernel, hrecords handle hhandle,
    hrecords other hother, mt (hsame handle hhandle other hother).mp (by decide), ?_⟩
  exact henter other hother handle hhandle value ⟨6⟩

end ScopeHandle

end NameResolution
