import NameResolution.Name.Interner
import NameResolution.Scope
import NameResolution.Mode
import NameResolution.Session
import NameResolution.Context
import NameResolution.Implicit.Candidate

/-!
# The store

What changes in the course of resolution: texts, channels, sessions, scopes, the changing part of
every context, and which selectors of every import were used. Everything is kept by its identity,
the place at which it was added; nothing is removed.
-/

namespace NameResolution

/-- The changing part of a context. -/
structure ContextState where
  modes : Modes
  reporter : Reporter
  /-- Type parameters that still await inference. -/
  undetermined : List SymbolId := []
  /-- Bounds to restore, most recent first. -/
  savedBounds : List (SymbolId × TypeRef) := []
  level : LevelSlot := .absent
deriving Repr

instance : Inhabited ContextState := ⟨{ modes := ∅, reporter := ⟨.immediate, 0, 0⟩ }⟩

instance : Inhabited Session := ⟨{ unit := ⟨⟨0⟩, .native⟩, sink := 0 }⟩

/-- Everything that changes in the course of resolution. -/
structure Store where
  names : Interner := .initial
  channels : Channels := {}
  sessions : Array Session := #[]
  scopes : Array Scope := #[]
  states : Array ContextState := #[]
  /-- The used selectors of every import, by position. -/
  uses : Array (List Nat) := #[]
deriving Repr

namespace Store

variable (s : Store)

def onChannels {α : Type} (operation : Channels → α × Channels) : α × Store :=
  let (result, channels) := operation s.channels
  (result, { s with channels })

def modifyChannels (change : Channels → Channels) : Store :=
  { s with channels := change s.channels }

/-! ### Sessions -/

def session (id : SessionId) : Session := s.sessions[id]?.getD default

def modifySession (id : SessionId) (change : Session → Session) : Store :=
  { s with sessions := s.sessions.modify id change }

def addSession (session : Session) : SessionId × Store :=
  (s.sessions.size, { s with sessions := s.sessions.push session })

/-! ### Scopes -/

def scope (id : ScopeId) : Scope := s.scopes[id]?.getD .empty

/-- Adds a scope; it shares nothing with any other. -/
def addScope (scope : Scope) : ScopeId × Store :=
  (s.scopes.size, { s with scopes := s.scopes.push scope })

def enter (id : ScopeId) (name : Name) (sym : SymbolId) : Store :=
  { s with scopes := s.scopes.modify id fun scope => scope.enter name sym }

theorem scope_addScope (scope : Scope) (id : ScopeId) :
    (s.addScope scope).2.scope id = if id = s.scopes.size then scope else s.scope id := by
  rw [Store.scope, addScope, Array.getElem?_push]
  split <;> rfl

theorem scope_enter {id : ScopeId} (h : id < s.scopes.size) (name : Name) (sym : SymbolId)
    (other : ScopeId) :
    (s.enter id name sym).scope other =
      if other = id then (s.scope id).enter name sym else s.scope other := by
  rw [Store.scope, enter, Array.getElem?_modify]
  by_cases hother : other = id
  · subst hother
    simp [Store.scope, h]
  · simp [hother, Ne.symm hother, Store.scope]

/-! ### Imports -/

/-- Makes an import of a clause, with no selector used. -/
def addImport (clause : ImportClause) : Import × Store :=
  (⟨s.uses.size, clause⟩, { s with uses := s.uses.push [] })

def usesOf (id : Nat) : List Nat := s.uses[id]?.getD []

def recordUse (id position : Nat) : Store :=
  { s with uses := s.uses.modify id fun used =>
      if used.contains position then used else used ++ [position] }

def isUsed (id position : Nat) : Bool := (s.usesOf id).contains position

/-- What an import binds to a name. With `record` the binding selector counts as used from then on,
but for imports above the unit, which nobody expects to be used. -/
def bind? (imp : Import) (u : Universe) (name : Name) (explicitOnly record : Bool) :
    Option Meaning × Store :=
  match imp.clause.bind? u name explicitOnly with
  | none => (none, s)
  | some (position, meaning) =>
    (some meaning, if record && !imp.clause.isRoot then s.recordUse imp.id position else s)

/-- The selectors of an import that were never used; those that hide are not expected to be. -/
def unusedSelectors (imp : Import) : List Selector :=
  (imp.clause.selectors.zipIdx.filter fun entry =>
    !entry.1.isHide && !s.isUsed imp.id entry.2).map (·.1)

/-- The selectors of a session's imports that were never used, with their imports. -/
def unusedImports (id : SessionId) : List (Import × Selector) :=
  (s.session id).imports.flatMap fun imp => (s.unusedSelectors imp).map fun sel => (imp, sel)

/-! ### Contexts -/

def stateOf (id : ContextId) : ContextState := s.states[id]?.getD default

def modifyState (id : ContextId) (change : ContextState → ContextState) : Store :=
  { s with states := s.states.modify id change }

theorem stateOf_modifyState (id : ContextId) (change : ContextState → ContextState)
    (other : ContextId) :
    (s.modifyState id change).stateOf other =
      if other = id ∧ other < s.states.size then change (s.stateOf other) else s.stateOf other := by
  unfold modifyState stateOf
  rw [Array.getElem?_modify]
  by_cases hid : other = id
  · subst hid
    by_cases hlt : other < s.states.size
    · simp [hlt]
    · simp [hlt]
  · simp [hid, Ne.symm hid]

def addState (state : ContextState) : ContextId × Store :=
  (s.states.size, { s with states := s.states.push state })

end Store

end NameResolution
