import NameResolution.Context.State
import NameResolution.Wording

/-!
# The view of a reference

All that looking a name up and checking access may read: the declarations, the entries of scopes,
and the unchanging facts of the session. A view is taken from the store for a context; nothing that
is done with it changes the store.
-/

namespace NameResolution

/-- What a reference is resolved against. -/
structure View where
  program : Universe
  /-- Everything entered in a scope under a name, in order of entry. -/
  entered : ScopeId → Name → List SymbolId
  unit : CompilationUnit
  settings : Settings
  phase : Phase
  names : Interner

def Context.view (cx : Context) (u : Universe) (s : Store) : View :=
  let session := s.session cx.session
  { program := u
    entered := fun id name => (s.scope id).lookupAll name
    unit := session.unit
    settings := session.settings
    phase := session.phase
    names := s.names }

end NameResolution
