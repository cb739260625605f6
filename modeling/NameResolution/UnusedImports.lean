import NameResolution.Store
import NameResolution.Wording

/-!
# Unused imports

At the end of a unit every import selector that no reference used is reported, if the settings ask
for it.
-/

namespace NameResolution

namespace Selector

/-- What a selector imports, as messages show it. -/
def text (names : Interner) : Selector → String
  | .pick member _ => names.text member
  | .hide _ | .wildcard => "_"

end Selector

/-- The warning about a selector that was never used. -/
def Import.unusedWarning (u : Universe) (names : Interner) (imp : Import) (selector : Selector) :
    Diagnostic :=
  let qualifier := u.typeText names imp.clause.qualifier
  let what := selector.text names
  (Diagnostic.warning .unusedImport).withMessage s!"unused import: {qualifier}.{what}"
    |>.pointingAt imp.clause.span "never used"

namespace Store

/-- The warnings about the imports of a session, if its settings ask for them. -/
def unusedWarnings (s : Store) (u : Universe) (id : SessionId) : List Diagnostic :=
  if (s.session id).settings.unusedImports then
    (s.unusedImports id).map fun entry => entry.1.unusedWarning u s.names entry.2
  else []

/-- Sends the warnings about unused imports to the sink of the session and counts them. -/
def reportUnused (s : Store) (u : Universe) (id : SessionId) (site : SymbolId) : Nat × Store :=
  let warnings := s.unusedWarnings u id
  (warnings.length, s.modifyChannels fun channels =>
    channels.emitAll (s.session id).sink (warnings.map fun d => ⟨d, site⟩))

end Store

end NameResolution
