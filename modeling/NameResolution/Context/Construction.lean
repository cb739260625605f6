import NameResolution.Context.State

/-!
# Making contexts

A unit starts with a root context; every other context is made inside one that exists. Contexts made
for a construct share the reporter of the context around them. Silent copies report into buffers of
their own, and constructor contexts leave the class they are made in.
-/

namespace NameResolution

inductive Construct where
  | block
  | template
  | packageClause
  | method (lazyAccessor : Bool)
  | importing (clause : ImportClause)
  | other
deriving Repr

namespace Construct

def node : Construct → NodeKind
  | block => .block
  | template => .template
  | packageClause => .packageClause
  | method lazyAccessor => if lazyAccessor then .lazyAccessor else .method
  | importing _ => .importing
  | other => .other

/-- The clause that takes effect, if the construct is an import. -/
def clause? : Construct → Option ImportClause
  | importing clause => some clause
  | _ => none

end Construct

inductive RootImport where
  /-- Everything from a qualifier. -/
  | always (qualifier : TypeRef)
  /-- Everything from the object known under a name, if there is one. -/
  | contingent (name : Name)
deriving Repr

/-- The qualifier of a root import; none if it is left out. -/
def RootImport.qualifier? (u : Universe) : RootImport → Option TypeRef
  | .always qualifier => some qualifier
  | .contingent name =>
    let sym := u.wellKnown name
    if sym.isPresent then some (.path sym) else none

namespace Context

/-- What a new context brings along. -/
structure Extension where
  node : NodeKind
  owner : SymbolId
  scope : ScopeId
  imported : Option Import
  reporter : Reporter
  modes : Modes

/--
The modes of a fresh root context. Where errors abandon the computation, ambiguities are not
surfaced and no implicit value or conversion is tried, as nothing recovers from their errors.
-/
def rootModes (kind : ReporterKind) : Modes :=
  if kind = .throwing then
    Modes.initial \ .ofList [.ambiguousErrors, .implicitsEnabled, .enrichmentEnabled]
  else Modes.initial

/-- The root context of a unit. It is its own enclosing class and has depth one. -/
def openRoot (session : SessionId) (owner : SymbolId) (scope : ScopeId) (s : Store) :
    Context × Store :=
  let settings := s.session session
  let (reporter, s) := s.onChannels (Reporter.create settings.rootReporter settings.sink)
  let (id, s) := s.addState { modes := rootModes settings.rootReporter, reporter }
  let frame : Frame :=
    { id, node := .root, owner, scope, session, depth := 1, selfType := .self owner
      imported := none }
  (.root frame, s)

variable (cx : Context)

def innerFrame (id : ContextId) (ext : Extension) : Frame where
  id := id
  node := ext.node
  owner := ext.owner
  scope := ext.scope
  session := cx.session
  depth :=
    if ext.imported.any (·.clause.isRoot) || ext.scope != cx.scope then cx.depth + 1 else cx.depth
  selfType := if ext.node.opensClass then .self ext.owner else cx.selfType
  imported := ext.imported

/-- Notes an import in the session it appears in; root imports are not of the unit. -/
def recordImport (imp : Import) (s : Store) : Store :=
  if imp.clause.isRoot then s else s.modifySession cx.session (·.record imp)

def extend (ext : Extension) (s : Store) : Context × Store :=
  let s := match ext.imported with
    | some imp => cx.recordImport imp s
    | none => s
  let (id, s) := s.addState { modes := ext.modes, reporter := ext.reporter }
  (.nested (cx.innerFrame id ext) cx, s)

/-- The modes a context inside `cx` starts with, by the kind of its node. -/
def innerModes (node : NodeKind) (s : Store) : Modes :=
  let modes := (cx.modes s).erase .typeConstructorAllowed
  if node.opensClass then modes else modes.erase .constructorSuffix

/-- Makes the import of a construct, if it is one. -/
def importOf (construct : Construct) (s : Store) : Option Import × Store :=
  match construct.clause? with
  | some clause =>
    let (imp, s) := s.addImport clause
    (some imp, s)
  | none => (none, s)

/-- Opens a context for a construct with a scope; it shares the reporter of `cx`. -/
def make (construct : Construct) (owner : SymbolId) (scope : ScopeId) (s : Store) :
    Context × Store :=
  let (imported, s) := importOf construct s
  let ext : Extension :=
    { node := construct.node, owner, scope, imported, reporter := cx.reporter s
      modes := cx.innerModes construct.node s }
  cx.extend ext s

/-- Opens a context for an import; it shares owner and scope with `cx`. -/
def makeImport (clause : ImportClause) (s : Store) : Context × Store :=
  cx.make (.importing clause) cx.owner cx.scope s

/-- Opens a context for a construct with a scope of its own. -/
def makeNewScope (construct : Construct) (owner : SymbolId) (s : Store) : Context × Store :=
  let (scope, s) := s.addScope .empty
  cx.make construct owner scope s

/-- One context per root import inside another; those left out open none. -/
def openImports (u : Universe) (imports : List RootImport) (s : Store) : Context × Store :=
  imports.foldl (fun (state : Context × Store) imp =>
    match imp.qualifier? u with
    | some qualifier => state.1.makeImport (.root qualifier) state.2
    | none => state) (cx, s)

/-- The root context of a unit below its root imports; the answer is the innermost context. -/
def openRootWith (u : Universe) (session : SessionId) (owner : SymbolId) (scope : ScopeId)
    (imports : List RootImport) (s : Store) : Context × Store :=
  let (outermost, s) := openRoot session owner scope s
  outermost.openImports u imports s

/--
A copy of `cx` that reports into buffers of its own, with ambiguities surfaced or not. The copy has
no import; the import of `cx` is seen through it all the same.
-/
def silentCopy (surface : Bool) (s : Store) : Context × Store :=
  let modes := (cx.innerModes cx.node s).assign (.ofList [.ambiguousErrors]) surface
  let (reporter, s) := s.onChannels (cx.reporter s).fork
  let ext : Extension :=
    { node := cx.node, owner := cx.owner, scope := cx.scope, imported := none, reporter, modes }
  cx.extend ext s

/-- A silent copy without implicit values and conversions, so that conversions never chain. -/
def implicitCopy (surface : Bool) (s : Store) : Context × Store :=
  let (copy, s) := cx.silentCopy surface s
  (copy, copy.setModes (copy.modes s \ .ofList [.implicitsEnabled, .enrichmentEnabled]) s)

/-- The contexts from `cx` outward, as far as terms own them; the root is not among them. -/
def termContexts (u : Universe) : List Context :=
  cx.chain.takeWhile fun c => !c.isRoot && c.owner.isPresent && (u.flags c.owner).isTerm

/-- The entries of the scopes of the term contexts, outermost scope first and each scope once. -/
def constructorEntries (u : Universe) (s : Store) : List (Name × SymbolId) :=
  let scopes := ((cx.termContexts u).reverse.map (·.scope)).eraseReps
  scopes.flatMap fun id => (s.scope id).entries.toList

/-- Where constructor contexts are made: around the enclosing class and the templates around it. -/
def constructorBase : Context := cx.enclosingClass.outer.skipTemplates

/--
The context for the arguments of a self or super constructor call. It is made outside the class, so
that members of the class are not seen, with a scope that holds the parameters seen from `cx`.
-/
def makeConstructor (u : Universe) (s : Store) : Context × Store :=
  let (scope, s) := s.addScope (Scope.empty.enterAll (cx.constructorEntries u s))
  let ext : Extension :=
    { node := cx.node, owner := cx.owner, scope, imported := none, reporter := cx.reporter s
      modes := (cx.modes s).insert .selfSuperCall }
  cx.constructorBase.extend ext s

end Context

end NameResolution
