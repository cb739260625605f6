import NameResolution.Import

/-!
# Contexts

A context is a lexical position: a frame that says what was opened there, inside an enclosing
context. Everything in a context is fixed when it is made; what changes later (modes, reporter,
cached levels) is kept in the store under the identity of its frame.

Depth orders definitions against imports. It grows where a scope is opened and with every import
above the unit; any other import shares the scope, and so the depth, of the definitions next to it.

A context finds the class, the method and the import it lies in without a search: `links` is what it
takes over, when it is made, from what the context around it remembers.
-/

namespace NameResolution

/-- A context by its place in the store. -/
abbrev ContextId := Nat

abbrev ScopeId := Nat

abbrev SessionId := Nat

/-- The construct a context stands for. -/
inductive NodeKind where
  | root
  | block
  /-- The body of a class or object. -/
  | template
  | packageClause
  | method
  /-- The accessor of a lazy value, which is no enclosing method. -/
  | lazyAccessor
  | importing
  | other
deriving DecidableEq, Repr

namespace NodeKind

/-- Whether the construct has a self type of its own. -/
def opensClass : NodeKind → Bool
  | root | template | packageClause => true
  | _ => false

def describe : NodeKind → String
  | root => "Root"
  | block => "Block"
  | template => "Template"
  | packageClause => "PackageDef"
  | method => "Method"
  | lazyAccessor => "LazyAccessor"
  | importing => "Import"
  | other => "Other"

end NodeKind

/-- What is opened at a lexical position. -/
structure Frame where
  id : ContextId
  node : NodeKind
  /-- The declaration whose body is being resolved. -/
  owner : SymbolId
  scope : ScopeId
  session : SessionId
  depth : Nat
  /-- The self type of the enclosing class. -/
  selfType : TypeRef
  /-- The import that takes effect here. -/
  imported : Option Import
deriving DecidableEq, Repr

/-- A lexical position: a frame, and unless it is the root, the context around it. -/
inductive Context where
  | root (frame : Frame)
  | nested (frame : Frame) (outer : Context)
deriving DecidableEq, Repr

namespace Context

def frame : Context → Frame
  | root frame => frame
  | nested frame _ => frame

/-- The context around this one, none at the root. -/
def outer? : Context → Option Context
  | root _ => none
  | nested _ outer => some outer

/-- The context around this one; the root is around itself. -/
def outer (cx : Context) : Context := cx.outer?.getD cx

def isRoot (cx : Context) : Bool := cx.outer?.isNone

abbrev id (cx : Context) : ContextId := cx.frame.id

abbrev node (cx : Context) : NodeKind := cx.frame.node

/-- The declaration whose body is being resolved. -/
abbrev owner (cx : Context) : SymbolId := cx.frame.owner

abbrev scope (cx : Context) : ScopeId := cx.frame.scope

abbrev session (cx : Context) : SessionId := cx.frame.session

abbrev depth (cx : Context) : Nat := cx.frame.depth

abbrev selfType (cx : Context) : TypeRef := cx.frame.selfType

/-- The import that takes effect at this context. -/
abbrev imported (cx : Context) : Option Import := cx.frame.imported

/-- Whether the context has a self type of its own. -/
def opensClass (cx : Context) : Bool := cx.node.opensClass

/-- This context and those around it, innermost first. -/
def chain : Context → List Context
  | root frame => [root frame]
  | nested frame outer => nested frame outer :: chain outer

/-! ### Links -/

/-- The nearest context of some kind, as a context remembers it. -/
inductive Enclosing where
  /-- It is of that kind itself. -/
  | own
  | around (cx : Context)
  | absent

namespace Enclosing

/-- What a context made inside `outer` takes over if it is not of the kind itself. -/
def inherit (outer : Context) : Enclosing → Enclosing
  | own => around outer
  | around cx => around cx
  | absent => absent

/-- The context that `cx` remembers. -/
def get? (cx : Context) : Enclosing → Option Context
  | own => some cx
  | around other => some other
  | absent => none

end Enclosing

/-- What a context remembers of those around it. -/
structure Links where
  enclosingClass : Enclosing
  enclosingMethod : Enclosing
  /-- The nearest context strictly around it where an import takes effect. -/
  outerImport : Option Context

namespace Links

/-- The nearest context where an import takes effect, `cx` included. -/
def nearestImport (links : Links) (cx : Context) : Option Context :=
  if cx.imported.isSome then some cx else links.outerImport

def outermost : Links := ⟨.own, .absent, none⟩

/-- The links of a context for a construct made inside `outer`, which has links of its own. -/
def inside (outer : Context) (links : Links) (node : NodeKind) : Links where
  enclosingClass := if node.opensClass then .own else links.enclosingClass.inherit outer
  enclosingMethod := if node = .method then .own else links.enclosingMethod.inherit outer
  outerImport := links.nearestImport outer

end Links

/-- The links of a context. Nothing they depend on changes once the context is made. -/
def links : Context → Links
  | root _ => .outermost
  | nested frame outer => .inside outer (links outer) frame.node

/-- The nearest context with a self type of its own, this one included; in the end the root. -/
def enclosingClass (cx : Context) : Context := (cx.links.enclosingClass.get? cx).getD cx

/-- The nearest context of a method, this one included. -/
def enclosingMethod? (cx : Context) : Option Context := cx.links.enclosingMethod.get? cx

/-- The nearest context where an import takes effect, this one included. -/
def enclosingImport? (cx : Context) : Option Context := cx.links.nearestImport cx

/-- From a context where an import takes effect to the next one around it. -/
def nextImport? (cx : Context) : Option Context := cx.outer?.bind enclosingImport?

/-- The nearest import in effect. -/
def firstImport? (cx : Context) : Option Import := cx.enclosingImport?.bind (·.imported)

@[simp] theorem enclosingClass_root (frame : Frame) : (root frame).enclosingClass = root frame := rfl

/-- Every context remembers a class around it. -/
theorem links_enclosingClass_ne_absent (cx : Context) : cx.links.enclosingClass ≠ .absent := by
  induction cx with
  | root frame => exact fun h => nomatch h
  | nested frame outer ih =>
    show (if frame.node.opensClass then Enclosing.own else _) ≠ _
    split
    · exact fun h => nomatch h
    · cases hlink : outer.links.enclosingClass with
      | own => exact fun h => nomatch h
      | around cx => exact fun h => nomatch h
      | absent => exact absurd hlink ih

theorem enclosingClass_nested (frame : Frame) (outer : Context) :
    (nested frame outer).enclosingClass =
      if frame.node.opensClass then nested frame outer else outer.enclosingClass := by
  have hlinked := outer.links_enclosingClass_ne_absent
  unfold enclosingClass
  show Option.getD (Enclosing.get? _ (if frame.node.opensClass then _ else _)) _ = _
  split
  · rfl
  · cases hlink : outer.links.enclosingClass with
    | own => rfl
    | around cx => rfl
    | absent => exact absurd hlink hlinked

@[simp] theorem enclosingMethod?_root (frame : Frame) : (root frame).enclosingMethod? = none := rfl

theorem enclosingMethod?_nested (frame : Frame) (outer : Context) :
    (nested frame outer).enclosingMethod? =
      if frame.node = .method then some (nested frame outer) else outer.enclosingMethod? := by
  unfold enclosingMethod?
  show Enclosing.get? _ (if frame.node = .method then _ else _) = _
  split
  · rfl
  · cases outer.links.enclosingMethod <;> rfl

theorem enclosingImport?_root (frame : Frame) :
    (root frame).enclosingImport? = if frame.imported.isSome then some (root frame) else none := rfl

theorem enclosingImport?_nested (frame : Frame) (outer : Context) :
    (nested frame outer).enclosingImport? =
      if frame.imported.isSome then some (nested frame outer) else outer.enclosingImport? := rfl

/-- The contexts with a self type of their own, innermost first. -/
def classContexts (cx : Context) : List Context := cx.chain.filter opensClass

/-- One step outward past templates; the root is never passed. -/
def skipTemplates : Context → Context
  | root frame => root frame
  | nested frame outer =>
    if frame.node = .template then skipTemplates outer else nested frame outer

end Context

end NameResolution
