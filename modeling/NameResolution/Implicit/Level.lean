import NameResolution.Access

/-!
# Implicit levels

Which candidates a context contributes: the implicit members of a class whose body it opens, the
implicit entries of a scope it opens, what an import that takes effect there brings in, or what a
package shares with its package object. `levelSource` says which of these it is, and `collect`
makes the candidates of it, given the implicit members of the one type that is asked about.
-/

namespace NameResolution

/-- Where the candidates of a context come from. -/
inductive LevelSource where
  /-- The context contributes nothing. -/
  | nothing
  /-- The class is not complete yet; its candidates are not known. -/
  | deferred
  /-- The implicit members of a type. -/
  | members (pre : TypeRef)
  /-- The entries of the scope. -/
  | entries
  | imported (imp : Import)
deriving DecidableEq, Repr

/-- The type whose implicit members are needed to collect a level, if there is one. -/
def LevelSource.request? : LevelSource → Option TypeRef
  | members pre => some pre
  | imported imp =>
    if imp.clause.selectors.any (·.isWildcard) then some imp.clause.qualifier else none
  | _ => none

namespace Context

variable (cx : Context) (u : Universe) (s : Store)

/-- Whether the context opens the body of a class that the one around it does not belong to. -/
def opensBody : Bool :=
  let flags := u.flags cx.owner
  let around := (cx.outer?.map (·.owner)).getD .absent
  cx.owner != around && flags.isClass && !flags.isPackage && !cx.hasMode .selfSuperCall s

/-- Whether the scope of the context is not that of the one around it. -/
def opensScope : Bool := cx.outer?.map (·.scope) != some cx.scope

/-- The import in effect here and not in effect around the context. -/
def ownImport? : Option Import :=
  match cx.firstImport? with
  | none => none
  | some imp =>
    if (cx.outer?.bind (·.firstImport?)).map (·.id) = some imp.id then none else some imp

def levelSource : LevelSource :=
  let isPackage := (u.flags cx.owner).isPackage
  if (s.session cx.session).unit.isInterop then .nothing
  else if cx.opensBody u s then
    if u.isComplete cx.owner then .members (.self cx.owner) else .deferred
  else if cx.opensScope && !isPackage then .entries
  else
    match cx.ownImport? with
    | some imp => .imported imp
    | none =>
      if isPackage && (u.packageObject cx.owner).isPresent then
        .members (.path (u.packageObject cx.owner))
      else .nothing

/-- Whether a symbol may serve as an implicit value: it is implicit, accessible from the prefix, and
if imported under a name, no entry of the scope of the context has that name. -/
def qualifiesAs (name : Name) (sym : SymbolId) (pre : TypeRef) (isImported : Bool) : Bool :=
  (u.flags sym).contains .implicit && (cx.view u s).isAccessible cx sym pre false &&
    !(isImported && (s.scope cx.scope).contains name)

/-- The candidates among symbols selected from a prefix under their own names. -/
def candidates (symbols : List SymbolId) (pre : TypeRef) (isImported : Bool) : List Candidate :=
  (symbols.filter fun sym => cx.qualifiesAs u s (u.name sym) sym pre isImported).map fun sym =>
    ⟨u.name sym, pre, sym⟩

/-- The candidates an explicit selector of a clause brings in under a name. -/
def pickedCandidates (clause : ImportClause) (name : Name) : List Candidate :=
  match clause.bind? u name true with
  | none => []
  | some (_, meaning) =>
    (meaning.alternatives.filter fun sym =>
      cx.qualifiesAs u s name sym clause.qualifier true).map fun sym =>
        ⟨name, clause.qualifier, sym⟩

/--
The candidates that selectors of a clause bring in, given the implicit members of its qualifier. A
wildcard ends the list; a selector that picks or hides a name takes it away from those that follow.
-/
def importedCandidates (clause : ImportClause) (members : List SymbolId) :
    List Selector → List Candidate
  | [] => []
  | .wildcard :: _ => cx.candidates u s members clause.qualifier true
  | .hide name :: rest =>
    (importedCandidates clause members rest).filter fun c => c.name != name
  | .pick member rename :: rest =>
    cx.pickedCandidates u s clause rename ++
      (importedCandidates clause members rest).filter fun c => c.name != member

/-- The candidates of a source, given the implicit members of the type it asks about; none if they
are not known yet. -/
def collect (members : List SymbolId) : LevelSource → Option (List Candidate)
  | .nothing => some []
  | .deferred => none
  | .members pre => some (cx.candidates u s members pre false)
  | .entries =>
    some (cx.candidates u s ((s.scope cx.scope).entries.toList.map (·.2)) .noPrefix false)
  | .imported imp => some (cx.importedCandidates u s imp.clause members imp.clause.selectors)

end Context

end NameResolution
