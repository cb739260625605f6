/-!
# Precedence of bindings

Definitions and imports that bind one name are compared by keys. From the highest rank down:
definitions that are local, inherited or from a package clause of the same unit; explicit imports;
wildcard imports; definitions from a package clause of another unit. Within a rank the deeper
binding wins.
-/

namespace NameResolution

namespace Precedence

structure DefinitionKey where
  depth : Nat
  /-- Whether a package owns it and another unit declares it. -/
  foreign : Bool
deriving DecidableEq, Repr

structure ImportKey where
  depth : Nat
  /-- Whether a selector names the binding. -/
  explicit : Bool
deriving DecidableEq, Repr

/-- Whether an import may compete with the definition found. -/
inductive Admission where
  | rejected
  | admitted
  /-- Admitted for the sole reason that the definition is foreign. -/
  | admittedForeign
deriving DecidableEq, Repr

def Admission.isAdmitted (admission : Admission) : Bool := admission != .rejected

/--
An import competes with a definition when it is nested deeper, and with a foreign definition always.
In a unit of the other language an explicit import at the depth of the definition competes too.
-/
def admissionOf (imported : ImportKey) (definition : Option DefinitionKey) (interop : Bool) :
    Admission :=
  match definition with
  | none => .admitted
  | some found =>
    if found.depth < imported.depth
        || (interop && imported.explicit && imported.depth == found.depth) then .admitted
    else if found.foreign then .admittedForeign
    else .rejected

/-- Which of a definition and an import both binding the name is meant. -/
inductive DefinitionOrImport where
  | definition
  | imported
  | ambiguous
deriving DecidableEq, Repr

/-- A foreign definition yields; any other wins over an unusable import and else ties with it. -/
def arbitrate (definition : DefinitionKey) (unusable : Bool) : DefinitionOrImport :=
  if definition.foreign then .imported
  else if unusable then .definition
  else .ambiguous

/-- Whether the import `outer` can still matter once `inner` binds the name. -/
def keepsLooking (inner outer : ImportKey) : Bool := inner.depth == outer.depth || !inner.explicit

/-- Whether `outer` must name the binding to matter next to `inner`. -/
def needsExplicit (inner outer : ImportKey) : Bool := inner.depth != outer.depth

/-- Which of two imports both binding the name is meant. -/
inductive InnerOrOuter where
  | inner
  | outer
  /-- Neither outranks the other: ambiguous unless they bind the same thing. -/
  | tie
deriving DecidableEq, Repr

/-- At one depth the explicit import wins and equals tie; at different depths the inner import wins,
but for a wildcard that ties with an explicit import further out. -/
def compareImports (inner outer : ImportKey) : InnerOrOuter :=
  if inner.depth == outer.depth then
    if inner.explicit == outer.explicit then .tie
    else if outer.explicit then .outer
    else .inner
  else if !inner.explicit && outer.explicit then .tie
  else .inner

end Precedence

end NameResolution
