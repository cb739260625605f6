import NameResolution.View

/-!
# Access

Whether a symbol selected from a prefix may be used at a context. A symbol is open within its access
boundary; a protected one also where an enclosing class derives from its owner and the prefix
conforms to that class. A denial says why.
-/

namespace NameResolution

/-- Why a symbol may not be used. -/
inductive Denial where
  /-- The context lies outside the boundary of the symbol. -/
  | outside (sym boundary : SymbolId)
  /-- No enclosing class derives from the class that declares the protected symbol. -/
  | noSubclass (target enclosing defining : SymbolId)
  /-- The prefix does not conform to the enclosing class that derives. -/
  | wrongPrefix (target : SymbolId) (pre : TypeRef) (accessed : SymbolId)
deriving DecidableEq, Repr

def Denial.text (u : Universe) (names : Interner) : Denial → String
  | outside sym boundary =>
    let symText := u.pathText names sym
    let boundaryText := u.pathText names boundary
    s!"{symText} is only accessible within {boundaryText}"
  | noSubclass target enclosing defining =>
    let targetText := u.pathText names target
    let enclosingText := u.pathText names enclosing
    let definingText := u.pathText names defining
    s!"Access to protected {targetText} not permitted because enclosing {enclosingText}" ++
      s!" is not a subclass of {definingText} where target is defined"
  | wrongPrefix target pre accessed =>
    let targetText := u.pathText names target
    let preText := u.typeText names pre
    let accessedText := u.pathText names accessed
    s!"Access to protected {targetText} not permitted because prefix type {preText}" ++
      s!" does not conform to {accessedText} where the access takes place"

namespace Universe

variable (u : Universe)

/-- Whether a prefix is the self type of a class or of a subclass. -/
def isSelfOfSubclass (pre : TypeRef) (sym : SymbolId) : Bool :=
  pre.isSelf && u.isSubtype pre (.named sym)

/-- Whether a class, or an object by its companion, derives from another. -/
def derivesOrCompanion (sub base : SymbolId) : Bool :=
  sub.isPresent && base.isPresent &&
    (u.isSubclass sub base ||
      ((u.flags sub).isObject && (u.companion sub).isPresent &&
        u.isSubclass (u.companion sub) base))

end Universe

namespace View

variable (v : View) (cx : Context)

/-- Whether the context lies inside `boundary`. For a symbol of the other language the nesting of
packages does not count. -/
def isWithin (sym boundary : SymbolId) : Bool :=
  let owners := v.program.owners cx.owner
  if (v.program.flags sym).contains .interop then
    let untilPackage := owners.takeWhile fun o => !(v.program.flags o).isPackage
    let package := owners.find? fun o => (v.program.flags o).isPackage
    untilPackage.contains boundary || package == some boundary
  else owners.contains boundary

/-- The class of the nearest class context that derives from `base`. -/
def enclosingSubclass? (base : SymbolId) : Option SymbolId :=
  (cx.classContexts.find? fun c => v.program.isSubclass c.owner base).map (·.owner)

/-- Whether a prefix conforms to the class in which a protected symbol is accessed, or to its
companion if that is an object. -/
def conformsTo (pre : TypeRef) (accessed : SymbolId) : Bool :=
  let sym := v.program.classOf (v.program.widen pre)
  v.program.derivesOrCompanion sym accessed ||
    ((v.program.flags accessed).isObject &&
      v.program.derivesOrCompanion sym (v.program.companion accessed))

/-- Why `target`, which the protected symbol `sym` is or overrides, does not open `sym`; none if it
does. -/
def protectedDenial? (sym target : SymbolId) (pre : TypeRef) : Option Denial :=
  let defining := v.program.owner sym
  match v.enclosingSubclass? cx defining with
  | none => some (.noSubclass target cx.enclosingClass.owner defining)
  | some accessed =>
    if (v.program.flags target).isType || v.conformsTo pre accessed then none
    else some (.wrongPrefix target (v.program.widen pre) accessed)

/-- Whether the symbol has no boundary that could keep the context out. -/
def isUnbounded (boundary : SymbolId) : Bool :=
  boundary == .root || (boundary.isPresent && (v.program.flags boundary).isTerm)

/-- Whether the context lies within the boundary of `sym` or the companion of the boundary. -/
def isInsideBoundary (sym boundary : SymbolId) : Bool :=
  v.isWithin cx sym boundary ||
    ((v.program.companion boundary).isPresent &&
      v.isWithin cx sym (v.program.companion boundary))

/-- Whether a prefix reaches `sym` as far as restrictions to the instance go. -/
def instanceAllows (sym : SymbolId) (pre : TypeRef) : Bool :=
  let flags := v.program.flags sym
  let owner := v.program.owner sym
  !flags.contains .instanceOnly ||
    (flags.contains .isProtected && v.program.isSelfOfSubclass pre owner) ||
    v.program.isSameType pre (.self owner)

/-- Why a protected symbol beyond its boundary may not be used: the reason of the first of the
symbols it overrides, itself included, if none of them opens it. -/
def protectedChainDenial? (sym : SymbolId) (pre : TypeRef) (boundary : SymbolId) : Option Denial :=
  let denials := (v.program.overrideChain sym).map fun target =>
    v.protectedDenial? cx sym target pre
  if denials.contains none then none
  else some ((denials.head?.bind fun d => d).getD (.outside sym boundary))

/--
Why `sym`, selected from `pre`, may not be used at the context; none if it may. `throughSuper` says
that it is selected from the superclass.
-/
def denial? (sym : SymbolId) (pre : TypeRef) (throughSuper : Bool) : Option Denial :=
  let boundary := v.program.accessBoundary sym
  if pre.isNoPrefix || v.isUnbounded boundary then none
  else if v.isInsideBoundary cx sym boundary && v.instanceAllows sym pre then none
  else if (v.program.flags sym).contains .isProtected then
    if throughSuper || pre.isSelf || v.phase.isErased then none
    else v.protectedChainDenial? cx sym pre boundary
  else some (.outside sym boundary)

def isAccessible (sym : SymbolId) (pre : TypeRef) (throughSuper : Bool) : Bool :=
  (v.denial? cx sym pre throughSuper).isNone

end View

end NameResolution
