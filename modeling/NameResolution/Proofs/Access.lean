import NameResolution.Access

/-!
# What access depends on

Of the context where a symbol is used, access reads the owner, the owner of the enclosing class, and
which enclosing class derives from a given one (`View.denial?_congr`). The last is a matter of the
owners of the classes around alone, in their order (`View.enclosingSubclass?_eq_find?`).
-/

namespace NameResolution.View

variable (v : View)

theorem enclosingSubclass?_eq_find? (cx : Context) (base : SymbolId) :
    v.enclosingSubclass? cx base =
      (cx.classContexts.map Context.owner).find? fun owner => v.program.isSubclass owner base := by
  rw [List.find?_map]
  rfl

/-- **Access depends on the context only through its owner and its enclosing classes.** -/
theorem denial?_congr {a b : Context} (howner : a.owner = b.owner)
    (hsubclass : ∀ base, v.enclosingSubclass? a base = v.enclosingSubclass? b base)
    (henclosing : a.enclosingClass.owner = b.enclosingClass.owner) (sym : SymbolId) (pre : TypeRef)
    (throughSuper : Bool) :
    v.denial? a sym pre throughSuper = v.denial? b sym pre throughSuper := by
  have hwithin : ∀ boundary, v.isWithin a sym boundary = v.isWithin b sym boundary := by
    intro boundary
    unfold isWithin
    rw [howner]
  have hinside : ∀ boundary, v.isInsideBoundary a sym boundary =
      v.isInsideBoundary b sym boundary := by
    intro boundary
    unfold isInsideBoundary
    rw [hwithin, hwithin]
  have hprotected : ∀ target, v.protectedDenial? a sym target pre =
      v.protectedDenial? b sym target pre := by
    intro target
    unfold protectedDenial?
    simp only [hsubclass, henclosing]
  unfold denial? protectedChainDenial?
  simp only [hinside, hprotected]

end NameResolution.View
