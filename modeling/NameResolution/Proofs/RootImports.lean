import NameResolution.Proofs.Links
import NameResolution.Proofs.Openings

/-!
# Contexts above a unit

A unit starts below its root imports: one context for each that is not left out, the last listed
innermost, all with the scope of the root context and each one deeper than the one around it
(`Preamble`).

* `preamble_openRootWith`: what is opened for root imports has this shape.
* `chain_eq_inside_append`, `Grown.le_depth_of_inside`: a chain with such a context on it consists
  of the contexts inside, which are no less deep, and the contexts above the unit.
* `Below.mem_chain_or_severed`, `Below.not_mem_chain_iff`: whatever is opened below, by whichever
  constructors, has all root imports on its chain, unless it is a context for a constructor call
  made where no class but the root is around, or was opened inside one (`Severed`).
* `Severed.imported_eq_none`: such a context has none of them on its chain.
-/

namespace NameResolution.Context

/-! ### Above the unit -/

/-- A root context with imports of everything inside, each at a depth of its own; with it come the
qualifiers, innermost first. -/
inductive Preamble : Context → List TypeRef → Prop where
  | root {frame : Frame} (himported : frame.imported = none) : Preamble (.root frame) []
  | nested {cx : Context} {qualifiers : List TypeRef} (h : Preamble cx qualifiers) (id : ContextId)
      {ext : Extension} {place : Nat} {qualifier : TypeRef} (hnode : ext.node = .importing)
      (hscope : ext.scope = cx.scope) (himported : ext.imported = some ⟨place, .root qualifier⟩) :
      Preamble (.nested (cx.innerFrame id ext) cx) (qualifier :: qualifiers)

theorem Preamble.openImports {cx : Context} {qualifiers : List TypeRef} (h : Preamble cx qualifiers)
    (u : Universe) (imports : List RootImport) (s : Store) :
    Preamble (cx.openImports u imports s).1
      ((imports.filterMap (·.qualifier? u)).reverse ++ qualifiers) := by
  unfold Context.openImports
  induction imports generalizing cx qualifiers s with
  | nil => exact h
  | cons imp imports ih =>
    rw [List.foldl_cons]
    cases hqualifier : imp.qualifier? u with
    | none =>
      rw [List.filterMap_cons_none hqualifier]
      exact ih h s
    | some qualifier =>
      have hinner : Preamble (cx.makeImport (.root qualifier) s).1 (qualifier :: qualifiers) :=
        h.nested _ rfl rfl rfl
      rw [List.filterMap_cons_some hqualifier, List.reverse_cons, List.append_assoc]
      exact ih hinner _

/-- **What is opened for root imports: those that are not left out, the last listed innermost.** -/
theorem preamble_openRootWith (u : Universe) (session : SessionId) (owner : SymbolId)
    (scope : ScopeId) (imports : List RootImport) (s : Store) :
    Preamble (openRootWith u session owner scope imports s).1
      (imports.filterMap (·.qualifier? u)).reverse := by
  have hroot : Preamble (openRoot session owner scope s).1 [] := .root rfl
  have hall := hroot.openImports u imports (openRoot session owner scope s).2
  rw [List.append_nil] at hall
  exact hall

/-- A root import takes effect one level deeper than the context around it. -/
theorem depth_innerFrame_of_isRoot (cx : Context) (id : ContextId) {ext : Extension} {imp : Import}
    (himported : ext.imported = some imp) (hroot : imp.clause.isRoot = true) :
    (cx.innerFrame id ext).depth = cx.depth + 1 := by
  unfold innerFrame
  simp [himported, hroot]

namespace Preamble

variable {top : Context} {qualifiers : List TypeRef} (h : Preamble top qualifiers)
include h

theorem node_ne_template (hgrown : top.Grown) : top.node ≠ .template := by
  cases h with
  | root =>
    cases hgrown with
    | root hnode =>
      intro htemplate
      cases hnode.symm.trans htemplate
  | nested _ _ hnode =>
    intro htemplate
    cases hnode.symm.trans htemplate

/-- All contexts above the unit share one scope. -/
theorem scope_eq {c : Context} (hc : c ∈ top.chain) : c.scope = top.scope := by
  induction h with
  | root =>
    rw [mem_chain_root.mp hc]
  | nested _ id _ hscope _ ih =>
    obtain rfl | hc := List.mem_cons.mp hc
    · rfl
    · exact (ih hc).trans hscope.symm

theorem depth_le {c : Context} (hc : c ∈ top.chain) : c.depth ≤ top.depth := by
  induction h with
  | root => exact Nat.le_of_eq (congrArg depth (mem_chain_root.mp hc))
  | @nested cx _ _ id ext _ _ _ _ himported ih =>
    obtain rfl | hc := List.mem_cons.mp hc
    · exact Nat.le_refl _
    · have hdepth := depth_innerFrame_of_isRoot cx id himported rfl
      have hle := ih hc
      show c.depth ≤ (cx.innerFrame id ext).depth
      omega

/-- Of the contexts above the unit only the root opens a class. -/
theorem isRoot_of_opensClass {c : Context} (hc : c ∈ top.chain) (hclass : c.opensClass = true) :
    c.isRoot = true := by
  induction h with
  | root =>
    rw [mem_chain_root.mp hc]
    rfl
  | @nested cx _ _ id ext _ _ hnode _ _ ih =>
    obtain rfl | hc := List.mem_cons.mp hc
    · have hopens : (Context.nested (cx.innerFrame id ext) cx).opensClass = ext.node.opensClass := rfl
      rw [hopens, hnode] at hclass
      cases hclass
    · exact ih hc

/-- At the root no import takes effect, and at every other context above the unit one does. -/
theorem imported_eq_none_iff {c : Context} (hc : c ∈ top.chain) :
    c.imported = none ↔ c.isRoot = true := by
  induction h with
  | @root frame himported =>
    rw [mem_chain_root.mp hc]
    exact iff_of_true himported rfl
  | @nested cx _ _ id ext _ _ _ _ himported ih =>
    obtain rfl | hc := List.mem_cons.mp hc
    · have himp : (Context.nested (cx.innerFrame id ext) cx).imported = ext.imported := rfl
      rw [himp, himported]
      exact iff_of_false (Option.some_ne_none _) Bool.false_ne_true
    · exact ih hc

end Preamble

/-! ### Inside the unit -/

/-- The contexts from `cx` outward that are inside `top`. -/
def inside (cx top : Context) : List Context := cx.chain.takeWhile (· ≠ top)

variable {top cx : Context}

theorem inside_self (top : Context) : top.inside top = [] := by
  obtain ⟨around, hchain⟩ := top.chain_eq_cons
  rw [inside, hchain, List.takeWhile_cons_of_neg (by simp)]

theorem inside_nested {frame : Frame} {outer : Context} (hne : nested frame outer ≠ top) :
    (nested frame outer).inside top = nested frame outer :: outer.inside top :=
  List.takeWhile_cons_of_pos (by simpa using hne)

theorem chain_eq_inside_append (h : top ∈ cx.chain) : cx.chain = cx.inside top ++ top.chain := by
  induction cx with
  | root frame =>
    rw [← mem_chain_root.mp h, inside_self]
    rfl
  | nested frame outer ih =>
    by_cases heq : nested frame outer = top
    · rw [heq, inside_self]
      rfl
    · have houter : top ∈ outer.chain := (List.mem_cons.mp h).resolve_left (Ne.symm heq)
      rw [inside_nested heq, List.cons_append, ← ih houter]
      rfl

/-- The root is above the unit. -/
theorem mem_chain_of_isRoot (h : top ∈ cx.chain) {c : Context} (hc : c ∈ cx.chain)
    (hroot : c.isRoot = true) : c ∈ top.chain := by
  induction cx with
  | root frame =>
    rw [mem_chain_root.mp h]
    exact hc
  | nested frame outer ih =>
    obtain rfl | houter := List.mem_cons.mp h
    · exact hc
    · obtain rfl | hc := List.mem_cons.mp hc
      · cases hroot
      · exact ih houter hc

theorem Grown.depth_le_of_mem_chain (hgrown : cx.Grown) {c : Context} (hc : c ∈ cx.chain) :
    c.depth ≤ cx.depth := by
  obtain ⟨around, hchain⟩ := cx.chain_eq_cons
  have hdepths := hgrown.depth_antitone
  rw [hchain] at hc hdepths
  obtain rfl | hc := List.mem_cons.mp hc
  · exact Nat.le_refl _
  · exact List.rel_of_pairwise_cons hdepths hc

/-- Inside a context it is no less deep. -/
theorem Grown.le_depth_of_inside (hgrown : cx.Grown) (h : top ∈ cx.chain) {c : Context}
    (hc : c ∈ cx.inside top) : top.depth ≤ c.depth := by
  have hdepths := hgrown.depth_antitone
  rw [chain_eq_inside_append h, List.pairwise_append] at hdepths
  exact hdepths.2.2 c hc top (mem_chain_self top)

/-- A root import inside a context takes effect deeper than that. -/
theorem Grown.lt_depth_of_isRoot (hgrown : cx.Grown) (h : top ∈ cx.chain) {c : Context}
    (hc : c ∈ cx.inside top) {imp : Import} (himported : c.imported = some imp)
    (hroot : imp.clause.isRoot = true) : top.depth < c.depth := by
  induction hgrown with
  | root =>
    rw [← mem_chain_root.mp h, inside_self] at hc
    cases hc
  | @nested around hgrown id ext ih =>
    by_cases heq : Context.nested (around.innerFrame id ext) around = top
    · rw [heq, inside_self] at hc
      cases hc
    · have houter : top ∈ around.chain := (List.mem_cons.mp h).resolve_left (Ne.symm heq)
      rw [inside_nested heq] at hc
      obtain rfl | hc := List.mem_cons.mp hc
      · have hdepth := depth_innerFrame_of_isRoot around id himported hroot
        have htop := hgrown.depth_le_of_mem_chain houter
        show top.depth < (around.innerFrame id ext).depth
        omega
      · exact ih houter hc

/-! ### Below the unit -/

/-- What is opened below a context, by whichever constructors and at whichever stores. -/
inductive Below (top : Context) : Context → Prop where
  | self : Below top top
  | opening {cx : Context} (h : Below top cx) (o : Opening) (s : Store) :
      Below top (o.run cx s).1

theorem Below.built (h : Below top cx) (htop : top.Built) : cx.Built := by
  induction h with
  | self => exact htop
  | opening _ o s ih => exact o.built_run _ s ih

/-- Skipping templates from inside a context that is none does not leave it. -/
theorem mem_chain_skipTemplates (hnode : top.node ≠ .template) (h : top ∈ cx.chain) :
    top ∈ cx.skipTemplates.chain := by
  induction cx with
  | root frame => exact h
  | nested frame outer ih =>
    unfold skipTemplates
    split
    · next htemplate =>
      obtain rfl | houter := List.mem_cons.mp h
      · exact absurd htemplate hnode
      · exact ih houter
    · exact h

variable {qualifiers : List TypeRef}

/-- The enclosing class lies inside the root imports, unless it is the root. -/
theorem Preamble.enclosingClass (h : Preamble top qualifiers) (htop : top.Grown)
    (hinside : top ∈ cx.chain) :
    cx.enclosingClass.isRoot = true ∨ top ∈ cx.enclosingClass.outer.chain := by
  induction cx with
  | root frame => exact .inl rfl
  | nested frame outer ih =>
    obtain rfl | houter := List.mem_cons.mp hinside
    · exact .inl (h.isRoot_of_opensClass (enclosingClass_mem_chain _)
        (List.find?_some htop.find?_opensClass))
    · rw [enclosingClass_nested]
      split
      · exact .inr houter
      · exact ih houter

theorem constructorBase_of_isRoot (h : cx.enclosingClass.isRoot = true) :
    cx.constructorBase = cx.enclosingClass := by
  unfold constructorBase
  cases hclass : cx.enclosingClass with
  | root frame => rfl
  | nested frame outer =>
    rw [hclass] at h
    cases h

/-- The context has at most the root in common with those above the unit. -/
def Outside (cx top : Context) : Prop :=
  cx ∉ top.chain ∧ ∀ c ∈ cx.chain, c ∈ top.chain → c.isRoot = true

theorem Outside.nested (h : cx.Outside top) (frame : Frame) : (nested frame cx).Outside top := by
  have hnew : Context.nested frame cx ∉ top.chain := by
    intro hmem
    have hcx : cx ∈ (Context.nested frame cx).chain := List.mem_cons_of_mem _ (mem_chain_self cx)
    exact h.1 (mem_chain_trans hcx hmem)
  exact ⟨hnew, List.forall_mem_cons.mpr ⟨fun hmem => absurd hmem hnew, h.2⟩⟩

/-- A context without import is not above the unit. -/
theorem Preamble.outside_nested (hpre : Preamble top qualifiers) {frame : Frame}
    (himported : frame.imported = none)
    (hroots : ∀ c ∈ cx.chain, c ∈ top.chain → c.isRoot = true) :
    (Context.nested frame cx).Outside top := by
  have hnew : Context.nested frame cx ∉ top.chain := fun hmem =>
    Bool.false_ne_true ((hpre.imported_eq_none_iff hmem).mp himported)
  exact ⟨hnew, List.forall_mem_cons.mpr ⟨fun hmem => absurd hmem hnew, hroots⟩⟩

/-- The contexts that lose the root imports: those for constructor calls made where no class but the
root is around, and whatever is opened inside them. -/
inductive Severed (top : Context) : Context → Prop where
  | call {cx : Context} (h : Below top cx) (hinside : top ∈ cx.chain)
      (hclass : cx.enclosingClass.isRoot = true) (u : Universe) (s : Store) :
      Severed top (cx.makeConstructor u s).1
  | opening {cx : Context} (h : Severed top cx) (o : Opening) (s : Store) :
      Severed top (o.run cx s).1

/-- What has lost the root imports shares at most the root with them. -/
theorem Severed.outside (h : Severed top cx) (hpre : Preamble top qualifiers) :
    cx.Outside top := by
  induction h with
  | @call cx _ _ hclass u s =>
    -- The new context is opened right inside the root.
    refine hpre.outside_nested rfl fun c hc _ => ?_
    rw [constructorBase_of_isRoot hclass] at hc
    cases hroot : cx.enclosingClass with
    | root frame =>
      rw [hroot] at hc
      rw [mem_chain_root.mp hc]
      rfl
    | nested frame outer =>
      rw [hroot] at hclass
      cases hclass
  | @opening cx _ o s ih =>
    cases o with
    | make | newScope | importing | silent | implicit => exact ih.nested _
    | constructor u =>
      exact hpre.outside_nested rfl fun c hc hmem =>
        ih.2 c (mem_chain_trans hc cx.constructorBase_mem_chain) hmem

/-- **Whatever is opened below the root imports lies inside all of them or has lost them.** -/
theorem Below.mem_chain_or_severed (h : Below top cx) (hpre : Preamble top qualifiers)
    (htop : top.Grown) : top ∈ cx.chain ∨ Severed top cx := by
  induction h with
  | self => exact .inl (mem_chain_self top)
  | opening hbelow o s ih =>
    cases o with
    | make | newScope | importing | silent | implicit =>
      exact ih.imp (List.mem_cons_of_mem _) fun hsevered => hsevered.opening _ s
    | constructor u =>
      obtain hinside | hsevered := ih
      · obtain hclass | houter := hpre.enclosingClass htop hinside
        · exact .inr (.call hbelow hinside hclass u s)
        · exact .inl (List.mem_cons_of_mem _
            (mem_chain_skipTemplates (hpre.node_ne_template htop) houter))
      · exact .inr (hsevered.opening (.constructor u) s)

/-- Where there are root imports, exactly what has lost them is not inside them. -/
theorem Below.not_mem_chain_iff (h : Below top cx) (hpre : Preamble top qualifiers)
    (htop : top.Grown) (hroot : top.isRoot = false) : top ∉ cx.chain ↔ Severed top cx := by
  constructor
  · exact (h.mem_chain_or_severed hpre htop).resolve_left
  · intro hsevered hinside
    rw [(hsevered.outside hpre).2 top hinside (mem_chain_self top)] at hroot
    cases hroot

/-- What has lost the root imports sees none of them. -/
theorem Severed.imported_eq_none (h : Severed top cx) (hpre : Preamble top qualifiers) {c : Context}
    (hc : c ∈ cx.chain) (habove : c ∈ top.chain) : c.imported = none :=
  (hpre.imported_eq_none_iff habove).mpr ((h.outside hpre).2 c hc habove)

end NameResolution.Context
