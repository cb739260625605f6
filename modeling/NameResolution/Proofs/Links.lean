import Mathlib.Logic.Function.Iterate
import NameResolution.Proofs.Chain
import NameResolution.Table.Universe

/-!
# What a context remembers

The class, the method and the import around a context are links that it took over when it was made,
and its depth and self type were fixed then. A search of the chain finds the same:

* `iterate_outer`, `iterate_nextImport`: walking outward runs through the chain, and walking on from
  the nearest import runs through the imports of the chain. Neither walk skips a context, and both
  end.
* `Grown.find?_opensClass`, `Grown.selfType_eq`, `Grown.enclosingMethod?_eq_find?`: what is linked
  is the first context of its kind. Copies and constructor contexts have the node of another context
  and not its import, so this is proved frame by frame and not by how the context was made.
* `Built.wellLinked`: every context that exists has all of this.
-/

namespace NameResolution.Context

/-! ### Walks -/

/-- A walk that has ended goes nowhere. -/
theorem iterate_bind_none (step : Context → Option Context) (n : Nat) :
    (Option.bind · step)^[n] none = none :=
  Function.iterate_fixed rfl n

/-- Walking outward runs through the chain and ends. -/
theorem iterate_outer (cx : Context) (n : Nat) :
    (Option.bind · outer?)^[n] (some cx) = cx.chain[n]? := by
  induction cx generalizing n with
  | root frame =>
    cases n with
    | zero => rfl
    | succ n =>
      rw [Function.iterate_succ_apply]
      exact iterate_bind_none outer? n
  | nested frame outer ih =>
    cases n with
    | zero => rfl
    | succ n =>
      rw [Function.iterate_succ_apply]
      exact ih n

/-- The contexts on the chain where an import takes effect, innermost first. -/
def importContexts (cx : Context) : List Context := cx.chain.filter fun c => c.imported.isSome

theorem importContexts_root (frame : Frame) :
    (root frame).importContexts = if frame.imported.isSome then [root frame] else [] :=
  List.filter_cons

theorem importContexts_nested (frame : Frame) (outer : Context) :
    (nested frame outer).importContexts =
      if frame.imported.isSome then nested frame outer :: outer.importContexts
      else outer.importContexts :=
  List.filter_cons

/-- **Walking from import to import runs through the imports of the chain.** -/
theorem iterate_nextImport (cx : Context) (n : Nat) :
    (Option.bind · nextImport?)^[n] cx.enclosingImport? = cx.importContexts[n]? := by
  induction cx generalizing n with
  | root frame =>
    rw [enclosingImport?_root, importContexts_root]
    split
    · cases n with
      | zero => rfl
      | succ n =>
        -- Around the root there is nothing to walk to.
        rw [Function.iterate_succ_apply]
        exact iterate_bind_none nextImport? n
    · exact iterate_bind_none nextImport? n
  | nested frame outer ih =>
    rw [enclosingImport?_nested, importContexts_nested]
    split
    · cases n with
      | zero => rfl
      | succ n =>
        rw [Function.iterate_succ_apply]
        exact ih n
    · exact ih n

/-- The import linked to is the first on the chain. -/
theorem enclosingImport?_eq_find? (cx : Context) :
    cx.enclosingImport? = cx.chain.find? fun c => c.imported.isSome := by
  rw [← List.head?_filter, List.head?_eq_getElem?]
  exact iterate_nextImport cx 0

/-! ### The chain ends at the root -/

theorem exists_chain_root (cx : Context) :
    ∃ inner frame, cx.chain = inner ++ [root frame] ∧ ∀ c ∈ inner, c.isRoot = false := by
  induction cx with
  | root frame => exact ⟨[], frame, rfl, fun c hc => nomatch hc⟩
  | nested frame outer ih =>
    obtain ⟨inner, last, hchain, hinner⟩ := ih
    refine ⟨nested frame outer :: inner, last, ?_, ?_⟩
    · rw [chain, hchain, List.cons_append]
    · exact List.forall_mem_cons.mpr ⟨rfl, hinner⟩

/-! ### What was fixed when a context was made -/

namespace Grown

variable {cx : Context} (h : cx.Grown)
include h

/-- The depth grows by one where a root import takes effect or a scope is opened. -/
theorem depth_eq {outer : Context} (houter : cx.outer? = some outer) :
    cx.depth =
      if cx.imported.any (·.clause.isRoot) = true ∨ cx.scope ≠ outer.scope then outer.depth + 1
      else outer.depth := by
  cases h with
  | root => cases houter
  | nested _ id ext =>
    cases houter
    have hfixed : (outer.innerFrame id ext).depth =
        if (ext.imported.any (·.clause.isRoot) || ext.scope != outer.scope) = true then
          outer.depth + 1
        else outer.depth := rfl
    simp only [Bool.or_eq_true, bne_iff_ne] at hfixed
    exact hfixed

/-- The class linked to is the first context on the chain that has a self type of its own. -/
theorem find?_opensClass : cx.chain.find? opensClass = some cx.enclosingClass := by
  induction h with
  | @root frame hnode =>
    have hclass : (Context.root frame).opensClass = true := by
      show frame.node.opensClass = true
      rw [hnode]
      rfl
    rw [chain, List.find?_cons_of_pos hclass, enclosingClass_root]
  | @nested around _ id ext ih =>
    rw [enclosingClass_nested]
    split
    · exact List.find?_cons_of_pos ‹_›
    · rw [chain, List.find?_cons_of_neg ‹_›]
      exact ih

/-- The self type is that of the class linked to. -/
theorem selfType_eq : cx.selfType = .self cx.enclosingClass.owner := by
  induction h with
  | root _ _ hself => exact hself
  | @nested around _ id ext ih =>
    rw [enclosingClass_nested]
    split
    · exact if_pos ‹_›
    · exact (if_neg ‹_›).trans ih

/-- The method linked to is the first on the chain; there is none if the chain has none. -/
theorem enclosingMethod?_eq_find? :
    cx.enclosingMethod? = cx.chain.find? fun c => c.node = .method := by
  induction h with
  | root hnode => simp [chain, node, Context.frame, hnode, enclosingMethod?_root]
  | @nested around _ id ext ih =>
    rw [enclosingMethod?_nested]
    split
    · exact (List.find?_cons_of_pos (by simpa using ‹_›)).symm
    · rw [ih, chain, List.find?_cons_of_neg (by simpa using ‹_›)]

end Grown

/-! ### Every context that exists -/

/-- A context agrees with its chain on all that it remembers. -/
structure WellLinked (cx : Context) : Prop where
  /-- Walking outward runs through the chain and ends. -/
  outward : ∀ n, (Option.bind · outer?)^[n] (some cx) = cx.chain[n]?
  /-- The last context, and no other, is a root; it has depth one. -/
  outermost : ∃ inner frame, cx.chain = inner ++ [root frame] ∧ frame.depth = 1 ∧
    ∀ c ∈ inner, c.isRoot = false
  depth : ∀ outer, cx.outer? = some outer →
    cx.depth =
      if cx.imported.any (·.clause.isRoot) = true ∨ cx.scope ≠ outer.scope then outer.depth + 1
      else outer.depth
  enclosingClass : cx.chain.find? (fun c => c.node ∈ [.root, .template, .packageClause]) =
    some cx.enclosingClass
  selfType : cx.selfType = .self cx.enclosingClass.owner
  enclosingMethod : cx.enclosingMethod? = cx.chain.find? fun c => c.node = .method
  enclosingImport : cx.enclosingImport? = cx.chain.find? fun c => c.imported.isSome
  /-- From the nearest import on, walking from import to import misses none and ends. -/
  imports : ∀ n, (Option.bind · nextImport?)^[n] cx.enclosingImport? = cx.importContexts[n]?
  importDepths : cx.importContexts.Pairwise fun inner outer => outer.depth ≤ inner.depth

/-- **Every context that exists agrees with its chain on all that it remembers.** -/
theorem Built.wellLinked {cx : Context} (h : cx.Built) : cx.WellLinked := by
  have hgrown := h.grown
  obtain ⟨inner, frame, hchain, hinner⟩ := cx.exists_chain_root
  have hdepth : frame.depth = 1 := by
    have hmem : root frame ∈ cx.chain := by simp [hchain]
    cases hgrown.of_mem_chain hmem with
    | root _ hdepth => exact hdepth
  have hkinds :
      opensClass = fun c : Context => decide (c.node ∈ [.root, .template, .packageClause]) := by
    funext c
    cases hnode : c.node <;> simp [opensClass, hnode, NodeKind.opensClass]
  exact {
    outward := cx.iterate_outer
    outermost := ⟨inner, frame, hchain, hdepth, hinner⟩
    depth := fun outer houter => hgrown.depth_eq houter
    enclosingClass := hkinds ▸ hgrown.find?_opensClass
    selfType := hgrown.selfType_eq
    enclosingMethod := hgrown.enclosingMethod?_eq_find?
    enclosingImport := cx.enclosingImport?_eq_find?
    imports := cx.iterate_nextImport
    importDepths := hgrown.depth_antitone.filter _ }

/-- The context for the arguments of a constructor call, made inside an import in a method of a
class: it keeps the node of that import, but not the import, and lies around the class. -/
theorem wellLinked_constructor :
    let unit := (openRootWith Table.initial.toUniverse 0 .root 0 [.always (.path .root)] {}).1
    let body := (unit.make .template ⟨2⟩ 1 {}).1
    let method := (body.make (.method false) ⟨3⟩ 2 {}).1
    let inner := (method.makeImport (.everything (.path ⟨4⟩) .dummy) {}).1
    let cx := (inner.makeConstructor Table.initial.toUniverse {}).1
    cx.Built ∧ cx.WellLinked ∧ cx.outer? = some unit ∧ cx.node = .importing ∧
      cx.enclosingImport? = some unit :=
  have hunit :
      Built (openRootWith Table.initial.toUniverse 0 .root 0 [.always (.path .root)] {}).1 :=
    .openRootWith ..
  have hmethod := (hunit.make .template ⟨2⟩ 1 {}).make (.method false) ⟨3⟩ 2 {}
  have hinner := hmethod.makeImport (.everything (.path ⟨4⟩) .dummy) {}
  have hcx := hinner.makeConstructor Table.initial.toUniverse {}
  ⟨hcx, hcx.wellLinked, by decide +kernel⟩

end NameResolution.Context
