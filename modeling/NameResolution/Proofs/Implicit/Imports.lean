import NameResolution.Proofs.History
import NameResolution.Proofs.Implicit.Cache
import NameResolution.Proofs.Implicit.Selectors
import NameResolution.Proofs.Links

/-!
# The implicit level of an import

A context made for an import shares owner and scope with the context around it, so the import is all
it can contribute; and the import is in effect nowhere around it, for its place is new.

* `Context.levelSource_makeImport`: the level of such a context comes from its import.
* `History.importLevel_iff`: what the level holds. It holds no candidate twice, and it is what the
  lookup of names finds the import to bind, exactly where the clause does not deviate.
* `Context.swapped_not_collected`: a clause that exchanges two names, and loses one of the values.
-/

namespace NameResolution

namespace Context

/-- The level of a context, collected from the universe alone. -/
def collectedLevel (cx : Context) (u : Universe) (round : UInt32) (s : Store) : List Candidate :=
  (Id.run ((cx.collectLevel u (u.oracle (m := Id)) round).run s)).1

/-- A declaration may serve as an implicit value under a name it is imported by: it is implicit, it
is accessible through the qualifier, and no entry of the scope has the name. -/
structure Eligible (cx : Context) (u : Universe) (s : Store) (pre : TypeRef) (name : Name)
    (sym : SymbolId) : Prop where
  implicit : (u.flags sym).contains .implicit = true
  accessible : (cx.view u s).isAccessible cx sym pre false = true
  unshadowed : (s.scope cx.scope).contains name = false

variable {cx outer : Context} {u : Universe} {s : Store} {clause : ImportClause}

theorem qualifiesAs_iff {pre : TypeRef} {name : Name} {sym : SymbolId} :
    cx.qualifiesAs u s name sym pre true = true ↔ cx.Eligible u s pre name sym := by
  unfold qualifiesAs
  rw [Bool.and_eq_true, Bool.and_eq_true, Bool.not_eq_true', Bool.true_and, and_assoc]
  exact ⟨fun ⟨himplicit, haccessible, hfree⟩ => ⟨himplicit, haccessible, hfree⟩,
    fun h => ⟨h.implicit, h.accessible, h.unshadowed⟩⟩

/-! ### Where the level comes from -/

/-- An import takes effect where it was made, and is not in effect around. -/
theorem ownImport?_makeImport
    (hfresh : ∀ imp, outer.firstImport? = some imp → imp.id ≠ s.uses.size) :
    (outer.makeImport clause s).1.ownImport? = some ⟨s.uses.size, clause⟩ := by
  have hown : (outer.makeImport clause s).1.firstImport? = some ⟨s.uses.size, clause⟩ := rfl
  have hne : ¬ outer.firstImport?.map (·.id) = some s.uses.size := by
    intro hid
    obtain ⟨imp, himp, heq⟩ := Option.map_eq_some_iff.mp hid
    exact hfresh imp himp heq
  unfold ownImport?
  rw [hown]
  exact if_neg hne

theorem levelSource_makeImport
    (hfresh : ∀ imp, outer.firstImport? = some imp → imp.id ≠ s.uses.size) {later : Store}
    (hnative : (later.session outer.session).unit.isInterop = false) :
    (outer.makeImport clause s).1.levelSource u later = .imported ⟨s.uses.size, clause⟩ := by
  have hbody : (outer.makeImport clause s).1.opensBody u later = false := by
    have howner : ((outer.makeImport clause s).1.owner != outer.owner) = false := bne_self_eq_false _
    unfold opensBody
    show (((outer.makeImport clause s).1.owner != outer.owner) && _ && _ && _) = false
    rw [howner]
    rfl
  have hscope : (outer.makeImport clause s).1.opensScope = false := bne_self_eq_false _
  have hsession : (later.session (outer.makeImport clause s).1.session).unit.isInterop = false :=
    hnative
  unfold levelSource
  rw [hsession, hbody, hscope, ownImport?_makeImport hfresh]
  rfl

/-- **A level is what its source holds**, as seen while the level is in progress. -/
theorem collectedLevel_eq (round : UInt32) :
    cx.collectedLevel u round s =
      (cx.collect u (cx.setLevel .inProgress s)
        (((cx.levelSource u (cx.setLevel .inProgress s)).request?.map u.implicitMembers).getD [])
        (cx.levelSource u (cx.setLevel .inProgress s))).getD [] := by
  show _ = (cx.freshLevel? u (cx.setLevel .inProgress s)).getD []
  unfold collectedLevel
  rw [freshLevel?_setLevel, run_collectLevel]
  cases cx.freshLevel? u s <;> rfl

/-- The level of a context made for an import: the candidates of the clause. -/
theorem collectedLevel_makeImport
    (hfresh : ∀ imp, outer.firstImport? = some imp → imp.id ≠ s.uses.size) {later : Store}
    (hnative : (later.session outer.session).unit.isInterop = false) (round : UInt32) :
    let cx := (outer.makeImport clause s).1
    cx.collectedLevel u round later =
      cx.importedCandidates u (cx.setLevel .inProgress later) clause
        (if clause.selectors.any (·.isWildcard) then u.implicitMembers clause.qualifier else [])
        clause.selectors := by
  intro cx
  have hsource : cx.levelSource u (cx.setLevel .inProgress later) =
      .imported ⟨s.uses.size, clause⟩ := levelSource_makeImport hfresh hnative
  have hrequest : (LevelSource.imported ⟨s.uses.size, clause⟩).request? =
      if clause.selectors.any (·.isWildcard) then some clause.qualifier else none := rfl
  rw [collectedLevel_eq, hsource, hrequest]
  cases clause.selectors.any (·.isWildcard) <;> rfl

end Context

/-- Imports in effect at contexts made so far have their places. -/
theorem History.id_lt_of_firstImport? {s : Store} {made : List Context} (h : History s made)
    {cx : Context} (hcx : cx ∈ made) {imp : Import} (himp : cx.firstImport? = some imp) :
    imp.id < s.uses.size := by
  obtain ⟨c, hfirst, himported⟩ := Option.bind_eq_some_iff.mp himp
  rw [Context.enclosingImport?_eq_find?] at hfirst
  exact h.tracked.registered imp (Or.inl ⟨cx, hcx, c, List.mem_of_find?_eq_some hfirst, himported⟩)

/-- **The level of an import against the lookup of names.** No candidate is listed twice. A
declaration is listed under a name if it is eligible and brought in by the selectors. For a term
name this is what the lookup finds the clause to bind to the name, as far as it is eligible, exactly
if the clause does not deviate there. Access is told where its searches end (`Table.Settles`). -/
theorem History.importLevel_iff {s : Store} {made : List Context} (h : History s made)
    {outer : Context} (houter : outer ∈ made) {clause : ImportClause} (horderly : clause.Orderly)
    {t : Table} (ht : t.Built) {later : Store}
    (hnative : (later.session outer.session).unit.isInterop = false) (round : UInt32) :
    let cx := (outer.makeImport clause s).1
    let u := t.toUniverse
    let level := cx.collectedLevel u round later
    level.Nodup ∧ ∀ name sym, name.isTerm = true →
      (⟨name, clause.qualifier, sym⟩ ∈ level ↔
        cx.Eligible u later clause.qualifier name sym ∧ clause.Brings u name sym) ∧
      ((⟨name, clause.qualifier, sym⟩ ∈ level ↔
          cx.Eligible u later clause.qualifier name sym ∧ clause.BindsTo u name sym false) ↔
        (cx.Eligible u later clause.qualifier name sym → ¬ clause.Deviates u name sym)) := by
  intro cx u level
  have hfresh : ∀ imp, outer.firstImport? = some imp → imp.id ≠ s.uses.size := fun imp himp =>
    Nat.ne_of_lt (h.id_lt_of_firstImport? houter himp)
  have hlevel : level = _ := Context.collectedLevel_makeImport hfresh hnative round
  rw [hlevel]
  refine ⟨horderly.nodup_importedCandidates ht.listed ?_, fun name sym hterm => ?_⟩
  · split
    · exact Table.nodup_implicitMembers ht.listed clause.qualifier
    · exact List.nodup_nil
  · have hmembers : .wildcard ∈ clause.selectors →
        (if clause.selectors.any (·.isWildcard) then u.implicitMembers clause.qualifier else []) =
          u.implicitMembers clause.qualifier :=
      fun hwildcard => if_pos (Selector.any_isWildcard.mpr hwildcard)
    have hmem : (⟨name, clause.qualifier, sym⟩ : Candidate) ∈
        cx.importedCandidates u (cx.setLevel .inProgress later) clause _ clause.selectors ↔ _ :=
      horderly.mem_importedCandidates hterm hmembers
    -- That the level is in progress meanwhile is of no account.
    have hqualifies : cx.qualifiesAs u (cx.setLevel .inProgress later) name sym clause.qualifier
        true = true ↔ cx.Eligible u later clause.qualifier name sym :=
      Context.qualifiesAs_iff (s := later)
    have hbrings : (⟨name, clause.qualifier, sym⟩ : Candidate) ∈
        cx.importedCandidates u (cx.setLevel .inProgress later) clause _ clause.selectors ↔
          cx.Eligible u later clause.qualifier name sym ∧ clause.Brings u name sym :=
      hmem.trans ⟨fun ⟨_, hq, hb⟩ => ⟨hqualifies.mp hq, hb⟩,
        fun ⟨heligible, hb⟩ => ⟨rfl, hqualifies.mpr heligible, hb⟩⟩
    rw [hbrings]
    refine ⟨Iff.rfl, ?_⟩
    rw [and_congr_right_iff]
    exact imp_congr_right fun _ => horderly.brings_iff_bindsTo hterm

/-! ### Two values of an object -/

namespace Exchange

def first : Name := .ofWord 10

def second : Name := .ofWord 11

/-- Object 2 with the implicit values 3 and 4. -/
def table : Table :=
  let t := (Table.initial.addObject .root (.ofWord 9)).2
  (((t.addValue ⟨2⟩ first (.ofList [.implicit])).2).addValue ⟨2⟩ second (.ofList [.implicit])).2

theorem built_table : table.Built := .add (.add (.add .initial _ _ _) _ _ _) _ _ _

/-- The first value under another name, the second under its own. -/
def aliasing : ImportClause :=
  ⟨.path ⟨2⟩, [.renamed first Sample.name, .wildcard], .dummy, false⟩

/-- The two values, each under the name of the other. -/
def clause : ImportClause :=
  ⟨.path ⟨2⟩, [.renamed first second, .renamed second first], .dummy, false⟩

theorem orderly_aliasing : aliasing.Orderly where
  wildcardsLast := ⟨[.renamed first Sample.name], 1, rfl, by decide⟩
  distinct := List.pairwise_pair.mpr fun _ _ => rfl
  ofTerms := by decide

theorem orderly_clause : clause.Orderly where
  wildcardsLast := ⟨clause.selectors, 0, rfl, by decide⟩
  distinct := by
    refine List.pairwise_pair.mpr fun name hgives => ?_
    obtain rfl : second.toTerm = name := eq_of_beq hgives
    decide
  ofTerms := by decide

end Exchange

/-- The first value is listed under the name it is given, so a selector brought it in. -/
theorem History.importLevel_iff_renamed :
    let outer := Context.openRoot 0 .root 0 (Sample.store #[])
    let cx := outer.1.makeImport Exchange.aliasing outer.2
    (cx.1.collectedLevel Exchange.table.toUniverse 0 cx.2).Nodup ∧
      Exchange.aliasing.Brings Exchange.table.toUniverse Sample.name ⟨3⟩ := by
  intro outer cx
  have hmade : History outer.2 [outer.1] := .openRoot (.start rfl (by decide)) 0 .root 0
  have hnative : (cx.2.session outer.1.session).unit.isInterop = false := rfl
  obtain ⟨hnodup, hlisted⟩ := hmade.importLevel_iff List.mem_cons_self Exchange.orderly_aliasing
    Exchange.built_table hnative 0
  exact ⟨hnodup, ((hlisted Sample.name ⟨3⟩ rfl).1.mp (by decide +kernel)).2⟩

/-- **A clause that exchanges two names loses a value.** The second value may serve under the name
of the first, and the lookup finds the clause to bind it there, but it is not listed: the selector
for the first value takes the name away from the one that gives it. -/
theorem Context.swapped_not_collected :
    let outer := Context.openRoot 0 .root 0 (Sample.store #[])
    let cx := outer.1.makeImport Exchange.clause outer.2
    let u := Exchange.table.toUniverse
    (History outer.2 [outer.1] ∧ Exchange.clause.Orderly ∧ Exchange.table.Built ∧
      (cx.2.session outer.1.session).unit.isInterop = false ∧ Exchange.first.isTerm = true) ∧
      (cx.1.Eligible u cx.2 (.path ⟨2⟩) Exchange.first ⟨4⟩ ∧
        Exchange.clause.BindsTo u Exchange.first ⟨4⟩ false) ∧
      cx.1.collectedLevel u 0 cx.2 = [⟨Exchange.second, .path ⟨2⟩, ⟨3⟩⟩] := by
  refine ⟨⟨.openRoot (.start rfl (by decide)) 0 .root 0, Exchange.orderly_clause,
    Exchange.built_table, rfl, rfl⟩,
    ⟨⟨?_, ?_, ?_⟩, 1, .single ⟨4⟩, ?_, List.mem_singleton_self _⟩, ?_⟩
  · decide +kernel
  · decide +kernel
  · decide +kernel
  · decide +kernel
  · decide +kernel

end NameResolution
