import NameResolution.Proofs.Lookup.Pruning
import NameResolution.Proofs.Lookup.RootImports
import NameResolution.Proofs.Lookup.Ties

/-!
# Root imports against the unit

What the unit binds lies deeper than the root imports, as a rule, and then they have no say. There
are two exceptions, and in both a root import that binds the name makes it ambiguous.

* An import made right inside the root imports shares the depth of the innermost of them. Where it
  is a wildcard, like that one, the two have to agree (`RootTie`).
* Of the contexts above the unit only the root has members, and it is less deep than any root import
  (`RootClash`).

`Context.withoutRootImports` leaves out the imports above the unit.

* `RootChallenge.run_eq`: in the exceptions the result is an ambiguity with a root import.
* `run_withoutRootImports`: in all other cases, if the unit binds the name, the result is the same
  as without root imports.
* `Context.lookup_rootImports_shadowed`: so for every native context below the root imports. An
  ambiguity that is no exception is one without root imports too.
* `Context.lookup_rootImports_challenged`: both exceptions come about.
-/

namespace NameResolution

/-- Whether an import belongs to the unit: it does unless it is a root import no deeper than the
innermost context above the unit. -/
def Context.inUnit (top : Context) (depth : Nat) (imp : Import) : Bool :=
  !(imp.clause.isRoot && decide (depth ≤ top.depth))

namespace Lookup.Query

variable (q : Query)

/-! ### How root imports get in the way -/

/-- The imports of the unit are wildcards at the depth of the innermost root import, and it alone
does not agree with them. -/
structure RootTie (top : Context) (first rival : Binding) : Prop where
  leads : (q.unitBindings top).head? = some first
  level : first.depth = top.depth
  agreed : ∀ b ∈ q.unitBindings top, b.depth = top.depth →
    q.isExplicit b = false ∧ q.Agree first b
  above : rival ∈ q.rootBindings top
  next : rival.depth = top.depth
  disagrees : ¬ q.Agree first rival

/-- A member of the root stands against the innermost root import that binds the name, and no import
of the unit does. -/
structure RootClash (top : Context) (found : Found) (rival : Binding) : Prop where
  definition : q.InnermostDefinition found
  own : q.isForeign found.meaning = false
  atRoot : found.cx.isRoot = true
  member : found.isMember = true
  unbound : q.unitBindings top = []
  leads : (q.rootBindings top).head? = some rival
  usable : ¬ q.Unusable rival

/-- The imports of the unit at one depth that bind the name. -/
def unitPeersAt (top : Context) (depth : Nat) : List Binding :=
  (q.unitBindings top).filter fun b => b.depth == depth

/-- The ambiguities of what the unit binds with a root import. -/
inductive RootChallenge (top : Context) : LookupResult → Prop where
  | tie {first rival : Binding} (hopen : q.ConsultsImports) (hyields : q.Yields)
      (h : q.RootTie top first rival) : RootChallenge top (q.tie first rival)
  | clash {found : Found} {rival : Binding} (hname : q.name.isConstructor = false)
      (h : q.RootClash top found rival) : RootChallenge top (q.contested found rival)

variable {q}

theorem mem_unitPeersAt {top : Context} {depth : Nat} {b : Binding} :
    b ∈ q.unitPeersAt top depth ↔ b ∈ q.unitBindings top ∧ b.depth = depth := by
  rw [unitPeersAt, List.mem_filter, beq_iff_eq]

/-! ### Wildcards in the contest -/

theorem judge_append_of_agree {leader : Binding} {rivals more : List Binding}
    (h : ∀ b ∈ rivals, q.Agree leader b) : q.judge leader (rivals ++ more) = q.judge leader more := by
  have hnone : rivals.find? (fun rival => !q.agrees leader rival) = none :=
    List.find?_eq_none.mpr fun b hb => by simp [agrees_iff.mpr (h b hb)]
  rw [judge, List.find?_append, hnone, Option.none_or]
  rfl

theorem judge_append_of_not_agree {leader rival : Binding} {rivals more : List Binding}
    (hrival : rival ∈ rivals) (h : ¬ q.Agree leader rival) :
    q.judge leader (rivals ++ more) = q.judge leader rivals := by
  cases hfind : rivals.find? fun rival => !q.agrees leader rival with
  | none =>
    have hagrees := List.find?_eq_none.mp hfind rival hrival
    rw [Bool.not_eq_true', Bool.not_eq_false] at hagrees
    exact absurd (agrees_iff.mp hagrees) h
  | some other => rw [judge, judge, List.find?_append, hfind, Option.some_or]

/-- Without a named peer all have to agree with the innermost. -/
theorem contest_of_wild {innermost : Binding} {peers outer : List Binding}
    (h : ∀ b ∈ peers, q.isExplicit b = false) :
    q.contest innermost peers outer = q.judge innermost (peers ++ outer) := by
  have hnone : peers.find? q.isExplicit = none :=
    List.find?_eq_none.mpr fun b hb => by simp [h b hb]
  rw [contest, hnone]

theorem inside_append_of_named {named : Binding} {peers rivals : List Binding}
    (hmem : named ∈ peers) (hnamed : q.isExplicit named = true) :
    q.inside (peers ++ rivals) = q.inside peers := by
  unfold inside
  induction peers with
  | nil => cases hmem
  | cons b peers ih =>
    cases hexp : q.isExplicit b with
    | true => simp [hexp]
    | false =>
      obtain rfl | hmem := List.mem_cons.mp hmem
      · rw [hnamed] at hexp
        cases hexp
      · simp [hexp, ih hmem]

/-- Wildcards outside a named peer do not count. -/
theorem contest_append_of_named {innermost named : Binding} {peers rivals outer : List Binding}
    (hmem : named ∈ peers) (hnamed : q.isExplicit named = true)
    (hwild : ∀ b ∈ rivals, q.isExplicit b = false) :
    q.contest innermost (peers ++ rivals) outer = q.contest innermost peers outer := by
  have hrivals : rivals.filter q.isExplicit = [] :=
    List.filter_eq_nil_iff.mpr fun b hb => by simp [hwild b hb]
  cases hleader : peers.find? q.isExplicit with
  | none => exact absurd hnamed (List.find?_eq_none.mp hleader named hmem)
  | some leader =>
    rw [contest, contest, List.find?_append, hleader, Option.some_or,
      inside_append_of_named hmem hnamed, List.filter_append, hrivals, List.append_nil]

/-! ### Leaving out the root imports -/

variable (q)

/-- The query at the same place without the imports above the unit. -/
def withoutRootImports (top : Context) : Query := q.filterImports top.inUnit

variable {q} {top : Context} {qualifiers : List TypeRef}

section Inside

variable (hinside : top ∈ q.cx.chain) (hpre : Context.Preamble top qualifiers) (hgrown : q.cx.Grown)
include hinside hpre hgrown

/-- What is left are the imports of the unit. -/
theorem importLevels_withoutRootImports :
    (q.withoutRootImports top).importLevels = levelsOf (q.cx.inside top) := by
  rw [withoutRootImports, importLevels_filterImports, importLevels_eq_append hinside,
    List.filter_append, List.filter_eq_self.mpr ?_, List.filter_eq_nil_iff.mpr ?_, List.append_nil]
  · intro level hlevel
    obtain ⟨qualifier, hclause⟩ := exists_root_of_preamble hpre hlevel
    have hroot : level.imp.clause.isRoot = true := congrArg ImportClause.isRoot hclause
    simp [Context.inUnit, hroot, depth_le_of_preamble hpre level hlevel]
  · intro level hlevel
    obtain ⟨c, hc, himported, hdepth⟩ := mem_levelsOf.mp hlevel
    cases hroot : level.imp.clause.isRoot with
    | false => simp [Context.inUnit, hroot]
    | true =>
      have hlt := hgrown.lt_depth_of_isRoot hinside hc himported hroot
      rw [← hdepth] at hlt
      simp [Context.inUnit, hlt]

theorem bindings_withoutRootImports :
    (q.withoutRootImports top).bindings = q.unitBindings top := by
  rw [bindings, importLevels_withoutRootImports hinside hpre hgrown]
  unfold bindingsOf withoutRootImports
  rw [boundBy_filterImports]
  rfl

theorem namedBindings_withoutRootImports :
    (q.withoutRootImports top).namedBindings = q.namedBindings := by
  rw [namedBindings, importLevels_withoutRootImports hinside hpre hgrown,
    namedBindings_eq_unit hinside hpre]
  unfold bindingsOf withoutRootImports
  rw [boundBy_filterImports]

/-! ### Wildcards at the depth of the innermost root import -/

variable {first rival : Binding}

omit hpre hgrown in
theorem peersAt_eq_append (depth : Nat) : q.peersAt depth =
    q.unitPeersAt top depth ++ (q.rootBindings top).filter (fun b => b.depth == depth) := by
  rw [peersAt, bindings_eq_append hinside, List.filter_append, unitPeersAt]

/-- Without the root imports the contest is among the imports of the unit. -/
theorem importVerdict_withoutRootImports :
    (q.withoutRootImports top).importVerdict first =
      q.contest first (q.unitPeersAt top first.depth)
        (q.namedBindings.filter fun b => b.depth < first.depth) := by
  rw [importVerdict, peersAt, bindings_withoutRootImports hinside hpre hgrown,
    namedBindings_withoutRootImports hinside hpre hgrown]
  rfl

/-- With the innermost root import next to them, it is one more among them. -/
theorem importVerdict_of_rival (hlevel : first.depth = top.depth)
    (hrival : rival ∈ q.rootBindings top) (hnext : rival.depth = top.depth) :
    q.importVerdict first =
      q.contest first (q.unitPeersAt top first.depth ++ [rival]) [] := by
  have halone := filter_rootBindings hpre hrival
  rw [hnext, ← hlevel] at halone
  rw [importVerdict, peersAt_eq_append hinside, halone,
    namedBindings_outside hinside hpre hgrown (Nat.le_of_eq hlevel)]

theorem RootTie.importVerdict_eq (h : q.RootTie top first rival) :
    q.importVerdict first = q.tie first rival := by
  have hpeers : ∀ b ∈ q.unitPeersAt top first.depth, q.isExplicit b = false ∧ q.Agree first b := by
    intro b hb
    obtain ⟨hmem, hdepth⟩ := mem_unitPeersAt.mp hb
    exact h.agreed b hmem (hdepth.trans h.level)
  have hwild : ∀ b ∈ q.unitPeersAt top first.depth ++ [rival], q.isExplicit b = false :=
    List.forall_mem_append.mpr ⟨fun b hb => (hpeers b hb).1,
      List.forall_mem_singleton.mpr (isExplicit_of_mem_rootBindings hpre h.above)⟩
  rw [importVerdict_of_rival hinside hpre hgrown h.level h.above h.next, contest_of_wild hwild,
    List.append_nil, judge_append_of_agree fun b hb => (hpeers b hb).2]
  exact judge_cons_disagrees (Bool.eq_false_iff.mpr (mt agrees_iff.mp h.disagrees))

/-- **Among the imports a root import counts only if it ties.** -/
theorem importVerdict_cases (hfirst : (q.unitBindings top).head? = some first) :
    q.importVerdict first = (q.withoutRootImports top).importVerdict first ∨
      ∃ rival, q.RootTie top first rival := by
  rw [importVerdict_withoutRootImports hinside hpre hgrown]
  by_cases halone : (q.rootBindings top).filter (fun b => b.depth == first.depth) = []
  · left
    rw [importVerdict, peersAt_eq_append hinside, halone, List.append_nil]
  · obtain ⟨rival, hmem⟩ := List.exists_mem_of_ne_nil _ halone
    obtain ⟨hrival, hdepth⟩ := List.mem_filter.mp hmem
    have hdepth : rival.depth = first.depth := eq_of_beq hdepth
    have hlow := depth_le_of_mem_rootBindings hpre hrival
    have hhigh := le_depth_of_mem_unitBindings hinside hgrown (List.mem_of_mem_head? hfirst)
    have hlevel : first.depth = top.depth := by omega
    have hnext : rival.depth = top.depth := by omega
    have hrivalWild : ∀ b ∈ [rival], q.isExplicit b = false :=
      List.forall_mem_singleton.mpr (isExplicit_of_mem_rootBindings hpre hrival)
    rw [importVerdict_of_rival hinside hpre hgrown hlevel hrival hnext,
      namedBindings_outside hinside hpre hgrown (Nat.le_of_eq hlevel)]
    by_cases hnamed : ∃ named ∈ q.unitPeersAt top first.depth, q.isExplicit named = true
    · obtain ⟨named, hpeer, hexplicit⟩ := hnamed
      exact .inl (contest_append_of_named hpeer hexplicit hrivalWild)
    · have hwild : ∀ b ∈ q.unitPeersAt top first.depth, q.isExplicit b = false := fun b hb =>
        Bool.eq_false_iff.mpr fun hexplicit => hnamed ⟨b, hb, hexplicit⟩
      rw [contest_of_wild (List.forall_mem_append.mpr ⟨hwild, hrivalWild⟩), contest_of_wild hwild,
        List.append_nil]
      by_cases hagreed : ∀ b ∈ q.unitPeersAt top first.depth, q.Agree first b
      · rw [judge_append_of_agree hagreed, judge_append_of_agree hagreed]
        by_cases hrivalAgrees : q.Agree first rival
        · exact .inl (judge_cons_agrees (agrees_iff.mpr hrivalAgrees))
        · refine .inr ⟨rival, hfirst, hlevel, fun b hb hb' => ?_, hrival, hnext, hrivalAgrees⟩
          have hpeer := mem_unitPeersAt.mpr ⟨hb, hb'.trans hlevel.symm⟩
          exact ⟨hwild b hpeer, hagreed b hpeer⟩
      · obtain ⟨b, hb, hdisagrees⟩ : ∃ b ∈ q.unitPeersAt top first.depth, ¬ q.Agree first b := by
          simpa using hagreed
        left
        rw [judge_append_of_not_agree hb hdisagrees, List.append_nil]

/-! ### Definitions above the unit -/

variable {found : Found}

/-- What is defined less deep than the innermost root import is a member of the root: an entry of
its scope would be found at the innermost root import, which has the same scope. -/
theorem member_of_shallow (hdef : q.InnermostDefinition found)
    (hshallow : found.cx.depth < top.depth) :
    found.cx.isRoot = true ∧ found.isMember = true := by
  obtain ⟨⟨inner, outer, hchain, hinner⟩, hdefined⟩ := hdef
  have habove : found.cx ∈ top.chain := by
    have hmem : found.cx ∈ q.cx.chain := by simp [hchain]
    rw [Context.chain_eq_inside_append hinside] at hmem
    refine (List.mem_append.mp hmem).resolve_left fun hin => ?_
    have hle := hgrown.le_depth_of_inside hinside hin
    omega
  have htop : ¬ q.Defines top := by
    have hdepths := hgrown.depth_antitone
    rw [hchain, List.pairwise_append, List.pairwise_cons] at hdepths
    rw [hchain] at hinside
    refine hinner top ((List.mem_append.mp hinside).resolve_right fun hrest => ?_)
    obtain rfl | houter := List.mem_cons.mp hrest
    · exact Nat.lt_irrefl _ hshallow
    · have hle := hdepths.2.1.1 top houter
      omega
  cases hdefined with
  | @entries c meaning hgroup =>
    have hentries : q.entriesAt top = q.entriesAt c := by
      unfold entriesAt
      rw [← hpre.scope_eq habove]
    refine absurd (.inl fun hnil => ?_) htop
    rw [← hentries, hnil] at hgroup
    cases hgroup
  | members _ hclass _ => exact ⟨hpre.isRoot_of_opensClass habove hclass, rfl⟩

omit hgrown in
/-- The root is less deep than any root import that binds the name. -/
theorem lt_depth_of_isRoot (hdef : q.InnermostDefinition found) (hroot : found.cx.isRoot = true)
    {b : Binding} (hb : b ∈ q.rootBindings top) : found.cx.depth < b.depth := by
  obtain ⟨inner, outer, hchain, -⟩ := hdef.first
  have hmem : found.cx ∈ q.cx.chain := by simp [hchain]
  exact lt_depth_of_preamble hpre (Context.mem_chain_of_isRoot hinside hmem hroot) hroot b.level
    (mem_bindingsOf.mp hb).1

omit hpre hgrown in
theorem deeperBinding?_eq_or :
    q.deeperBinding? found =
      ((q.unitBindings top).find? fun b => found.cx.depth < b.depth).or
        ((q.rootBindings top).find? fun b => found.cx.depth < b.depth) := by
  rw [deeperBinding?, bindings_eq_append hinside, List.find?_append]

omit hgrown in
theorem RootClash.deeperBinding?_eq (h : q.RootClash top found rival) :
    q.deeperBinding? found = some rival := by
  obtain ⟨rest, hroots⟩ := List.head?_eq_some_iff.mp h.leads
  have hlt := lt_depth_of_isRoot hinside hpre h.definition h.atRoot
    (List.mem_of_mem_head? h.leads)
  rw [deeperBinding?_eq_or hinside, h.unbound, hroots, List.find?_nil, Option.none_or,
    List.find?_cons_of_pos (by simpa using hlt)]

/-- A usable root import that lies deeper than a definition of the unit, while no import of the unit
does, clashes with it. -/
theorem rootClash_of_find? (hdef : q.InnermostDefinition found)
    (hown : q.isForeign found.meaning = false)
    (hunit : ((q.unitBindings top).find? fun b => found.cx.depth < b.depth) = none)
    (hroot : ((q.rootBindings top).find? fun b => found.cx.depth < b.depth) = some rival)
    (husable : ¬ q.Unusable rival) : q.RootClash top found rival := by
  have hmem := List.mem_of_find?_eq_some hroot
  have hlt : found.cx.depth < rival.depth := by simpa using List.find?_some hroot
  have hle := depth_le_of_mem_rootBindings hpre hmem
  obtain ⟨hisRoot, hmember⟩ :=
    member_of_shallow hinside hpre hgrown hdef (Nat.lt_of_lt_of_le hlt hle)
  have hunbound : q.unitBindings top = [] := by
    refine List.eq_nil_iff_forall_not_mem.mpr fun b hb => ?_
    have hdeep := le_depth_of_mem_unitBindings hinside hgrown hb
    have hnone := List.find?_eq_none.mp hunit b hb
    simp only [decide_eq_true_eq] at hnone
    omega
  -- All root imports are deeper than the root, so the first of them was found.
  have hleads : (q.rootBindings top).head? = some rival := by
    obtain ⟨first, rest, hroots⟩ := List.exists_cons_of_ne_nil (List.ne_nil_of_mem hmem)
    have hfirst : first ∈ q.rootBindings top := by simp [hroots]
    have hdeeper := lt_depth_of_isRoot hinside hpre hdef hisRoot hfirst
    rw [hroots, List.find?_cons_of_pos (by simpa using hdeeper)] at hroot
    rw [hroots, List.head?_cons, hroot]
  exact ⟨hdef, hown, hisRoot, hmember, hunbound, hleads, husable⟩

/-- **Against a definition of the unit a root import counts only if it clashes with a member of the
root.** -/
theorem consultImports_cases (hnative : q.view.unit.isInterop = false)
    (hdef : q.InnermostDefinition found) (hown : q.isForeign found.meaning = false) :
    (q.consultImports (some found)).result =
        ((q.withoutRootImports top).consultImports (some (found.filterImports top.inUnit))).result ∨
      ∃ rival, q.RootClash top found rival := by
  have hord : q.Ordered := ordered_of_grown hgrown
  have hord' : (q.withoutRootImports top).Ordered := ordered_filterImports hord
  have hdeeper' : (q.withoutRootImports top).deeperBinding? (found.filterImports top.inUnit) =
      (q.unitBindings top).find? fun b => found.cx.depth < b.depth := by
    rw [deeperBinding?, bindings_withoutRootImports hinside hpre hgrown]
    simp [Found.filterImports]
  have hstands : (q.withoutRootImports top).definitionResult (found.filterImports top.inUnit) =
      q.definitionResult found := definitionResult_filterImports found
  have hown' : (q.withoutRootImports top).isForeign (found.filterImports top.inUnit).meaning =
      false := hown
  rw [consultImports_own hord hnative hown, consultImports_own hord' hnative hown', hdeeper',
    hstands, deeperBinding?_eq_or hinside]
  cases hunit : (q.unitBindings top).find? fun b => found.cx.depth < b.depth with
  | some b => exact .inl rfl
  | none =>
    rw [Option.none_or]
    cases hroot : (q.rootBindings top).find? fun b => found.cx.depth < b.depth with
    | none => exact .inl rfl
    | some rival =>
      by_cases husable : q.Unusable rival
      · exact .inl (if_pos husable)
      · exact .inr ⟨rival, rootClash_of_find? hinside hpre hgrown hdef hown hunit hroot husable⟩

end Inside

/-! ### The lookup -/

section Left

variable {keep : Nat → Import → Bool}

theorem definition_filterImports {found : Found} (h : q.InnermostDefinition found) :
    (q.filterImports keep).InnermostDefinition (found.filterImports keep) := by
  rw [← definition?_eq_some_iff] at h ⊢
  rw [definition?_filterImports_eq, h, Option.map_some]

theorem exists_definition {left : Found} (h : (q.filterImports keep).InnermostDefinition left) :
    ∃ found, q.InnermostDefinition found ∧ found.filterImports keep = left := by
  rw [← definition?_eq_some_iff, definition?_filterImports_eq, Option.map_eq_some_iff] at h
  obtain ⟨found, hfound, hleft⟩ := h
  exact ⟨found, definition?_eq_some_iff.mp hfound, hleft⟩

theorem ConsultsImports.filterImports (h : q.ConsultsImports) :
    (q.filterImports keep).ConsultsImports where
  name := h.name
  passes := by
    intro hpolicy left hleft
    obtain ⟨found, hfound, rfl⟩ := exists_definition hleft
    rw [conflict?_filterImports]
    exact h.passes hpolicy found hfound

theorem Yields.filterImports (h : q.Yields) : (q.filterImports keep).Yields := by
  intro left hleft
  obtain ⟨found, hfound, rfl⟩ := exists_definition hleft
  exact h found hfound

/-- A definition that may not hide another is rejected with whatever imports. -/
theorem run_filterImports_of_rejected (hname : q.name.isConstructor = false)
    (hclosed : ¬ q.ConsultsImports) : (q.filterImports keep).run.result = q.run.result := by
  obtain ⟨found, conflict, hdef, hpolicy, hconflict⟩ := exists_rejected hname hclosed
  have hdef' : (q.filterImports keep).definition? = some (found.filterImports keep) :=
    definition?_eq_some_iff.mpr (definition_filterImports (definition?_eq_some_iff.mp hdef))
  have hconflict' : (q.filterImports keep).conflict? (found.filterImports keep) = some conflict :=
    (conflict?_filterImports found).trans hconflict
  have hname' : (q.filterImports keep).name.isConstructor = false := hname
  rw [run_of_rejected hname hdef hpolicy hconflict]
  exact run_of_rejected hname' hdef' hpolicy hconflict'

end Left

section Inside

variable (hinside : top ∈ q.cx.chain) (hpre : Context.Preamble top qualifiers) (hgrown : q.cx.Grown)
include hinside hpre hgrown

/-- **A challenge is met with an ambiguity.** -/
theorem RootChallenge.run_eq (hnative : q.view.unit.isInterop = false) {result : LookupResult}
    (h : q.RootChallenge top result) : q.run.result = result := by
  have hord : q.Ordered := ordered_of_grown hgrown
  cases h with
  | @tie first rival hopen hyields htie =>
    have hfirst : q.bindings.head? = some first := by
      rw [bindings_eq_append hinside, List.head?_append, htie.leads, Option.some_or]
    rw [run_eq_importVerdict hord hopen hyields hfirst, htie.importVerdict_eq hinside hpre hgrown]
  | @clash found rival hname hclash =>
    have hopen : q.ConsultsImports := by
      refine ⟨hname, fun _ other hother => ?_⟩
      -- Nothing is around the root, so nothing is hidden there.
      rw [hother.unique hclash.definition]
      have hroot := hclash.atRoot
      cases hcx : found.cx with
      | root frame => simp [conflict?, hcx, Context.chain]
      | nested frame outer =>
        rw [hcx] at hroot
        cases hroot
    rw [run_of_consults hopen, definition?_eq_some_iff.mpr hclash.definition,
      consultImports_own hord hnative hclash.own, hclash.deeperBinding?_eq hinside hpre]
    exact if_neg hclash.usable

/-- Where the imports decide and the unit has a binding, the root imports change the result by a tie
at most. -/
theorem run_of_leading {first : Binding} (hopen : q.ConsultsImports) (hyields : q.Yields)
    (hfirst : (q.unitBindings top).head? = some first) :
    q.run.result = (q.withoutRootImports top).run.result ∨ q.RootChallenge top q.run.result := by
  have hord : q.Ordered := ordered_of_grown hgrown
  have hord' : (q.withoutRootImports top).Ordered := ordered_filterImports hord
  have hhead : q.bindings.head? = some first := by
    rw [bindings_eq_append hinside, List.head?_append, hfirst, Option.some_or]
  have hhead' : (q.withoutRootImports top).bindings.head? = some first := by
    rw [bindings_withoutRootImports hinside hpre hgrown, hfirst]
  rw [run_eq_importVerdict hord hopen hyields hhead,
    run_eq_importVerdict hord' hopen.filterImports hyields.filterImports hhead']
  obtain hsame | ⟨rival, htie⟩ := importVerdict_cases hinside hpre hgrown hfirst
  · exact .inl hsame
  · rw [htie.importVerdict_eq hinside hpre hgrown]
    exact .inr (.tie hopen hyields htie)

/-- Where the imports decide and the unit has no binding, nothing is ambiguous. -/
theorem run_ne_ambiguous (hopen : q.ConsultsImports) (hyields : q.Yields)
    (hunbound : q.unitBindings top = []) (ambiguity : Ambiguity) :
    q.run.result ≠ .ambiguous ambiguity := by
  have hord : q.Ordered := ordered_of_grown hgrown
  cases hhead : q.bindings.head? with
  | some b =>
    rw [run_eq_importVerdict hord hopen hyields hhead,
      importVerdict_of_unbound hinside hpre hgrown hunbound hhead]
    exact LookupResult.noConfusion
  | none =>
    rw [run_of_consults hopen]
    cases hdef : q.definition? with
    | none =>
      rw [consultImports_none hord, hhead]
      exact failure_ne_ambiguous
    | some found =>
      have hforeign := hyields found (definition?_eq_some_iff.mp hdef)
      rw [consultImports_foreign hord hforeign, hhead]
      exact LookupResult.noConfusion

/-- Where a definition of the unit may be contested, the root imports change the result by a clash
at most. -/
theorem run_of_own {found : Found} (hnative : q.view.unit.isInterop = false)
    (hname : q.name.isConstructor = false) (hopen : q.ConsultsImports)
    (hdef : q.InnermostDefinition found) (hown : q.isForeign found.meaning = false) :
    q.run.result = (q.withoutRootImports top).run.result ∨ q.RootChallenge top q.run.result := by
  have hopen' : (q.withoutRootImports top).ConsultsImports := hopen.filterImports
  have hdef' : (q.withoutRootImports top).InnermostDefinition (found.filterImports top.inUnit) :=
    definition_filterImports hdef
  have hrun : q.run.result = (q.consultImports (some found)).result := by
    rw [run_of_consults hopen, definition?_eq_some_iff.mpr hdef]
  rw [run_of_consults hopen', definition?_eq_some_iff.mpr hdef']
  obtain hsame | ⟨rival, hclash⟩ := consultImports_cases hinside hpre hgrown hnative hdef hown
  · exact .inl (hrun.trans hsame)
  · have hchallenge : q.RootChallenge top (q.contested found rival) := .clash hname hclash
    rw [hchallenge.run_eq hinside hpre hgrown hnative]
    exact .inr hchallenge

/-- **Root imports change nothing where the unit binds the name, but for challenges.** Where it does
not bind the name, they do not make it ambiguous. -/
theorem run_withoutRootImports (hnative : q.view.unit.isInterop = false) :
    q.run.result = (q.withoutRootImports top).run.result ∨ q.RootChallenge top q.run.result ∨
      q.Yields ∧ q.unitBindings top = [] ∧ ∀ ambiguity, q.run.result ≠ .ambiguous ambiguity := by
  cases hname : q.name.isConstructor with
  | true =>
    have hname' : (q.withoutRootImports top).name.isConstructor = true := hname
    rw [run_of_constructor hname, run_of_constructor hname']
    exact .inl constructorResult_filterImports.symm
  | false =>
    by_cases hopen : q.ConsultsImports
    · by_cases hyields : q.Yields
      · cases hfirst : (q.unitBindings top).head? with
        | some first =>
          exact (run_of_leading hinside hpre hgrown hopen hyields hfirst).imp_right .inl
        | none =>
          have hunbound : q.unitBindings top = [] := List.head?_eq_none_iff.mp hfirst
          exact .inr (.inr ⟨hyields, hunbound,
            run_ne_ambiguous hinside hpre hgrown hopen hyields hunbound⟩)
      · obtain ⟨found, hdef, hown⟩ : ∃ found, q.InnermostDefinition found ∧
            q.isForeign found.meaning = false := by
          simpa [Yields] using hyields
        exact (run_of_own hinside hpre hgrown hnative hname hopen hdef hown).imp_right .inl
    · exact .inl (run_filterImports_of_rejected hname hopen).symm

end Inside

end Lookup.Query

namespace Context

/-- The chain without the imports above the unit. -/
def withoutRootImports (top cx : Context) : Context := cx.filterImports top.inUnit

theorem query_withoutRootImports (top cx : Context) (v : Universe) (name : Name)
    (qualifies : SymbolId → Bool) (s : Store) :
    (top.withoutRootImports cx).query v name qualifies s =
      (cx.query v name qualifies s).withoutRootImports top := by
  unfold query withoutRootImports
  rw [view_filterImports]
  rfl

/-- **What the unit binds stands against root imports, but for two kinds of challenge.** Below the
root imports all of them are in effect or, where they were lost (`Severed`), none. Where they are, a
challenge is met with an ambiguity. Without one, what the unit binds means what it means without
root imports, and only what is ambiguous without them is ambiguous. The lookups are taken to end
(`Table.Settles`). -/
theorem lookup_rootImports_shadowed {u : Universe} {session : SessionId} {owner : SymbolId}
    {scope : ScopeId} {imports : List RootImport} {s₀ s : Store} {top cx : Context}
    (htop : top = (openRootWith u session owner scope imports s₀).1) (hbelow : Below top cx)
    (hnative : (s.session cx.session).unit.isInterop = false) (v : Universe) (name : Name)
    (qualifies : SymbolId → Bool) :
    let q := cx.query v name qualifies s
    let result := (cx.lookup v name qualifies s).1
    let alone := ((top.withoutRootImports cx).lookup v name qualifies s).1
    (top ∉ cx.chain → Severed top cx ∧ ∀ c ∈ cx.chain, c ∈ top.chain → c.imported = none) ∧
    (top ∈ cx.chain →
      (∀ r, q.RootChallenge top r → result = r) ∧
      ((∀ r, ¬ q.RootChallenge top r) →
        ((∃ found, q.InnermostDefinition found ∧ q.isForeign found.meaning = false) ∨
            q.unitBindings top ≠ [] → result = alone) ∧
        ∀ ambiguity, result = .ambiguous ambiguity → alone = .ambiguous ambiguity)) := by
  intro q result alone
  have hpre : Preamble top (imports.filterMap (·.qualifier? u)).reverse := by
    rw [htop]
    exact preamble_openRootWith u session owner scope imports s₀
  have hbuilt : top.Built := by
    rw [htop]
    exact .openRootWith ..
  have hgrown : q.cx.Grown := (hbelow.built hbuilt).grown
  refine ⟨fun houtside => ?_, fun hinside => ⟨fun r hchallenge => ?_, fun hnone => ?_⟩⟩
  · have hsevered := (hbelow.mem_chain_or_severed hpre hbuilt.grown).resolve_left houtside
    exact ⟨hsevered, fun c hc habove => hsevered.imported_eq_none hpre hc habove⟩
  · exact hchallenge.run_eq hinside hpre hgrown hnative
  · have halone : alone = (q.withoutRootImports top).run.result := by
      show ((top.withoutRootImports cx).query v name qualifies s).run.result = _
      rw [query_withoutRootImports]
    rw [halone]
    obtain hsame | hchallenge | ⟨hyields, hunbound, hclear⟩ :=
      Lookup.Query.run_withoutRootImports hinside hpre hgrown hnative
    · exact ⟨fun _ => hsame, fun ambiguity hambiguous => hsame.symm.trans hambiguous⟩
    · exact absurd hchallenge (hnone _)
    · refine ⟨?_, fun ambiguity hambiguous => absurd hambiguous (hclear ambiguity)⟩
      rintro (⟨found, hdef, hown⟩ | hbound)
      · rw [hyields found hdef] at hown
        cases hown
      · exact absurd hunbound hbound

/-- A wildcard in a block with a scope of its own is deeper than the root import. -/
theorem lookup_rootImports_shadowed_block :
    let u := Sample.table.toUniverse
    let opened := openRootWith u 0 .root 0 [.always (.path ⟨2⟩)] (Sample.store #[.empty])
    let block := opened.1.makeNewScope .block .root opened.2
    let cx := block.1.makeImport (Sample.everything ⟨4⟩) block.2
    (cx.1.lookup u Sample.name (fun _ => true) cx.2).1 =
      ((opened.1.withoutRootImports cx.1).lookup u Sample.name (fun _ => true) cx.2).1 := by
  intro u opened block cx
  have hbelow : Below opened.1 cx.1 :=
    (Below.opening .self (.newScope .block .root) opened.2).opening
      (.importing (Sample.everything ⟨4⟩)) block.2
  have hbindings : (cx.1.query u Sample.name (fun _ => true) cx.2).unitBindings opened.1 =
      [⟨⟨3, ⟨1, Sample.everything ⟨4⟩⟩⟩, .single ⟨5⟩⟩] := by
    decide +kernel
  refine ((lookup_rootImports_shadowed rfl hbelow (by decide +kernel) u Sample.name
    (fun _ => true)).2 (by decide +kernel)).2 (fun r hchallenge => ?_) |>.1 (.inr ?_)
  · cases hchallenge with
    | tie _ _ htie =>
      have hleads := htie.leads
      have hlevel := htie.level
      rw [hbindings] at hleads
      cases hleads
      exact absurd hlevel (by decide +kernel)
    | clash _ hclash =>
      have hunbound := hclash.unbound
      rw [hbindings] at hunbound
      cases hunbound
  · rw [hbindings]
    exact List.cons_ne_nil _ _

/-- **A wildcard right inside the root imports ties with the innermost of them, and a member of the
root is contested by a root import.** Either is bound by the unit, and neither wins. -/
theorem lookup_rootImports_challenged :
    let s := Sample.store #[]
    let u := Sample.table.toUniverse
    let opened := openRootWith u 0 .root 0 [.always (.path ⟨2⟩)] s
    let cx := opened.1.makeImport (Sample.everything ⟨4⟩) opened.2
    let v := (Sample.tableBesides ⟨1⟩).toUniverse
    let q := opened.1.query v Sample.name (fun _ => true) opened.2
    ((cx.1.query u Sample.name (fun _ => true) cx.2).unitBindings opened.1 =
        [⟨⟨2, ⟨1, Sample.everything ⟨4⟩⟩⟩, .single ⟨5⟩⟩] ∧
      (cx.1.lookup u Sample.name (fun _ => true) cx.2).1 =
        .ambiguous (.imports Sample.name ⟨.path ⟨4⟩, .dummy, false⟩ ⟨.path ⟨2⟩, .dummy, false⟩)) ∧
    q.definition? = some Sample.besides ∧ q.isForeign (.single ⟨8⟩) = false ∧
      (opened.1.lookup v Sample.name (fun _ => true) opened.2).1 =
        .ambiguous (.definedAndImported Sample.name .root ⟨.path ⟨2⟩, .dummy, false⟩) := by
  decide +kernel

end Context

end NameResolution
