import NameResolution.Proofs.Lookup.Binding

/-!
# The contest of the imports

Once an import is known to bind the name, those around it may still change the verdict. `settle`
decides in one pass that drops rivals and at times replaces the leader. `contest` says the same
about the list of bindings, without a pass:

* the `peers` are the bindings at the depth of the innermost one; the first of them that a selector
  names is the leader, and if none is named the innermost is;
* before the leader takes over, the wildcards inside it must agree with the innermost of them;
* a named leader must agree with the named peers, any other leader with all peers and with what
  imports further out bind by name.

`settled_eq_contest` proves the two equal, by induction on the imports that are left.
`contest_eq_succeeded` reads off what a winner has outlasted, `contest_eq_judge_iff` when the
wildcards inside the leader make no difference.
-/

namespace NameResolution.Lookup.Query

open Precedence

variable (q : Query)

/-! ### Agreement -/

/-- Two bindings agree if they bind the same declarations, or one name from one qualifier, or, for
type names, aliases without parameters that stand for one type. -/
def Agree (a b : Binding) : Prop :=
  a.meaning = b.meaning ∨
    (q.view.program.isSameType a.clause.qualifier b.clause.qualifier = true ∧
      q.view.program.name a.meaning.first = q.view.program.name b.meaning.first) ∨
    (q.name.isType = true ∧
      (q.view.program.flags a.meaning.first).contains .monomorphic = true ∧
      (q.view.program.flags b.meaning.first).contains .monomorphic = true ∧
      q.view.program.isSameType
        (q.view.program.memberType a.clause.qualifier a.meaning.first)
        (q.view.program.memberType b.clause.qualifier b.meaning.first) = true)

instance (a b : Binding) : Decidable (q.Agree a b) := inferInstanceAs (Decidable (_ ∨ _))

def agrees (a b : Binding) : Bool := decide (q.Agree a b)

variable {q}

theorem agrees_iff {a b : Binding} : q.agrees a b = true ↔ q.Agree a b := decide_eq_true_iff

@[simp] theorem agrees_self (b : Binding) : q.agrees b b = true := agrees_iff.mpr (Or.inl rfl)

/-- The lookup takes two imports for equivalent if what they bind agrees. -/
theorem isEquivalent_eq_agrees (leader : Binding) (level : ImportLevel) (meaning : Meaning) :
    q.isEquivalent leader.level leader.meaning level meaning =
      q.agrees leader ⟨level, meaning⟩ := by
  rw [Bool.eq_iff_iff, agrees_iff]
  unfold isEquivalent Agree
  simp only [Bool.or_eq_true, Bool.and_eq_true, beq_iff_eq, and_assoc, or_assoc]

variable (q)

/-! ### Verdicts -/

/-- The result for a binding that stands. -/
def win (b : Binding) : LookupResult := .succeeded (some b.clause.qualifier) b.meaning

/-- The result for two bindings of which neither outranks the other. -/
def tie (a b : Binding) : LookupResult :=
  .ambiguous (.imports q.name (a.clause.site q.name) (b.clause.site q.name))

/-- The leader stands unless it disagrees with a rival; the first such rival is reported. -/
def judge (leader : Binding) (rivals : List Binding) : LookupResult :=
  match rivals.find? fun rival => !q.agrees leader rival with
  | some rival => q.tie leader rival
  | none => win leader

/-- The peers that lie inside the first one that a selector names. -/
def inside (peers : List Binding) : List Binding := peers.takeWhile fun b => !q.isExplicit b

/-- The verdict among the peers of the innermost binding, itself the first of them, and what is
bound by name further out. -/
def contest (innermost : Binding) (peers outer : List Binding) : LookupResult :=
  match peers.find? q.isExplicit with
  | none => q.judge innermost (peers ++ outer)
  | some leader =>
    match (q.inside peers).find? fun rival => !q.agrees innermost rival with
    | some rival => q.tie innermost rival
    | none => q.judge leader (peers.filter q.isExplicit)

/-- What `settle` makes of a leading binding and the imports around it. -/
def settled (leader : Binding) (levels : List ImportLevel) : LookupResult :=
  (q.settle leader.level leader.meaning levels).1

variable {q}

theorem judge_cons_agrees {leader rival : Binding} {rivals : List Binding}
    (h : q.agrees leader rival = true) :
    q.judge leader (rival :: rivals) = q.judge leader rivals := by
  simp [judge, h]

theorem judge_cons_disagrees {leader rival : Binding} {rivals : List Binding}
    (h : q.agrees leader rival = false) :
    q.judge leader (rival :: rivals) = q.tie leader rival := by
  simp [judge, h]

theorem judge_self (leader : Binding) (rivals : List Binding) :
    q.judge leader (leader :: rivals) = q.judge leader rivals :=
  judge_cons_agrees (agrees_self leader)

/-! ### Steps of the pass -/

/-- One step of the pass, its uses left out. -/
theorem settled_cons (leader : Binding) (level : ImportLevel) (outer : List ImportLevel) :
    q.settled leader (level :: outer) =
      if keepsLooking (q.importKey leader.level) (q.importKey level) then
        match q.boundBy (needsExplicit (q.importKey leader.level) (q.importKey level)) level with
        | none => q.settled leader outer
        | some meaning =>
          match compareImports (q.importKey leader.level) (q.importKey level) with
          | .inner => q.settled leader outer
          | .outer => q.settled ⟨level, meaning⟩ outer
          | .tie =>
            if q.agrees leader ⟨level, meaning⟩ then q.settled leader outer
            else q.tie leader ⟨level, meaning⟩
      else win leader := by
  rw [settled, settle]
  dsimp only
  cases hkeep : keepsLooking (q.importKey leader.level) (q.importKey level) with
  | false => rfl
  | true =>
    have hconsult := consult_fst (q := q) level
      (needsExplicit (q.importKey leader.level) (q.importKey level))
    simp only [Bool.not_true, Bool.false_eq_true, if_false, if_true]
    rw [← hconsult]
    cases q.consult level (needsExplicit (q.importKey leader.level) (q.importKey level)) with
    | mk bound uses =>
      cases bound with
      | none => rfl
      | some meaning =>
        cases compareImports (q.importKey leader.level) (q.importKey level) with
        | inner => rfl
        | outer => rfl
        | tie =>
          dsimp only
          rw [← isEquivalent_eq_agrees]
          exact apply_ite Prod.fst _ _ _

theorem settled_nil (leader : Binding) : q.settled leader [] = win leader := rfl

/-- An import that does not bind the name changes nothing. -/
theorem settled_peer_none {leader : Binding} {level : ImportLevel} {outer : List ImportLevel}
    (hdepth : level.depth = leader.depth) (hbound : q.boundBy false level = none) :
    q.settled leader (level :: outer) = q.settled leader outer := by
  simp [settled_cons, keepsLooking, needsExplicit, importKey, hdepth, hbound]

/-- At one depth a named rival takes over from a wildcard, an unnamed one is dropped, and among
equals they have to agree. -/
theorem settled_peer_some {leader : Binding} {level : ImportLevel} {outer : List ImportLevel}
    {meaning : Meaning} (hdepth : level.depth = leader.depth)
    (hbound : q.boundBy false level = some meaning) :
    q.settled leader (level :: outer) =
      if q.isExplicit leader = q.isExplicit ⟨level, meaning⟩ then
        if q.agrees leader ⟨level, meaning⟩ then q.settled leader outer
        else q.tie leader ⟨level, meaning⟩
      else if q.isExplicit leader then q.settled leader outer
      else q.settled ⟨level, meaning⟩ outer := by
  have hinner : leader.level.imp.clause.isExplicit q.name = q.isExplicit leader := rfl
  have houter : level.imp.clause.isExplicit q.name = q.isExplicit ⟨level, meaning⟩ := rfl
  rw [settled_cons]
  simp only [keepsLooking, needsExplicit, importKey, compareImports, hdepth, hinner, houter,
    beq_self_eq_true, bne_self_eq_false, Bool.true_or, if_true, hbound, beq_iff_eq]
  cases q.isExplicit leader <;> cases q.isExplicit ⟨level, meaning⟩ <;> rfl

/-- A named leader needs to look no further out than its own depth. -/
theorem settled_outer_of_explicit {leader : Binding} {level : ImportLevel}
    {outer : List ImportLevel} (hdepth : level.depth ≠ leader.depth)
    (hleader : q.isExplicit leader = true) : q.settled leader (level :: outer) = win leader := by
  have hinner : leader.level.imp.clause.isExplicit q.name = true := hleader
  simp [settled_cons, keepsLooking, importKey, hinner, Ne.symm hdepth]

/-- Further out only what is bound by name competes with a wildcard, and has to agree with it. -/
theorem settled_outer_of_wildcard {leader : Binding} {level : ImportLevel}
    {outer : List ImportLevel} (hdepth : level.depth ≠ leader.depth)
    (hleader : q.isExplicit leader = false) :
    q.settled leader (level :: outer) =
      match q.boundBy true level with
      | none => q.settled leader outer
      | some meaning =>
        if q.agrees leader ⟨level, meaning⟩ then q.settled leader outer
        else q.tie leader ⟨level, meaning⟩ := by
  have hinner : leader.level.imp.clause.isExplicit q.name = false := hleader
  have hne : (leader.level.depth == level.depth) = false := beq_false_of_ne (Ne.symm hdepth)
  rw [settled_cons]
  simp only [keepsLooking, needsExplicit, importKey, hinner, bne, hne, Bool.not_false, Bool.or_true,
    if_true]
  cases hbound : q.boundBy true level with
  | none => rfl
  | some meaning =>
    have houter : level.imp.clause.isExplicit q.name = true :=
      isExplicit_of_boundBy (b := ⟨level, meaning⟩) hbound
    simp [compareImports, hne, houter]

/-! ### The whole pass -/

/-- Beyond the depth of the leader. -/
theorem settled_outer {leader : Binding} {outer : List ImportLevel}
    (hdepth : ∀ level ∈ outer, level.depth ≠ leader.depth) :
    q.settled leader outer = q.contest leader [leader] (q.bindingsOf true outer) := by
  cases hleader : q.isExplicit leader with
  | true =>
    have hcontest : q.contest leader [leader] (q.bindingsOf true outer) = win leader := by
      simp [contest, inside, hleader, judge]
    rw [hcontest]
    cases outer with
    | nil => exact settled_nil leader
    | cons level outer =>
      exact settled_outer_of_explicit (hdepth level List.mem_cons_self) hleader
  | false =>
    have hcontest : ∀ rivals, q.contest leader [leader] rivals = q.judge leader rivals := by
      intro rivals
      simp only [contest, List.find?_cons, hleader, List.find?_nil, List.singleton_append,
        judge_self]
    rw [hcontest]
    induction outer with
    | nil => exact settled_nil leader
    | cons level outer ih =>
      have ih := ih fun l hl => hdepth l (List.mem_cons_of_mem _ hl)
      rw [settled_outer_of_wildcard (hdepth level List.mem_cons_self) hleader, ih]
      cases hbound : q.boundBy true level with
      | none => rw [bindingsOf_cons_none hbound]
      | some meaning =>
        rw [bindingsOf_cons_some hbound]
        cases hagree : q.agrees leader ⟨level, meaning⟩ with
        | true => simp only [hagree, if_true, judge_cons_agrees]
        | false => simp only [hagree, judge_cons_disagrees, Bool.false_eq_true, if_false]

/-- A peer that no selector names and that agrees with a wildcard, or faces a named leader, does
not bear on the verdict. -/
theorem contest_drop {leader rival : Binding} {peers outer : List Binding}
    (hrival : q.isExplicit rival = false)
    (h : q.isExplicit leader = true ∨ q.agrees leader rival = true) :
    q.contest leader (leader :: rival :: peers) outer =
      q.contest leader (leader :: peers) outer := by
  cases hleader : q.isExplicit leader with
  | true => simp [contest, inside, hleader, hrival]
  | false =>
    have hagree : q.agrees leader rival = true := by simpa [hleader] using h
    simp only [contest, inside, List.find?_cons, hleader, hrival, List.takeWhile_cons,
      List.cons_append, judge_self, judge_cons_agrees hagree, agrees_self, hagree, Bool.not_true,
      Bool.not_false, if_true]
    simp [hleader, hrival]

/-- Only what is named at its depth competes with a named leader. -/
theorem contest_eq_judge {leader : Binding} {rest outer : List Binding}
    (hleader : q.isExplicit leader = true) :
    q.contest leader (leader :: rest) outer = q.judge leader (rest.filter q.isExplicit) := by
  simp [contest, inside, hleader, judge_self]

/-- A named leader has to agree with the next named peer. -/
theorem contest_named {leader rival : Binding} {peers outer : List Binding}
    (hleader : q.isExplicit leader = true) (hrival : q.isExplicit rival = true) :
    q.contest leader (leader :: rival :: peers) outer =
      if q.agrees leader rival then q.contest leader (leader :: peers) outer
      else q.tie leader rival := by
  rw [contest_eq_judge hleader, contest_eq_judge hleader, List.filter_cons_of_pos hrival]
  cases hagree : q.agrees leader rival with
  | true => simp only [judge_cons_agrees hagree, if_true]
  | false => simp only [judge_cons_disagrees hagree, Bool.false_eq_true, if_false]

/-- A named peer next to a wildcard takes over. -/
theorem contest_replace {leader rival : Binding} {peers outer : List Binding}
    (hleader : q.isExplicit leader = false) (hrival : q.isExplicit rival = true) :
    q.contest leader (leader :: rival :: peers) outer = q.contest rival (rival :: peers) outer := by
  simp [contest, inside, hleader, hrival]

/-- A wildcard leader has to agree with the next peer if that is a wildcard too. -/
theorem contest_clash {leader rival : Binding} {peers outer : List Binding}
    (hleader : q.isExplicit leader = false) (hrival : q.isExplicit rival = false)
    (hagree : q.agrees leader rival = false) :
    q.contest leader (leader :: rival :: peers) outer = q.tie leader rival := by
  cases hfind : peers.find? q.isExplicit with
  | none => simp [contest, hleader, hrival, hfind, judge_self, judge_cons_disagrees hagree]
  | some named => simp [contest, inside, hleader, hrival, hfind, hagree]

/-- **The pass decides the contest.** The induction is on the imports at the depth of the leader,
for every leader: a swap goes on with the new one. -/
theorem settled_eq_contest {leader : Binding} {peers outer : List ImportLevel}
    (hpeers : ∀ level ∈ peers, level.depth = leader.depth)
    (houter : ∀ level ∈ outer, level.depth ≠ leader.depth) :
    q.settled leader (peers ++ outer) =
      q.contest leader (leader :: q.bindingsOf false peers) (q.bindingsOf true outer) := by
  induction peers generalizing leader with
  | nil => exact settled_outer houter
  | cons level peers ih =>
    have hdepth := hpeers level List.mem_cons_self
    have hrest : ∀ l ∈ peers, l.depth = leader.depth :=
      fun l hl => hpeers l (List.mem_cons_of_mem _ hl)
    rw [List.cons_append]
    cases hbound : q.boundBy false level with
    | none => rw [settled_peer_none hdepth hbound, bindingsOf_cons_none hbound, ih hrest houter]
    | some meaning =>
      rw [settled_peer_some hdepth hbound, bindingsOf_cons_some hbound, ih hrest houter]
      have hswap : q.settled ⟨level, meaning⟩ (peers ++ outer) =
          q.contest ⟨level, meaning⟩ (⟨level, meaning⟩ :: q.bindingsOf false peers)
            (q.bindingsOf true outer) :=
        ih (fun l hl => (hrest l hl).trans hdepth.symm)
          (fun l hl => fun heq => houter l hl (heq.trans hdepth))
      rw [hswap]
      cases hleader : q.isExplicit leader <;> cases hrival : q.isExplicit ⟨level, meaning⟩
      case false.false =>
        cases hagree : q.agrees leader ⟨level, meaning⟩ with
        | true => simp only [if_true, contest_drop hrival (Or.inr hagree)]
        | false => simp [contest_clash hleader hrival hagree]
      case false.true => simp [contest_replace hleader hrival]
      case true.false => simp [contest_drop hrival (Or.inl hleader)]
      case true.true => simp only [if_true, contest_named hleader hrival]

/-! ### The contest on the chain -/

variable (q)

/-- The bindings at one depth. -/
def peersAt (depth : Nat) : List Binding := q.bindings.filter fun b => b.depth == depth

/-- The verdict of the contest that the innermost competing import opens. -/
def importVerdict (innermost : Binding) : LookupResult :=
  q.contest innermost (q.peersAt innermost.depth)
    (q.namedBindings.filter fun b => b.depth < innermost.depth)

variable {q}

theorem mem_peersAt {depth : Nat} {b : Binding} :
    b ∈ q.peersAt depth ↔ b ∈ q.bindings ∧ b.depth = depth := by
  rw [peersAt, List.mem_filter, beq_iff_eq]

/-- The first binding is the first of its peers. -/
theorem peersAt_head? {first : Binding} (hfirst : q.bindings.head? = some first) :
    (q.peersAt first.depth).head? = some first := by
  obtain ⟨rest, hbindings⟩ := List.head?_eq_some_iff.mp hfirst
  rw [peersAt, hbindings, List.filter_cons_of_pos (by simp), List.head?_cons]

/-- If no binding lies deeper than `e`, the first of the peers of `e` is the first of all. -/
theorem exists_first (hord : q.Ordered) {e : Binding} (he : e ∈ q.bindings)
    (hdeepest : ∀ b ∈ q.bindings, b.depth ≤ e.depth) :
    ∃ first, q.bindings.head? = some first ∧ first.depth = e.depth ∧
      (q.peersAt e.depth).head? = some first := by
  obtain ⟨first, hfirst⟩ : ∃ first, q.bindings.head? = some first :=
    Option.isSome_iff_exists.mp (List.isSome_head?.mpr (List.ne_nil_of_mem he))
  have hdepth : first.depth = e.depth :=
    Nat.le_antisymm (hdeepest first (List.mem_of_mem_head? hfirst))
      (depth_le_of_head? hord hfirst he)
  refine ⟨first, hfirst, hdepth, ?_⟩
  rw [← hdepth]
  exact peersAt_head? hfirst

/-- The peers of the first import that binds the name lie around it. -/
theorem peersAt_split {before outer : List ImportLevel} {level : ImportLevel} {meaning : Meaning}
    (hsplit : q.importLevels = before ++ level :: outer) (hnone : q.bindingsOf false before = [])
    (hbound : q.boundBy false level = some meaning) :
    q.peersAt level.depth =
      ⟨level, meaning⟩ :: q.bindingsOf false (outer.filter fun l => l.depth == level.depth) := by
  have hdropped : q.bindingsOf false (before.filter fun l => l.depth == level.depth) = [] := by
    rw [bindingsOf_filter, hnone, List.filter_nil]
  have hcons : (level :: outer).filter (fun l => l.depth == level.depth) =
      level :: outer.filter fun l => l.depth == level.depth := by
    simp
  have hfilter := bindingsOf_filter (q := q) false (fun l => l.depth == level.depth) q.importLevels
  rw [peersAt, bindings, ← hfilter, hsplit, List.filter_append, bindingsOf_append, hdropped,
    List.nil_append, hcons, bindingsOf_cons_some hbound]

/-- What is bound by name further out than an import lies around it. -/
theorem namedBindings_outer {before outer : List ImportLevel} {level : ImportLevel}
    (hsplit : q.importLevels = before ++ level :: outer)
    (hbefore : ∀ l ∈ before, level.depth ≤ l.depth) :
    (q.namedBindings.filter fun b => b.depth < level.depth) =
      q.bindingsOf true (outer.filter fun l => l.depth < level.depth) := by
  have hdropped : before.filter (fun l => l.depth < level.depth) = [] := by
    refine List.filter_eq_nil_iff.mpr fun l hl => ?_
    have := hbefore l hl
    simp only [decide_eq_true_eq]
    omega
  have hfilter := bindingsOf_filter (q := q) true (fun l => l.depth < level.depth) q.importLevels
  rw [namedBindings, ← hfilter, hsplit, List.filter_append, hdropped, List.nil_append,
    List.filter_cons_of_neg (by simp)]

/-- **From the first import found on, the pass decides the contest of all imports on the chain.** -/
theorem settled_eq_importVerdict (hord : q.Ordered) {definition : Option DefinitionKey}
    {i : Imported} (h : (q.firstImport definition q.importLevels).1 = some i) :
    q.settled i.binding i.outer = q.importVerdict i.binding := by
  obtain ⟨before, hsplit, hnone, hbound⟩ := firstImport_split h
  have hdepths := hord
  rw [Ordered, hsplit, List.pairwise_append, List.pairwise_cons] at hdepths
  obtain ⟨-, ⟨hle, houter⟩, hbefore⟩ := hdepths
  -- The imports around the first one split into its peers and those further out.
  have hparts := peers_append_outer houter hle
  have hpeers := peersAt_split hsplit hnone hbound
  have hfurther := namedBindings_outer hsplit fun l hl => hbefore l hl i.level List.mem_cons_self
  show q.settled ⟨i.level, i.meaning⟩ i.outer =
    q.contest ⟨i.level, i.meaning⟩ (q.peersAt i.level.depth)
      (q.namedBindings.filter fun b => b.depth < i.level.depth)
  rw [hpeers, hfurther, ← settled_eq_contest, hparts]
  · exact fun level hlevel => eq_of_beq (List.mem_filter.mp hlevel).2
  · exact fun level hlevel => Nat.ne_of_lt (of_decide_eq_true (List.mem_filter.mp hlevel).2)

/-- A named import of the greatest depth contests only with those that are named there. -/
theorem importVerdict_of_named {first : Binding} (hfirst : q.bindings.head? = some first)
    (hnamed : q.isExplicit first = true) :
    q.importVerdict first = q.judge first ((q.peersAt first.depth).filter q.isExplicit) := by
  obtain ⟨rest, hpeers⟩ := List.head?_eq_some_iff.mp (peersAt_head? hfirst)
  rw [importVerdict, hpeers, contest_eq_judge hnamed, List.filter_cons_of_pos hnamed, judge_self]

/-! ### Outcomes -/

theorem judge_eq_succeeded {leader : Binding} {rivals : List Binding} {qualifier : Option TypeRef}
    {meaning : Meaning} (h : q.judge leader rivals = .succeeded qualifier meaning) :
    (qualifier = some leader.clause.qualifier ∧ meaning = leader.meaning) ∧
      ∀ rival ∈ rivals, q.Agree leader rival := by
  unfold judge at h
  split at h
  · cases h
  · rename_i hfind
    cases h
    refine ⟨⟨rfl, rfl⟩, fun rival hrival => agrees_iff.mp ?_⟩
    simpa using List.find?_eq_none.mp hfind rival hrival

/-- A tie names a wildcard first only if the leader is one. -/
theorem judge_ne_tie {leader innermost rival : Binding} {rivals : List Binding}
    (hleader : q.isExplicit leader = true) (hinnermost : q.isExplicit innermost = false) :
    q.judge leader rivals ≠ q.tie innermost rival := by
  intro h
  unfold judge at h
  split at h
  · have hsite : leader.clause.site q.name = innermost.clause.site q.name := by
      injection h with h
      injection h
    have hexplicit : q.isExplicit leader = q.isExplicit innermost := congrArg (·.explicit) hsite
    rw [hleader, hinnermost] at hexplicit
    cases hexplicit
  · cases h

/-- **The wildcards inside the first named peer make no difference exactly if they agree with the
innermost of them.** -/
theorem contest_eq_judge_iff {innermost leader : Binding} {peers outer : List Binding}
    (hfirst : peers.head? = some innermost) (hleader : peers.find? q.isExplicit = some leader) :
    q.contest innermost peers outer = q.judge leader (peers.filter q.isExplicit) ↔
      ∀ b ∈ q.inside peers, q.Agree innermost b := by
  unfold contest
  rw [hleader]
  dsimp only
  cases hfind : (q.inside peers).find? fun rival => !q.agrees innermost rival with
  | none =>
    refine ⟨fun _ b hb => agrees_iff.mp ?_, fun _ => rfl⟩
    simpa using List.find?_eq_none.mp hfind b hb
  | some rival =>
    have hrival : q.agrees innermost rival = false := by simpa using List.find?_some hfind
    have hinside : rival ∈ q.inside peers := List.mem_of_find?_eq_some hfind
    -- There is something inside the first named peer, so the innermost is not that peer.
    have hwild : q.isExplicit innermost = false := by
      obtain ⟨rest, rfl⟩ := List.head?_eq_some_iff.mp hfirst
      cases hexp : q.isExplicit innermost with
      | false => rfl
      | true => simp [inside, hexp] at hinside
    constructor
    · intro htie
      exact absurd htie.symm (judge_ne_tie (List.find?_some hleader) hwild)
    · intro hagree
      rw [agrees_iff.mpr (hagree rival hinside)] at hrival
      cases hrival

/-- **What a winner has outlasted**: named, it agrees with the named peers; a wildcard wins only
among wildcards, and agrees with all of them and with what is bound by name further out. -/
theorem contest_eq_succeeded {innermost : Binding} {peers outer : List Binding}
    {qualifier : Option TypeRef} {meaning : Meaning} (hmem : innermost ∈ peers)
    (h : q.contest innermost peers outer = .succeeded qualifier meaning) :
    ∃ w ∈ peers, (qualifier = some w.clause.qualifier ∧ meaning = w.meaning) ∧
      (q.isExplicit w = true → ∀ b ∈ peers, q.isExplicit b = true → q.Agree w b) ∧
      (q.isExplicit w = false → (∀ b ∈ peers, q.isExplicit b = false ∧ q.Agree w b) ∧
        ∀ b ∈ outer, q.Agree w b) := by
  unfold contest at h
  cases hfind : peers.find? q.isExplicit with
  | none =>
    rw [hfind] at h
    obtain ⟨hresult, hagree⟩ := judge_eq_succeeded h
    have hwild : ∀ b ∈ peers, q.isExplicit b = false := by
      simpa using List.find?_eq_none.mp hfind
    refine ⟨innermost, hmem, hresult, fun hexp => ?_, fun _ => ⟨fun b hb => ?_, fun b hb => ?_⟩⟩
    · rw [hwild innermost hmem] at hexp
      cases hexp
    · exact ⟨hwild b hb, hagree b (List.mem_append_left _ hb)⟩
    · exact hagree b (List.mem_append_right _ hb)
  | some leader =>
    have hleader : q.isExplicit leader = true := List.find?_some hfind
    rw [hfind] at h
    dsimp only at h
    split at h
    · cases h
    · obtain ⟨hresult, hagree⟩ := judge_eq_succeeded h
      have hmem : leader ∈ peers := List.mem_of_find?_eq_some hfind
      refine ⟨leader, hmem, hresult, fun _ b hb hexp => ?_, fun hwild => ?_⟩
      · exact hagree b (List.mem_filter.mpr ⟨hb, hexp⟩)
      · rw [hleader] at hwild
        cases hwild

end NameResolution.Lookup.Query
