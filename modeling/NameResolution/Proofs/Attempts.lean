import NameResolution.Proofs.Conduct

/-!
# Attempts tried twice

An attempt runs at the context it is given; first of all that is a copy, and nothing may get out of
it. Of what a run in the copy reports only the warnings are handed on, and only if no error was
buffered, so that the context hears of a single run.

* `Disciplined`: an attempt that keeps to the contexts it is given and puts their modes back.
* `Disciplined.conduct_tryTwice`: to try a disciplined attempt twice is conduct, so that attempts
  may try others.
* `Activity.tryTwice_reports_once`: what is left of both runs. The exception are ambiguities that
  the first run surfaces on purpose, which are sent out at once (`tryTwice_surfaces_ambiguity`).
-/

namespace NameResolution

variable {σ α β : Type}

/-! ### Computations -/

/-- A computation on the store, with a memory of its own. -/
abbrev Computation (σ α : Type) := StateT Store (StateM σ) α

/-- A computation at a context, told whether it is tried for the second time. -/
abbrev Attempt (σ α : Type) := Context → Bool → Computation σ α

structure Outcome (σ α : Type) where
  value : α
  store : Store
  memory : σ

/-- What a computation ends with that starts on a store, with a memory. -/
def perform (computation : Computation σ α) (s : Store) (memory : σ) : Outcome σ α :=
  let ((value, store), memory) := Id.run ((computation.run s).run memory)
  ⟨value, store, memory⟩

section Steps

variable (first : Computation σ α) (s : Store) (memory : σ)

/-- One computation after the other: the second starts where the first ended. -/
theorem perform_bind (next : α → Computation σ β) :
    perform (first >>= next) s memory =
      let done := perform first s memory
      perform (next done.value) done.store done.memory :=
  rfl

theorem perform_get : perform (get : Computation σ Store) s memory = ⟨s, s, memory⟩ := rfl

theorem perform_modifyGet (change : Store → α × Store) :
    perform (modifyGet change : Computation σ α) s memory =
      ⟨(change s).1, (change s).2, memory⟩ :=
  rfl

theorem perform_ite (condition : Prop) [Decidable condition] (other : Computation σ α) :
    perform (if condition then first else other) s memory =
      if condition then perform first s memory else perform other s memory :=
  apply_ite (perform · s memory) condition first other

end Steps

section TryTwice

variable {cx : Context} {s : Store} {attempt : Attempt σ α} (memory : σ)

/-- The body runs under the adjusted modes, and the old ones return after it. -/
theorem perform_withModes (body : Context → Computation σ α) (enable disable : Modes) :
    perform (cx.withModes enable disable body) s memory =
      let done := perform (body cx) (cx.setModes ((cx.modes s).adjust enable disable) s) memory
      { done with store := cx.setModes (cx.modes s) done.store } :=
  rfl

/-- Without implicits the attempt is made once, and directly. -/
theorem perform_tryTwice_once (h : cx.hasMode .implicitsEnabled s = false) :
    perform (cx.tryTwice attempt) s memory = perform (attempt cx false) s memory := by
  unfold Context.tryTwice
  rw [perform_bind, perform_ite, perform_get, if_pos h]

/-- With implicits the first attempt is made on a copy, and the second only if that one erred. -/
theorem perform_tryTwice (h : cx.hasMode .implicitsEnabled s = true) :
    perform (cx.tryTwice attempt) s memory =
      let copy := cx.implicitCopy false s
      let first := perform (attempt copy.1 false) copy.2 memory
      let fork := copy.1.reporter first.store
      if fork.hasErrors first.store.channels then
        perform (cx.withModes (.ofList [.secondTry]) ∅ (attempt · true))
          (first.store.modifyChannels fork.clear) first.memory
      else { first with store := cx.adoptWarnings fork first.store } := by
  unfold Context.tryTwice
  rw [perform_bind, perform_ite, perform_get, if_neg (by simp [h]), perform_bind,
    perform_modifyGet, perform_bind, perform_bind, perform_get, perform_ite]
  rfl

end TryTwice

/-! ### Discipline -/

/-- The attempt keeps to the context it is given and to those it opens inside, and in the end the
modes of this context and of the held ones are what they were. -/
def Disciplined (held : List ContextId) (attempt : Attempt σ α) : Prop :=
  ∀ (c : Context) (second : Bool) (s : Store) (memory : σ), c.id < s.states.size →
    ∃ reach surfaced,
      Conduct (c.id :: held) s [c] (perform (attempt c second) s memory).store reach surfaced

/-- **To try a disciplined attempt twice is conduct.** -/
theorem Disciplined.conduct_tryTwice {held : List ContextId} {attempt : Attempt σ α}
    (hattempt : Disciplined held attempt) {c : Context} {s : Store} {reach : List Context}
    (hc : c ∈ reach) (hid : c.id < s.states.size) (memory : σ) :
    ∃ reach' surfaced,
      Conduct held s reach (perform (c.tryTwice attempt) s memory).store reach' surfaced := by
  cases hmode : c.hasMode .implicitsEnabled s with
  | false =>
    obtain ⟨_, surfaced, honce⟩ := hattempt c false s memory hid
    obtain ⟨more, -, -, hmore⟩ := honce.mono (List.subset_cons_self _ _)
      (List.cons_subset.mpr ⟨hc, List.nil_subset _⟩)
    rw [perform_tryTwice_once memory hmode]
    exact ⟨more, surfaced, hmore⟩
  | true =>
    let copy := c.implicitCopy false s
    have hopened : Conduct held s reach copy.2 (copy.1 :: reach) [] :=
      Conduct.start.opening hc (.implicit false)
    obtain ⟨_, surfaced, hfirst⟩ :=
      hattempt copy.1 false copy.2 memory ((Opening.implicit false).run_id_lt c s)
    have hgiven : [copy.1] ⊆ copy.1 :: reach :=
      List.cons_subset.mpr ⟨List.mem_cons_self, List.nil_subset _⟩
    obtain ⟨more, -, hmore, hinside⟩ := hfirst.mono (List.subset_cons_self _ _) hgiven
    have hrun := hopened.trans hinside
    have hcopy : copy.1 ∈ more := hmore List.mem_cons_self
    have hcaller : c ∈ more := hmore (List.mem_cons_of_mem _ hc)
    rw [perform_tryTwice memory hmode]
    dsimp only
    split
    · -- the copy is dropped, and the second run is conduct with the modes of `c` changed
      have hcleared := hrun.clear hcopy
      have hplace := Nat.lt_of_lt_of_le hid hcleared.kept.size
      obtain ⟨_, again, hsecond⟩ := hattempt c true
        (c.setModes ((c.modes _).adjust (.ofList [.secondTry]) ∅) _) _
        (by rwa [c.size_setModes])
      obtain ⟨further, -, -, hbody⟩ := hsecond.mono
        (List.Subset.trans List.filter_sublist.subset (List.subset_cons_self _ _))
        (List.cons_subset.mpr ⟨hcaller, List.nil_subset _⟩)
      exact ⟨further, _, hcleared.withModes hplace _ _ hbody⟩
    · exact ⟨more, _, hrun.adopt hcaller hcopy⟩

/-! ### What is heard -/

/-- Handing warnings on is heard at the context, and nowhere else. -/
theorem Channels.Untouched.adoptWarnings {before : Channels} {s : Store} {cx : Context}
    {source : Reporter} (h : before.Untouched s.channels)
    (hplace : (cx.reporter s).buffers < before.buffers.size)
    (hlater : before.buffers.size ≤ source.buffers) :
    ((cx.reporter s).hear (source.warnings s.channels) before).Untouched
      (cx.adoptWarnings source s).channels := by
  refine (h.hear hplace _).clear ?_
  rw [Reporter.size_hear]
  exact hlater

/-! ### Two runs -/

section Runs

variable (cx : Context) (s : Store) (surfaced : List Reported)

/-- The channels with nothing changed but the ambiguities that were surfaced past the reporter of
the context. -/
def Context.surfacing : Channels := s.channels.emitAll (cx.reporter s).sink surfaced

/-- The first run stands: the context hears what warnings it left in the fork, each once and in
order, and nothing else. -/
structure Stands (fork : Reporter) (first done : Outcome σ α) : Prop where
  value : done.value = first.value
  memory : done.memory = first.memory
  reporter : cx.reporter done.store = cx.reporter s
  once : (fork.warnings first.store.channels).Nodup
  heard : ((cx.reporter s).hear (fork.warnings first.store.channels)
    (cx.surfacing s surfaced)).Untouched done.store.channels

/-- The attempt is run again at the context, marked as the second try: nothing that was there has
changed by then, and it leaves whatever this run does. -/
structure Repeats (attempt : Attempt σ α) (memory : σ) (done : Outcome σ α) (between : Store) :
    Prop where
  modes : cx.modes between = cx.modes s
  reporter : cx.reporter between = cx.reporter s
  unheard : (cx.surfacing s surfaced).Untouched between.channels
  again : done =
    let second := perform (attempt cx true)
      (cx.setModes ((cx.modes s).insert .secondTry) between) memory
    { second with store := cx.setModes (cx.modes s) second.store }

end Runs

theorem Modes.adjust_secondTry (modes : Modes) :
    modes.adjust (.ofList [.secondTry]) ∅ = modes.insert .secondTry := by
  unfold adjust SwitchSet.insert
  generalize modes ∪ SwitchSet.ofList [Mode.secondTry] = after
  show (⟨after.bits &&& ~~~0#32⟩ : Modes) = after
  rw [BitVec.not_zero, BitVec.and_allOnes]

/-- In an implicit copy neither implicit values nor conversions are tried. -/
theorem Context.hasMode_implicitCopy (cx : Context) (s : Store) {mode : Mode}
    (hmode : (SwitchSet.ofList [Mode.implicitsEnabled, .enrichmentEnabled]).contains mode = true) :
    (cx.implicitCopy false s).1.hasMode mode (cx.implicitCopy false s).2 = false := by
  let copy := cx.silentCopy false s
  let modes := copy.1.modes copy.2 \ .ofList [.implicitsEnabled, .enrichmentEnabled]
  have hid : copy.1.id < copy.2.states.size := (Opening.silent false).run_id_lt cx s
  show (copy.1.modes (copy.1.setModes modes copy.2)).contains mode = false
  rw [Context.modes_setModes _ hid, SwitchSet.contains_diff, hmode, Bool.not_true, Bool.and_false]

/-- A fresh copy is walled. -/
theorem Walled.implicitCopy (cx : Context) (s : Store) :
    Walled s.channels (cx.reporter s).sink (cx.implicitCopy false s).2
      [(cx.implicitCopy false s).1] [] := by
  have hreporter := (Opening.implicit false).reporter_run cx s
  have hchannels := (Opening.implicit false).run_channels cx s
  change (cx.implicitCopy false s).1.reporter (cx.implicitCopy false s).2 =
    ((cx.reporter s).fork s.channels).1 at hreporter
  change (cx.implicitCopy false s).2.channels = s.channels.addBuffers.2 at hchannels
  refine ⟨List.forall_mem_singleton.mpr ⟨(Opening.implicit false).run_id_lt cx s, ?_, ?_, ?_⟩, ?_,
    fun id hid => ?_⟩
  · rw [hreporter]
    rfl
  · rw [hreporter]
    exact Nat.le_refl _
  · rw [hreporter]
    rfl
  · rw [hchannels]
    exact (Channels.Untouched.refl s.channels).addBuffers
  · rw [hchannels, s.channels.buffersAt_addBuffers]
    unfold Channels.buffersAt
    rw [Array.getElem?_eq_none hid]
    exact ⟨Buffer.sound_none, Buffer.sound_none⟩

/-- **Of an attempt tried twice one run is heard.** If implicit values are off at the context, the
attempt runs once. Else it runs in a copy where they are off, and stands or is repeated, as no error
was buffered there or one was. Whatever happens, the modes of the context are what they were. -/
theorem Activity.tryTwice_reports_once {s : Store} {opened : List Context} {cx : Context}
    (h : Activity s opened) (hcx : cx ∈ opened) {attempt : Attempt σ α}
    (hattempt : Disciplined [cx.id] attempt) (memory : σ) :
    let done := perform (cx.tryTwice attempt) s memory
    let copy := cx.implicitCopy false s
    let first := perform (attempt copy.1 false) copy.2 memory
    let fork := copy.1.reporter first.store
    cx.modes done.store = cx.modes s ∧
      (cx.hasMode .implicitsEnabled s = false → done = perform (attempt cx false) s memory) ∧
      (cx.hasMode .implicitsEnabled s = true →
        copy.1.hasMode .implicitsEnabled copy.2 = false ∧
        copy.1.hasMode .enrichmentEnabled copy.2 = false ∧
        ∃ reach surfaced,
          Conduct [copy.1.id, cx.id] copy.2 [copy.1] first.store reach surfaced ∧
          (fork.hasErrors first.store.channels = false →
            Stands cx s surfaced fork first done) ∧
          (fork.hasErrors first.store.channels = true →
            ∃ between, Repeats cx s surfaced attempt first.memory done between)) := by
  intro done copy first fork
  have hplace := h.registered cx hcx
  obtain ⟨_, _, hconduct⟩ :=
    hattempt.conduct_tryTwice (List.mem_singleton_self cx) hplace.id memory
  refine ⟨hconduct.kept.modes cx.id List.mem_cons_self hplace.id,
    perform_tryTwice_once memory, fun hon => ⟨cx.hasMode_implicitCopy s (by decide),
      cx.hasMode_implicitCopy s (by decide), ?_⟩⟩
  have hdone : done = if fork.hasErrors first.store.channels then
      perform (cx.withModes (.ofList [.secondTry]) ∅ (attempt · true))
        (first.store.modifyChannels fork.clear) first.memory
      else { first with store := cx.adoptWarnings fork first.store } :=
    perform_tryTwice memory hon
  -- the first run changes nothing but the buffers of the copy
  obtain ⟨reach, surfaced, hfirst⟩ := hattempt copy.1 false copy.2 memory
    ((Opening.implicit false).run_id_lt cx s)
  have hstart := Walled.implicitCopy cx s
  have hwalled := hfirst.walled hstart
  have hfork := (hstart.contexts copy.1 List.mem_cons_self).of_kept hfirst.kept
  have hopened : Kept [cx.id] s copy.2 := .opening [cx.id] (.implicit false) cx s
  have hid := Nat.lt_of_lt_of_le hplace.id hopened.size
  have hmodes : cx.modes first.store = cx.modes s :=
    (hfirst.kept.modes cx.id (List.mem_cons_of_mem _ List.mem_cons_self) hid).trans
      (hopened.modes cx.id List.mem_cons_self hplace.id)
  have hreporter : cx.reporter first.store = cx.reporter s :=
    (hfirst.kept.reporters cx.id hid).trans (hopened.reporters cx.id hplace.id)
  have hunheard : (cx.surfacing s surfaced).Untouched first.store.channels := hwalled.channels
  have hsize : (cx.surfacing s surfaced).buffers.size = s.channels.buffers.size :=
    congrArg Array.size (s.channels.buffers_emitAll _ _)
  have hlater : (cx.surfacing s surfaced).buffers.size ≤ fork.buffers := by
    rw [hsize]
    exact hfork.later
  refine ⟨reach, surfaced, hfirst, fun hclean => ?stands, fun hfailed => ?repeats⟩
  case stands =>
    rw [hdone, if_neg (by simp [hclean])]
    refine ⟨rfl, rfl, hreporter, (hwalled.sound _ hfork.later).warnings.nodup, ?_⟩
    rw [← hreporter]
    refine hunheard.adoptWarnings ?_ hlater
    rw [hreporter, hsize]
    exact hplace.buffers
  case repeats =>
    let between := first.store.modifyChannels fork.clear
    have hbetween : cx.modes between = cx.modes s := hmodes
    refine ⟨between, hbetween, hreporter, hunheard.clear hlater, ?_⟩
    rw [hdone, if_pos hfailed, perform_withModes, Modes.adjust_secondTry, hbetween]

/-! ### Attempts inside attempts -/

/-- Reports an error unless it is tried for the second time. -/
def erring : Attempt σ Unit := fun c second =>
  if second then pure () else modify fun s => (c.error (.error .notFound) s).2

/-- An attempt that reports an error and returns is disciplined. -/
theorem disciplined_erring (held : List ContextId) :
    Disciplined held (erring : Attempt σ Unit) := by
  intro c second s memory _
  cases second with
  | true => exact ⟨_, _, .start⟩
  | false => exact ⟨_, _, Conduct.start.call List.mem_cons_self (.error (.error .notFound))⟩

/-- Counts its runs, warns, and tries an attempt twice that reports an error. -/
def persistent : Attempt Nat Bool := fun c second => do
  StateT.lift (modify (· + 1))
  modify (c.warning (.warning .importPreferred))
  c.tryTwice erring
  return second

/-- So is one that tries another twice. -/
theorem disciplined_persistent (held : List ContextId) : Disciplined held persistent := by
  intro c second s memory hid
  have hwarned : Conduct (c.id :: held) s [c] (c.warning (.warning .importPreferred) s) [c] _ :=
    Conduct.start.call List.mem_cons_self (.warning (.warning .importPreferred))
  obtain ⟨_, _, htried⟩ := (disciplined_erring (c.id :: held)).conduct_tryTwice
    (s := c.warning (.warning .importPreferred) s) (List.mem_singleton_self c) hid (memory + 1)
  exact ⟨_, _, hwarned.trans htried⟩

/-- In the copy the inner attempt runs once, and its error has the outer one repeated. Then the
inner attempt runs twice, and all that is heard is the warning of the second run. -/
theorem Activity.tryTwice_reports_once_nested :
    let root := Context.openRoot 0 .root 0
      { sessions := #[{ unit := ⟨⟨1⟩, .native⟩, sink := 0 }], channels := { sinks := #[.log []] } }
    let done := perform (root.1.tryTwice persistent) root.2 0
    Disciplined [root.1.id] persistent ∧ root.1.modes done.store = root.1.modes root.2 ∧
      (∃ surfaced between, Repeats root.1 root.2 surfaced persistent 1 done between) ∧
      done.value = true ∧ done.memory = 2 ∧
      (done.store.channels.drainLog 0).1 = [⟨.warning .importPreferred, .root⟩] := by
  intro root done
  obtain ⟨hmodes, -, hon⟩ := Activity.tryTwice_reports_once
    (.openRoot (.start rfl) 0 .root 0 : Activity root.2 [root.1]) List.mem_cons_self
    (disciplined_persistent [root.1.id]) 0
  obtain ⟨-, -, _, surfaced, -, -, hrepeats⟩ := hon (by decide +kernel)
  obtain ⟨between, hbetween⟩ := hrepeats (by decide +kernel)
  exact ⟨disciplined_persistent _, hmodes, ⟨surfaced, between, hbetween⟩, by decide +kernel,
    by decide +kernel, by decide +kernel⟩

/-- Surfaces an ambiguity and reports an error, unless it is tried for the second time. -/
def outspoken : Attempt σ Unit := fun c second => do
  unless second do
    c.withModes (.ofList [.ambiguousErrors]) ∅ fun c => modify (c.ambiguity (.error .importedTwice))
  erring c second

/-- And one that surfaces an ambiguity first. -/
theorem disciplined_outspoken (held : List ContextId) :
    Disciplined held (outspoken : Attempt σ Unit) := by
  intro c second s memory hid
  cases second with
  | true => exact ⟨_, _, .start⟩
  | false =>
    let during := c.setModes ((c.modes s).adjust (.ofList [.ambiguousErrors]) ∅) s
    have hinside : Conduct ((c.id :: held).filter (· ≠ c.id)) during [c]
        (c.ambiguity (.error .importedTwice) during) [c] _ :=
      Conduct.start.call (List.mem_singleton_self c) (.ambiguity (.error .importedTwice))
    exact ⟨_, _, (Conduct.start.withModes hid _ _ hinside).call (List.mem_singleton_self c)
      (.error (.error .notFound))⟩

/-- **An ambiguity that the first run surfaces gets out.** The error has the attempt repeated, which
reports nothing then, but the ambiguity was sent to the sink at once. -/
theorem tryTwice_surfaces_ambiguity :
    let root := Context.openRoot 0 .root 0
      { sessions := #[{ unit := ⟨⟨1⟩, .native⟩, sink := 0 }], channels := { sinks := #[.log []] } }
    let done := perform (root.1.tryTwice outspoken) root.2 ()
    let copy := root.1.implicitCopy false root.2
    let first := perform (outspoken copy.1 false) copy.2 ()
    Disciplined [root.1.id] (outspoken : Attempt Unit Unit) ∧
      root.1.hasMode .implicitsEnabled root.2 = true ∧
      (copy.1.reporter first.store).hasErrors first.store.channels = true ∧
      (∀ s, perform (outspoken root.1 true) s () = ⟨(), s, ()⟩) ∧
      (root.2.channels.drainLog 0).1 = [] ∧
      (done.store.channels.drainLog 0).1 = [⟨.error .importedTwice, .root⟩] := by
  exact ⟨disciplined_outspoken _, by decide +kernel, by decide +kernel, fun _ => rfl,
    by decide +kernel, by decide +kernel⟩

end NameResolution
