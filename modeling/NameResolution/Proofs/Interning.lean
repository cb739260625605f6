import Mathlib.Data.Finset.Card
import NameResolution.Name.Interner

/-!
# Interning

A table numbers its texts in both directions, and the two directions stay inverse (`Sound`). What
the handles of one table have asked for, in whatever order and through whichever handle, is then
answered once and for all.

* `Inverse.record`, `Sound.outcome`: what interning can do, the table after it included.
* `Ledger.ask`, `Run.accounts`: a table holds the reserved texts and those that were given a name,
  and every name given denotes its text.
* `Run.faithful`: equal names are equal texts read alike, names keep their texts, and the size
  counts the texts.
-/

namespace NameResolution

/-- Up to the capacity indices do not wrap around. -/
theorem Name.ofIndex_index {i : Nat} (h : i < capacity) : (ofIndex i).index.val = i :=
  Nat.mod_eq_of_lt h

@[simp] theorem Name.ofIndex_val (name : Name) : ofIndex name.index.val = name.toTerm := by
  simp [ofIndex, toTerm, Nat.mod_eq_of_lt name.index.isLt]

namespace Interner

variable {table after : Interner} {space : Namespace} {text : String} {name : Name}

/-! ### Sound tables -/

/-- The two directions of the numbering agree. -/
def Inverse (table : Interner) : Prop :=
  ∀ text i, table.indices.lookup text = some i ↔ table.texts[i]? = some text

/-- A text of its own keeps the directions in agreement. -/
theorem Inverse.record (h : table.Inverse) (hnew : text ∉ table.texts) :
    (table.record text).Inverse := by
  intro other i
  have hpush : (table.record text).texts[i]? =
      if i = table.size then some text else table.texts[i]? := Array.getElem?_push
  rw [hpush, Interner.record, List.lookup_cons]
  by_cases hother : other = text
  · -- The old texts do not have it, so the new index is the only one.
    have hold : table.texts[i]? ≠ some text := fun hat => hnew (Array.mem_of_getElem? hat)
    subst hother
    by_cases hi : i = table.size <;> simp [hi, hold, eq_comm]
  · have hlast : table.texts[table.size]? = none := Array.getElem?_eq_none (Nat.le_refl _)
    have hsame := h other i
    rw [beq_false_of_ne hother]
    by_cases hi : i = table.size
    · subst hi
      simpa [Ne.symm hother, hlast] using hsame
    · simpa [hi] using hsame

/-- So do any number of new texts. -/
theorem Inverse.records (texts : List String) (h : table.Inverse) (hnodup : texts.Nodup)
    (hnew : ∀ text ∈ texts, text ∉ table.texts) : (texts.foldl Interner.record table).Inverse := by
  induction texts generalizing table with
  | nil => exact h
  | cons first rest ih =>
    obtain ⟨hfirst, hrest⟩ := List.nodup_cons.mp hnodup
    apply ih (h.record (hnew first List.mem_cons_self)) hrest
    intro text htext hmem
    obtain hold | rfl := Array.mem_push.mp hmem
    · exact hnew text (List.mem_cons_of_mem _ htext) hold
    · exact hfirst htext

/-- What interning relies on and keeps. -/
structure Sound (table : Interner) : Prop where
  inverse : table.Inverse
  /-- The reserved texts keep their indices. -/
  reserved : ∀ (i : Nat) (text : String), Name.reserved[i]? = some text → table.texts[i]? = some text
  /-- Names reach every text. -/
  bounded : table.size ≤ Name.capacity

theorem texts_initial : initial.texts = Name.reserved.toArray := rfl

/-- The table of the reserved texts is sound. -/
theorem sound_initial : Sound .initial where
  inverse := Inverse.records Name.reserved (fun _ _ => by simp) (by decide) (by simp)
  reserved i text h := by simpa [texts_initial] using h
  bounded := by decide

/-- A table with room takes one more text. -/
theorem Sound.record (h : table.Sound) (hnew : text ∉ table.texts)
    (hroom : table.size < Name.capacity) : (table.record text).Sound where
  inverse := h.inverse.record hnew
  reserved i other hi := by
    have hold := h.reserved i other hi
    have hlt : i < table.texts.size := (Array.getElem?_eq_some_iff.mp hold).1
    rw [Interner.record, Array.getElem?_push, if_neg (Nat.ne_of_lt hlt)]
    exact hold
  bounded := by
    rw [size, Interner.record, Array.size_push]
    exact hroom

/-! ### Interning a text -/

/-- The table has this text for the name, whatever the namespace. -/
def Denotes (table : Interner) (name : Name) (text : String) : Prop :=
  table.texts[name.index.val]? = some text

theorem Denotes.text_eq (h : table.Denotes name text) : table.text name = text := by
  rw [Interner.text, h, Option.getD_some]

theorem Denotes.mem (h : table.Denotes name text) : text ∈ table.texts := Array.mem_of_getElem? h

/-- What a name denotes it denotes for good. -/
theorem Denotes.record (h : table.Denotes name text) (other : String) :
    (table.record other).Denotes name text := by
  have hlt : name.index.val < table.texts.size := (Array.getElem?_eq_some_iff.mp h).1
  rw [Denotes, Interner.record, Array.getElem?_push, if_neg (Nat.ne_of_lt hlt)]
  exact h

/-- The next index is the name of a new text. -/
theorem denotes_record (hroom : table.size < Name.capacity) :
    (table.record text).Denotes (.ofIndex table.size) text := by
  rw [Denotes, Name.ofIndex_index hroom, Interner.record, size, Array.getElem?_push_size]

/-- Names denote the same text exactly if they have the same index. -/
theorem Inverse.injective (h : table.Inverse) {m n : Name} {s t : String} (hm : table.Denotes m s)
    (hn : table.Denotes n t) : m.index = n.index ↔ s = t := by
  constructor
  · intro hindex
    rw [Denotes, hindex] at hm
    exact Option.some.inj (hm.symm.trans hn)
  · rintro rfl
    rw [Denotes, ← h] at hm hn
    exact Fin.ext (Option.some.inj (hm.symm.trans hn))

/-- The name of a text in a namespace, adding the text if it is new. -/
def ask (table : Interner) (space : Namespace) (text : String) :
    Except InternError (Name × Interner) :=
  match space with
  | .term => table.intern text
  | .type => table.internType text

/-- What asking for the name of a text can lead to. -/
inductive Outcome (table : Interner) (space : Namespace) (text : String) :
    Except InternError (Name × Interner) → Prop where
  /-- The text has an index, and nothing changes. -/
  | known {name : Name} (hspace : name.space = space) (hdenotes : table.Denotes name text) :
      Outcome table space text (.ok (name, table))
  /-- The text is given the next index. -/
  | added {name : Name} (hnew : text ∉ table.texts) (hroom : table.size < Name.capacity)
      (hspace : name.space = space) (hdenotes : (table.record text).Denotes name text) :
      Outcome table space text (.ok (name, table.record text))
  /-- Names reach no further. -/
  | full (hnew : text ∉ table.texts) (hfull : table.size = Name.capacity) :
      Outcome table space text (.error (.overflow Name.capacity))

/-- Interning finds the text, or adds it, or fails for want of room. -/
theorem Sound.outcome_intern (h : table.Sound) (text : String) :
    Outcome table .term text (table.intern text) := by
  unfold intern
  split
  · next i hi =>
    have hat : table.texts[i]? = some text := (h.inverse text i).mp hi
    have hlt : i < table.size := (Array.getElem?_eq_some_iff.mp hat).1
    have hdenotes : table.Denotes (.ofIndex i) text := by
      rwa [Denotes, Name.ofIndex_index (Nat.lt_of_lt_of_le hlt h.bounded)]
    exact .known rfl hdenotes
  · next hnone =>
    have hnew : text ∉ table.texts := by
      intro hmem
      obtain ⟨i, hi⟩ := Array.mem_iff_getElem?.mp hmem
      rw [← h.inverse, hnone] at hi
      cases hi
    unfold add
    split
    · next hle =>
      have hroom : table.size < Name.capacity := Nat.lt_of_le_pred (by decide) hle
      exact .added hnew hroom rfl (denotes_record hroom)
    · next hgt =>
      have hfull : table.size = Name.capacity :=
        Nat.le_antisymm h.bounded (Nat.le_of_pred_lt (Nat.not_le.mp hgt))
      rw [hfull]
      exact .full hnew hfull

/-- A name is read as a type name in the end, and the table is the same. -/
theorem Outcome.toType {found : Except InternError (Name × Interner)}
    (h : Outcome table .term text found) :
    Outcome table .type text (found.map fun (name, after) => (name.toType, after)) := by
  cases h with
  | known _ hdenotes => exact .known rfl hdenotes
  | added hnew hroom _ hdenotes => exact .added hnew hroom rfl hdenotes
  | full hnew hfull => exact .full hnew hfull

/-- Asking for a name finds the text, or adds it, or fails for want of room. -/
theorem Sound.outcome (h : table.Sound) (space : Namespace) (text : String) :
    Outcome table space text (table.ask space text) := by
  cases space with
  | term => exact h.outcome_intern text
  | type => exact (h.outcome_intern text).toType

end Interner

/-! ### Requests -/

/-- A name asked for through a handle, and the answer. -/
structure Request where
  handle : SharedInterner
  space : Namespace
  text : String
  answer : Except InternError Name

namespace Request

variable {requests : List Request} {r : Request} {text : String}

def named (requests : List Request) : List String :=
  (requests.filter (·.answer.isOk)).map (·.text)

theorem named_answered {name : Name} (h : r.answer = .ok name) :
    named (requests ++ [r]) = named requests ++ [r.text] := by
  simp [named, List.filter_append, h, Except.isOk, Except.toBool]

theorem named_failed {error : InternError} (h : r.answer = .error error) :
    named (requests ++ [r]) = named requests := by
  simp [named, List.filter_append, h, Except.isOk, Except.toBool]

end Request

namespace Interner

variable {table : Interner} {requests : List Request} {text : String} {name : Name}

/-- What a table holds, by the requests made to it. -/
structure Ledger (table : Interner) (requests : List Request) : Prop where
  sound : table.Sound
  /-- The texts are the reserved ones and those given a name. -/
  mem_texts_iff : ∀ text, text ∈ table.texts ↔ text ∈ Name.reserved ∨ text ∈ Request.named requests
  /-- A name given is read as asked and denotes the text. -/
  gives : ∀ r ∈ requests, ∀ name, r.answer = .ok name →
    name.space = r.space ∧ table.Denotes name r.text
  /-- A request fails only at a full table, for a text that is not there. -/
  fails : ∀ r ∈ requests, ∀ error, r.answer = .error error →
    error = .overflow Name.capacity ∧ table.size = Name.capacity ∧ r.text ∉ table.texts

/-- Before the first request a table holds the reserved texts. -/
theorem ledger_initial : Ledger .initial [] where
  sound := sound_initial
  mem_texts_iff text := by
    rw [texts_initial, List.mem_toArray]
    exact ⟨.inl, fun h => h.resolve_right List.not_mem_nil⟩
  gives r hr := nomatch hr
  fails r hr := nomatch hr

variable {r : Request}

/-- A request for a text that is there adds nothing. -/
theorem Ledger.known (h : Ledger table requests) (hanswer : r.answer = .ok name)
    (hspace : name.space = r.space) (hdenotes : table.Denotes name r.text) :
    Ledger table (requests ++ [r]) where
  sound := h.sound
  mem_texts_iff text := by
    rw [Request.named_answered hanswer, List.mem_append, ← or_assoc, ← h.mem_texts_iff,
      List.mem_singleton]
    exact ⟨.inl, fun hmem => hmem.elim id fun heq => heq ▸ hdenotes.mem⟩
  gives := by
    refine List.forall_mem_append.mpr ⟨h.gives, List.forall_mem_singleton.mpr ?_⟩
    intro given hgiven
    cases hanswer.symm.trans hgiven
    exact ⟨hspace, hdenotes⟩
  fails := by
    refine List.forall_mem_append.mpr ⟨h.fails, List.forall_mem_singleton.mpr ?_⟩
    intro error herror
    cases hanswer.symm.trans herror

/-- A request for a new text adds it. -/
theorem Ledger.added (h : Ledger table requests) (hanswer : r.answer = .ok name)
    (hnew : r.text ∉ table.texts) (hroom : table.size < Name.capacity)
    (hspace : name.space = r.space) (hdenotes : (table.record r.text).Denotes name r.text) :
    Ledger (table.record r.text) (requests ++ [r]) where
  sound := h.sound.record hnew hroom
  mem_texts_iff text := by
    rw [Request.named_answered hanswer, List.mem_append, ← or_assoc, ← h.mem_texts_iff,
      List.mem_singleton]
    exact Array.mem_push
  gives := by
    refine List.forall_mem_append.mpr ⟨fun old hold given hgiven => ?_,
      List.forall_mem_singleton.mpr fun given hgiven => ?_⟩
    · obtain ⟨hread, hold⟩ := h.gives old hold given hgiven
      exact ⟨hread, hold.record r.text⟩
    · cases hanswer.symm.trans hgiven
      exact ⟨hspace, hdenotes⟩
  fails := by
    refine List.forall_mem_append.mpr ⟨fun old hold error herror => ?_,
      List.forall_mem_singleton.mpr fun error herror => ?_⟩
    · -- Nothing has failed so far, for there was room.
      exact absurd (h.fails old hold error herror).2.1 (Nat.ne_of_lt hroom)
    · cases hanswer.symm.trans herror

/-- A request that fails leaves the table as it was. -/
theorem Ledger.full (h : Ledger table requests)
    (hanswer : r.answer = .error (.overflow Name.capacity)) (hnew : r.text ∉ table.texts)
    (hfull : table.size = Name.capacity) : Ledger table (requests ++ [r]) where
  sound := h.sound
  mem_texts_iff text := by
    rw [Request.named_failed hanswer]
    exact h.mem_texts_iff text
  gives := by
    refine List.forall_mem_append.mpr ⟨h.gives, List.forall_mem_singleton.mpr ?_⟩
    intro name hname
    cases hanswer.symm.trans hname
  fails := by
    refine List.forall_mem_append.mpr ⟨h.fails, List.forall_mem_singleton.mpr ?_⟩
    intro error herror
    cases hanswer.symm.trans herror
    exact ⟨rfl, hfull, hnew⟩

/-- **One more request keeps the accounts.** -/
theorem Ledger.ask (h : Ledger table requests) (handle : SharedInterner) (space : Namespace)
    (text : String) :
    match table.ask space text with
    | .ok (name, after) => Ledger after (requests ++ [⟨handle, space, text, .ok name⟩])
    | .error error => Ledger table (requests ++ [⟨handle, space, text, .error error⟩]) := by
  have houtcome := h.sound.outcome space text
  generalize table.ask space text = found at houtcome ⊢
  cases houtcome with
  | @known name hspace hdenotes =>
    exact h.known (r := ⟨handle, space, text, .ok name⟩) rfl hspace hdenotes
  | @added name hnew hroom hspace hdenotes =>
    exact h.added (r := ⟨handle, space, text, .ok name⟩) rfl hnew hroom hspace hdenotes
  | full hnew hfull => exact h.full rfl hnew hfull

/-! ### What a table answers -/

/-- No text has two indices. -/
theorem Inverse.nodup (h : table.Inverse) : table.texts.toList.Nodup := by
  rw [List.nodup_iff_pairwise_ne, List.pairwise_iff_getElem]
  intro i j hi hj hlt heq
  have hat : table.texts[i]? = some table.texts.toList[j] := by
    rw [← heq]
    simp
  have hother : table.texts[j]? = some table.texts.toList[j] := by simp
  rw [← h] at hat hother
  exact Nat.ne_of_lt hlt (Option.some.inj (hat.symm.trans hother))

/-- What the requests made to a table, in any order and through any handles, can rely on. -/
structure Faithful (table : Interner) (requests : List Request) : Prop where
  /-- Only a text without a name at a full table is refused. -/
  answered : ∀ r ∈ requests, (∃ name, r.answer = .ok name) ∨
    r.answer = .error (.overflow Name.capacity) ∧ table.size = Name.capacity ∧
      r.text ∉ table.texts
  /-- Equal names are equal texts, read in the same namespace. -/
  same : ∀ r ∈ requests, ∀ q ∈ requests, ∀ m n, r.answer = .ok m → q.answer = .ok n →
    (m = n ↔ r.space = q.space ∧ r.text = q.text)
  /-- A type name is no term name, whoever made that one. -/
  typed : ∀ r ∈ requests, r.space = .type → ∀ n, r.answer = .ok n → ∀ m : Name, m.isTerm → n ≠ m
  /-- A name and its companion keep the text they were made for. -/
  texts : ∀ r ∈ requests, ∀ n, r.answer = .ok n →
    table.text n = r.text ∧ table.text n.companion = r.text
  /-- The reserved texts keep their names. -/
  reserved : ∀ (i : Nat) (text : String), Name.reserved[i]? = some text →
    table.intern text = .ok (.ofIndex i, table) ∧ table.text (.ofIndex i) = text
  /-- Every index below the size is the name of its text. -/
  onto : ∀ name : Name, name.index < table.size →
    table.intern (table.text name) = .ok (name.toTerm, table)
  /-- The size counts the reserved texts and the others that were given a name. -/
  size : table.size = 8 + ((Request.named requests).toFinset \ Name.reserved.toFinset).card
  /-- Indices from the size on have no text. -/
  unknown : ∀ name : Name, table.size ≤ name.index → table.text name = "<unknown>"

/-- A text that is there is found at its index, and nothing changes. -/
theorem Inverse.intern_eq (h : table.Inverse) {i : Nat} (hi : table.texts[i]? = some text) :
    table.intern text = .ok (.ofIndex i, table) := by
  rw [intern, (h text i).mpr hi]

/-- The table holds the eight reserved texts and the others that were given a name, each once. -/
theorem Ledger.size_eq (h : Ledger table requests) :
    table.size = 8 + ((Request.named requests).toFinset \ Name.reserved.toFinset).card := by
  have hreserved : Name.reserved.toFinset.card = 8 := by decide
  have htexts : table.texts.toList.toFinset =
      Name.reserved.toFinset ∪ ((Request.named requests).toFinset \ Name.reserved.toFinset) := by
    apply Finset.ext
    intro text
    rw [Finset.union_sdiff_self_eq_union, Finset.mem_union, List.mem_toFinset, List.mem_toFinset,
      List.mem_toFinset, Array.mem_toList_iff, h.mem_texts_iff]
  calc table.size
      = table.texts.toList.toFinset.card := by
        rw [List.toFinset_card_of_nodup h.sound.inverse.nodup, Array.length_toList, size]
    _ = 8 + ((Request.named requests).toFinset \ Name.reserved.toFinset).card := by
        rw [htexts, Finset.card_union_of_disjoint Finset.disjoint_sdiff, hreserved]

/-- Accounts in order make a table faithful. -/
theorem Ledger.faithful_table (h : Ledger table requests) : Faithful table requests where
  answered r hr := by
    cases hanswer : r.answer with
    | ok name => exact .inl ⟨name, rfl⟩
    | error error =>
      obtain ⟨rfl, hfull, hnew⟩ := h.fails r hr error hanswer
      exact .inr ⟨rfl, hfull, hnew⟩
  same r hr q hq m n hm hn := by
    obtain ⟨hreadm, hdenotesm⟩ := h.gives r hr m hm
    obtain ⟨hreadn, hdenotesn⟩ := h.gives q hq n hn
    rw [← hreadm, ← hreadn, ← h.sound.inverse.injective hdenotesm hdenotesn]
    obtain ⟨_, _⟩ := m
    obtain ⟨_, _⟩ := n
    exact Name.mk.injEq .. ▸ Iff.rfl
  typed r hr htype n hn m hterm heq := by
    have hspace := (h.gives r hr n hn).1.trans htype
    subst heq
    simp [Name.isTerm, Name.isType, hspace] at hterm
  texts r hr n hn := by
    have hdenotes := (h.gives r hr n hn).2
    have hcompanion : n.companion.index = n.index := by
      unfold Name.companion
      split <;> rfl
    have hother : table.Denotes n.companion r.text := by
      rw [Denotes, hcompanion]
      exact hdenotes
    exact ⟨hdenotes.text_eq, hother.text_eq⟩
  reserved i text hi := by
    have hat := h.sound.reserved i text hi
    have hlt : i < table.size := (Array.getElem?_eq_some_iff.mp hat).1
    have hdenotes : table.Denotes (.ofIndex i) text := by
      rwa [Denotes, Name.ofIndex_index (Nat.lt_of_lt_of_le hlt h.sound.bounded)]
    exact ⟨h.sound.inverse.intern_eq hat, hdenotes.text_eq⟩
  onto name hname := by
    have hdenotes : table.Denotes name table.texts[name.index.val] :=
      Array.getElem?_eq_getElem hname
    rw [hdenotes.text_eq, h.sound.inverse.intern_eq hdenotes, Name.ofIndex_val]
  size := h.size_eq
  unknown name hname := by
    rw [Interner.text, Array.getElem?_eq_none hname, Option.getD_none]

end Interner

/-! ### Handles -/

theorem Interners.tableAt_setTable (all : Interners) {id : InternerId} (h : id < all.tables.size)
    (table : Interner) (other : InternerId) :
    (all.setTable id table).tableAt other = if other = id then table else all.tableAt other := by
  rw [tableAt, setTable, Array.getElem?_modify]
  by_cases hid : id = other
  · subst hid
    simp [h]
  · simp [hid, Ne.symm hid, tableAt]

theorem Interners.size_setTable (all : Interners) (id : InternerId) (table : Interner) :
    (all.setTable id table).tables.size = all.tables.size := Array.size_modify

namespace SharedInterner

def ask (handle : SharedInterner) (space : Namespace) (text : String) (all : Interners) :
    Except InternError Name × Interners :=
  match space with
  | .term => handle.intern text all
  | .type => handle.internType text all

/-- Asking through a handle is asking the table the handle refers to. -/
theorem ask_eq (handle : SharedInterner) (space : Namespace) (text : String) (all : Interners) :
    handle.ask space text all = handle.update (·.ask space text) all := by
  cases space <;> rfl

/-- Tables and handles as they come about, with the requests made so far. -/
inductive Run : Interners → List SharedInterner → List Request → Prop where
  | start : Run {} [] []
  | create {all handles log} (h : Run all handles log) :
      Run (create all).2 ((create all).1 :: handles) log
  | clone {all handles log} (h : Run all handles log) {handle : SharedInterner}
      (hhandle : handle ∈ handles) : Run all (handle.clone :: handles) log
  | ask {all handles log} (h : Run all handles log) {handle : SharedInterner}
      (hhandle : handle ∈ handles) (space : Namespace) (text : String) :
      Run (handle.ask space text all).2 handles
        (log ++ [⟨handle, space, text, (handle.ask space text all).1⟩])

variable {all : Interners} {handles : List SharedInterner} {log : List Request}

def requestsTo (id : InternerId) (log : List Request) : List Request :=
  log.filter (·.handle.table = id)

theorem requestsTo_append_self (log : List Request) (r : Request) :
    requestsTo r.handle.table (log ++ [r]) = requestsTo r.handle.table log ++ [r] := by
  simp [requestsTo, List.filter_append]

theorem requestsTo_append_other {id : InternerId} {r : Request} (h : id ≠ r.handle.table)
    (log : List Request) : requestsTo id (log ++ [r]) = requestsTo id log := by
  simp [requestsTo, List.filter_append, Ne.symm h]

/-- Handles and requests refer to tables, and every table's accounts are in order. -/
structure Accounts (all : Interners) (handles : List SharedInterner) (log : List Request) :
    Prop where
  placed : ∀ handle ∈ handles, handle.table < all.tables.size
  logged : ∀ r ∈ log, r.handle.table < all.tables.size
  ledgers : ∀ id < all.tables.size, (all.tableAt id).Ledger (requestsTo id log)

/-- A new handle has a table of its own, without requests. -/
theorem Accounts.create (h : Accounts all handles log) :
    Accounts (create all).2 ((create all).1 :: handles) log := by
  have hsize : (SharedInterner.create all).2.tables.size = all.tables.size + 1 :=
    Array.size_push _
  refine ⟨fun handle hhandle => ?_, fun r hr => ?_, fun id hid => ?_⟩
  · rw [hsize]
    obtain rfl | hold := List.mem_cons.mp hhandle
    · exact Nat.lt_succ_self _
    · exact Nat.lt_succ_of_lt (h.placed handle hold)
  · rw [hsize]
    exact Nat.lt_succ_of_lt (h.logged r hr)
  · have htable : (SharedInterner.create all).2.tableAt id =
        if id = all.tables.size then .initial else all.tableAt id := by
      rw [Interners.tableAt, SharedInterner.create, Array.getElem?_push]
      split <;> rfl
    rw [htable]
    rw [hsize] at hid
    split
    · next hfresh =>
      -- No request so far was made to the new table.
      have hnone : requestsTo id log = [] := List.filter_eq_nil_iff.mpr fun r hr => by
        simpa [hfresh] using Nat.ne_of_lt (h.logged r hr)
      rw [hnone]
      exact Interner.ledger_initial
    · next hold => exact h.ledgers id (by omega)

/-- A request that leaves the other tables alone. -/
theorem Accounts.append (h : Accounts all handles log) (r : Request) {after : Interners}
    (hplaced : r.handle.table < all.tables.size) (hsize : after.tables.size = all.tables.size)
    (hothers : ∀ id ≠ r.handle.table, after.tableAt id = all.tableAt id)
    (hledger : (after.tableAt r.handle.table).Ledger (requestsTo r.handle.table log ++ [r])) :
    Accounts after handles (log ++ [r]) := by
  refine ⟨hsize ▸ h.placed, ?_, fun id hid => ?_⟩
  · rw [hsize]
    exact List.forall_mem_append.mpr ⟨h.logged, List.forall_mem_singleton.mpr hplaced⟩
  · by_cases heq : id = r.handle.table
    · rw [heq, requestsTo_append_self]
      exact hledger
    · rw [hothers id heq, requestsTo_append_other heq]
      exact h.ledgers id (hsize ▸ hid)

/-- **A request keeps the accounts of all tables:** its own gets one more, the others stay. -/
theorem Accounts.ask (h : Accounts all handles log) {handle : SharedInterner}
    (hhandle : handle ∈ handles) (space : Namespace) (text : String) :
    Accounts (handle.ask space text all).2 handles
      (log ++ [⟨handle, space, text, (handle.ask space text all).1⟩]) := by
  have hplaced := h.placed handle hhandle
  have hledger := (h.ledgers handle.table hplaced).ask handle space text
  rw [ask_eq, update, read]
  generalize (all.tableAt handle.table).ask space text = found at hledger ⊢
  cases found with
  | ok found =>
    obtain ⟨name, table⟩ := found
    have hat := Interners.tableAt_setTable all hplaced table
    refine h.append ⟨handle, space, text, .ok name⟩ hplaced (Interners.size_setTable ..)
      (fun id hid => (hat id).trans (if_neg hid)) ?_
    rw [hat, if_pos rfl]
    exact hledger
  | error error =>
    exact h.append ⟨handle, space, text, .error error⟩ hplaced rfl (fun _ _ => rfl) hledger

/-- **At any point the accounts of all tables are in order.** -/
theorem Run.accounts (h : Run all handles log) : Accounts all handles log := by
  induction h with
  | start => exact ⟨nofun, nofun, nofun⟩
  | create _ ih => exact ih.create
  | clone _ hhandle ih =>
    exact ⟨List.forall_mem_cons.mpr ⟨ih.placed _ hhandle, ih.placed⟩, ih.logged, ih.ledgers⟩
  | ask _ hhandle space text ih => exact ih.ask hhandle space text

/-- **Whatever is asked of a table, through whichever handles, is answered once and for all.** -/
theorem Run.faithful (h : Run all handles log) {handle : SharedInterner}
    (hhandle : handle ∈ handles) :
    (handle.read all).Faithful (requestsTo handle.table log) :=
  (h.accounts.ledgers handle.table (h.accounts.placed handle hhandle)).faithful_table

/-- A text asked for as a term and, through a clone, as a type. -/
theorem Run.faithful_clone :
    let handle := (SharedInterner.create {}).1
    let term := handle.ask .term "x" (SharedInterner.create {}).2
    let type := handle.clone.ask .type "x" term.2
    let handles := [handle.clone, handle]
    let log : List Request :=
      [⟨handle, .term, "x", term.1⟩, ⟨handle.clone, .type, "x", type.1⟩]
    Run type.2 handles log ∧ handle ∈ handles ∧
      term.1 = .ok (.ofIndex 8) ∧ type.1 = .ok (Name.ofIndex 8).toType ∧
      (handle.read type.2).size = 9 ∧ (handle.read type.2).Faithful (requestsTo handle.table log) := by
  intro handle term type handles log
  have hmem : handle ∈ handles := List.mem_cons_of_mem _ List.mem_cons_self
  have hrun : Run type.2 handles log :=
    ((Run.start.create.clone List.mem_cons_self).ask hmem .term "x").ask List.mem_cons_self
      .type "x"
  exact ⟨hrun, hmem, by rfl, by rfl, by rfl, hrun.faithful hmem⟩

end SharedInterner

end NameResolution
