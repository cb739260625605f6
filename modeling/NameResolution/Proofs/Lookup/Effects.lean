import NameResolution.Lookup

/-!
# What a lookup changes

A lookup leaves two traces: its warnings go through the reporter in use at the context, and the
selectors it used are noted. All else stays as it was (`Context.lookup_eq`).
-/

namespace NameResolution

theorem Store.recordUses_eq (uses : List Lookup.Use) (s : Store) :
    s.recordUses uses = { s with uses := (s.recordUses uses).uses } := by
  unfold recordUses
  induction uses generalizing s with
  | nil => rfl
  | cons use uses ih =>
    rw [List.foldl_cons, ih]
    rfl

namespace Context

variable (cx : Context)

/-- The channels once warnings were reported one after the other at a context. -/
def warned (ds : List Diagnostic) (s : Store) : Channels :=
  ds.foldl (fun channels d => (cx.reporter s).warning ⟨d, cx.owner⟩ channels) s.channels

/-- Warnings reach nothing but the channels. -/
theorem warnings_eq (ds : List Diagnostic) (s : Store) :
    cx.warnings ds s = { s with channels := cx.warned ds s } := by
  unfold warnings warned
  induction ds generalizing s with
  | nil => rfl
  | cons d ds ih =>
    rw [List.foldl_cons, List.foldl_cons, ih]
    rfl

/-- **A lookup reports and notes what it used, and changes nothing else.** -/
theorem lookup_eq (u : Universe) (name : Name) (qualifies : SymbolId → Bool) (s : Store) :
    (cx.lookup u name qualifies s).2 =
      { s with
        channels := cx.warned (cx.query u name qualifies s).run.warnings s
        uses := (s.recordUses (cx.query u name qualifies s).run.uses).uses } := by
  unfold lookup
  dsimp only
  rw [warnings_eq, Store.recordUses_eq]
  rfl

end Context

end NameResolution
