import NameResolution.Table.Universe

/-!
# Members of types

What a type has as members is found on a walk up the ancestors of its class. Every step of the walk
keeps what was found before and adds only wanted declarations:

* `Harvest.Wanted.takeAll`: one class adds wanted declarations only.
* `wanted_of_mem_collectMembers`: so does the whole walk, by `Harvest.Wanted.foldl`.
* `name_of_mem_members`: the members of a type under a name have that name.
-/

namespace NameResolution.Table

variable {t : Table} {wanted : Declaration → Bool}

/-- Everything found so far is declared and wanted. -/
def Harvest.Wanted (t : Table) (wanted : Declaration → Bool) (found : Harvest) : Prop :=
  ∀ member ∈ found.members, ∃ d, t.find? member = some d ∧ wanted d = true

theorem Harvest.Wanted.take {found : Harvest} (h : found.Wanted t wanted) (inherited : Bool)
    (member : SymbolId) : (Harvest.take t wanted inherited found member).Wanted t wanted := by
  unfold Harvest.take
  cases hdecl : t.find? member with
  | none => exact h
  | some d =>
    dsimp only
    split
    · exact h
    · rename_i hkept
      intro other hother
      rcases List.mem_append.mp hother with hold | hnew
      · exact h other hold
      · rw [List.mem_singleton.mp hnew]
        refine ⟨d, hdecl, ?_⟩
        simp only [Bool.or_eq_true, Bool.not_eq_true', not_or, Bool.not_eq_false] at hkept
        exact hkept.1.1

theorem Harvest.Wanted.takeAll {found : Harvest} (h : found.Wanted t wanted) (inherited : Bool)
    (sym : SymbolId) : (Harvest.takeAll t wanted inherited found sym).Wanted t wanted := by
  unfold Harvest.takeAll
  induction t.declaredMembers sym generalizing found with
  | nil => exact h
  | cons member rest ih => exact ih (h.take inherited member)

theorem Harvest.Wanted.foldl {found : Harvest} (h : found.Wanted t wanted)
    (ancestors : List SymbolId) :
    (ancestors.foldl (Harvest.takeAll t wanted true) found).Wanted t wanted := by
  induction ancestors generalizing found with
  | nil => exact h
  | cons ancestor rest ih => exact ih (h.takeAll true ancestor)

/-- **The walk up the ancestors collects wanted declarations only.** -/
theorem wanted_of_mem_collectMembers {sym member : SymbolId}
    (h : member ∈ t.collectMembers sym wanted) :
    ∃ d, t.find? member = some d ∧ wanted d = true := by
  unfold collectMembers at h
  cases hclasses : t.linearization sym with
  | nil =>
    rw [hclasses] at h
    cases h
  | cons own ancestors =>
    rw [hclasses] at h
    have hempty : Harvest.Wanted t wanted {} := fun _ hmember => nomatch hmember
    exact (hempty.takeAll false own).foldl ancestors member h

/-- **Members under a name have that name.** -/
theorem name_of_mem_members {ty : TypeRef} {name : Name} {member : SymbolId}
    (h : member ∈ t.members ty name) : t.name member = name := by
  unfold members at h
  split at h
  · unfold declared at h
    exact eq_of_beq (List.mem_filter.mp h).2
  · obtain ⟨d, hdecl, hname⟩ := wanted_of_mem_collectMembers h
    unfold Table.name
    rw [hdecl]
    exact eq_of_beq hname

end NameResolution.Table
