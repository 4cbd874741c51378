import Fcam.Base.Table

/-!
# Foreign keys

A column holds ids of rows of some table, or nothing. `Refers` is what a foreign key promises: the
rows are there. `PointsTo` is what keeps one of them from being deleted.
-/

namespace Fcam

namespace Table

variable {ρ τ : Type}

/-- The ids in a column are ids of rows of the other table. -/
def Refers (source : Table ρ) (column : ρ → Option Nat) (target : Table τ) : Prop :=
  ∀ row ∈ source.rows, ∀ id, column row.2 = some id → (target.get? id).isSome = true

instance (source : Table ρ) (column : ρ → Option Nat) (target : Table τ) :
    Decidable (source.Refers column target) :=
  inferInstanceAs
    (Decidable (∀ row ∈ source.rows, ∀ id ∈ column row.2, (target.get? id).isSome = true))

/-- Some row has the id in its column. -/
def PointsTo (source : Table ρ) (column : ρ → Option Nat) (id : Nat) : Prop :=
  ∃ row ∈ source.rows, column row.2 = some id

instance (source : Table ρ) (column : ρ → Option Nat) (id : Nat) :
    Decidable (source.PointsTo column id) :=
  inferInstanceAs (Decidable (∃ row ∈ source.rows, column row.2 = some id))

/-- Change the rows with the id in their column. -/
def updateWhere (source : Table ρ) (column : ρ → Option Nat) (id : Nat) (f : ρ → ρ) : Table ρ :=
  source.mapRows fun _ row => if column row = some id then f row else row

/-- Delete the rows with the id in their column. -/
def deleteRefs (source : Table ρ) (column : ρ → Option Nat) (id : Nat) : Table ρ :=
  source.deleteWhere fun _ row => column row == some id

/-- Delete the row with the id. -/
def delete (target : Table τ) (id : Nat) : Table τ := target.deleteWhere fun other _ => other == id

variable {source : Table ρ} {column other : ρ → Option Nat} {target : Table τ} {id : Nat}
  {f : ρ → ρ}

/-! ### What is deleted -/

theorem get?_delete_self (target : Table τ) (id : Nat) : (target.delete id).get? id = none := by
  rw [delete, get?_deleteWhere, Option.filter_eq_none_iff]
  intro row _
  simp

theorem Refers.delete (h : source.Refers column target) (hfree : ¬source.PointsTo column id) :
    source.Refers column (target.delete id) := by
  intro row hrow target_id hcolumn
  have hne : target_id ≠ id := by
    rintro rfl
    exact hfree ⟨row, hrow, hcolumn⟩
  rw [Table.delete, get?_delete_of_ne target hne]
  exact h row hrow target_id hcolumn

theorem Refers.deleteWhere (h : source.Refers column target) (p : Nat → ρ → Bool) :
    (source.deleteWhere p).Refers column target :=
  fun row hrow => h row (List.mem_filter.mp hrow).1

theorem not_pointsTo_deleteRefs : ¬(source.deleteRefs column id).PointsTo column id := by
  rintro ⟨row, hrow, hcolumn⟩
  have hkept : (!(column row.2 == some id)) = true := (List.mem_filter.mp hrow).2
  rw [hcolumn, beq_self_eq_true] at hkept
  cases hkept

theorem deleteRefs_eq_self (hfree : ¬source.PointsTo column id) :
    source.deleteRefs column id = source := by
  rw [deleteRefs, deleteWhere, Table.mk.injEq, List.filter_eq_self]
  intro row hrow
  rw [Bool.not_eq_true', beq_eq_false_iff_ne]
  exact fun hcolumn => hfree ⟨row, hrow, hcolumn⟩

/-! ### What is updated -/

theorem Refers.updateTarget (h : source.Refers column target) (key : τ → Option Nat) (id : Nat)
    (g : τ → τ) :
    source.Refers column (target.updateWhere key id g) := by
  intro row hrow target_id hcolumn
  rw [Table.updateWhere, get?_mapRows, Option.isSome_map]
  exact h row hrow target_id hcolumn

theorem Refers.mapRows (h : source.Refers column target) {g : Nat → ρ → ρ}
    (hg : ∀ i row id, column (g i row) = some id → column row = some id) :
    (source.mapRows g).Refers column target := by
  intro row hrow id hcolumn
  obtain ⟨old, hold, rfl⟩ := List.mem_map.mp hrow
  exact h old hold id (hg _ _ _ hcolumn)

theorem not_pointsTo_updateWhere (hf : ∀ row, column (f row) = none) :
    ¬(source.updateWhere column id f).PointsTo column id := by
  rintro ⟨row, hrow, hcolumn⟩
  obtain ⟨old, -, rfl⟩ := List.mem_map.mp hrow
  dsimp only at hcolumn
  split at hcolumn
  · rw [hf] at hcolumn
    cases hcolumn
  · contradiction

theorem Refers.updateWhere (h : source.Refers other target)
    (hf : ∀ row, other (f row) = none ∨ other (f row) = other row) :
    (source.updateWhere column id f).Refers other target := by
  apply h.mapRows
  intro _ row target_id hcolumn
  split at hcolumn
  · obtain hnone | hsame := hf row
    · rw [hnone] at hcolumn
      cases hcolumn
    · rwa [hsame] at hcolumn
  · exact hcolumn

theorem updateWhere_eq_self (hfree : ¬source.PointsTo column id) :
    source.updateWhere column id f = source := by
  rw [updateWhere, mapRows, Table.mk.injEq]
  conv_rhs => rw [← List.map_id source.rows]
  apply List.map_congr_left
  intro row hrow
  rw [if_neg fun hcolumn => hfree ⟨row, hrow, hcolumn⟩]
  rfl

end Table

end Fcam
