import Mathlib.Tactic.Common

/-!
# Writing back changed attributes

A session that loads a row, changes its copy and commits writes only the attributes whose value it
changed; every other attribute of the stored row keeps what it holds by then. `writeBack` is that
rule for one attribute. Where the session's copy is still what is stored, the write is the session's
value; where it is stale, an attribute changed by somebody else survives unless this session changed
the same one, and then the other change is lost.
-/

namespace Fcam

variable {α : Type} [DecidableEq α]

/-- The stored value of an attribute after a session that loaded `loaded` commits `current`. -/
def writeBack (loaded current stored : α) : α := if current = loaded then stored else current

@[simp] theorem writeBack_unchanged (loaded stored : α) : writeBack loaded loaded stored = stored :=
  if_pos rfl

@[simp] theorem writeBack_fresh (stored current : α) :
    writeBack stored current stored = current := by
  rw [writeBack]
  split
  · next h => exact h.symm
  · rfl

theorem writeBack_of_ne {loaded current : α} (hne : current ≠ loaded) (stored : α) :
    writeBack loaded current stored = current :=
  if_neg hne

theorem writeBack_cases (loaded current stored : α) :
    (current = loaded ∧ writeBack loaded current stored = stored) ∨
      (current ≠ loaded ∧ writeBack loaded current stored = current) := by
  by_cases heq : current = loaded
  · exact .inl ⟨heq, if_pos heq⟩
  · exact .inr ⟨heq, if_neg heq⟩

end Fcam
