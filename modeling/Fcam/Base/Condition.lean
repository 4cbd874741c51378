import Mathlib.Tactic.Common

/-!
# Conditions of a query

A condition reads columns that may be null, where it is unknown. A filter keeps the rows its
condition is true of, so a condition is used through what makes it hold.
-/

namespace Fcam

/-- True, false, or nothing where it is unknown. -/
abbrev Condition := Option Bool

namespace Condition

/-- `a AND b`. -/
def and : Condition → Condition → Condition
  | some true, b => b
  | some false, _ => some false
  | none, some false => some false
  | none, _ => none

/-- `a OR b`. -/
def or : Condition → Condition → Condition
  | some true, _ => some true
  | some false, b => b
  | none, some true => some true
  | none, _ => none

/-- A comparison of a column. -/
def compare {α : Type} (p : α → Bool) (column : Option α) : Condition := column.map p

/-- `column IS NULL`. -/
def isNull {α : Type} (column : Option α) : Condition := some column.isNone

/-- `column IS NOT NULL`. -/
def isNotNull {α : Type} (column : Option α) : Condition := some column.isSome

/-- `column IS value`. -/
def is (column : Option Bool) (value : Bool) : Condition := some (column == some value)

/-- The conjunction of the filters of a query. -/
def all (conditions : List Condition) : Condition := conditions.foldr and (some true)

/-- A filter keeps a row. -/
def holds (condition : Condition) : Bool := condition == some true

@[simp] theorem holds_some (value : Bool) : holds (some value) = value := by
  cases value <;> rfl

@[simp] theorem holds_and (a b : Condition) : (a.and b).holds = (a.holds && b.holds) := by
  rcases a with _ | _ | _ <;> rcases b with _ | _ | _ <;> rfl

@[simp] theorem holds_or (a b : Condition) : (a.or b).holds = (a.holds || b.holds) := by
  rcases a with _ | _ | _ <;> rcases b with _ | _ | _ <;> rfl

@[simp] theorem holds_all (conditions : List Condition) :
    (all conditions).holds = conditions.all holds := by
  induction conditions with
  | nil => rfl
  | cons first rest ih =>
    rw [List.all_cons, ← ih]
    exact holds_and first (all rest)

variable {α : Type} (p : α → Bool)

@[simp] theorem holds_compare_none : (compare p none).holds = false := rfl

@[simp] theorem holds_compare_some (value : α) : (compare p (some value)).holds = p value := by
  rw [compare, Option.map_some, holds_some]

@[simp] theorem holds_isNull (column : Option α) : (isNull column).holds = column.isNone :=
  holds_some _

@[simp] theorem holds_isNotNull (column : Option α) : (isNotNull column).holds = column.isSome :=
  holds_some _

@[simp] theorem holds_is (column : Option Bool) (value : Bool) :
    (is column value).holds = (column == some value) :=
  holds_some _

end Condition

end Fcam
