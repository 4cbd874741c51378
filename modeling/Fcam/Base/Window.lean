import Mathlib.Data.List.Basic
import Mathlib.Tactic.Common

/-!
# Events counted in windows

A counter that keeps a number and the time of the first event it counts, and starts anew with an
event that comes later than a window's length after that, against the events that lie in the window
that ends with the last one. Times are a history with the newest event first.
-/

namespace Fcam

namespace Window

variable (length : Int)

/-- The counter after a history: how many events it counts, and the time of the first of them. -/
def counted : List Int → Option (Nat × Int)
  | [] => none
  | t :: past =>
    match counted past with
    | none => some (1, t)
    | some (n, start) => if length < t - start then some (1, t) else some (n + 1, start)

/-- The newest event of a history is the first one counted. -/
def begins : List Int → Bool
  | [] => false
  | t :: past =>
    match counted length past with
    | none => true
    | some (_, start) => length < t - start

/-- The events of the window that ends with the newest one. -/
def recent : List Int → Nat
  | [] => 0
  | t :: past => 1 + past.countP fun s => t - s ≤ length

variable {length} {history past : List Int} {t : Int}

theorem counted_of_begins (h : begins length (t :: past) = true) :
    counted length (t :: past) = some (1, t) := by
  rw [begins] at h
  rw [counted]
  cases hpast : counted length past with
  | none => rfl
  | some window =>
    rw [hpast] at h
    exact if_pos (of_decide_eq_true h)

theorem counted_of_not_begins (h : begins length (t :: past) = false) :
    ∃ n start, counted length past = some (n, start) ∧ t - start ≤ length ∧
      counted length (t :: past) = some (n + 1, start) := by
  rw [begins] at h
  rw [counted]
  cases hpast : counted length past with
  | none => rw [hpast] at h; cases h
  | some window =>
    rw [hpast] at h
    have hwithin := of_decide_eq_false h
    exact ⟨window.1, window.2, rfl, Int.not_lt.mp hwithin, if_neg hwithin⟩

theorem le_counted_iff {n k : Nat} {start : Int} (h : counted length history = some (n, start)) :
    k ≤ n ↔ ∀ i < k - 1, begins length (history.drop i) = false := by
  induction history generalizing n k start with
  | nil => cases h
  | cons t past ih =>
    cases hbegins : begins length (t :: past) with
    | true =>
      rw [counted_of_begins hbegins, Option.some.injEq, Prod.mk.injEq] at h
      constructor
      · intro hk i hi
        omega
      · intro hall
        by_contra hk
        have hzero := hall 0 (by omega)
        rw [List.drop_zero, hbegins] at hzero
        cases hzero
    | false =>
      obtain ⟨m, first, hpast, -, hcounted⟩ := counted_of_not_begins hbegins
      rw [hcounted, Option.some.injEq, Prod.mk.injEq] at h
      have hrest : k - 1 ≤ m ↔ ∀ i < k - 1 - 1, begins length (past.drop i) = false := ih hpast
      have hle : k ≤ n ↔ k - 1 ≤ m := by omega
      rw [hle, hrest]
      constructor
      · intro hall i hi
        cases i with
        | zero => rwa [List.drop_zero]
        | succ i =>
          rw [List.drop_succ_cons]
          exact hall i (by omega)
      · intro hall i hi
        have hsucc := hall (i + 1) (by omega)
        rwa [List.drop_succ_cons] at hsucc

theorem counted_le_length {n : Nat} {start : Int} (h : counted length history = some (n, start)) :
    n ≤ history.length := by
  induction history generalizing n start with
  | nil => cases h
  | cons t past ih =>
    cases hbegins : begins length (t :: past) with
    | true =>
      rw [counted_of_begins hbegins, Option.some.injEq, Prod.mk.injEq] at h
      rw [← h.1]
      exact Nat.le_add_left 1 past.length
    | false =>
      obtain ⟨m, first, hpast, -, hcounted⟩ := counted_of_not_begins hbegins
      rw [hcounted, Option.some.injEq, Prod.mk.injEq] at h
      rw [← h.1]
      exact Nat.succ_le_succ (ih hpast)

/-- What is counted lies between the first one counted and the newest one, not further apart than
the window's length. -/
theorem counted_spec {n : Nat} {start : Int} (hsorted : history.Pairwise (· ≥ ·))
    (h : counted length history = some (n, start)) :
    1 ≤ n ∧ (∀ s ∈ history.take n, start ≤ s) ∧ ∀ t ∈ history.head?, n = 1 ∨
      t - start ≤ length := by
  induction history generalizing n start with
  | nil => cases h
  | cons t past ih =>
    cases hbegins : begins length (t :: past) with
    | true =>
      rw [counted_of_begins hbegins, Option.some.injEq, Prod.mk.injEq] at h
      obtain ⟨rfl, rfl⟩ := h
      refine ⟨Nat.le_refl 1, ?_, fun _ _ => .inl rfl⟩
      intro s hs
      rw [List.take_succ_cons, List.take_zero, List.mem_singleton] at hs
      exact Int.le_of_eq hs.symm
    | false =>
      obtain ⟨m, first, hpast, hwithin, hcounted⟩ := counted_of_not_begins hbegins
      rw [hcounted, Option.some.injEq, Prod.mk.injEq] at h
      obtain ⟨rfl, rfl⟩ := h
      obtain ⟨hnewer, hsorted⟩ := List.pairwise_cons.mp hsorted
      obtain ⟨hone, hstart, -⟩ := ih hsorted hpast
      refine ⟨by omega, ?_, ?_⟩
      · intro s hs
        rw [List.take_succ_cons, List.mem_cons] at hs
        rcases hs with rfl | hs
        · obtain ⟨u, hu⟩ := List.exists_mem_of_ne_nil (past.take m) (by
            rw [ne_eq, List.take_eq_nil_iff]
            rintro (rfl | rfl)
            · omega
            · cases hpast)
          exact Int.le_trans (hstart u hu) (hnewer u (List.mem_of_mem_take hu))
        · exact hstart s hs
      · intro u hu
        rw [List.head?_cons, Option.mem_some_iff] at hu
        rw [← hu]
        exact .inr hwithin

theorem counted_le_recent {n : Nat} {start : Int} (hsorted : history.Pairwise (· ≥ ·))
    (h : counted length history = some (n, start)) : n ≤ recent length history := by
  cases history with
  | nil => cases h
  | cons t past =>
    obtain ⟨-, hstart, hhead⟩ := counted_spec hsorted h
    have hle := counted_le_length h
    rw [recent]
    rcases hhead t rfl with rfl | hwithin
    · omega
    · have hall : ∀ s ∈ past.take (n - 1), decide (t - s ≤ length) = true := by
        intro s hs
        have hmem : s ∈ (t :: past).take n := by
          cases n with
          | zero => cases hs
          | succ n => exact List.mem_cons_of_mem t hs
        have hs := hstart s hmem
        exact decide_eq_true (by omega)
      have hcount := List.countP_eq_length.mpr hall
      have hsub :=
        (List.take_sublist (n - 1) past).countP_le (p := fun s => decide (t - s ≤ length))
      rw [List.length_cons] at hle
      rw [hcount, List.length_take] at hsub
      omega

end Window

end Fcam
