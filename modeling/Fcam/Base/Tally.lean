import Mathlib.Algebra.BigOperators.Group.List.Basic
import Mathlib.Algebra.Order.BigOperators.Group.List
import Mathlib.Algebra.Order.Ring.Nat
import Mathlib.Tactic.Abel

/-!
# Sums over a list of processes

What the processes of a run contribute to a quantity: a count of those in some state, a sum of what
they carry. One process moving changes the sum by its own contribution.
-/

namespace Fcam

variable {σ M : Type} [AddCommMonoid M]

/-- The sum of what every process contributes. -/
def tally (f : σ → M) (processes : List σ) : M := (processes.map f).sum

@[simp] theorem tally_nil (f : σ → M) : tally f [] = 0 := rfl

theorem tally_cons (f : σ → M) (p : σ) (rest : List σ) :
    tally f (p :: rest) = f p + tally f rest := by
  simp [tally]

@[simp] theorem tally_concat (f : σ → M) (processes : List σ) (p : σ) :
    tally f (processes ++ [p]) = tally f processes + f p := by
  simp [tally]

theorem tally_set (f : σ → M) {processes : List σ} {i : Nat} {old : σ} (new : σ)
    (hget : processes[i]? = some old) :
    tally f (processes.set i new) + f old = tally f processes + f new := by
  induction processes generalizing i with
  | nil => cases hget
  | cons first rest ih =>
    cases i with
    | zero =>
      have hfirst : first = old := Option.some.inj hget
      rw [List.set_cons_zero, tally_cons, tally_cons, hfirst]
      abel
    | succ i =>
      rw [List.set_cons_succ, tally_cons, tally_cons, add_assoc, ih hget, add_assoc]

theorem tally_set_of_eq (f : σ → M) {processes : List σ} {i : Nat} {old new : σ}
    (hget : processes[i]? = some old) (heq : f new = f old) :
    tally f (processes.set i new) = tally f processes := by
  induction processes generalizing i with
  | nil => rfl
  | cons first rest ih =>
    cases i with
    | zero =>
      have hfirst : first = old := Option.some.inj hget
      rw [List.set_cons_zero, tally_cons, tally_cons, heq, hfirst]
    | succ i => rw [List.set_cons_succ, tally_cons, tally_cons, ih hget]

theorem tally_add (f g : σ → M) (processes : List σ) :
    tally (fun p => f p + g p) processes = tally f processes + tally g processes := by
  induction processes with
  | nil => simp
  | cons p rest ih =>
    rw [tally_cons, tally_cons, tally_cons, ih]
    abel

theorem tally_congr {f g : σ → M} {processes : List σ} (h : ∀ p ∈ processes, f p = g p) :
    tally f processes = tally g processes := by
  rw [tally, tally, List.map_congr_left h]

theorem tally_le {f g : σ → Nat} {processes : List σ} (h : ∀ p ∈ processes, f p ≤ g p) :
    tally f processes ≤ tally g processes :=
  List.sum_le_sum h

/-! ### Comparing sums -/

section

variable {f g : σ → Nat} {processes : List σ}

theorem tally_eq_iff_of_le (hle : ∀ p ∈ processes, f p ≤ g p) :
    tally f processes = tally g processes ↔ ∀ p ∈ processes, f p = g p := by
  induction processes with
  | nil => exact iff_of_true rfl (List.forall_mem_nil _)
  | cons p rest ih =>
    obtain ⟨hfirst, hrest⟩ := List.forall_mem_cons.mp hle
    have hsum := tally_le hrest
    rw [tally_cons, tally_cons, List.forall_mem_cons, ← ih hrest]
    omega

theorem tally_eq_zero_iff : tally f processes = 0 ↔ ∀ p ∈ processes, f p = 0 := by
  induction processes with
  | nil => exact iff_of_true rfl (List.forall_mem_nil _)
  | cons p rest ih =>
    rw [tally_cons, List.forall_mem_cons, ← ih]
    omega

theorem tally_sub_iff :
    tally f processes - tally g processes = tally (fun p => f p - g p) processes ↔
      (∀ p ∈ processes, g p ≤ f p) ∨ ∀ p ∈ processes, f p ≤ g p := by
  have hbalance : tally f processes + tally (fun p => g p - f p) processes =
      tally g processes + tally (fun p => f p - g p) processes := by
    rw [← tally_add, ← tally_add]
    apply tally_congr
    intro p _
    omega
  have hover : (∀ p ∈ processes, g p ≤ f p) ↔ tally (fun p => g p - f p) processes = 0 := by
    rw [tally_eq_zero_iff]
    apply forall₂_congr
    intro p _
    omega
  have hunder : (∀ p ∈ processes, f p ≤ g p) ↔ tally (fun p => f p - g p) processes = 0 := by
    rw [tally_eq_zero_iff]
    apply forall₂_congr
    intro p _
    omega
  rw [hover, hunder]
  omega

theorem countP_eq_countP_iff {p q : σ → Bool} (l : List σ) :
    l.countP p = l.countP q ↔ l.countP (fun x => p x && !q x) = l.countP fun x => q x && !p x := by
  have hsplit : ∀ p q :
      σ → Bool, l.countP p = l.countP (fun x => p x && q x) + l.countP fun x => p x && !q x := by
    intro p q
    rw [List.countP_eq_countP_filter_add l p q, List.countP_filter, List.countP_filter]
  have hboth : l.countP (fun x => p x && q x) = l.countP fun x => q x && p x := by
    simp only [Bool.and_comm]
  rw [hsplit p q, hsplit q p, hboth]
  omega

end

end Fcam
