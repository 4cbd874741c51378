import Mathlib.Logic.Function.Basic
import Mathlib.Tactic.Common

/-!
# Leases

`ConcurrencyManager` counts the leases that are out, by key, in memory; a `Lease` gives its own back
at most once. The keys the gateway asks with are the ids of rows, in decimal.
-/

namespace Fcam

/-- `_State`. -/
structure LeaseState where
  current : Nat := 0
  maximum : Nat := 0
deriving DecidableEq

/-- A lease, by what releasing it does: nothing, or giving back one lease of a key. -/
structure Lease (κ : Type := Nat) where
  releases : Option κ
  released : Bool := false
deriving DecidableEq

structure ConcurrencyManager (κ : Type := Nat) where
  states : κ → Option LeaseState := fun _ => none

variable {κ : Type} [DecidableEq κ]

namespace ConcurrencyManager

variable (m : ConcurrencyManager κ) (key : κ)

def current : Nat := ((m.states key).map LeaseState.current).getD 0

def put (state : LeaseState) : ConcurrencyManager κ :=
  { states := Function.update m.states key (some state) }

def tryAcquire (maximum : Nat) : Option (Lease κ) × ConcurrencyManager κ :=
  if maximum = 0 then (some { releases := none }, m)
  else
    let state : LeaseState := { (m.states key).getD {} with maximum }
    if state.maximum ≤ state.current then (none, m.put key state)
    else (some { releases := some key }, m.put key { state with current := state.current + 1 })

/-- `_release`. -/
def giveBack : ConcurrencyManager κ :=
  match m.states key with
  | none => m
  | some state => m.put key { state with current := state.current - 1 }

def release (lease : Lease κ) : Lease κ × ConcurrencyManager κ :=
  if lease.released then (lease, m)
  else ({ lease with released := true }, lease.releases.elim m m.giveBack)

variable {m key}

theorem put_current (state : LeaseState) (other : κ) :
    (m.put key state).current other = if other = key then state.current else m.current other := by
  simp only [current, put, Function.update_apply]
  split
  · rfl
  · rfl

theorem giveBack_current (other : κ) :
    (m.giveBack key).current other = if other = key then m.current key - 1
      else m.current other := by
  rw [giveBack]
  cases hstate : m.states key with
  | none =>
    by_cases heq : other = key
    · simp [heq, current, hstate]
    · simp [heq]
  | some state =>
    have hcurrent : m.current key = state.current := by rw [current, hstate]; rfl
    simp only [put_current, hcurrent]

variable {m' : ConcurrencyManager κ}

theorem tryAcquire_congr (maximum : Nat) (h : m.states key = m'.states key) :
    (m.tryAcquire key maximum).1 = (m'.tryAcquire key maximum).1 ∧
      (m.tryAcquire key maximum).2.states key = (m'.tryAcquire key maximum).2.states key := by
  simp only [tryAcquire, put, h]
  split
  · exact ⟨rfl, h⟩
  split
  · exact ⟨rfl, by simp only [Function.update_self]⟩
  · exact ⟨rfl, by simp only [Function.update_self]⟩

theorem tryAcquire_of_ne (maximum : Nat) {other : κ} (hne : other ≠ key) :
    (m.tryAcquire key maximum).2.states other = m.states other := by
  simp only [tryAcquire, put]
  split
  · rfl
  split
  · exact Function.update_of_ne hne _ _
  · exact Function.update_of_ne hne _ _

theorem giveBack_congr (h : m.states key = m'.states key) :
    (m.giveBack key).states key = (m'.giveBack key).states key := by
  simp only [giveBack, put, h]
  split
  · exact h
  · simp only [Function.update_self]

theorem giveBack_of_ne {other : κ} (hne : other ≠ key) :
    (m.giveBack key).states other = m.states other := by
  simp only [giveBack, put]
  split
  · rfl
  · exact Function.update_of_ne hne _ _

end ConcurrencyManager

/-- What a lease counts for in the manager's count of a key. -/
def Lease.weight (key : κ) (lease : Lease κ) : Nat :=
  if lease.releases = some key ∧ lease.released = false then 1 else 0

namespace ConcurrencyManager

variable {m m' : ConcurrencyManager κ} {key : κ} {maximum : Nat} {lease : Lease κ}

/-- A granted lease adds what it counts for; a lease that counts is granted below the maximum
only. -/
theorem tryAcquire_granted (hgranted : m.tryAcquire key maximum = (some lease, m')) :
    lease.released = false ∧ (∀ other, m'.current other = m.current other + lease.weight other) ∧
      (0 < maximum → lease.releases = some key ∧ m.current key < maximum) := by
  rw [tryAcquire] at hgranted
  split at hgranted
  · next hzero =>
    cases hgranted
    exact ⟨rfl, fun other => by simp [Lease.weight],
      fun hpos => absurd hzero (Nat.pos_iff_ne_zero.mp hpos)⟩
  · simp only at hgranted
    split at hgranted
    · cases hgranted
    next hroom =>
    cases hgranted
    have hcurrent : ((m.states key).getD {}).current = m.current key := by
      rw [current]
      cases m.states key <;> rfl
    rw [hcurrent] at hroom ⊢
    refine ⟨rfl, fun other => ?_, fun _ => ⟨rfl, by omega⟩⟩
    rw [put_current, Lease.weight]
    by_cases heq : other = key
    · simp [heq]
    · simp [heq, Ne.symm heq]

theorem tryAcquire_refused (hrefused : m.tryAcquire key maximum = (none, m')) (other : κ) :
    m'.current other = m.current other := by
  rw [tryAcquire] at hrefused
  split at hrefused
  · cases hrefused
  · simp only at hrefused
    split at hrefused
    · cases hrefused
      rw [put_current]
      split
      · next heq =>
        rw [heq, current]
        cases m.states key <;> rfl
      · rfl
    · cases hrefused

theorem release_current (hout : ∀ other, lease.weight other ≤ m.current other) (other : κ) :
    (m.release lease).2.current other + lease.weight other = m.current other := by
  have hother := hout other
  rw [release]
  split
  · next hreleased => simp [Lease.weight, hreleased]
  next hreleased =>
  cases hkey : lease.releases with
  | none => simp [Lease.weight, hkey]
  | some key =>
    rw [Lease.weight, hkey] at hother ⊢
    simp only [Option.elim_some, giveBack_current]
    by_cases heq : other = key
    · simp only [heq, hreleased, and_self, if_true] at hother ⊢
      omega
    · simp [heq, Ne.symm heq]

theorem release_released : (m.release lease).1.released = true := by
  rw [release]
  split
  · next hreleased => exact hreleased
  · rfl

/-- A second release does nothing. -/
theorem release_again : (m.release lease).2.release (m.release lease).1 = m.release lease := by
  rw [release, if_pos release_released]

end ConcurrencyManager

/-! ### A history of calls -/

/-- A lease that was handed out, and what was asked for. -/
structure Handed (κ : Type) where
  key : κ
  maximum : Int
  lease : Lease κ

structure LeaseHistory (κ : Type) where
  manager : ConcurrencyManager κ := {}
  handed : List (Handed κ) := []

/-- A call of `try_acquire`, or of `release` on the lease handed out as the `i`th. -/
inductive LeaseCall (κ : Type) where
  | tryAcquire (key : κ) (maximum : Int)
  | release (i : Nat)

namespace LeaseHistory

/-- One call; a maximum below 1 asks for no lease of its key. -/
def call (history : LeaseHistory κ) : LeaseCall κ → LeaseHistory κ
  | .tryAcquire key maximum =>
    match history.manager.tryAcquire key maximum.toNat with
    | (some lease, manager) => { manager, handed := history.handed ++ [{ key, maximum, lease }] }
    | (none, manager) => { history with manager }
  | .release i =>
    match history.handed[i]? with
    | some given =>
      let (lease, manager) := history.manager.release given.lease
      { manager, handed := history.handed.set i { given with lease } }
    | none => history

def run (calls : List (LeaseCall κ)) : LeaseHistory κ := calls.foldl call {}

end LeaseHistory

/-- Whether a lease is one of the leases of a key that are out. -/
def Handed.weight (key : κ) (given : Handed κ) : Nat :=
  if given.key = key ∧ 0 < given.maximum ∧ given.lease.released = false then 1 else 0

end Fcam
