import Mathlib.Data.List.Nodup
import Mathlib.Tactic.Common

/-!
# Sorted sets

A set of members with scores, as Redis keeps it under a key: no member is in it twice, a set without
members is no key and has no time to expire, and every change of the set counts as a new version,
which is what `WATCH` looks at. `Evolves` says what those who watch a set can rely on across a
change, and `Covered` that no member is lost with its key too early.
-/

namespace Fcam

structure ScoredSet (τ : Type) where
  members : List (τ × Int)
  distinct : (members.map Prod.fst).Nodup
  expiresAt : Option Int
  version : Nat

namespace ScoredSet

variable {τ : Type}

def empty : ScoredSet τ where
  members := []
  distinct := List.nodup_nil
  expiresAt := none
  version := 0

/-- `ZCARD`. -/
def zcard (s : ScoredSet τ) : Nat := s.members.length

/-- The members with a property. -/
def keep (p : τ × Int → Bool) (s : ScoredSet τ) : ScoredSet τ where
  members := s.members.filter p
  distinct := List.Nodup.sublist (List.filter_sublist.map _) s.distinct
  expiresAt := if (s.members.filter p).isEmpty then none else s.expiresAt
  version := if (s.members.filter p).length = s.members.length then s.version else s.version + 1

/-- `ZREMRANGEBYSCORE key -inf score`. -/
def zremrangebyscore (score : Int) : ScoredSet τ → ScoredSet τ :=
  keep fun member => score < member.2

/-- `EXPIRE`, of a set that has members. -/
def expire (t : Int) (s : ScoredSet τ) : ScoredSet τ :=
  { s with expiresAt := some t, version := s.version + 1 }

/-- The set under a key that has expired; a transaction may not notice. -/
def gone (noticed : Bool) (s : ScoredSet τ) : ScoredSet τ where
  members := []
  distinct := List.nodup_nil
  expiresAt := none
  version := if noticed then s.version + 1 else s.version

section

variable [DecidableEq τ]

/-- `ZREM`. -/
def zrem (token : τ) : ScoredSet τ → ScoredSet τ := keep fun member => member.1 ≠ token

/-- `ZADD`. -/
def zadd (token : τ) (score : Int) (s : ScoredSet τ) : ScoredSet τ where
  members := s.members.filter (fun member => member.1 ≠ token) ++ [(token, score)]
  distinct := by
    rw [List.map_append, List.map_singleton, List.nodup_append]
    refine ⟨List.Nodup.sublist (List.filter_sublist.map _) s.distinct, List.nodup_singleton _, ?_⟩
    intro a ha b hb
    obtain ⟨member, hmember, rfl⟩ := List.mem_map.mp ha
    rw [List.mem_singleton.mp hb]
    exact of_decide_eq_true (List.mem_filter.mp hmember).2
  expiresAt := s.expiresAt
  version := s.version + 1

end

variable {s s' s'' : ScoredSet τ} {p : τ × Int → Bool} {member : τ × Int}

theorem mem_keep : member ∈ (s.keep p).members ↔ member ∈ s.members ∧ p member = true :=
  List.mem_filter

theorem mem_zremrangebyscore {score : Int} :
    member ∈ (s.zremrangebyscore score).members ↔ member ∈ s.members ∧ score < member.2 := by
  rw [zremrangebyscore, mem_keep, decide_eq_true_eq]

theorem mem_zadd [DecidableEq τ] {token : τ} {score : Int} :
    member ∈ (s.zadd token score).members ↔
      member ∈ s.members ∧ member.1 ≠ token ∨ member = (token, score) := by
  show member ∈ s.members.filter _ ++ [(token, score)] ↔ _
  rw [List.mem_append, List.mem_filter, List.mem_singleton, decide_eq_true_eq]

theorem mem_zrem [DecidableEq τ] {token : τ} :
    member ∈ (s.zrem token).members ↔ member ∈ s.members ∧ member.1 ≠ token := by
  rw [zrem, mem_keep, decide_eq_true_eq]

/-- What becomes of a set while it is watched: a version that stays has no more members. -/
structure Evolves (s s' : ScoredSet τ) : Prop where
  version : s.version ≤ s'.version
  card : s'.version = s.version → s'.zcard ≤ s.zcard

theorem Evolves.refl (s : ScoredSet τ) : Evolves s s := ⟨Nat.le_refl _, fun _ => Nat.le_refl _⟩

theorem Evolves.trans (h : Evolves s s') (h' : Evolves s' s'') : Evolves s s'' := by
  have hversion := h.version
  have hversion' := h'.version
  refine ⟨Nat.le_trans hversion hversion', ?_⟩
  intro hsame
  exact Nat.le_trans (h'.card (by omega)) (h.card (by omega))

theorem evolves_keep (s : ScoredSet τ) (p : τ × Int → Bool) : Evolves s (s.keep p) := by
  refine ⟨?_, fun _ => List.length_filter_le _ _⟩
  show s.version ≤ if _ then _ else _
  split
  · exact Nat.le_refl _
  · exact Nat.le_succ _

theorem evolves_expire (t : Int) (s : ScoredSet τ) : Evolves s (s.expire t) :=
  ⟨Nat.le_succ _, fun hsame => absurd hsame (Nat.succ_ne_self _)⟩

theorem evolves_gone (s : ScoredSet τ) (noticed : Bool) : Evolves s (s.gone noticed) := by
  refine ⟨?_, fun _ => Nat.zero_le _⟩
  show s.version ≤ if _ then _ else _
  split
  · exact Nat.le_succ _
  · exact Nat.le_refl _

theorem evolves_zadd [DecidableEq τ] (s : ScoredSet τ) (token : τ) (score : Int) :
    Evolves s (s.zadd token score) :=
  ⟨Nat.le_succ _, fun hsame => absurd hsame (Nat.succ_ne_self _)⟩

/-! ### What the time to expire covers -/

/-- The key expires after all its members. -/
def Covered (s : ScoredSet τ) : Prop :=
  ∀ t, s.expiresAt = some t → ∀ member ∈ s.members, member.2 ≤ t

theorem Covered.keep (h : s.Covered) (p : τ × Int → Bool) : (s.keep p).Covered := by
  intro t hexpires member hmember
  have hexpires' : (if (s.members.filter p).isEmpty then none else s.expiresAt) = some t := hexpires
  split at hexpires'
  · cases hexpires'
  · exact h t hexpires' member (mem_keep.mp hmember).1

theorem covered_gone (s : ScoredSet τ) (noticed : Bool) : (s.gone noticed).Covered := by
  intro t _ member hmember
  cases hmember

end ScoredSet

end Fcam
