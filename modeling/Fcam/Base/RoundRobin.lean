import Mathlib.Data.List.Rotate
import Mathlib.Data.List.TakeWhile

/-!
# Round robin

The items of a list are looked at in cyclic order from a position, some are passed over, one is
picked, and the next turn begins behind it. In the order of the next turn the picked item is the
last, those passed over stand before it, and those behind it come first. What stays acceptable is
therefore never overtaken by an item that has been picked, and what stands before it shrinks with
every pick.
-/

namespace Fcam

variable {α : Type}

/-- The order of the turn after one that passed these over and picked `x`. -/
def nextOrder (passed : List α) (x : α) (rest : List α) : List α := rest ++ passed ++ [x]

variable {items passed rest : List α} {x c a : α}

theorem perm_nextOrder : List.Perm (nextOrder passed x rest) (passed ++ x :: rest) := by
  unfold nextOrder
  rw [List.append_assoc]
  refine List.perm_append_comm.trans ?_
  simp

theorem rotate_succ_of_zipIdx_rotate {start idx : Nat} {passed rest : List (α × Nat)}
    (h : items.zipIdx.rotate start = passed ++ (x, idx) :: rest) :
    items.rotate (idx + 1) = nextOrder (passed.map Prod.fst) x (rest.map Prod.fst) := by
  have hlength : passed.length < (items.zipIdx.rotate start).length := by
    rw [h, List.length_append, List.length_cons]
    omega
  have hidx : idx = (passed.length + start) % items.length := by
    have hget : (items.zipIdx.rotate start)[passed.length] = (x, idx) := by simp [h]
    rw [List.getElem_rotate, List.getElem_zipIdx] at hget
    simpa using (congrArg Prod.snd hget).symm
  have hturn :
      items.zipIdx.rotate (start + (passed.length + 1)) = rest ++ (passed ++ [(x, idx)]) := by
    have hsplit : passed ++ (x, idx) :: rest = (passed ++ [(x, idx)]) ++ rest := by simp
    have hcount : passed.length + 1 = (passed ++ [(x, idx)]).length := by simp
    rw [← List.rotate_rotate, h, hsplit, hcount, List.rotate_append_length_eq]
  have hitems :
      items.rotate (start + (passed.length + 1)) = (rest ++ (passed ++ [(x, idx)])).map
        Prod.fst := by
    rw [← hturn, List.map_rotate, List.zipIdx_map_fst]
  have hmod : items.rotate (idx + 1) = items.rotate (start + (passed.length + 1)) := by
    rw [hidx, ← List.rotate_rotate, List.rotate_mod, List.rotate_rotate]
    congr 1
    omega
  rw [hmod, hitems, nextOrder]
  simp

/-! ### Nobody is overtaken -/

theorem sublist_nextOrder_of_picked (hmem : c ∈ passed ++ x :: rest) (hne : c ≠ x) :
    [c, x].Sublist (nextOrder passed x rest) := by
  have hbefore : c ∈ rest ++ passed := by
    rw [List.mem_append, List.mem_cons] at hmem
    rw [List.mem_append]
    tauto
  exact (List.singleton_sublist.mpr hbefore).append (List.Sublist.refl [x])

theorem sublist_nextOrder (hnodup : (passed ++ x :: rest).Nodup)
    (hbefore : [c, a].Sublist (passed ++ x :: rest)) (hpassed : c ∉ passed) (hne : c ≠ x) :
    a ≠ x ∧ [c, a].Sublist (nextOrder passed x rest) := by
  have hrest : [c, a].Sublist rest := by
    obtain ⟨first, second, heq, hfirst, hsecond⟩ := List.sublist_append_iff.mp hbefore
    cases first with
    | nil =>
      rw [List.nil_append] at heq
      rw [← heq] at hsecond
      exact (List.cons_sublist_cons'.mp hsecond).resolve_right fun h => hne h.1
    | cons y first =>
      rw [List.cons_append, List.cons.injEq] at heq
      exact absurd (heq.1 ▸ hfirst.subset List.mem_cons_self) hpassed
  have hxrest : x ∉ rest := (List.nodup_cons.mp (List.nodup_append.mp hnodup).2.1).1
  refine ⟨?_, ?_⟩
  · rintro rfl
    exact hxrest (hrest.subset (by simp))
  · unfold nextOrder
    rw [List.append_assoc]
    exact hrest.trans (List.sublist_append_left _ _)

/-! ### Nobody waits for long -/

/-- What is looked at before an item. -/
def ahead [DecidableEq α] (c : α) (order : List α) : List α := order.takeWhile (· ≠ c)

theorem ahead_append_of_mem [DecidableEq α] {first : List α} (hmem : c ∈ first) (second : List α) :
    ahead c (first ++ second) = ahead c first := by
  induction first with
  | nil => cases hmem
  | cons y first ih =>
    by_cases hy : y = c
    · simp [ahead, hy]
    · have hrest : c ∈ first := (List.mem_cons.mp hmem).resolve_left fun h => hy h.symm
      have hstep := ih hrest
      unfold ahead at hstep ⊢
      rw [List.cons_append, List.takeWhile_cons_of_pos (by simpa using hy),
        List.takeWhile_cons_of_pos (by simpa using hy), hstep]

theorem ahead_eq_of_picked [DecidableEq α] (hpassed : c ∉ passed) (hne : c ≠ x) (hmem : c ∈ rest) :
    ahead c (passed ++ x :: rest) = passed ++ x :: ahead c (nextOrder passed x rest) := by
  have hskip : ∀ y ∈ passed, decide (y ≠ c) = true := by
    intro y hy
    rw [decide_eq_true_eq]
    rintro rfl
    exact hpassed hy
  unfold nextOrder
  rw [List.append_assoc, ahead_append_of_mem hmem]
  unfold ahead
  rw [List.takeWhile_append_of_pos hskip, List.takeWhile_cons_of_pos (by simpa using hne.symm)]

theorem countP_ahead_lt_of_picked [DecidableEq α] {p : α → Bool} (hpassed : c ∉ passed)
    (hne : c ≠ x) (hmem : c ∈ rest) (hp : p x = true) :
    (ahead c (nextOrder passed x rest)).countP p < (ahead c (passed ++ x :: rest)).countP p := by
  rw [ahead_eq_of_picked hpassed hne hmem, List.countP_append, List.countP_cons_of_pos hp]
  omega

theorem countP_ahead_lt [DecidableEq α] {p : α → Bool} {order : List α} (hmem : c ∈ order)
    (hp : p c = true) :
    (ahead c order).countP p < order.countP p := by
  induction order with
  | nil => cases hmem
  | cons y order ih =>
    by_cases hy : y = c
    · rw [hy, List.countP_cons_of_pos hp]
      simp [ahead]
    · have hrest : c ∈ order := (List.mem_cons.mp hmem).resolve_left fun h => hy h.symm
      have hstep := ih hrest
      unfold ahead at hstep ⊢
      rw [List.takeWhile_cons_of_pos (by simpa using hy), List.countP_cons, List.countP_cons]
      omega

/-! ### Everybody has a turn -/

theorem filter_of_picked {p : α → Bool} (hpassed : ∀ y ∈ passed, p y = false) (hx : p x = true) :
    (passed ++ x :: rest).filter p = x :: rest.filter p ∧
      (nextOrder passed x rest).filter p = rest.filter p ++ [x] := by
  have hnone : passed.filter p = [] := by
    rw [List.filter_eq_nil_iff]
    intro y hy
    rw [hpassed y hy]
    exact Bool.false_ne_true
  unfold nextOrder
  refine ⟨?_, ?_⟩
  · rw [List.filter_append, hnone, List.filter_cons_of_pos hx, List.nil_append]
  · rw [List.filter_append, List.filter_append, hnone, List.append_nil, List.filter_singleton, hx,
      cond_true]

end Fcam
