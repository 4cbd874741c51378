import Fcam.Base.Table

/-!
# Columns with distinct values

Rows by their ids, as a table looks them up, and a column no two of them have the same value in:
kept where every row has its value from a row of the same id, and where one row is written with a
value no other row has. Lists that are related place by place are compared by `Option.Rel` too.
-/

namespace Option.Rel

variable {α β γ δ : Type} {a : Option α} {b : Option β} {r : α → β → Prop}

theorem exists_of_some_right {y : β} (h : Option.Rel r a b) (hsome : b = .some y) :
    ∃ x, a = .some x ∧ r x y := by
  subst hsome
  cases h with
  | some hrel => exact ⟨_, rfl, hrel⟩

theorem none_iff (h : Option.Rel r a b) : a = .none ↔ b = .none := by
  cases h with
  | none => exact iff_of_true rfl rfl
  | some _ =>
    constructor
    · intro hnone
      cases hnone
    · intro hnone
      cases hnone

theorem map_both {s : γ → δ → Prop} {f : α → γ} {g : β → δ} (h : Option.Rel r a b)
    (hrel : ∀ x y, r x y → s (f x) (g y)) :
    Option.Rel s (a.map f) (b.map g) := by
  cases h with
  | none => exact .none
  | some hxy => exact .some (hrel _ _ hxy)

theorem getElem?_concat {l : List α} {l' : List β} {x : α} {y : β}
    (h : ∀ i : Nat, Option.Rel r (l[i]?) (l'[i]?)) (hxy : r x y) (i : Nat) :
    Option.Rel r ((l ++ [x])[i]?) ((l' ++ [y])[i]?) := by
  have hlength : l.length = l'.length := by
    have hle :=
      List.getElem?_eq_none_iff.mp
        ((h l.length).none_iff.mp (List.getElem?_eq_none (Nat.le_refl _)))
    have hge :=
      List.getElem?_eq_none_iff.mp
        ((h l'.length).none_iff.mpr (List.getElem?_eq_none (Nat.le_refl _)))
    omega
  rw [List.getElem?_append, List.getElem?_append, hlength]
  split
  · exact h i
  · cases i - l'.length with
    | zero => exact .some hxy
    | succ k => exact .none

end Option.Rel

namespace Fcam

variable {ρ κ : Type} {column : ρ → κ} {before after : Nat → Option ρ}

/-- No two rows have one value in a column. -/
def DistinctBy (column : ρ → κ) (row? : Nat → Option ρ) : Prop :=
  ∀ i j r s, row? i = some r → row? j = some s → column r = column s → i = j

namespace DistinctBy

theorem narrowed (h : DistinctBy column before)
    (hbefore : ∀ i r, after i = some r → ∃ s, before i = some s ∧ column r = column s) :
    DistinctBy column after := by
  intro i j r s hr hs hsame
  obtain ⟨r', hr', hcolumn⟩ := hbefore i r hr
  obtain ⟨s', hs', hcolumn'⟩ := hbefore j s hs
  exact h i j r' s' hr' hs' (hcolumn.symm.trans (hsame.trans hcolumn'))

theorem written (h : DistinctBy column before) {i : Nat} {r : ρ} (hrow : after i = some r)
    (hothers : ∀ j, j ≠ i → after j = before j)
    (hfresh : ∀ j s, j ≠ i → before j = some s → column s ≠ column r) :
    DistinctBy column after := by
  have hother : ∀ j s, j ≠ i → after j = some s → column s ≠ column r := fun j s hne hs =>
    hfresh j s hne (hothers j hne ▸ hs)
  intro j k s t hs ht hsame
  by_cases hj : j = i
  · obtain rfl := Option.some.inj (hrow.symm.trans (hj ▸ hs))
    by_contra hne
    exact hother k t (fun heq => hne (hj.trans heq.symm)) ht hsame.symm
  by_cases hk : k = i
  · obtain rfl := Option.some.inj (hrow.symm.trans (hk ▸ ht))
    exact absurd hsame (hother j s hj hs)
  · exact h j k s t (hothers j hj ▸ hs) (hothers k hk ▸ ht) hsame

end DistinctBy

end Fcam
