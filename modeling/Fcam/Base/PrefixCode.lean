import Mathlib.Data.List.Basic
import Mathlib.Tactic.Common

/-!
# Codes no word of which begins another

A text is encoded symbol by symbol and closed by a symbol that begins no code word, as the
characters of a string literal are escaped and closed by a quote. What follows the closing symbol
does not matter to where the text ends, so two encoded texts with a common rest agree up to a place
exactly where their codes alone do.
-/

namespace Fcam

variable {α β : Type}

/-- No code word begins another. -/
structure PrefixCode (encode : α → List β) : Prop where
  nonempty : ∀ a, encode a ≠ []
  eq_of_append : ∀ {a b : α} {x y : List β}, encode a ++ x = encode b ++ y → a = b

namespace PrefixCode

variable {encode : α → List β} {stop : β} {p q : List α} {x y : List β}

theorem append_inj (h : PrefixCode encode) {a b : α} (heq : encode a ++ x = encode b ++ y) :
    a = b ∧ x = y := by
  obtain rfl := h.eq_of_append heq
  exact ⟨rfl, List.append_cancel_left heq⟩

theorem flatMap_injective (h : PrefixCode encode)
    (heq : p.flatMap encode = q.flatMap encode) : p = q := by
  induction p generalizing q with
  | nil =>
    cases q with
    | nil => rfl
    | cons b q =>
      rw [List.flatMap_nil, List.flatMap_cons] at heq
      exact absurd (List.append_eq_nil_iff.mp heq.symm).1 (h.nonempty b)
  | cons a p ih =>
    cases q with
    | nil =>
      rw [List.flatMap_nil, List.flatMap_cons] at heq
      exact absurd (List.append_eq_nil_iff.mp heq).1 (h.nonempty a)
    | cons b q =>
      rw [List.flatMap_cons, List.flatMap_cons] at heq
      obtain ⟨rfl, hrest⟩ := h.append_inj heq
      rw [ih hrest]

theorem flatMap_stop (h : PrefixCode encode) (hstop : ∀ a, (encode a).head? ≠ some stop)
    (heq : p.flatMap encode ++ stop :: x = q.flatMap encode ++ stop :: y) : p = q := by
  have hhead : ∀ (a : α) (rest : List β), (encode a ++ rest).head? ≠ some stop := by
    intro a rest
    rw [List.head?_append_of_ne_nil _ (h.nonempty a)]
    exact hstop a
  induction p generalizing q with
  | nil =>
    cases q with
    | nil => rfl
    | cons b q =>
      rw [List.flatMap_nil, List.flatMap_cons, List.append_assoc] at heq
      exact absurd (congrArg List.head? heq.symm) (hhead b _)
  | cons a p ih =>
    cases q with
    | nil =>
      rw [List.flatMap_nil, List.flatMap_cons, List.append_assoc] at heq
      exact absurd (congrArg List.head? heq) (hhead a _)
    | cons b q =>
      rw [List.flatMap_cons, List.flatMap_cons, List.append_assoc, List.append_assoc] at heq
      obtain ⟨rfl, hrest⟩ := h.append_inj heq
      rw [ih hrest]

end PrefixCode

/-! ### Closed texts, up to a place -/

section

variable {stop : β} {p q x y : List β} {k : Nat}

theorem eq_of_take_closed (hclosed : ∀ {x y : List β}, p ++ stop :: x = q ++ stop :: y → p = q)
    (hlt : p.length < k) (heq : (p ++ stop :: x).take k = (q ++ stop :: y).take k) : p = q := by
  obtain ⟨n, rfl⟩ := Nat.exists_eq_add_of_lt hlt
  have hshown : (p ++ stop :: x).take (p.length + n + 1) = p ++ stop :: x.take n := by
    rw [Nat.add_assoc, List.take_length_add_append, List.take_succ_cons]
  have hsplit := List.take_append_drop (p.length + n + 1) (q ++ stop :: y)
  rw [← heq, hshown, List.append_assoc, List.cons_append] at hsplit
  exact hclosed hsplit

theorem eq_of_take (hlt : p.length < k) (heq : p.take k = q.take k) : p = q := by
  have hlength := congrArg List.length heq
  rw [List.length_take, List.length_take] at hlength
  rwa [List.take_of_length_le (Nat.le_of_lt hlt), List.take_of_length_le (by omega)] at heq

theorem take_closed_iff (hclosed : ∀ {x y : List β}, p ++ stop :: x = q ++ stop :: y → p = q)
    (hrest : p = q → x = y) :
    (p ++ stop :: x).take k = (q ++ stop :: y).take k ↔ p.take k = q.take k := by
  by_cases hp : p.length < k
  · constructor
    · intro heq
      rw [eq_of_take_closed hclosed hp heq]
    · intro heq
      obtain rfl := eq_of_take hp heq
      rw [hrest rfl]
  · by_cases hq : q.length < k
    · constructor
      · intro heq
        rw [eq_of_take_closed (fun heq => (hclosed heq.symm).symm) hq heq.symm]
      · intro heq
        obtain rfl := eq_of_take hq heq.symm
        rw [hrest rfl]
    · rw [List.take_append_of_le_length (by omega), List.take_append_of_le_length (by omega)]

end

end Fcam
