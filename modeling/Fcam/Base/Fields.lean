import Mathlib.Data.List.DropRight
import Mathlib.Tactic.Common

/-!
# Fields of a line

A line is split at a delimiter, its parts are trimmed, and the parts that are empty then are left
out. Trimming the line before leaves the fields as they are.
-/

namespace Fcam

variable {α : Type}

/-- A text without the characters around it that a predicate holds of. -/
def trim (p : α → Bool) (s : List α) : List α := (s.dropWhile p).rdropWhile p

section

variable {p : α → Bool} {x : α} {s : List α}

@[simp] theorem trim_nil : trim p [] = [] := rfl

theorem trim_cons_pos (hx : p x = true) : trim p (x :: s) = trim p s := by
  rw [trim, trim, List.dropWhile_cons, if_pos hx]

theorem trim_concat_pos (hx : p x = true) : trim p (s ++ [x]) = trim p s := by
  rw [trim, trim]
  by_cases hall : ∀ y ∈ s, p y = true
  · have hnil : s.dropWhile p = [] := List.dropWhile_eq_nil_iff.mpr hall
    have hnil' : (s ++ [x]).dropWhile p = [] := by
      rw [List.dropWhile_eq_nil_iff]
      intro y hy
      rcases List.mem_append.mp hy with hy | hy
      · exact hall y hy
      · rw [List.mem_singleton.mp hy]
        exact hx
    rw [hnil, hnil']
  · have happend : (s ++ [x]).dropWhile p = s.dropWhile p ++ [x] := by
      rw [List.dropWhile_append, if_neg]
      rwa [List.isEmpty_iff, List.dropWhile_eq_nil_iff]
    rw [happend, List.rdropWhile_concat_pos p _ x hx]

theorem trim_eq_self (hhead : ∀ y ∈ s.head?, p y = false) (hlast : ∀ y ∈ s.getLast?, p y = false) :
    trim p s = s := by
  have hdrop : s.dropWhile p = s := by
    cases s with
    | nil => rfl
    | cons y rest =>
      rw [List.dropWhile_cons, if_neg (by rw [hhead y rfl]; exact Bool.false_ne_true)]
  rw [trim, hdrop, List.rdropWhile]
  have hreverse : s.reverse.dropWhile p = s.reverse := by
    cases hs : s.reverse with
    | nil => rfl
    | cons y rest =>
      have hy : y ∈ s.getLast? := by rw [← List.head?_reverse, hs]; rfl
      rw [List.dropWhile_cons, if_neg (by rw [hlast y hy]; exact Bool.false_ne_true)]
  rw [hreverse, List.reverse_reverse]

theorem trim_sublist (p : α → Bool) (s : List α) : (trim p s).Sublist s :=
  (List.rdropWhile_prefix p (s.dropWhile p)).sublist.trans (List.dropWhile_sublist p)

theorem head_of_trimmed (hs : trim p s = s) : ∀ y ∈ s.head?, p y = false := by
  intro y hy
  cases s with
  | nil => cases hy
  | cons first rest =>
    obtain rfl := Option.some.inj hy
    rw [Bool.eq_false_iff]
    intro hfirst
    have hle := (trim_sublist p rest).length_le
    rw [← trim_cons_pos hfirst, hs, List.length_cons] at hle
    omega

theorem mem_trim (hx : p x = false) : x ∈ trim p s ↔ x ∈ s := by
  have hdrop : ∀ t : List α, x ∈ t.dropWhile p ↔ x ∈ t := by
    intro t
    induction t with
    | nil => rfl
    | cons y rest ih =>
      rw [List.dropWhile_cons]
      split
      · next hy =>
        have hne : x ≠ y := by
          rintro rfl
          exact Bool.false_ne_true (hx.symm.trans hy)
        rw [ih, List.mem_cons, or_iff_right hne]
      · rfl
  rw [trim, List.rdropWhile, List.mem_reverse, hdrop, List.mem_reverse, hdrop]

theorem head?_trim (hhead : ∀ y ∈ s.head?, p y = false) : (trim p s).head? = s.head? := by
  cases s with
  | nil => rfl
  | cons first rest =>
    have hfirst : p first = false := hhead first rfl
    rw [trim, List.dropWhile_cons, if_neg (by rw [hfirst]; exact Bool.false_ne_true)]
    obtain ⟨after, hstem⟩ := List.rdropWhile_prefix p (first :: rest)
    cases hkept : (first :: rest).rdropWhile p with
    | nil =>
      rw [List.rdropWhile_eq_nil_iff] at hkept
      exact absurd (hfirst.symm.trans (hkept first List.mem_cons_self)) Bool.false_ne_true
    | cons other more =>
      rw [hkept, List.cons_append, List.cons.injEq] at hstem
      rw [hstem.1]
      rfl

theorem trim_padded {before after : List α} (hbefore : ∀ y ∈ before, p y = true)
    (hafter : ∀ y ∈ after, p y = true) (hs : trim p s = s) : trim p (before ++ s ++ after) = s := by
  induction before with
  | nil =>
    rw [List.nil_append]
    induction after using List.reverseRecOn with
    | nil => rw [List.append_nil, hs]
    | append_singleton init last ih =>
      rw [← List.append_assoc, trim_concat_pos (hafter last (by simp))]
      exact ih fun y hy => hafter y (List.mem_append_left _ hy)
  | cons first rest ih =>
    rw [List.cons_append, List.cons_append, trim_cons_pos (hbefore first List.mem_cons_self)]
    exact ih fun y hy => hbefore y (List.mem_cons_of_mem _ hy)

end

theorem not_mem_of_mem_splitOnP {p : α → Bool} {line part : List α}
    (hpart : part ∈ line.splitOnP p) :
    ∀ x ∈ part, p x = false := by
  induction line generalizing part with
  | nil =>
    rw [List.splitOnP_nil, List.mem_singleton] at hpart
    subst hpart
    exact fun x hx => absurd hx List.not_mem_nil
  | cons first rest ih =>
    rw [List.splitOnP_cons_eq_if_modifyHead] at hpart
    split at hpart
    · rcases List.mem_cons.mp hpart with rfl | hpart
      · exact fun x hx => absurd hx List.not_mem_nil
      · exact ih hpart
    · next hfirst =>
      obtain ⟨head, tail, hsplit⟩ := List.exists_cons_of_ne_nil (List.splitOnP_ne_nil p rest)
      rw [hsplit, List.modifyHead_cons] at hpart
      rcases List.mem_cons.mp hpart with rfl | hpart
      · intro x hx
        rcases List.mem_cons.mp hx with rfl | hx
        · exact Bool.eq_false_iff.mpr hfirst
        · exact ih (hsplit ▸ List.mem_cons_self) x hx
      · exact ih (hsplit ▸ List.mem_cons_of_mem _ hpart)

/-! ### Fields -/

section

variable [DecidableEq α]

/-- The parts of a line between the delimiters, trimmed, without the empty ones. -/
def fields (p : α → Bool) (delimiter : α) (line : List α) : List (List α) :=
  ((line.splitOn delimiter).map (trim p)).filter (· ≠ [])

variable {p : α → Bool} {c x : α} {line : List α}

theorem fields_of_not_mem (hc : c ∉ line) : fields p c line = [trim p line].filter (· ≠ []) := by
  rw [fields, List.splitOn_eq_singleton hc, List.map_singleton]

theorem fields_append (first rest : List α) :
    fields p c (first ++ c :: rest) = fields p c first ++ fields p c rest := by
  rw [fields, List.splitOn_append_cons_self, List.map_append, List.filter_append]
  rfl

theorem fields_cons_pos (hx : p x = true) : fields p c (x :: line) = fields p c line := by
  rw [fields, fields, List.splitOn_cons_eq_if_modifyHead]
  split
  · rw [List.map_cons, trim_nil, List.filter_cons, if_neg (by simp)]
  · obtain ⟨first, rest, hsplit⟩ := List.exists_cons_of_ne_nil (List.splitOn_ne_nil c line)
    rw [hsplit, List.modifyHead_cons, List.map_cons, List.map_cons, trim_cons_pos hx]

theorem fields_concat_of_not_mem (hx : p x = true) (hc : c ∉ line) :
    fields p c (line ++ [x]) = fields p c line := by
  by_cases hxc : x = c
  · subst hxc
    rw [fields_append, fields_of_not_mem List.not_mem_nil, trim_nil]
    simp
  · rw [fields_of_not_mem (by simp [hc, Ne.symm hxc]), fields_of_not_mem hc, trim_concat_pos hx]

theorem fields_concat_pos (hx : p x = true) : fields p c (line ++ [x]) = fields p c line := by
  by_cases hc : c ∈ line
  · -- Only what stands behind the last delimiter is changed.
    obtain ⟨rest, first, hline, hrest⟩ := List.eq_append_cons_of_mem (List.mem_reverse.mpr hc)
    have hsplit : line = first.reverse ++ c :: rest.reverse := by
      rw [← List.reverse_reverse line, hline]
      simp
    rw [hsplit, List.append_assoc, List.cons_append, fields_append, fields_append,
      fields_concat_of_not_mem hx (by rwa [List.mem_reverse])]
  · exact fields_concat_of_not_mem hx hc

theorem fields_trim : fields p c (trim p line) = fields p c line := by
  have hdrop : ∀ t : List α, fields p c (t.dropWhile p) = fields p c t := by
    intro t
    induction t with
    | nil => rfl
    | cons y rest ih =>
      rw [List.dropWhile_cons]
      split
      · next hy => rw [ih, fields_cons_pos hy]
      · rfl
  have hrdrop : ∀ t : List α, fields p c (t.rdropWhile p) = fields p c t := by
    intro t
    induction t using List.reverseRecOn with
    | nil => rfl
    | append_singleton init last ih =>
      rw [List.rdropWhile_concat]
      split
      · next hlast => rw [ih, fields_concat_pos hlast]
      · rfl
  rw [trim, hrdrop, hdrop]

end

end Fcam
