import Mathlib.Data.List.TakeWhile
import Fcam.Model.JsonLoads
import Fcam.Proof.ErrorDetails

/-!
# Scanning strings and numbers

A string literal is read up to its closing quote. A number is read up to where something else
begins: each scanner leaves alone what closes a value, so that the text of a number can be read
apart from what follows it.
-/

namespace Fcam

namespace Json

/-! ### Spaces -/

section

variable {c d : Nat} {pad text x : PyStr}

theorem skipBlanks_cons (hc : isBlank c = false) : skipBlanks (c :: x) = c :: x := by
  rw [skipBlanks, List.dropWhile_cons_of_neg (by rw [hc]; exact Bool.false_ne_true)]

theorem skipBlanks_pad (hpad : ∀ c ∈ pad, isBlank c = true) :
    skipBlanks (pad ++ x) = skipBlanks x := by
  rw [skipBlanks, skipBlanks, List.dropWhile_append_of_pos hpad]

theorem expect_cons (hc : isBlank c = false) : expect c (c :: x) = some x := by
  rw [expect, skipBlanks_cons hc]
  exact if_pos rfl

theorem expect_cons_ne (hd : isBlank d = false) (hne : d ≠ c) : expect c (d :: x) = none := by
  rw [expect, skipBlanks_cons hd]
  exact if_neg hne

theorem expect_pad (hpad : ∀ c ∈ pad, isBlank c = true) : expect c (pad ++ x) = expect c x := by
  rw [expect, expect, skipBlanks_pad hpad]

/-! ### Strings -/

theorem hexValue?_hexDigit : ∀ d < 16, hexValue? (hexDigit d) = some d := by
  decide

theorem scanEscape_control (hc : c < 32) :
    scanEscape (117 :: 48 :: 48 :: hexDigit (c / 16) :: hexDigit (c % 16) :: x) = some (c, x) := by
  have hdecoded :
      decodeUXXXX (48 :: 48 :: hexDigit (c / 16) :: hexDigit (c % 16) :: x) = some (c, x) := by
    rw [decodeUXXXX, hexValue?_hexDigit _ (by omega), hexValue?_hexDigit _ (by omega),
      show hexValue? 48 = some 0 from rfl]
    simp only [Option.bind_eq_bind, Option.bind_some, Option.some.injEq, Prod.mk.injEq, and_true]
    omega
  rw [scanEscape, if_pos rfl, hdecoded, Option.map_some]
  simp only [show ¬(0xd800 ≤ c ∧ c ≤ 0xdbff) by omega, if_false]

theorem scanEscape_escape (hc : c ∈ escaped) :
    ∃ tail, escape c = 92 :: tail ∧ ∀ x, scanEscape (tail ++ x) = some (c, x) := by
  rw [mem_escaped] at hc
  rw [escape]
  split_ifs with hquote hslash hnewline hreturn htab hfeed hback hcontrol
  · exact ⟨_, rfl, by subst hquote; exact fun _ => rfl⟩
  · exact ⟨_, rfl, by subst hslash; exact fun _ => rfl⟩
  · exact ⟨_, rfl, by subst hnewline; exact fun _ => rfl⟩
  · exact ⟨_, rfl, by subst hreturn; exact fun _ => rfl⟩
  · exact ⟨_, rfl, by subst htab; exact fun _ => rfl⟩
  · exact ⟨_, rfl, by subst hfeed; exact fun _ => rfl⟩
  · exact ⟨_, rfl, by subst hback; exact fun _ => rfl⟩
  · exact ⟨_, rfl, fun _ => scanEscape_control hcontrol⟩
  · omega

theorem scanString_escape {s : PyStr} {fuel : Nat} (hfuel : s.length < fuel) :
    scanString fuel (s.flatMap escape ++ 34 :: x) = some (s, x) := by
  induction s generalizing fuel with
  | nil =>
    obtain ⟨n, rfl⟩ := Nat.exists_eq_add_of_lt hfuel
    rw [List.flatMap_nil, List.nil_append, scanString]
    exact if_pos rfl
  | cons c s ih =>
    obtain ⟨n, rfl⟩ := Nat.exists_eq_add_of_lt hfuel
    have hrest := @ih ((c :: s).length + n) (by rw [List.length_cons]; omega)
    rw [List.flatMap_cons, List.append_assoc]
    by_cases hc : c ∈ escaped
    · obtain ⟨tail, hescape, hread⟩ := scanEscape_escape hc
      rw [hescape, List.cons_append, scanString, if_neg (by decide), if_neg (by decide), if_pos rfl,
        hread]
      simp only [Option.bind_eq_bind, Option.bind_some, hrest]
    · have hplain := hc
      rw [mem_escaped, not_or, not_or] at hplain
      rw [escape_of_not_mem hc, List.singleton_append, scanString, if_neg hplain.1,
        if_neg hplain.2.2, if_neg hplain.2.1]
      simp only [Option.bind_eq_bind, Option.bind_some, hrest]

theorem length_le_escape (s : PyStr) : s.length ≤ (s.flatMap escape).length := by
  induction s with
  | nil => exact Nat.le_refl _
  | cons c s ih =>
    have hpos := List.length_pos_of_ne_nil (escape_prefixCode.nonempty c)
    rw [List.flatMap_cons, List.length_append, List.length_cons]
    omega

end

/-! ### Numbers -/

/-- What may stand after a value: nothing, a comma or a closing bracket. -/
def Closed (x : PyStr) : Prop := ∀ c ∈ x.head?, c = 44 ∨ c = 93 ∨ c = 125

section

variable {text x : PyStr}

theorem Closed.digit (hx : Closed x) : ∀ c ∈ x.head?, isDigit c = false := by
  intro c hc
  rcases hx c hc with rfl | rfl | rfl <;> rfl

theorem takeWhile_append_of_head {p : Nat → Bool} (hx : ∀ c ∈ x.head?, p c = false) :
    (text ++ x).takeWhile p = text.takeWhile p ∧
      (text ++ x).dropWhile p = text.dropWhile p ++ x := by
  induction text with
  | nil =>
    cases x with
    | nil => exact ⟨rfl, rfl⟩
    | cons c x =>
      have hc : ¬p c = true := by
        rw [hx c rfl]
        exact Bool.false_ne_true
      rw [List.nil_append, List.takeWhile_cons_of_neg hc, List.dropWhile_cons_of_neg hc]
      exact ⟨rfl, rfl⟩
  | cons c text ih =>
    rw [List.cons_append]
    by_cases hc : p c = true
    · rw [List.takeWhile_cons_of_pos hc, List.takeWhile_cons_of_pos hc,
        List.dropWhile_cons_of_pos hc, List.dropWhile_cons_of_pos hc, ih.1, ih.2]
      exact ⟨rfl, rfl⟩
    · rw [List.takeWhile_cons_of_neg hc, List.takeWhile_cons_of_neg hc,
        List.dropWhile_cons_of_neg hc, List.dropWhile_cons_of_neg hc]
      exact ⟨rfl, rfl⟩

theorem scanUnsigned_append (hx : Closed x) :
    scanUnsigned (text ++ x) = (scanUnsigned text).map fun read => (read.1, read.2 ++ x) := by
  obtain ⟨htake, hdrop⟩ := @takeWhile_append_of_head text.tail x isDigit hx.digit
  cases text with
  | nil =>
    cases x with
    | nil => rfl
    | cons c x =>
      rcases hx c rfl with rfl | rfl | rfl <;> rfl
  | cons c text =>
    rw [List.tail_cons] at htake hdrop
    rw [List.cons_append, scanUnsigned, scanUnsigned, htake, hdrop]
    split_ifs <;> rfl

theorem scanInteger_append (hx : Closed x) :
    scanInteger (text ++ x) = (scanInteger text).map fun read => (read.1, read.2 ++ x) := by
  cases text with
  | nil =>
    cases x with
    | nil => rfl
    | cons c x =>
      rcases hx c rfl with rfl | rfl | rfl <;> rfl
  | cons c text =>
    rw [List.cons_append, scanInteger, scanInteger, ← List.cons_append, scanUnsigned_append hx,
      scanUnsigned_append hx]
    split_ifs
    · rw [Option.map_map, Option.map_map]
      rfl
    · rfl

theorem scanFraction_append (hx : Closed x) :
    scanFraction (text ++ x) = ((scanFraction text).1, (scanFraction text).2 ++ x) := by
  obtain ⟨htake, hdrop⟩ := @takeWhile_append_of_head text.tail x isDigit hx.digit
  cases text with
  | nil =>
    cases x with
    | nil => rfl
    | cons c x =>
      rcases hx c rfl with rfl | rfl | rfl <;> rfl
  | cons c text =>
    rw [List.tail_cons] at htake hdrop
    rw [List.cons_append, scanFraction, scanFraction, htake, hdrop]
    split_ifs <;> rfl

theorem scanSign_append (hx : Closed x) :
    scanSign (text ++ x) = ((scanSign text).1, (scanSign text).2 ++ x) := by
  cases text with
  | nil =>
    cases x with
    | nil => rfl
    | cons c x =>
      rcases hx c rfl with rfl | rfl | rfl <;> rfl
  | cons c text =>
    rw [List.cons_append, scanSign, scanSign]
    split_ifs <;> rfl

theorem scanExponent_append (hx : Closed x) :
    scanExponent (text ++ x) = ((scanExponent text).1, (scanExponent text).2 ++ x) := by
  cases text with
  | nil =>
    cases x with
    | nil => rfl
    | cons c x =>
      rcases hx c rfl with rfl | rfl | rfl <;> rfl
  | cons c text =>
    obtain ⟨htake, hdrop⟩ := @takeWhile_append_of_head (scanSign text).2 x isDigit hx.digit
    rw [List.cons_append, scanExponent, scanExponent, scanSign_append hx]
    dsimp only
    rw [htake, hdrop]
    split_ifs <;> rfl

theorem matchNumber_append (hx : Closed x) :
    matchNumber (text ++ x) = (matchNumber text).map fun number =>
      { number with rest := number.rest ++ x } := by
  rw [matchNumber, matchNumber, scanInteger_append hx, Option.map_map, Option.map_map]
  congr 1
  funext read
  rw [Function.comp, Function.comp]
  dsimp only
  rw [scanFraction_append hx, scanExponent_append hx]

theorem scanUnsigned_eq {read : PyStr × PyStr} (h : scanUnsigned text = some read) :
    read.1 ++ read.2 = text ∧ ∃ c rest, text = c :: rest ∧ isDigit c = true := by
  cases text with
  | nil => cases h
  | cons c text =>
    rw [scanUnsigned] at h
    split_ifs at h with hzero hdigit
    · obtain rfl := Option.some.inj h
      exact ⟨by rw [hzero]; rfl, c, text, rfl, by rw [hzero]; rfl⟩
    · obtain rfl := Option.some.inj h
      exact ⟨by rw [List.cons_append, List.takeWhile_append_dropWhile], c, text, rfl, hdigit⟩

theorem scanInteger_eq {read : PyStr × PyStr} (h : scanInteger text = some read) :
    read.1 ++ read.2 = text ∧ ∃ c rest, text = c :: rest ∧ (c = 45 ∨ isDigit c = true) := by
  cases text with
  | nil => cases h
  | cons c text =>
    rw [scanInteger] at h
    split_ifs at h with hsign
    · obtain ⟨unsigned, hunsigned, rfl⟩ := Option.map_eq_some_iff.mp h
      rw [List.cons_append, (scanUnsigned_eq hunsigned).1]
      exact ⟨by rw [hsign], c, text, rfl, .inl hsign⟩
    · obtain ⟨heq, d, rest, hcons, hdigit⟩ := scanUnsigned_eq h
      exact ⟨heq, d, rest, hcons, .inr hdigit⟩

theorem scanFraction_eq (text : PyStr) : (scanFraction text).1 ++ (scanFraction text).2 = text := by
  cases text with
  | nil => rfl
  | cons c text =>
    rw [scanFraction]
    split_ifs
    · rw [List.cons_append, List.takeWhile_append_dropWhile]
    · rfl

theorem scanSign_eq (text : PyStr) : (scanSign text).1 ++ (scanSign text).2 = text := by
  cases text with
  | nil => rfl
  | cons c text =>
    rw [scanSign]
    split_ifs <;> rfl

theorem scanExponent_eq (text : PyStr) : (scanExponent text).1 ++ (scanExponent text).2 = text := by
  cases text with
  | nil => rfl
  | cons c text =>
    rw [scanExponent]
    split_ifs
    · rw [List.cons_append, List.append_assoc, List.takeWhile_append_dropWhile, scanSign_eq]
    · rfl

theorem matchNumber_eq {number : NumberMatch} (h : matchNumber text = some number) :
    number.integer ++ number.fraction ++ number.rest = text ∧
      ∃ c rest, text = c :: rest ∧ (c = 45 ∨ isDigit c = true) := by
  obtain ⟨read, hread, rfl⟩ := Option.map_eq_some_iff.mp h
  obtain ⟨heq, hhead⟩ := scanInteger_eq hread
  dsimp only
  rw [List.append_assoc, List.append_assoc, scanExponent_eq, scanFraction_eq, heq]
  exact ⟨rfl, hhead⟩

/-! ### The texts of integers -/

theorem isDigit_toNat {c : Char} (hc : c.isDigit = true) : isDigit c.toNat = true := by
  simp only [Char.isDigit, Bool.and_eq_true, decide_eq_true_eq] at hc
  have hleast : 48 ≤ c.toNat := UInt32.le_iff_toNat_le.mp hc.1
  have hmost : c.toNat ≤ 57 := UInt32.le_iff_toNat_le.mp hc.2
  rw [isDigit, decide_eq_true hleast, decide_eq_true hmost]
  rfl

theorem digitValue?_toNat {c : Char} (hc : c.isDigit = true) :
    digitValue? c.toNat = some (c.toNat - 48) := by
  have hdigit := isDigit_toNat hc
  simp only [isDigit, Bool.and_eq_true, decide_eq_true_eq] at hdigit
  have hvalue : ∀ d < 58, 48 ≤ d → digitValue? d = some (d - 48) := by decide
  exact hvalue _ (by omega) hdigit.1

theorem toDigits_head? {n : Nat} (hn : 0 < n) : (Nat.toDigits 10 n).head? ≠ some '0' := by
  induction n using Nat.strongRecOn with
  | ind n ih =>
    by_cases hsmall : n < 10
    · rw [Nat.toDigits_of_lt_base hsmall, List.head?_cons]
      have hdigit : ∀ d < 10, 0 < d → some (Nat.digitChar d) ≠ some '0' := by decide
      exact hdigit n hsmall hn
    · have hle : 10 ≤ n := by omega
      rw [Nat.toDigits_of_base_le (by omega) hle, List.head?_append_of_ne_nil _ Nat.toDigits_ne_nil]
      exact ih (n / 10) (by omega) (by omega)

theorem scanUnsigned_toDigits (n : Nat) :
    scanUnsigned ((Nat.toDigits 10 n).map Char.toNat) =
      some ((Nat.toDigits 10 n).map Char.toNat, []) := by
  have hdigits : ∀ c ∈ (Nat.toDigits 10 n).map Char.toNat, isDigit c = true := by
    intro c hc
    obtain ⟨d, hd, rfl⟩ := List.mem_map.mp hc
    exact isDigit_toNat (Nat.isDigit_of_mem_toDigits (by omega) (by omega) hd)
  rcases Nat.eq_zero_or_pos n with rfl | hn
  · rfl
  · have hhead := toDigits_head? hn
    cases htext : Nat.toDigits 10 n with
    | nil => exact absurd htext Nat.toDigits_ne_nil
    | cons d rest =>
      rw [htext] at hhead hdigits
      have hzero : d.toNat ≠ 48 := by
        intro hzero
        obtain rfl : d = '0' := Char.toNat_inj.mp hzero
        exact hhead rfl
      rw [List.map_cons] at hdigits ⊢
      rw [scanUnsigned, if_neg hzero, if_pos (hdigits _ List.mem_cons_self)]
      have hall := fun c hc => hdigits c (List.mem_cons_of_mem _ hc)
      rw [List.takeWhile_eq_self_iff.mpr hall, List.dropWhile_eq_nil_iff.mpr hall]

theorem matchNumber_intText (n : Int) :
    matchNumber (intText n) = some { integer := intText n, fraction := [], rest := [] } := by
  have hunsigned := scanUnsigned_toDigits n.natAbs
  have hinteger : scanInteger (intText n) = some (intText n, []) := by
    rw [intText]
    split_ifs
    · rw [List.singleton_append, scanInteger, if_pos rfl, hunsigned]
      rfl
    · rw [List.nil_append]
      obtain ⟨-, c, rest, hcons, hdigit⟩ := scanUnsigned_eq hunsigned
      rw [hcons] at hunsigned ⊢
      have hsign : c ≠ 45 := by
        rintro rfl
        exact absurd hdigit (by decide)
      rw [scanInteger, if_neg hsign, hunsigned]
  rw [matchNumber, hinteger]
  rfl

end

end Json

end Fcam
