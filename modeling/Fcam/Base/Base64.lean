import Mathlib.Tactic.Common

/-!
# Base64

The codes of the standard alphabet, padded. Decoding skips what is not in the alphabet, stops at the
padding that completes a group of four and refuses a text that ends within one.
-/

namespace Fcam

namespace Base64

/-- The character for six bits. -/
def digitChar (d : Nat) : Nat :=
  if d < 26 then 65 + d
  else if d < 52 then 71 + d
  else if d < 62 then d - 4
  else if d = 62 then 43
  else 47

/-- The six bits of a character of the alphabet. -/
def digit? (c : Nat) : Option Nat :=
  if 65 ≤ c ∧ c ≤ 90 then some (c - 65)
  else if 97 ≤ c ∧ c ≤ 122 then some (c - 71)
  else if 48 ≤ c ∧ c ≤ 57 then some (c + 4)
  else if c = 43 then some 62
  else if c = 47 then some 63
  else none

/-- The character that pads the last group. -/
def pad : Nat := 61

def encode : List UInt8 → List Nat
  | [] => []
  | [a] => [digitChar (a.toNat / 4), digitChar (a.toNat % 4 * 16), pad, pad]
  | [a, b] =>
    [digitChar (a.toNat / 4), digitChar (a.toNat % 4 * 16 + b.toNat / 16),
      digitChar (b.toNat % 16 * 4), pad]
  | a :: b :: c :: rest =>
    digitChar (a.toNat / 4) :: digitChar (a.toNat % 4 * 16 + b.toNat / 16) ::
      digitChar (b.toNat % 16 * 4 + c.toNat / 64) :: digitChar (c.toNat % 64) :: encode rest

/-- Decoding within a group: the characters of it that were read, the bits of them not yet given
out, and the padding seen since. -/
def decodeFrom : Nat → Nat → Nat → List Nat → Option (List UInt8)
  | place, _, _, [] => if place = 0 then some [] else none
  | place, left, pads, c :: rest =>
    if c = pad then
      if 2 ≤ place ∧ 4 ≤ place + pads + 1 then some []
      else decodeFrom place left (if 2 ≤ place then pads + 1 else pads) rest
    else
      match digit? c with
      | none => decodeFrom place left pads rest
      | some d =>
        if place = 0 then decodeFrom 1 d 0 rest
        else if place = 1 then (decodeFrom 2 (d % 16) 0 rest).map ((left * 4 + d / 16).toUInt8 :: ·)
        else if place = 2 then (decodeFrom 3 (d % 4) 0 rest).map ((left * 16 + d / 4).toUInt8 :: ·)
        else (decodeFrom 0 0 0 rest).map ((left * 64 + d).toUInt8 :: ·)

def decode (text : List Nat) : Option (List UInt8) := decodeFrom 0 0 0 text

variable {left pads d : Nat} {rest : List Nat}

theorem digit?_digitChar : ∀ d < 64, digit? (digitChar d) = some d := by
  decide

theorem digitChar_ne_pad : ∀ d < 64, digitChar d ≠ pad := by
  decide

theorem digitChar_lt (d : Nat) : digitChar d < 128 := by
  rw [digitChar]
  split_ifs <;> omega

/-! ### One character after another -/

theorem decodeFrom_digit_zero (hd : d < 64) :
    decodeFrom 0 left pads (digitChar d :: rest) = decodeFrom 1 d 0 rest := by
  rw [decodeFrom, if_neg (digitChar_ne_pad d hd), digit?_digitChar d hd]
  rfl

theorem decodeFrom_digit_one (hd : d < 64) :
    decodeFrom 1 left pads (digitChar d :: rest) =
      (decodeFrom 2 (d % 16) 0 rest).map ((left * 4 + d / 16).toUInt8 :: ·) := by
  rw [decodeFrom, if_neg (digitChar_ne_pad d hd), digit?_digitChar d hd]
  rfl

theorem decodeFrom_digit_two (hd : d < 64) :
    decodeFrom 2 left pads (digitChar d :: rest) =
      (decodeFrom 3 (d % 4) 0 rest).map ((left * 16 + d / 4).toUInt8 :: ·) := by
  rw [decodeFrom, if_neg (digitChar_ne_pad d hd), digit?_digitChar d hd]
  rfl

theorem decodeFrom_digit_three (hd : d < 64) :
    decodeFrom 3 left pads (digitChar d :: rest) =
      (decodeFrom 0 0 0 rest).map ((left * 64 + d).toUInt8 :: ·) := by
  rw [decodeFrom, if_neg (digitChar_ne_pad d hd), digit?_digitChar d hd]
  rfl

theorem decodeFrom_pad_two : decodeFrom 2 left 0 [pad, pad] = some [] := rfl

theorem decodeFrom_pad_three : decodeFrom 3 left 0 [pad] = some [] := rfl

theorem toUInt8_of_eq {n : Nat} {a : UInt8} (h : n = a.toNat) : n.toUInt8 = a := by
  rw [h]
  exact UInt8.ofNat_toNat

/-! ### Round trip -/

theorem decode_encode (bytes : List UInt8) : decode (encode bytes) = some bytes := by
  rw [decode]
  induction bytes using encode.induct with
  | case1 => rfl
  | case2 a =>
    have ha := a.toNat_lt
    rw [encode, decodeFrom_digit_zero (by omega), decodeFrom_digit_one (by omega),
      decodeFrom_pad_two, Option.map_some, toUInt8_of_eq (a := a) (by omega)]
  | case3 a b =>
    have ha := a.toNat_lt
    have hb := b.toNat_lt
    rw [encode, decodeFrom_digit_zero (by omega), decodeFrom_digit_one (by omega),
      decodeFrom_digit_two (by omega), decodeFrom_pad_three, Option.map_some, Option.map_some,
      toUInt8_of_eq (a := a) (by omega), toUInt8_of_eq (a := b) (by omega)]
  | case4 a b c rest ih =>
    have ha := a.toNat_lt
    have hb := b.toNat_lt
    have hc := c.toNat_lt
    rw [encode, decodeFrom_digit_zero (by omega), decodeFrom_digit_one (by omega),
      decodeFrom_digit_two (by omega), decodeFrom_digit_three (by omega), ih, Option.map_some,
      Option.map_some, Option.map_some, toUInt8_of_eq (a := a) (by omega),
      toUInt8_of_eq (a := b) (by omega), toUInt8_of_eq (a := c) (by omega)]

theorem encode_ascii (bytes : List UInt8) : ∀ c ∈ encode bytes, c < 128 := by
  induction bytes using encode.induct with
  | case1 => exact fun c hc => absurd hc List.not_mem_nil
  | case2 a =>
    intro c hc
    simp only [encode, List.mem_cons, List.not_mem_nil, or_false] at hc
    rcases hc with rfl | rfl | rfl | rfl <;> first | exact digitChar_lt _ | decide
  | case3 a b =>
    intro c hc
    simp only [encode, List.mem_cons, List.not_mem_nil, or_false] at hc
    rcases hc with rfl | rfl | rfl | rfl <;> first | exact digitChar_lt _ | decide
  | case4 a b c rest ih =>
    intro d hd
    simp only [encode, List.mem_cons] at hd
    rcases hd with rfl | rfl | rfl | rfl | hd
    · exact digitChar_lt _
    · exact digitChar_lt _
    · exact digitChar_lt _
    · exact digitChar_lt _
    · exact ih d hd

end Base64

end Fcam
