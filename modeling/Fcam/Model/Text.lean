import Mathlib.Tactic.Common

/-!
# Python text

A `str` of the source is the list of its code points. Unlike a Lean `String` it may hold a lone
surrogate, which `json.loads` produces from an escape and which no encoder of the source accepts.
`intOfText` is `int(text)`.
-/

namespace Fcam

/-- A Python `str`, as its code points. -/
abbrev PyStr := List Nat

abbrev Bytes := List UInt8

def PyStr.ofString (s : String) : PyStr := s.toList.map Char.toNat

theorem PyStr.map_ofNat_ofString (s : String) : (PyStr.ofString s).map Char.ofNat = s.toList := by
  rw [PyStr.ofString, List.map_map]
  conv_rhs => rw [← List.map_id s.toList]
  apply List.map_congr_left
  intro c _
  exact Char.ofNat_toNat c

theorem PyStr.ofString_injective {s t : String}
    (heq : PyStr.ofString s = PyStr.ofString t) : s = t := by
  have hlist := congrArg (List.map Char.ofNat) heq
  rw [map_ofNat_ofString, map_ofNat_ofString] at hlist
  exact String.toList_inj.mp hlist

/-- `str.isspace` of one character. -/
def isSpace (c : Nat) : Bool :=
  (9 ≤ c && c ≤ 13) || (28 ≤ c && c ≤ 32) || c == 0x85 || c == 0xa0 || c == 0x1680 ||
    (0x2000 ≤ c && c ≤ 0x200a) || c == 0x2028 || c == 0x2029 || c == 0x202f || c == 0x205f ||
      c == 0x3000

/-- `str.strip`. -/
def strip (s : PyStr) : PyStr := ((s.dropWhile isSpace).reverse.dropWhile isSpace).reverse

/-- The zeros of Unicode 14, each the first of ten consecutive decimal digits. -/
def decimalZeros : List Nat :=
  [0x30, 0x660, 0x6f0, 0x7c0, 0x966, 0x9e6, 0xa66, 0xae6, 0xb66, 0xbe6, 0xc66, 0xce6, 0xd66, 0xde6,
    0xe50, 0xed0, 0xf20, 0x1040, 0x1090, 0x17e0, 0x1810, 0x1946, 0x19d0, 0x1a80, 0x1a90, 0x1b50,
    0x1bb0, 0x1c40, 0x1c50, 0xa620, 0xa8d0, 0xa900, 0xa9d0, 0xa9f0, 0xaa50, 0xabf0, 0xff10, 0x104a0,
    0x10d30, 0x11066, 0x110f0, 0x11136, 0x111d0, 0x112f0, 0x11450, 0x114d0, 0x11650, 0x116c0,
    0x11730, 0x118e0, 0x11950, 0x11c50, 0x11d50, 0x11da0, 0x16a60, 0x16ac0, 0x16b50, 0x1d7ce,
    0x1d7d8, 0x1d7e2, 0x1d7ec, 0x1d7f6, 0x1e140, 0x1e2f0, 0x1e950, 0x1fbf0]

def digitValue? (c : Nat) : Option Nat :=
  decimalZeros.findSome? fun first => if first ≤ c ∧ c < first + 10 then some (c - first) else none

/-- A digit string read after its first digit; one underscore may stand between two digits. -/
def digitsAfter : List Nat → Option (List Nat)
  | [] => some []
  | c :: rest =>
    match digitValue? c with
    | some d => (digitsAfter rest).map (d :: ·)
    | none =>
      if c = 95 then
        match rest with
        | [] => none
        | next :: rest => (digitValue? next).bind fun d => (digitsAfter rest).map (d :: ·)
      else none

/-- The digits of an unsigned integer literal. -/
def digits? : List Nat → Option (List Nat)
  | [] => none
  | c :: rest => (digitValue? c).bind fun d => (digitsAfter rest).map (d :: ·)

/-- `sys.get_int_max_str_digits()`: a longer literal is refused. -/
def intMaxStrDigits : Nat := 4300

def natOfDigits (digits : List Nat) : Nat := digits.foldl (fun value d => 10 * value + d) 0

def natOfText (s : PyStr) : Option Nat :=
  (digits? s).bind fun digits => if digits.length ≤ intMaxStrDigits then some (natOfDigits digits)
    else none

/-- `int(text)`, or nothing where it raises `ValueError`. -/
def intOfText (s : PyStr) : Option Int :=
  match strip s with
  | 45 :: rest => (natOfText rest).map fun n => -(n : Int)
  | 43 :: rest => (natOfText rest).map fun n => (n : Int)
  | rest => (natOfText rest).map fun n => (n : Int)

example : intOfText (PyStr.ofString " -1_000 ") = some (-1000) := by decide

end Fcam
