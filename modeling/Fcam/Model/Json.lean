import Mathlib.Data.List.Lex
import Fcam.Model.Text

/-!
# JSON values

What `json.loads` produces: an object's members in document order with distinct keys, integers
unbounded, and a float known by its `repr` and, where `int` accepts it, its integer part. `dumps` is
`json.dumps(value, sort_keys=True, separators=(",", ":"), ensure_ascii=False)` and `utf8Encode` is
`str.encode("utf-8")`, which refuses lone surrogates.
-/

namespace Fcam

inductive Json where
  | null
  | bool (value : Bool)
  | int (value : Int)
  | float (repr : PyStr) (truncated : Option Int)
  | str (value : PyStr)
  | arr (items : List Json)
  | obj (members : List (PyStr × Json))

namespace Json

/-- `bool(value)`. -/
def truthy : Json → Bool
  | null => false
  | bool value => value
  | int value => value != 0
  | float repr _ => repr != PyStr.ofString "0.0" && repr != PyStr.ofString "-0.0"
  | str value => value != []
  | arr items => !items.isEmpty
  | obj members => !members.isEmpty

/-- `value.get(key, default)`, or nothing where the value has no such method. -/
def get? (value : Json) (key : String) (default : Json) : Option Json :=
  match value with
  | obj members => some ((members.lookup (PyStr.ofString key)).getD default)
  | _ => none

/-- `int(value)`, or nothing where it raises. -/
def toInt? : Json → Option Int
  | null => none
  | bool value => some (if value then 1 else 0)
  | int value => some value
  | float _ truncated => truncated
  | str value => intOfText value
  | arr _ => none
  | obj _ => none

/-! ### Serialisation -/

def hexDigit (d : Nat) : Nat := if d < 10 then 48 + d else 87 + d

/-- One character of a JSON string literal. -/
def escape (c : Nat) : PyStr :=
  if c = 34 then [92, 34]
  else if c = 92 then [92, 92]
  else if c = 10 then [92, 110]
  else if c = 13 then [92, 114]
  else if c = 9 then [92, 116]
  else if c = 12 then [92, 102]
  else if c = 8 then [92, 98]
  else if c < 32 then [92, 117, 48, 48, hexDigit (c / 16), hexDigit (c % 16)]
  else [c]

def quote (s : PyStr) : PyStr := [34] ++ s.flatMap escape ++ [34]

def intText (value : Int) : PyStr :=
  (if value < 0 then [45] else []) ++ (Nat.toDigits 10 value.natAbs).map Char.toNat

/-- Texts with a comma and padding between them. -/
def separated (pad : PyStr) : List PyStr → PyStr
  | [] => []
  | text :: rest => text ++ rest.flatMap fun text => 44 :: (pad ++ text)

section

variable (pad : PyStr)

mutual

/-- A value with some padding after each comma and colon, the members in order. -/
def write : Json → PyStr
  | null => PyStr.ofString "null"
  | bool value => PyStr.ofString (if value then "true" else "false")
  | int value => intText value
  | float repr _ => repr
  | str value => quote value
  | arr items => 91 :: (separated pad (writeItems items) ++ [93])
  | obj members => 123 :: (separated pad (writeMembers members) ++ [125])

def writeItems : List Json → List PyStr
  | [] => []
  | item :: rest => write item :: writeItems rest

def writeMembers : List (PyStr × Json) → List PyStr
  | [] => []
  | (key, value) :: rest => (quote key ++ 58 :: (pad ++ write value)) :: writeMembers rest

end

end

/-- Insert a rendered member into members sorted by key; keys compare by code points. -/
def insertMember (member : PyStr × PyStr) : List (PyStr × PyStr) → List (PyStr × PyStr)
  | [] => [member]
  | first :: rest =>
    if member.1 ≤ first.1 then member :: first :: rest else first :: insertMember member rest

/-- `sorted(members)` of an object whose values are rendered already. -/
def sortMembers (members : List (PyStr × PyStr)) : List (PyStr × PyStr) :=
  members.foldr insertMember []

mutual

def dumps : Json → PyStr
  | null => PyStr.ofString "null"
  | bool value => PyStr.ofString (if value then "true" else "false")
  | int value => intText value
  | float repr _ => repr
  | str value => quote value
  | arr items => [91] ++ separated [] (dumpsItems items) ++ [93]
  | obj members =>
    [123] ++ separated []
      ((sortMembers (dumpsMembers members)).map fun m => quote m.1 ++ [58] ++ m.2) ++ [125]

def dumpsItems : List Json → List PyStr
  | [] => []
  | item :: rest => dumps item :: dumpsItems rest

def dumpsMembers : List (PyStr × Json) → List (PyStr × PyStr)
  | [] => []
  | (key, value) :: rest => (key, dumps value) :: dumpsMembers rest

end

end Json

def isSurrogate (c : Nat) : Bool := 0xd800 ≤ c && c ≤ 0xdfff

/-- The UTF-8 bytes of one code point. -/
def utf8EncodeChar (c : Nat) : Bytes :=
  if c < 0x80 then [c.toUInt8]
  else if c < 0x800 then [(0xc0 + c / 0x40).toUInt8, (0x80 + c % 0x40).toUInt8]
  else if c < 0x10000 then
    [(0xe0 + c / 0x1000).toUInt8, (0x80 + c / 0x40 % 0x40).toUInt8, (0x80 + c % 0x40).toUInt8]
  else
    [(0xf0 + c / 0x40000).toUInt8, (0x80 + c / 0x1000 % 0x40).toUInt8,
      (0x80 + c / 0x40 % 0x40).toUInt8, (0x80 + c % 0x40).toUInt8]

/-- `text.encode("utf-8")`, or nothing where it raises `UnicodeEncodeError`. -/
def utf8Encode (s : PyStr) : Option Bytes :=
  if s.any isSurrogate then none else some (s.flatMap utf8EncodeChar)

end Fcam
