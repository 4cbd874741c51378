import Fcam.Model.Json

/-!
# Reading JSON

`json.loads` of a text, as `json/scanner.py` and `json/decoder.py` of the standard library have it.
What the texts of numbers and of the constants `NaN`, `Infinity` and `-Infinity` become is left to
the hooks `parse_int`, `parse_float` and `parse_constant`. The fuel is the length of the text, of
which every value takes up at least one character.
-/

namespace Fcam

namespace Json

/-- `parse_int`, `parse_float` and `parse_constant`, which give nothing where they raise. -/
structure Hooks where
  parseInt : PyStr → Option Json
  parseFloat : PyStr → Option Json
  parseConstant : PyStr → Option Json

/-- The hooks `json.loads` has by default, given `float` as the `repr` of what it makes of a text
and its integer part. -/
def Hooks.default (float : PyStr → PyStr × Option Int) : Hooks where
  parseInt text := (intOfText text).map .int
  parseFloat text := some (.float (float text).1 (float text).2)
  parseConstant text := some (.float text none)

/-- Numbers are taken as they are written, and constants not at all: the grammar of JSON has
none. -/
def Hooks.grammar : Hooks where
  parseInt text := some (.str text)
  parseFloat text := some (.str text)
  parseConstant _ := none

/-! ### Spaces -/

def isBlank (c : Nat) : Bool := c == 32 || c == 9 || c == 10 || c == 13

def skipBlanks (text : PyStr) : PyStr := text.dropWhile isBlank

/-- What follows a character, where it is the next one that is not blank. -/
def expect (c : Nat) (text : PyStr) : Option PyStr :=
  match skipBlanks text with
  | [] => none
  | d :: rest => if d = c then some rest else none

/-! ### Strings -/

def hexValue? (c : Nat) : Option Nat :=
  if 48 ≤ c ∧ c ≤ 57 then some (c - 48)
  else if 97 ≤ c ∧ c ≤ 102 then some (c - 87)
  else if 65 ≤ c ∧ c ≤ 70 then some (c - 55)
  else none

/-- `_decode_uXXXX`: four hexadecimal digits, and what follows them. -/
def decodeUXXXX : PyStr → Option (Nat × PyStr)
  | a :: b :: c :: d :: rest => do
    let a ← hexValue? a
    let b ← hexValue? b
    let c ← hexValue? c
    let d ← hexValue? d
    some (((a * 16 + b) * 16 + c) * 16 + d, rest)
  | _ => none

/-- `BACKSLASH`. -/
def backslash : List (Nat × Nat) :=
  [(34, 34), (92, 92), (47, 47), (98, 8), (102, 12), (110, 10), (114, 13), (116, 9)]

/-- A low surrogate written as an escape, and what follows it. -/
def lowSurrogate? : PyStr → Option (Nat × PyStr)
  | 92 :: 117 :: rest => (decodeUXXXX rest).filter fun read => 0xdc00 ≤ read.1 && read.1 ≤ 0xdfff
  | _ => none

/-- The escape after a backslash. A pair of surrogates written as two escapes is one character. -/
def scanEscape : PyStr → Option (Nat × PyStr)
  | [] => none
  | c :: rest =>
    if c = 117 then
      (decodeUXXXX rest).map fun read =>
        match if 0xd800 ≤ read.1 ∧ read.1 ≤ 0xdbff then lowSurrogate? read.2 else none with
        | some low => (0x10000 + (read.1 - 0xd800) * 0x400 + (low.1 - 0xdc00), low.2)
        | none => read
    else (backslash.lookup c).map fun d => (d, rest)

/-- `py_scanstring`, after the opening quote. -/
def scanString : Nat → PyStr → Option (PyStr × PyStr)
  | 0, _ => none
  | _ + 1, [] => none
  | fuel + 1, c :: rest =>
    if c = 34 then some ([], rest)
    else if c < 32 then none
    else do
      let (d, rest) ← if c = 92 then scanEscape rest else some (c, rest)
      let (s, rest) ← scanString fuel rest
      some (d :: s, rest)

/-! ### Numbers -/

def isDigit (c : Nat) : Bool := 48 ≤ c && c ≤ 57

/-- `(?:0|[1-9]\d*)`. -/
def scanUnsigned : PyStr → Option (PyStr × PyStr)
  | [] => none
  | c :: rest =>
    if c = 48 then some ([48], rest)
    else if isDigit c then some (c :: rest.takeWhile isDigit, rest.dropWhile isDigit)
    else none

/-- `(-?(?:0|[1-9]\d*))`. -/
def scanInteger : PyStr → Option (PyStr × PyStr)
  | [] => none
  | c :: rest =>
    if c = 45 then (scanUnsigned rest).map fun read => (45 :: read.1, read.2)
      else scanUnsigned (c :: rest)

/-- `(\.\d+)?`. -/
def scanFraction : PyStr → PyStr × PyStr
  | [] => ([], [])
  | c :: rest =>
    if c = 46 ∧ rest.takeWhile isDigit ≠ [] then
      (c :: rest.takeWhile isDigit, rest.dropWhile isDigit)
    else ([], c :: rest)

/-- `[-+]?`. -/
def scanSign : PyStr → PyStr × PyStr
  | [] => ([], [])
  | c :: rest => if c = 43 ∨ c = 45 then ([c], rest) else ([], c :: rest)

/-- `([eE][-+]?\d+)?`. -/
def scanExponent : PyStr → PyStr × PyStr
  | [] => ([], [])
  | c :: rest =>
    let signed := scanSign rest
    if (c = 101 ∨ c = 69) ∧ signed.2.takeWhile isDigit ≠ [] then
      (c :: (signed.1 ++ signed.2.takeWhile isDigit), signed.2.dropWhile isDigit)
    else ([], c :: rest)

/-- A match of `NUMBER_RE`: the integer part, the fraction with the exponent, and what follows. -/
structure NumberMatch where
  integer : PyStr
  fraction : PyStr
  rest : PyStr
deriving DecidableEq

/-- `match_number`. -/
def matchNumber (text : PyStr) : Option NumberMatch :=
  (scanInteger text).map fun read =>
    let fraction := scanFraction read.2
    let exponent := scanExponent fraction.2
    { integer := read.1, fraction := fraction.1 ++ exponent.1, rest := exponent.2 }

/-! ### Values -/

section

variable (hooks : Hooks)

def scanNumber (number : NumberMatch) : Option (Json × PyStr) :=
  let value :=
    if number.fraction = [] then hooks.parseInt number.integer
    else hooks.parseFloat (number.integer ++ number.fraction)
  value.map fun value => (value, number.rest)

/-- The words that are values, none of which begins as a number does. -/
def words : List (PyStr × Option Json) :=
  [(PyStr.ofString "null", some .null), (PyStr.ofString "true", some (.bool true)),
    (PyStr.ofString "false", some (.bool false))] ++
    ["NaN", "Infinity", "-Infinity"].map fun name =>
      (PyStr.ofString name, hooks.parseConstant (PyStr.ofString name))

def scanWord (text : PyStr) : Option (Json × PyStr) :=
  ((words hooks).find? fun word => word.1.isPrefixOf text).bind fun word =>
    word.2.map fun value => (value, text.drop word.1.length)

/-- `dict(pairs)`: a key stands where it came first, with the value it came with last. -/
def dict : List (PyStr × Json) → List (PyStr × Json)
  | [] => []
  | (key, value) :: rest =>
    (key, ((dict rest).lookup key).getD value) :: (dict rest).filter fun m => m.1 != key

mutual

/-- `_scan_once`. -/
def scanOnce : Nat → PyStr → Option (Json × PyStr)
  | 0, _ => none
  | _ + 1, [] => none
  | fuel + 1, c :: rest =>
    if c = 34 then (scanString rest.length rest).map fun read => (.str read.1, read.2)
    else if c = 123 then
      match expect 125 rest with
      | some rest => some (.obj [], rest)
      | none => do
        let rest ← expect 34 rest
        let (pairs, rest) ← jsonObject fuel rest
        some (.obj (dict pairs), rest)
    else if c = 91 then
      match expect 93 rest with
      | some rest => some (.arr [], rest)
      | none => (jsonArray fuel (skipBlanks rest)).map fun read => (.arr read.1, read.2)
    else
      match matchNumber (c :: rest) with
      | some number => scanNumber hooks number
      | none => scanWord hooks (c :: rest)

/-- `JSONArray`, from an item on. -/
def jsonArray : Nat → PyStr → Option (List Json × PyStr)
  | 0, _ => none
  | fuel + 1, text => do
    let (item, rest) ← scanOnce fuel text
    match expect 93 rest with
    | some rest => some ([item], rest)
    | none => do
      let rest ← expect 44 rest
      let (items, rest) ← jsonArray fuel (skipBlanks rest)
      some (item :: items, rest)

/-- `JSONObject`, from after the opening quote of a key on. -/
def jsonObject : Nat → PyStr → Option (List (PyStr × Json) × PyStr)
  | 0, _ => none
  | fuel + 1, text => do
    let (key, rest) ← scanString text.length text
    let rest ← expect 58 rest
    let (value, rest) ← scanOnce fuel (skipBlanks rest)
    match expect 125 rest with
    | some rest => some ([(key, value)], rest)
    | none => do
      let rest ← expect 44 rest
      let rest ← expect 34 rest
      let (pairs, rest) ← jsonObject fuel rest
      some ((key, value) :: pairs, rest)

end

/-- `json.loads`. -/
def loads (text : PyStr) : Option Json :=
  (scanOnce hooks text.length (skipBlanks text)).bind fun read =>
    if skipBlanks read.2 = [] then some read.1 else none

end

/-- The text is JSON by its grammar. -/
def isValid (text : PyStr) : Bool := (loads Hooks.grammar text).isSome

end Json

end Fcam
