import Fcam.Model.Json

/-!
# Redaction

`redact.py`, and the standard library as the request log uses it: `re.sub` of its two patterns,
`bytes.decode` with replacement, and `json.dumps` with the default separators. Which characters
beyond ASCII are word characters is left open.
-/

namespace Fcam

/-! ### Texts that look like secrets -/

section

variable (unicodeWord : Nat → Bool)

/-- `[A-Za-z0-9]`. -/
def isAsciiAlnum (c : Nat) : Bool := (48 ≤ c && c ≤ 57) || (65 ≤ c && c ≤ 90) || (97 ≤ c && c ≤ 122)

/-- `\w`. -/
def isWord (c : Nat) : Bool := if c < 128 then isAsciiAlnum c || c == 95 else unicodeWord c

/-- `\b`, between two characters or at an end of the text. -/
def wordBoundary (before after : Option Nat) : Bool :=
  before.any (isWord unicodeWord) != after.any (isWord unicodeWord)

/-- `[a-z0-9._\-~+/]`, cases ignored: besides ASCII it matches the dotted and dotless I, the long s
and the Kelvin sign. -/
def isTokenChar (c : Nat) : Bool :=
  isAsciiAlnum c || ".-_~+/".toList.any (·.toNat == c) || [0x130, 0x131, 0x17f, 0x212a].contains c

/-- Of the lengths from `least` to `most`, the longest after which a word ends or begins. -/
def longestEnd (text : PyStr) (least most : Nat) : Option Nat :=
  ((List.range (most + 1 - least)).reverse.map (· + least)).find? fun n =>
    wordBoundary unicodeWord (text[n - 1]?) (text[n]?)

/-- The length of a match of `_BEARER_RE` at a place. -/
def bearerMatch (before : Option Nat) (text : PyStr) : Option Nat :=
  let word := (text.take 6).map fun c => if 65 ≤ c ∧ c ≤ 90 then c + 32 else c
  let spaces := (text.drop 6).takeWhile isSpace
  let token := (text.drop (6 + spaces.length)).takeWhile isTokenChar
  let signs := (text.drop (6 + spaces.length + token.length)).takeWhile (· == 61)
  if wordBoundary unicodeWord before text.head? && word == PyStr.ofString "bearer" &&
    !spaces.isEmpty && !token.isEmpty then
    longestEnd unicodeWord text (6 + spaces.length + 1)
      (6 + spaces.length + token.length + signs.length)
  else none

/-- The length of a match of `_FIRECRAWL_KEY_RE` at a place. -/
def firecrawlKeyMatch (before : Option Nat) (text : PyStr) : Option Nat :=
  let key := (text.drop 3).takeWhile isAsciiAlnum
  if wordBoundary unicodeWord before text.head? && text.take 3 == PyStr.ofString "fc-" then
    longestEnd unicodeWord text 11 (3 + key.length)
  else none

/-- `re.sub`: matches from left to right, with the characters of the last one still to skip. -/
def substitute (matchLength : Option Nat → PyStr → Option Nat) (replacement : PyStr) :
    Nat → Option Nat → PyStr → PyStr
  | _, _, [] => []
  | skip + 1, _, c :: rest => substitute matchLength replacement skip (some c) rest
  | 0, before, c :: rest =>
    match matchLength before (c :: rest) with
    | some n => replacement ++ substitute matchLength replacement (n - 1) (some c) rest
    | none => c :: substitute matchLength replacement 0 (some c) rest

def redactedMark : PyStr := PyStr.ofString "[REDACTED]"

/-- `redact_text`. -/
def redactText (text : PyStr) : PyStr :=
  let redacted :=
    substitute (bearerMatch unicodeWord) (PyStr.ofString "Bearer " ++ redactedMark) 0 none text
  substitute (firecrawlKeyMatch unicodeWord) (PyStr.ofString "fc-" ++ redactedMark) 0 none redacted

/-! ### Values under sensitive keys -/

/-- `_DEFAULT_SENSITIVE_KEYS`. -/
def defaultSensitiveKeys : List PyStr :=
  ["authorization", "api_key", "token", "password", "secret", "master_key"].map PyStr.ofString

/-- `str(key).lower() in sensitive_keys`. Besides ASCII letters only the Kelvin sign has an ASCII
letter below it. -/
def isSensitive (key : PyStr) : Bool :=
  defaultSensitiveKeys.contains
    (key.map fun c => if 65 ≤ c ∧ c ≤ 90 then c + 32 else if c = 0x212a then 107 else c)

section

variable (sensitive : PyStr → Bool)

mutual

/-- `redact_data`, with the keys of its caller. -/
def redactWith : Json → Json
  | .arr items => .arr (redactItemsWith items)
  | .obj members => .obj (redactMembersWith members)
  | .str value => .str (redactText unicodeWord value)
  | value => value

def redactItemsWith : List Json → List Json
  | [] => []
  | item :: rest => redactWith item :: redactItemsWith rest

def redactMembersWith : List (PyStr × Json) → List (PyStr × Json)
  | [] => []
  | (key, value) :: rest =>
    (key, if sensitive key then .str redactedMark else redactWith value) :: redactMembersWith rest

end

end

/-- `redact_data`, with its default keys. -/
def redactData (value : Json) : Json := redactWith unicodeWord isSensitive value

end

/-! ### Decoding and rendering -/

/-- A character that has begun: the bytes still owed, its value so far, and the bounds of the next
byte. -/
structure Utf8Partial where
  owed : Nat
  value : Nat
  least : Nat := 0x80
  most : Nat := 0xbf

/-- The first byte of a character: what it decodes to at once, or the character it begins. -/
def utf8Start (b : Nat) : PyStr × Option Utf8Partial :=
  if b < 0x80 then ([b], none)
  else if 0xc2 ≤ b ∧ b ≤ 0xdf then ([], some { owed := 1, value := b - 0xc0 })
  else if b = 0xe0 then ([], some { owed := 2, value := 0, least := 0xa0 })
  else if b = 0xed then ([], some { owed := 2, value := 0xd, most := 0x9f })
  else if 0xe1 ≤ b ∧ b ≤ 0xef then ([], some { owed := 2, value := b - 0xe0 })
  else if b = 0xf0 then ([], some { owed := 3, value := 0, least := 0x90 })
  else if 0xf1 ≤ b ∧ b ≤ 0xf3 then ([], some { owed := 3, value := b - 0xf0 })
  else if b = 0xf4 then ([], some { owed := 3, value := 4, most := 0x8f })
  else ([0xfffd], none)

/-- `decode("utf-8", errors="replace")`, within a character that has begun. The part of one that
does not go on is replaced as a whole. -/
def utf8Replace : Option Utf8Partial → Bytes → PyStr
  | none, [] => []
  | some _, [] => [0xfffd]
  | none, b :: rest =>
    let (text, begun) := utf8Start b.toNat
    text ++ utf8Replace begun rest
  | some part, b :: rest =>
    if part.least ≤ b.toNat ∧ b.toNat ≤ part.most then
      let value := part.value * 64 + (b.toNat - 0x80)
      if part.owed = 1 then value :: utf8Replace none rest
      else utf8Replace (some { owed := part.owed - 1, value }) rest
    else
      let (text, begun) := utf8Start b.toNat
      0xfffd :: text ++ utf8Replace begun rest

namespace Json

/-- `json.dumps(value, ensure_ascii=False)`: the members in order. -/
def dumpsSpaced : Json → PyStr := write [32]

end Json

end Fcam
