import Fcam.Base.Fields
import Fcam.Model.AdminSession

/-!
# The text of a key import

`key_import.py`: the lines of the text, their fields, and the key each line gives.
`control_plane.py`: `import_keys_text`, line by line. `datetime.fromisoformat` gives an instant,
which a text without an offset means in UTC, or the text of its exception.
-/

namespace Fcam

/-- The characters `str.splitlines` splits at. -/
def isLineBreak (c : Nat) : Bool :=
  (10 ≤ c && c ≤ 13) || (28 ≤ c && c ≤ 30) || c == 0x85 || c == 0x2028 || c == 0x2029

/-- The lines of a text whose first line has begun. -/
def linesFrom (begun : PyStr) : PyStr → List PyStr
  | [] => if begun = [] then [] else [begun]
  | 13 :: 10 :: rest => begun :: linesFrom [] rest
  | c :: rest => if isLineBreak c then begun :: linesFrom [] rest else linesFrom (begun ++ [c]) rest

/-- `str.splitlines`. -/
def splitlines (text : PyStr) : List PyStr := linesFrom [] text

/-- `ParsedKeyLine` of the parser. -/
structure ParsedLine where
  lineNo : Nat
  raw : PyStr
  apiKey : PyStr
  accountUsername : Option PyStr := none
  accountPassword : Option PyStr := none
  accountVerifiedAt : Option Instant := none
deriving DecidableEq

structure ParseFailure where
  lineNo : Nat
  raw : PyStr
  message : PyStr
deriving DecidableEq

section

variable (fromIsoformat : PyStr → Except PyStr Instant)

/-- `_DATE_ONLY_RE.match`. -/
def isDateOnly (s : PyStr) : Bool :=
  let digits (part : PyStr) : Bool := part.all fun c => (digitValue? c).isSome
  s.length == 10 && digits (s.take 4) && s[4]? == some 45 && digits ((s.drop 5).take 2) &&
    s[7]? == some 45 && digits (s.drop 8)

/-- `s.replace(" ", "T", 1)`. -/
def blankToT : PyStr → PyStr
  | [] => []
  | c :: rest => if c = 32 then 84 :: rest else c :: blankToT rest

/-- `_parse_datetime_utc`. -/
def parseDatetimeUtc (raw : PyStr) : Except PyStr Instant :=
  let s := strip raw
  if s = [] then .error (PyStr.ofString "empty datetime")
  else if isDateOnly s then fromIsoformat (s ++ PyStr.ofString "T00:00:00+00:00")
  else if s.getLast? = some 90 then fromIsoformat (s.dropLast ++ PyStr.ofString "+00:00")
  else if 32 ∈ s ∧ 84 ∉ s ∧ 43 ∉ s then fromIsoformat (blankToT s)
  else fromIsoformat s

/-- `_split_fields`. -/
def splitFields (line : PyStr) : List PyStr :=
  if 124 ∈ line then (line.splitOn 124).map strip
  else if 9 ∈ line then (line.splitOn 9).map strip
  else if 44 ∈ line then (line.splitOn 44).map strip
  else ((line.splitOnP isSpace).filter (· ≠ [])).map strip

/-- The key, the user, the password and the date of the fields of a line. -/
def readColumns : List PyStr → Except PyStr (PyStr × Option PyStr × Option PyStr × Option Instant)
  | [apiKey] => .ok (apiKey, none, none, none)
  | [username, apiKey] => .ok (apiKey, some username, none, none)
  | [username, password, apiKey] => .ok (apiKey, some username, some password, none)
  | [username, password, apiKey, verifiedRaw] =>
    if verifiedRaw = [] then .ok (apiKey, some username, some password, none)
    else (parseDatetimeUtc fromIsoformat verifiedRaw).map fun at' =>
      (apiKey, some username, some password, some at')
  | _ => .error (PyStr.ofString "expect 1/2/3/4 fields per line")

/-- `(value or "").strip() or None`. -/
def strippedOrNone (value : Option PyStr) : Option PyStr := (value.map strip).filter (· ≠ [])

/-- What the fields of a line give. -/
def readLine (lineNo : Nat) (raw : PyStr) (parts : List PyStr) : Except ParseFailure ParsedLine :=
  match readColumns fromIsoformat parts with
  | .error message => .error { lineNo, raw, message }
  | .ok (apiKey, username, password, verifiedAt) =>
    if (strip apiKey).length < 8 then
      .error { lineNo, raw, message := PyStr.ofString "api_key too short" }
    else
      .ok
        { lineNo
          raw
          apiKey := strip apiKey
          accountUsername := strippedOrNone username
          accountPassword := strippedOrNone password
          accountVerifiedAt := verifiedAt }

/-- What a line gives, if it is neither blank nor a comment. -/
def parseLine (lineNo : Nat) (raw : PyStr) : Option (Except ParseFailure ParsedLine) :=
  let line := strip raw
  if line = [] ∨ line.head? = some 35 then none
  else some (readLine fromIsoformat lineNo raw ((splitFields line).filter (· ≠ [])))

/-- What the lines of a text give, in order. -/
def parsedLines (text : PyStr) : List (Except ParseFailure ParsedLine) :=
  ((splitlines text).zipIdx 1).filterMap fun line => parseLine fromIsoformat line.2 line.1

/-- `parse_keys_text`. -/
def parseKeysText (text : PyStr) : List ParsedLine × List ParseFailure :=
  let lines := parsedLines fromIsoformat text
  (lines.filterMap fun line => line.toOption,
    lines.filterMap fun
      | .error failure => some failure
      | .ok _ => none)

end

/-! ### Importing -/

/-- A text without lone surrogates. -/
def PyStr.text (s : PyStr) : String := String.ofList (s.map Char.ofNat)

/-- A line as its item is stored, or nothing where its key or its password cannot be encoded, which
raises. -/
def ParsedLine.stored (line : ParsedLine) : Option ParsedKeyLine :=
  if line.apiKey.any isSurrogate || line.accountPassword.any (·.any isSurrogate) then none
  else
    some
      { lineNo := line.lineNo
        raw := line.raw.text
        apiKey := line.apiKey.text
        accountUsername := line.accountUsername.map PyStr.text
        accountPassword := line.accountPassword.map PyStr.text
        accountVerifiedAt := line.accountVerifiedAt }

/-- `failures.append`, for a line whose savepoint raises. -/
def ImportResult.fail (item : ParsedKeyLine) (text : String)
    (result : ImportResult) : ImportResult :=
  { result with failures := result.failures ++ [(item.lineNo, item.raw, text)] }

/-- What happens around an import: the day, the nonces that are drawn, what fails, with the text of
the exception, and the commit. In the savepoint of a line the flush of its key may fail, as it does
for a user that cannot be encoded, and so may the flush at the exit, which writes the audit row and
the columns of an existing key. -/
structure ImportEnv where
  today : Day
  nonces : Nat → Bytes × Bytes
  flush : ParsedLine → Option String
  exit : ParsedLine → Option String
  commits : Bool

section

variable (security : Security) (masterKey : Bytes) (clientId : Option Nat) (req : ImportRequest)
  (env : ImportEnv)

/-- The loop over the lines. A savepoint that fails is rolled back and reported; at its exit the
line is counted already. -/
def importLines : List ParsedLine → ImportResult → World → Option (ImportResult × World)
  | [], result, w => some (result, w)
  | line :: rest, result, w =>
    match line.stored with
    | none => none
    | some item =>
      match env.flush line with
      | some text => importLines rest (result.fail item text) w
      | none =>
        let (counted, after) :=
          importItem security env.today masterKey clientId req (env.nonces item.lineNo) item result
            w
        match env.exit line with
        | some text => importLines rest (counted.fail item text) w
        | none => importLines rest counted after

end

/-- `import_keys_text`. -/
def importKeysText (security : Security) (masterKey : Option Bytes)
    (fromIsoformat : PyStr → Except PyStr Instant) (env : ImportEnv) (text : PyStr)
    (req : ImportRequest) (w : World) : Except Raised ImportResult × World :=
  match masterKey, requestedClient w req.clientId with
  | none, _ => (.error (.fcam notReady), w)
  | some _, .error error => (.error (.fcam error), w)
  | some masterKey, .ok clientId =>
    let (items, failures) := parseKeysText fromIsoformat text
    if items.isEmpty && !failures.isEmpty then
      (.error (.fcam
       { statusCode := 400, code := .validationError, message := "No valid lines to import" }), w)
    else
      let reported :=
        failures.map fun failure => (failure.lineNo, failure.raw.text, failure.message.text)
      match importLines security masterKey clientId req env items { failures := reported } w with
      | none => (.error .unicodeEncodeError, w)
      | some (result, after) =>
        if env.commits then (.ok result, after)
        else (.error (.fcam (dbUnavailable "Database unavailable")), w)

end Fcam
