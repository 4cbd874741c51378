import Fcam.Base.Base64
import Fcam.Model.Idempotency
import Fcam.Model.JsonLoads
import Fcam.Model.Redact

/-!
# The text of a stored response

`_serialize_response` and `_deserialize_response` as they read and write the column `response_body`:
a JSON object with the headers and the body in base64. The names of stored headers are in lower
case, as a response has them.
-/

namespace Fcam

/-- `json.dumps(blob, ensure_ascii=False)` of a response. -/
def blobText (response : Response) : PyStr :=
  let headers := response.headers.map fun h => (PyStr.ofString h.1, Json.str (PyStr.ofString h.2))
  (Json.obj
    [(PyStr.ofString "v", .int 1), (PyStr.ofString "headers", .obj (Json.dict headers)),
      (PyStr.ofString "body_b64", .str (Base64.encode response.body))]).dumpsSpaced

/-- `_serialize_response`: the status and the text. -/
def serializeText (response : Response) (maxBytes : Int) : Except FcamError (Nat × PyStr) :=
  if maxBytes < response.body.length then
    .error { statusCode := 413, code := .requestTooLarge, message := "Response too large to store" }
  else .ok (response.statusCode, blobText response)

/-- `value == 1`. -/
def Json.isOne : Json → Bool
  | .bool value => value
  | .int value => value == 1
  | .float repr _ => repr == PyStr.ofString "1.0"
  | _ => false

/-- `value or default`. -/
def Json.orElse (value default : Json) : Json := if value.truthy then value else default

/-- `text.encode("latin-1")` can be done, and the text is one of these characters. -/
def latin1Text? (text : PyStr) : Option String :=
  if text.all (· < 256) then some (String.ofList (text.map Char.ofNat)) else none

section

variable (float : PyStr → PyStr × Option Int) (strOf : Json → PyStr)

/-- `str(value)`; that of a value which is no text is left open. -/
def headerText : Json → PyStr
  | .str value => value
  | value => strOf value

/-- The headers and the body in a stored text, or nothing where reading them raises. -/
def readBlob (text : PyStr) : Option (List (String × String) × Bytes) := do
  let data ← Json.loads (.default float) text
  let version ← data.get? "v" .null
  let headers ← data.get? "headers" .null
  let body ← data.get? "body_b64" .null
  match version.isOne, headers.orElse (.obj []), body.orElse (.str []) with
  | true, .obj members, .str encoded => do
    let body ← if encoded.all (· < 128) then Base64.decode encoded else none
    let headers ← members.mapM fun m => do
      let name ← latin1Text? m.1
      let value ← latin1Text? (headerText strOf m.2)
      some (name, value)
    some (headers, body)
  | _, _, _ => none

/-- `_deserialize_response`. -/
def deserializeText (statusCode : Nat) (text : PyStr) : Begun :=
  match readBlob float strOf text with
  | some stored => deserializeResponse statusCode stored
  | none => .raised (.fcam invalidIdempotencyRecord)

end

end Fcam
