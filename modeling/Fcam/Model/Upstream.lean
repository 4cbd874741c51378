import Fcam.Model.Config
import Fcam.Model.Error
import Fcam.Model.Json
import Fcam.Model.Rows

/-!
# The upstream exchange

What the HTTP client gives back for one request, and how the gateway turns headers and answers into
its own. `UpstreamResponse.headers` is `Headers.items()` of the client library: names in lower case,
each once, repeated values joined.
-/

namespace Fcam

structure UpstreamResponse where
  statusCode : Nat
  headers : List (String × String) := []
  content : Bytes := []
  /-- What parsing the content as JSON gives, if it parses. -/
  json : Option Json := none

/-- How one upstream request ends: an answer, `httpx.TimeoutException`, another `httpx.HTTPError`,
an exception that is neither, or such an exception raised while the request is built, before
anything is sent. -/
inductive Outcome where
  | response (r : UpstreamResponse)
  | timeout
  | httpError (text : String)
  | exception (text : String)
  | unsent (text : String)

/-- A request as the HTTP client sends it. -/
structure UpstreamRequest where
  baseUrl : String
  method : String
  path : String
  headers : List (String × String)
  jsonBody : Option Json

/-- One request to an upstream: the key it was made with and its decrypted secret, how it ended, and
the key rows before it and once its outcome has been written. -/
structure Exchange where
  request : UpstreamRequest
  keyId : Nat
  secret : String
  outcome : Outcome
  before : Table ApiKey
  after : Table ApiKey

def is2xx (statusCode : Nat) : Bool := 200 ≤ statusCode && statusCode < 300

/-- The outcome is an answer with a 2xx status. -/
def Outcome.won : Outcome → Bool
  | response r => is2xx r.statusCode
  | _ => false

/-- The request was sent. -/
def Outcome.sent : Outcome → Bool
  | unsent _ => false
  | _ => true

def lower (s : String) : List Char := s.toList.map Char.toLower

def upper (s : String) : List Char := s.toList.map Char.toUpper

/-! ### Headers -/

/-- `headers.get(name)` of a header map with lower-case names. -/
def header (headers : List (String × String)) (name : String) : Option String := headers.lookup name

/-- `_parse_retry_after`. -/
def parseRetryAfter (headers : List (String × String)) : Option Int :=
  match header headers "retry-after" with
  | none => none
  | some raw =>
    if raw = "" then none
    else (intOfText (strip (PyStr.ofString raw))).map fun seconds => max seconds 0

/-- `_parse_retry_after(resp.headers) or config.rate_limit.cooldown_seconds`. -/
def cooldownOf (config : AppConfig) (headers : List (String × String)) : Int :=
  match parseRetryAfter headers with
  | none => config.rateLimit.cooldownSeconds
  | some seconds => if seconds = 0 then config.rateLimit.cooldownSeconds else seconds

/-- `_sanitized_request_headers`. -/
def sanitizedRequestHeaders (inbound : List (String × String)) (requestId : String) :
    List (String × String) :=
  let kept := ["accept", "content-type", "user-agent"].filterMap fun name =>
    (header inbound name).bind fun value => if value = "" then none else some (name, value)
  ("x-request-id", requestId) :: kept

/-- `_DROP_RESPONSE_HEADERS`. -/
def dropResponseHeaders : List String :=
  ["connection", "keep-alive", "content-encoding", "content-length", "proxy-authenticate",
    "proxy-authorization", "te", "trailers", "transfer-encoding", "upgrade", "set-cookie"]

def latin1 (s : String) : Bool := s.toList.all fun c => c.toNat < 256

/-- `Response(content=..., status_code=..., headers=...)`: the header texts must be Latin-1, and a
missing `content-length` is filled in where the status allows a body. -/
def mkResponse (statusCode : Nat) (headers : List (String × String)) (body : Bytes) :
    Except Raised Response :=
  if headers.all fun h => latin1 h.1 && latin1 h.2 then
    let bodiless := statusCode < 200 || statusCode == 204 || statusCode == 304
    let filled :=
      if (headers.map Prod.fst).contains "content-length" || bodiless then headers
      else headers ++ [("content-length", String.ofList (Nat.toDigits 10 body.length))]
    .ok { statusCode, headers := filled, body }
  else .error .unicodeEncodeError

/-- `_to_fastapi_response`. -/
def toFastapiResponse (r : UpstreamResponse) : Except Raised Response :=
  mkResponse r.statusCode (r.headers.filter fun h => !dropResponseHeaders.contains h.1) r.content

/-! ### Secrets -/

/-- The primitives of `security.py`, which rest on `cryptography`, `hmac` and `hashlib`. Encryption
takes the nonce the source draws at random, and decryption gives nothing where the source catches
`InvalidTag` or `ValueError`. -/
structure Security where
  deriveMasterKeyBytes : String → Bytes
  hmacSha256Hex : Bytes → String → String
  encryptApiKey : Bytes → Bytes → String → Bytes
  decryptApiKey : Bytes → Bytes → Option String
  encryptAccountPassword : Bytes → Bytes → String → Bytes

/-- Primitives that hide nothing, for runs on fixed inputs; an empty ciphertext is the one that
cannot be decrypted. -/
def Security.plain : Security :=
  let bytes (s : String) : Bytes := s.toList.map fun c => c.toNat.toUInt8
  { deriveMasterKeyBytes := bytes
    hmacSha256Hex := fun _ text => text
    encryptApiKey := fun _ _ text => bytes text
    decryptApiKey := fun _ ciphertext =>
      if ciphertext = [] then none
      else some (String.ofList (ciphertext.map fun b => Char.ofNat b.toNat))
    encryptAccountPassword := fun _ _ text => bytes text }

end Fcam
