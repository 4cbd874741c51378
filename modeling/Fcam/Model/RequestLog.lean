import Mathlib.Data.List.Infix
import Fcam.Model.Redact
import Fcam.Model.Rows
import Fcam.Model.Upstream

/-!
# The error details of a request

`middleware.py`: what is kept of an error response that a handler returns, and the text of it that
goes into the request's log row.
-/

namespace Fcam

/-- What `request.state` holds about an error. -/
structure ErrorState where
  errorCode : Option PyStr := none
  errorDetails : Option Json := none

/-- `_MAX_ERROR_DETAILS_CHARS`. -/
def maxErrorDetailsChars : Nat := 2000

/-- `_MAX_ERROR_BODY_PREVIEW_BYTES`. -/
def maxErrorBodyPreviewBytes : Nat := 8192

def asciiLower (text : PyStr) : PyStr := text.map fun c => if 65 ≤ c ∧ c ≤ 90 then c + 32 else c

section

variable (loads : Bytes → Option Json) (unicodeWord : Nat → Bool)

/-! ### Capturing -/

/-- The members of the details that tell of the body. -/
def bodyDetails (contentType : PyStr) (body : Bytes) : List (PyStr × Json) :=
  let truncated := decide (maxErrorBodyPreviewBytes < body.length)
  let isJson := decide (PyStr.ofString "application/json" <:+: asciiLower contentType)
  let parsed := if isJson && !truncated then loads body else none
  if body.isEmpty then []
  else
    [(PyStr.ofString "body_preview", .str (utf8Replace none (body.take maxErrorBodyPreviewBytes))),
      (PyStr.ofString "body_truncated", .bool truncated)] ++
      (parsed.map fun value => (PyStr.ofString "body_json", value)).toList

/-- `(response.headers.get("content-type") or "").strip()`. -/
def contentType (r : Response) : PyStr :=
  strip (PyStr.ofString ((header r.headers "content-type").getD ""))

/-- The error of a response. -/
def responseError (r : Response) : Json :=
  .obj
    [(PyStr.ofString "code", .str (PyStr.ofString "UPSTREAM_HTTP_ERROR")),
      (PyStr.ofString "message", .str (PyStr.ofString "Upstream returned error response")),
      (PyStr.ofString "details",
        .obj
          ([(PyStr.ofString "status_code", .int r.statusCode),
           (PyStr.ofString "content_type", .str (contentType r)),
            (PyStr.ofString "body_bytes", .int r.body.length)] ++ bodyDetails loads (contentType r)
              r.body))]

/-- `_maybe_capture_error_from_response`. -/
def maybeCaptureErrorFromResponse (r : Response) (state : ErrorState) : ErrorState :=
  if state.errorCode.isSome || r.statusCode < 400 then state
  else
    { errorCode := some (PyStr.ofString "UPSTREAM_HTTP_ERROR"),
      errorDetails := some (responseError loads r) }

/-! ### Dumping -/

/-- `preview_len` in the five tries, from a longer text: each is `int(n * 0.6)` of the one
before. -/
def previewLengths : List Nat := [2000, 1200, 720, 432, 259]

/-- The members of a value that is an object. -/
def membersOf : Json → List (PyStr × Json)
  | .obj members => members
  | _ => []

/-- What is kept of a long error besides its preview. -/
def truncatedBase (safe : Json) : List (PyStr × Json) :=
  let code :=
    ((membersOf safe).lookup (PyStr.ofString "code")).map fun value =>
      (PyStr.ofString "code", value)
  let truncated : PyStr × Json := (PyStr.ofString "truncated", .bool true)
  match (membersOf safe).lookup (PyStr.ofString "message") with
  | none => code.toList ++ [truncated]
  | some .null => code.toList ++ [(PyStr.ofString "message", .null), truncated]
  | some message =>
    let text :=
      match message with
      | .str text => text
      | message => message.dumpsSpaced
    if 400 < text.length then
      code.toList ++ [(PyStr.ofString "message", .str (text.take 400)), truncated,
        (PyStr.ofString "message_truncated", .bool true)]
    else code.toList ++ [(PyStr.ofString "message", .str text), truncated]

/-- A long error with a preview of some length. -/
def previewCandidate (base : List (PyStr × Json)) (text : PyStr) (n : Nat) : PyStr :=
  (Json.obj (base ++ [(PyStr.ofString "preview", .str (text.take n))])).dumpsSpaced

/-- The length of the preview that is kept, if one fits. -/
def keptLength (base : List (PyStr × Json)) (text : PyStr) : Option Nat :=
  previewLengths.find? fun n => (previewCandidate base text n).length ≤ maxErrorDetailsChars

/-- The text a redacted error is cut down to. -/
def cutDown (base : List (PyStr × Json)) (text : PyStr) : PyStr :=
  if text.length ≤ maxErrorDetailsChars then text
  else
    match keptLength base text with
    | some n => previewCandidate base text n
    | none =>
      let dumpedBase := (Json.obj base).dumpsSpaced
      if dumpedBase.length ≤ maxErrorDetailsChars then dumpedBase
      else (Json.obj [(PyStr.ofString "truncated", .bool true)]).dumpsSpaced

/-- `_dump_error_details`. The `null` of JSON is `None` too. -/
def dumpErrorDetails : Option Json → Option PyStr
  | none => none
  | some .null => none
  | some value =>
    let safe := redactData unicodeWord value
    some (cutDown (truncatedBase safe) safe.dumpsSpaced)

/-- The `error_details` of the log row of a request that is answered with a response. -/
def persistedErrorDetails (r : Response) (state : ErrorState) : Option PyStr :=
  dumpErrorDetails unicodeWord (maybeCaptureErrorFromResponse loads r state).errorDetails

end

end Fcam
