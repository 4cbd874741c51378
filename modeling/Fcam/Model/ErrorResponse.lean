import Fcam.Model.RequestLogs

/-!
# How errors are answered

`errors.py`: the body and the headers of an error, and the exception handlers, each of which leaves
the error in `request.state` and answers it in the form of the caller: the data plane's clients get
that of Firecrawl. The names of headers are in lower case.
-/

namespace Fcam

/-- The text of a `code`. -/
def ErrorCode.text : ErrorCode → String
  | adminUnauthorized => "ADMIN_UNAUTHORIZED"
  | allKeysBusy => "ALL_KEYS_BUSY"
  | allKeysCooling => "ALL_KEYS_COOLING"
  | allKeysDisabled => "ALL_KEYS_DISABLED"
  | allKeysQuotaExceeded => "ALL_KEYS_QUOTA_EXCEEDED"
  | apiKeyDuplicate => "API_KEY_DUPLICATE"
  | clientConcurrencyLimited => "CLIENT_CONCURRENCY_LIMITED"
  | clientDisabled => "CLIENT_DISABLED"
  | clientNotFound => "CLIENT_NOT_FOUND"
  | clientQuotaExceeded => "CLIENT_QUOTA_EXCEEDED"
  | clientRateLimited => "CLIENT_RATE_LIMITED"
  | clientUnauthorized => "CLIENT_UNAUTHORIZED"
  | dbUnavailable => "DB_UNAVAILABLE"
  | decryptionFailed => "DECRYPTION_FAILED"
  | idempotencyInProgress => "IDEMPOTENCY_IN_PROGRESS"
  | idempotencyKeyConflict => "IDEMPOTENCY_KEY_CONFLICT"
  | idempotencyKeyRequired => "IDEMPOTENCY_KEY_REQUIRED"
  | internalError => "INTERNAL_ERROR"
  | invalidApiKey => "INVALID_API_KEY"
  | keyDecryptFailed => "KEY_DECRYPT_FAILED"
  | keyNotFound => "KEY_NOT_FOUND"
  | mixedProviderBatch => "MIXED_PROVIDER_BATCH"
  | notFound => "NOT_FOUND"
  | notReady => "NOT_READY"
  | noKeyAvailable => "NO_KEY_AVAILABLE"
  | noKeyConfigured => "NO_KEY_CONFIGURED"
  | pathNotAllowed => "PATH_NOT_ALLOWED"
  | providerNotConfigured => "PROVIDER_NOT_CONFIGURED"
  | rateLimited => "RATE_LIMITED"
  | refreshTooFrequent => "REFRESH_TOO_FREQUENT"
  | requestTooLarge => "REQUEST_TOO_LARGE"
  | timeout => "TIMEOUT"
  | unknownError => "UNKNOWN_ERROR"
  | unsupportedMediaType => "UNSUPPORTED_MEDIA_TYPE"
  | unsupportedProviderOperation => "UNSUPPORTED_PROVIDER_OPERATION"
  | upstreamError => "UPSTREAM_ERROR"
  | upstreamTimeout => "UPSTREAM_TIMEOUT"
  | upstreamUnavailable => "UPSTREAM_UNAVAILABLE"
  | validationError => "VALIDATION_ERROR"

namespace Json

def text (s : String) : Json := .str (PyStr.ofString s)

/-- `None`, or the value. -/
def orNull (value : Option Json) : Json := value.getD .null

/-- `json.dumps(value, ensure_ascii=False, separators=(",", ":"))`: the members in order. -/
def dumpsCompact : Json → PyStr := write []

end Json

/-- A member of a dictionary of the source. -/
def keyed (name : String) (value : Json) : PyStr × Json := (PyStr.ofString name, value)

/-- The details of an error as the dictionary they are. -/
def ErrorDetails.json (details : ErrorDetails) : Json :=
  let number (n : Nat) : Json := .int n
  .obj
    ([details.clientId.map fun id => keyed "client_id" (number id),
      details.apiKeyId.map fun id => keyed "api_key_id" (number id),
      details.baseUrl.map fun url => keyed "base_url" (.text url),
      details.timeoutS.map fun seconds => keyed "timeout_s" (.int seconds),
      details.attempts.map fun attempts => keyed "attempts" (number attempts),
      details.method.map fun method => keyed "method" (.text method),
      details.upstreamPath.map fun path => keyed "upstream_path" (.text path),
      details.error.map fun error => keyed "error" (.text error),
      details.lastUpstreamStatusCode.map fun code =>
        keyed "last_upstream_status_code" (.orNull (code.map number)),
      details.lastApiKeyId.map fun id => keyed "last_api_key_id" (.orNull (id.map number)),
      details.maxBodyBytes.map fun bytes => keyed "max_body_bytes" (.int bytes)].reduceOption)

/-! ### Responses -/

/-- A text of ASCII characters. -/
def PyStr.asString (s : PyStr) : String := String.ofList (s.map Char.ofNat)

/-- The `content-length` a new response gets, unless its status is one without a body. -/
def contentLength (statusCode : Nat) (body : Bytes) : List (String × String) :=
  if statusCode < 200 ∨ statusCode = 204 ∨ statusCode = 304 then []
  else [("content-length", toString body.length)]

/-- `JSONResponse`, or nothing where the text cannot be encoded. -/
def jsonResponse (statusCode : Nat) (headers : List (String × String)) (content : Json) :
    Option Response :=
  (utf8Encode content.dumpsCompact).map fun body =>
    { statusCode,
      headers := headers ++ contentLength statusCode body ++ [("content-type", "application/json")],
      body }

def errorHeaders (requestId : PyStr) (retryAfter : Option Int) : List (String × String) :=
  ("x-request-id", requestId.asString) ::
    (retryAfter.map fun seconds => ("retry-after", toString seconds)).toList

/-- The body of `_json_error`. -/
def jsonErrorBody (requestId : PyStr) (code message : String) (details : Option Json) : Json :=
  .obj
    [keyed "request_id" (.str requestId),
      keyed "error" (.obj [keyed "code" (.text code), keyed "message" (.text message),
        keyed "details" (.orNull details)])]

/-- `_json_error`, which `build_error_response` calls too. -/
def jsonError (requestId : PyStr) (statusCode : Nat) (code message : String) (details : Option Json)
    (retryAfter : Option Int) :
    Option Response :=
  jsonResponse statusCode (errorHeaders requestId retryAfter)
    (jsonErrorBody requestId code message details)

/-- The body of `_firecrawl_json_error`. -/
def firecrawlError (code message : String) : Json :=
  .obj [keyed "success" (.bool false), keyed "error" (.text message), keyed "code" (.text code)]

/-- `_firecrawl_json_error`, which `build_proxy_error_response` calls too; no code is empty. -/
def firecrawlJsonError (requestId : PyStr) (statusCode : Nat) (code message : String)
    (retryAfter : Option Int) :
    Option Response :=
  jsonResponse statusCode (errorHeaders requestId retryAfter) (firecrawlError code message)

/-- `_is_proxy_path`. -/
def isProxyPath (path : PyStr) : Bool :=
  (["/api/", "/v1/", "/v2/", "/exa/"].map PyStr.ofString).any (·.isPrefixOf path)

/-! ### The handlers -/

/-- The error a handler leaves in `request.state`. -/
def errorState (code message : String) (rest : List (PyStr × Json)) : ErrorState :=
  { errorCode := some (PyStr.ofString code)
    errorDetails :=
      some (.obj ([keyed "code" (.text code), keyed "message" (.text message)] ++ rest)) }

section

variable (path requestId : PyStr)

/-- `_handle_fcam_error`; `FcamErrorMiddleware` does the same. -/
def handleFcamError (error : FcamError) : ErrorState × Option Response :=
  let details := error.details.map ErrorDetails.json
  (errorState error.code.text error.message
      [keyed "details" (.orNull details),
        keyed "retry_after" (.orNull (error.retryAfter.map Json.int))],
    if isProxyPath path then
      firecrawlJsonError requestId error.statusCode error.code.text error.message error.retryAfter
    else jsonError requestId error.statusCode error.code.text error.message details
      error.retryAfter)

/-- `_handle_validation_error`, of the items of `exc.errors()`. -/
def handleValidationError (errors : List (List (PyStr × Json))) : ErrorState × Option Response :=
  let safeErrors :=
    errors.map fun error => Json.obj (error.filter fun member => member.1 ≠ PyStr.ofString "input")
  (errorState "VALIDATION_ERROR" "Validation error"
      [keyed "details" (.obj [keyed "errors" (.arr (safeErrors.take 20))])],
    if isProxyPath path then
      firecrawlJsonError requestId 400 "VALIDATION_ERROR" "Invalid request parameters" none
    else
      jsonError requestId 400 "VALIDATION_ERROR" "Validation error"
        (some (.obj [keyed "errors" (.arr safeErrors)])) none)

/-- The code and the message of `_handle_http_exception`. -/
def httpError (statusCode : Nat) : String × String :=
  if statusCode = 404 then ("NOT_FOUND", "Not found") else ("INTERNAL_ERROR", "HTTP error")

/-- `_handle_http_exception`. -/
def handleHttpException (statusCode : Nat) : ErrorState × Option Response :=
  let error := httpError statusCode
  (errorState error.1 error.2 [keyed "details" (.obj [keyed "status_code" (.int statusCode)])],
    if isProxyPath path then firecrawlJsonError requestId statusCode error.1 error.2 none
    else jsonError requestId statusCode error.1 error.2 none none)

/-- `_handle_unexpected`. -/
def handleUnexpected (exceptionType : PyStr) : ErrorState × Option Response :=
  (errorState "INTERNAL_ERROR" "Internal error"
      [keyed "details" (.obj [keyed "exception_type" (.str exceptionType)])],
    if isProxyPath path then
      firecrawlJsonError requestId 500 "UNKNOWN_ERROR" "An unexpected error occurred on the server."
        none
    else jsonError requestId 500 "INTERNAL_ERROR" "Internal error" none none)

end

end Fcam
