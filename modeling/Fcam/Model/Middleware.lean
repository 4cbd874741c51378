import Mathlib.Logic.Function.Basic
import Fcam.Model.ErrorResponse

/-!
# The middlewares

`middleware.py`: on its way in a request passes `RequestIdMiddleware`, `FcamErrorMiddleware` and
`RequestLimitsMiddleware`, and behind them the exception handlers and the routes. An exception that
no handler is for leaves them all, so that it is neither logged nor counted, and is answered outside
of them. `metrics.py`: `record_request`.
-/

namespace Fcam

/-- How the routes answer a request, or the exception that leaves them. -/
inductive Ending where
  | answered (response : Response)
  | fcamError (error : FcamError)
  | validationError (errors : List (List (PyStr × Json)))
  | httpException (statusCode : Nat)
  | other (exceptionType : PyStr)

/-- What the routes make of a request, with what they write into `request.state`. -/
structure Routed where
  endpoint : Option PyStr := none
  clientId : Option Nat := none
  apiKeyId : Option Nat := none
  retryCount : Option Int := none
  ending : Ending

/-- A request, the UUID that is drawn for it, what the routes would make of it, its latency, and
when its row is written and to which database. -/
structure Arrival where
  req : InboundRequest
  uuid : BitVec 128
  routed : Routed
  responseTimeMs : Int
  createdAt : Instant
  db : Db := {}

def Arrival.requestId (x : Arrival) : PyStr := requestIdOf x.req.headers x.uuid

/-! ### Headers -/

/-- `response.headers[name] = value`. -/
def setHeader (name value : String) : List (String × String) → List (String × String)
  | [] => [(name, value)]
  | first :: rest =>
    if first.1 = name then (name, value) :: rest.filter fun other => other.1 ≠ name
      else first :: setHeader name value rest

/-- `dict(headers)`: of a name that is repeated the first value. -/
def firstOfEach : List (String × String) → List (String × String)
  | [] => []
  | first :: rest => first :: (firstOfEach rest).filter fun other => other.1 ≠ first.1

/-- The response `_maybe_capture_error_from_response` returns: where it reads the body, it builds
the response anew. -/
def capturedResponse (r : Response) (state : ErrorState) : Response :=
  if state.errorCode.isSome || r.statusCode < 400 then r
  else
    { r with
      headers := ((firstOfEach r.headers).filter fun member => member.1 ≠ "content-length") ++
        contentLength r.statusCode r.body }

/-! ### Metrics -/

/-- `RequestMetrics`. -/
structure RequestMetrics where
  endpoint : PyStr
  method : PyStr
  statusCode : Int
  latencyMs : Int
  clientId : Option Nat

/-- The labels of `fcam_requests_total`. -/
structure RequestLabels where
  endpoint : PyStr
  method : PyStr
  statusCode : PyStr
  clientId : PyStr
deriving DecidableEq

/-- The labels a request is counted under. -/
def RequestMetrics.labels (m : RequestMetrics) : RequestLabels :=
  { endpoint := m.endpoint
    method := m.method
    statusCode := Json.intText m.statusCode
    clientId := (m.clientId.map fun id => Json.intText id).getD (PyStr.ofString "unknown") }

/-- The counter, and what the histogram has observed for an endpoint and a method. -/
structure Metrics where
  requestsTotal : RequestLabels → Nat := fun _ => 0
  requestDurationMs : PyStr × PyStr → List Int := fun _ => []

/-- `record_request`. -/
def Metrics.recordRequest (metrics : Metrics) (m : RequestMetrics) : Metrics :=
  let route := (m.endpoint, m.method)
  { requestsTotal := Function.update metrics.requestsTotal m.labels
      (metrics.requestsTotal m.labels + 1)
    requestDurationMs :=
      Function.update metrics.requestDurationMs route
        (metrics.requestDurationMs route ++ [m.latencyMs]) }

/-! ### The stack -/

/-- What an answer that cannot be encoded raises. -/
def encoded (handled : ErrorState × Option Response) : ErrorState × Except PyStr Response :=
  (handled.1,
    match handled.2 with
    | some response => .ok response
    | none => .error (PyStr.ofString "UnicodeEncodeError"))

/-- The exception handlers around the routes: the error they leave, and the answer or the type of
the exception that passes. -/
def Ending.handled (path requestId : PyStr) : Ending → ErrorState × Except PyStr Response
  | answered response => ({}, .ok response)
  | fcamError error => encoded (handleFcamError path requestId error)
  | validationError errors => encoded (handleValidationError path requestId errors)
  | httpException statusCode => encoded (handleHttpException path requestId statusCode)
  | other exceptionType => ({}, .error exceptionType)

/-- The middlewares, with what they take from the libraries and the rows a database accepts. -/
structure Middlewares where
  limits : RequestLimits
  loads : Bytes → Option Json
  unicodeWord : Nat → Bool
  accepts : Db → RequestLog → Bool := fun _ _ => true
  metricsEnabled : Bool := true

/-- What is observed of the requests. -/
structure Observed where
  logs : Table RequestLog := .empty
  metrics : Metrics := {}

namespace Middlewares

variable (m : Middlewares)

/-- `FcamErrorMiddleware`, around `RequestLimitsMiddleware`: what is in `request.state` then, and
how it ends. -/
def fcamErrorMiddleware (x : Arrival) : RequestState × Except PyStr Response :=
  match m.limits.dispatch x.req with
  | .error error =>
    let (error, result) := encoded (handleFcamError x.req.pathText x.requestId error)
    ({ requestId := some x.requestId, error }, result)
  | .ok () =>
    let (error, result) := x.routed.ending.handled x.req.pathText x.requestId
    ({ endpoint := x.routed.endpoint
       requestId := some x.requestId
       clientId := x.routed.clientId
       apiKeyId := x.routed.apiKeyId
       retryCount := x.routed.retryCount
       error }, result)

/-- `RequestIdMiddleware`, up to the row and the count. -/
def requestIdMiddleware (x : Arrival) : RequestState × Except PyStr Response :=
  match m.fcamErrorMiddleware x with
  | (state, .error exceptionType) => (state, .error exceptionType)
  | (state, .ok response) =>
    let response :=
      { response with headers := setHeader "x-request-id" x.requestId.asString response.headers }
    ({ state with error := maybeCaptureErrorFromResponse m.loads response state.error },
      .ok (capturedResponse response state.error))

/-- The row of a request that gets an answer. -/
def logOf (x : Arrival) (state : RequestState) (response : Response) : Option RequestLog :=
  requestLogOf m.unicodeWord x.req state (some response.statusCode) x.responseTimeMs x.createdAt

/-- What is counted of a request with a row. -/
def metricsOf (x : Arrival) (state : RequestState) (response : Response) : Option RequestMetrics :=
  (m.logOf x state response).map fun log =>
    { endpoint := log.endpoint
      method := PyStr.ofString x.req.method
      statusCode := response.statusCode
      latencyMs := x.responseTimeMs
      clientId := state.clientId }

/-- The answer to a request, and what is observed of it. -/
def serve (o : Observed) (x : Arrival) : Option Response × Observed :=
  match m.requestIdMiddleware x with
  | (_, .error exceptionType) => ((handleUnexpected x.req.pathText x.requestId exceptionType).2, o)
  | (state, .ok response) =>
    (some response,
      { logs := persistRequestLog (m.accepts x.db) (m.logOf x state response) o.logs
        metrics :=
          if m.metricsEnabled then
            (m.metricsOf x state response).elim o.metrics o.metrics.recordRequest
          else o.metrics })

/-- The answers to requests that come one after the other, and what is observed of them. -/
def serveAll (o : Observed) : List Arrival → List (Option Response) × Observed
  | [] => ([], o)
  | x :: rest =>
    let (response, next) := m.serve o x
    let (responses, last) := serveAll next rest
    (response :: responses, last)

end Middlewares

end Fcam
