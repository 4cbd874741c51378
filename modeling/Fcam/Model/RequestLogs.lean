import Mathlib.Algebra.Group.Nat.Defs
import Fcam.Base.Condition
import Fcam.Model.ControlPlane
import Fcam.Model.RequestLog
import Fcam.Model.Routes

/-!
# The request logs

`middleware.py`: the row a request leaves in `request_logs`. `control_plane.py`: `query_logs`, which
pages through the rows by their ids.
-/

namespace Fcam

/-- A row of `request_logs`. -/
structure RequestLog where
  requestId : PyStr
  clientId : Option Nat := none
  apiKeyId : Option Nat := none
  endpoint : PyStr
  method : PyStr
  statusCode : Option Int := none
  responseTimeMs : Option Int := none
  success : Option Bool := none
  retryCount : Int := 0
  errorMessage : Option PyStr := none
  errorDetails : Option PyStr := none
  idempotencyKey : Option PyStr := none
  createdAt : Instant
deriving DecidableEq

/-! ### Writing -/

/-- `str.strip("/")`. -/
def stripSlash (text : PyStr) : PyStr :=
  ((text.dropWhile (· = 47)).reverse.dropWhile (· = 47)).reverse

/-- `_infer_api_endpoint`. -/
def inferApiEndpoint (path : PyStr) : Option PyStr :=
  let unknown := PyStr.ofString "unknown"
  match (["/api/", "/v1/", "/v2/", "/exa/"].map PyStr.ofString).find? (·.isPrefixOf path) with
  | none => none
  | some root =>
    let suffix := stripSlash (path.drop root.length)
    let first := suffix.takeWhile (· ≠ 47)
    if suffix = [] then some unknown
    else if root = PyStr.ofString "/exa/" then
      if first = [] then some unknown else some (PyStr.ofString "exa_" ++ first.take 32)
    else if first = PyStr.ofString "crawl" then
      if first.length < suffix.length then some (PyStr.ofString "crawl_status")
      else some (PyStr.ofString "crawl")
    else if first = [] then some unknown
    else some (first.take 32)

/-- The endpoints the handlers write into `request.state`; a passthrough writes none. -/
def routeEndpoints : List (Route × String) :=
  [(Api.scrape, "scrape"), (Api.crawl, "crawl"), (Api.crawlStatus, "crawl_status"),
    (Api.search, "search"), (Api.agent, "agent"), (V1.scrape, "scrape"), (V1.crawl, "crawl"),
    (V1.crawlStatus, "crawl_status"), (V1.search, "search"), (V1.agent, "agent"),
    (V2.crawl, "crawl"), (V2.crawlStart, "crawl"), (V2.crawlActive, "crawl_active"),
    (V2.crawlParamsPreview, "crawl_params_preview"), (V2.crawlStatus, "crawl_status"),
    (V2.crawlStatusAlias, "crawl_status"), (V2.agent, "agent"), (V2.batchScrape, "batch"),
    (V2.batchScrapeStart, "batch"), (V2.batchScrapeStatus, "batch"),
    (V2.batchScrapeStatusAlias, "batch"), (V2.crawlDelete, "crawl"),
    (V2.crawlErrors, "crawl_status"), (V2.batchScrapeErrors, "batch"),
    (V2.batchScrapeDelete, "batch"), (V2.agentStatus, "agent"), (V2.agentDelete, "agent"),
    (V2.browserCreate, "browser"), (V2.browserList, "browser"), (V2.browserExecute, "browser"),
    (V2.browserDelete, "browser"), (V2.extract, "extract"), (V2.extractStatus, "extract"),
    (V2.scrape, "scrape"), (V2.search, "search"), (V2.mapUrls, "map"),
    (V2.teamCreditUsage, "team_credit_usage"), (V2.teamQueueStatus, "team_queue_status"),
    (V2.teamCreditUsageHistorical, "team_credit_usage_historical"),
    (V2.teamTokenUsage, "team_token_usage"),
    (V2.teamTokenUsageHistorical, "team_token_usage_historical"), (Exa.exaSearch, "exa_search"),
    (Exa.exaFindSimilar, "exa_findSimilar"), (Exa.exaContents, "exa_contents"),
    (Exa.exaAnswer, "exa_answer")]

/-- The endpoint the handler of a route names. -/
def Route.endpoint (route : Route) : Option PyStr :=
  (routeEndpoints.lookup route).map PyStr.ofString

/-- `_is_valid_request_id`. -/
def isValidRequestId (value : PyStr) : Bool :=
  decide (8 ≤ value.length) && decide (value.length ≤ 64) && value.all fun c =>
    (65 ≤ c && c ≤ 90) || (97 ≤ c && c ≤ 122) || (48 ≤ c && c ≤ 57) || c == 95 || c == 45

/-- `_new_request_id`: the number of the UUID in hexadecimal, padded. -/
def newRequestId (uuid : BitVec 128) : PyStr :=
  (List.range 32).map fun i => Json.hexDigit (uuid.toNat / 16 ^ (31 - i) % 16)

/-- The id `RequestIdMiddleware` gives a request. -/
def requestIdOf (headers : List (String × String)) (uuid : BitVec 128) : PyStr :=
  (((header headers "x-request-id").map PyStr.ofString).filter isValidRequestId).getD
    (newRequestId uuid)

/-- What is left in `request.state` when the row is written. -/
structure RequestState where
  endpoint : Option PyStr := none
  requestId : Option PyStr := none
  clientId : Option Nat := none
  apiKeyId : Option Nat := none
  retryCount : Option Int := none
  error : ErrorState := {}

/-- `request.url.path` as text; the octets of the path are decoded with `errors="replace"`. -/
def InboundRequest.pathText (req : InboundRequest) : PyStr :=
  utf8Replace none (req.urlPath.map fun c => c.toNat.toUInt8)

section

variable (unicodeWord : Nat → Bool)

/-- The row `_persist_request_log` builds. -/
def requestLogOf (req : InboundRequest) (state : RequestState) (statusCode : Option Int)
    (responseTimeMs : Int) (createdAt : Instant) : Option RequestLog :=
  ((state.endpoint.filter (· ≠ [])).or (inferApiEndpoint req.pathText)).map fun endpoint =>
    { requestId := (state.requestId.filter (· ≠ [])).getD (PyStr.ofString "-")
      clientId := state.clientId
      apiKeyId := state.apiKeyId
      endpoint
      method := PyStr.ofString req.method
      statusCode
      responseTimeMs := some responseTimeMs
      success := statusCode.map fun code => decide (200 ≤ code ∧ code < 300)
      retryCount := state.retryCount.getD 0
      errorMessage := state.error.errorCode
      errorDetails := dumpErrorDetails unicodeWord state.error.errorDetails
      idempotencyKey := (header req.headers "x-idempotency-key").map PyStr.ofString
      createdAt }

/-- `_persist_request_log`, on a database that accepts some rows: the error of one it refuses is
logged and dropped. -/
def persistRequestLog (accepts : RequestLog → Bool) (log : Option RequestLog)
    (logs : Table RequestLog) : Table RequestLog :=
  match log.filter accepts with
  | some log => logs.insert log
  | none => logs

end

/-- The widths of the columns. -/
def RequestLog.fits (log : RequestLog) : Bool :=
  decide (log.requestId.length ≤ 64) && decide (log.endpoint.length ≤ 32) &&
    decide (log.method.length ≤ 16) && log.idempotencyKey.all fun key => decide (key.length ≤ 128)

/-- A text the driver can encode and Postgres can hold. -/
def PyStr.storable (text : PyStr) : Bool := text.all fun c => c != 0 && !isSurrogate c

/-- The range of an `Integer` column. -/
def isInt4 (n : Int) : Bool := decide (-2147483648 ≤ n) && decide (n ≤ 2147483647)

def RequestLog.texts (log : RequestLog) : List PyStr :=
  [log.requestId, log.endpoint, log.method] ++ log.errorMessage.toList ++ log.errorDetails.toList ++
    log.idempotencyKey.toList

def RequestLog.numbers (log : RequestLog) : List Int :=
  log.statusCode.toList ++ log.responseTimeMs.toList ++ [log.retryCount]

/-- The insert of a row on a database that enforces the types and widths of its columns and its
foreign keys. -/
def Db.acceptsLog (db : Db) (log : RequestLog) : Bool :=
  log.fits && log.texts.all PyStr.storable && log.numbers.all isInt4 &&
    (log.clientId.all fun id => (db.clients.get? id).isSome) && log.apiKeyId.all fun id =>
      (db.keys.get? id).isSome

/-! ### Reading -/

inductive LogLevel where
  | info
  | warn
  | error
deriving DecidableEq, Repr

/-- `_request_log_level`. -/
def requestLogLevel (statusCode : Option Int) (success : Option Bool) : LogLevel :=
  if success = some true ∧ statusCode.any (· < 400) then .info
  else if statusCode.any fun code => 400 ≤ code && code < 500 then .warn
  else .error

def validationError (message : String) : FcamError :=
  { statusCode := 400, code := .validationError, message }

/-- `_limit`. -/
def checkLimit (limit : Int) : Except FcamError Nat :=
  if limit ≤ 0 then .error (validationError "limit must be positive")
  else if 200 < limit then .error (validationError "limit too large")
  else .ok limit.toNat

/-- The `level` of a query, if it names one. Lower-casing makes no text but those of these letters
one of the words. -/
def parseLevel (level : Option PyStr) : Except FcamError (Option LogLevel) :=
  match level.map strip with
  | none | some [] => .ok none
  | some text =>
    let lower := asciiLower text
    if lower = PyStr.ofString "info" then .ok (some .info)
    else if lower = PyStr.ofString "warn" then .ok (some .warn)
    else if lower = PyStr.ofString "error" then .ok (some .error)
    else .error (validationError "level must be one of info|warn|error")

/-- What a query takes from the libraries: `datetime.fromisoformat`, `str.lower`, and `LIKE` and
`lower` of the database. -/
structure LogText where
  fromIsoformat : PyStr → Option Instant
  pyLower : PyStr → PyStr
  sqlLower : PyStr → PyStr
  like : PyStr → PyStr → Bool

/-- The parameters of a query. -/
structure LogQuery where
  limit : Int := 50
  cursor : Option Int := none
  from' : Option PyStr := none
  to' : Option PyStr := none
  clientId : Option Int := none
  apiKeyId : Option Int := none
  endpoint : Option PyStr := none
  statusCode : Option Int := none
  success : Option Bool := none
  level : Option PyStr := none
  q : Option PyStr := none
  requestId : Option PyStr := none
  idempotencyKey : Option PyStr := none

/-- The filter for a level. -/
def levelCondition (level : LogLevel) (log : RequestLog) : Condition :=
  match level with
  | .info =>
    .all [.isNotNull log.statusCode, .compare (· < 400) log.statusCode, .is log.success true]
  | .warn =>
    .all [.isNotNull log.statusCode, .compare (400 ≤ ·) log.statusCode,
      .compare (· < 500) log.statusCode]
  | .error =>
    (Condition.isNull log.statusCode).or
      ((Condition.compare (500 ≤ ·) log.statusCode).or
        ((Condition.compare (· < 400) log.statusCode).and
          (.is (some (log.success.getD false)) false)))

section

variable (text : LogText)

/-- `_parse_rfc3339`: each `Z` is read as an offset of zero. -/
def parseRfc3339 (value : PyStr) : Except FcamError Instant :=
  match text.fromIsoformat (value.flatMap fun c => if c = 90 then PyStr.ofString "+00:00"
    else [c]) with
  | some at' => .ok at'
  | none => .error (validationError "Invalid datetime")

/-- The filter for a text, if it is not blank. -/
def textCondition (q : Option PyStr) : Except FcamError (RequestLog → Condition) :=
  match q.map strip with
  | none | some [] => .ok fun _ => some true
  | some raw =>
    if 200 < raw.length then .error (validationError "q too long")
    else
      let pattern := PyStr.ofString "%" ++ text.pyLower raw ++ PyStr.ofString "%"
      let found :=
        fun column : PyStr => (some (text.like pattern (text.sqlLower column)) : Condition)
      .ok fun log =>
        (found log.requestId).or
          ((found log.endpoint).or
            ((found (log.errorMessage.getD [])).or (found (log.errorDetails.getD []))))

/-- A filter that is there when its parameter is given. -/
def givenCondition {α : Type} (given : Option α) (condition : α → Condition) : Condition :=
  (given.map condition).getD (some true)

/-- The filters of a query besides the cursor and the level. -/
def queryConditions (query : LogQuery) : Except FcamError (RequestLog → Condition) := do
  let since ← query.from'.mapM (parseRfc3339 text)
  let upTo ← query.to'.mapM (parseRfc3339 text)
  let found ← textCondition text query.q
  return fun log =>
    .all
      [givenCondition since fun at' => some (decide (at' ≤ log.createdAt)),
        givenCondition upTo fun at' => some (decide (log.createdAt ≤ at')),
        givenCondition query.clientId fun id =>
          .compare (fun n : Nat => (n : Int) == id) log.clientId,
        givenCondition query.apiKeyId fun id =>
          .compare (fun n : Nat => (n : Int) == id) log.apiKeyId,
        givenCondition query.endpoint fun endpoint => some (log.endpoint == endpoint),
        givenCondition query.statusCode fun code => .compare (· == code) log.statusCode,
        givenCondition query.success fun success => .compare (· == success) log.success,
        found log,
        givenCondition query.requestId fun id => some (log.requestId == id),
        givenCondition query.idempotencyKey fun key => .compare (· == key) log.idempotencyKey]

/-- The tables a query reads. -/
structure LogTables where
  logs : Table RequestLog
  keys : Table ApiKey

/-- `mask_api_key_last4`. -/
def maskApiKeyLast4 (apiKeyLast4 : String) : String := "fc-****" ++ last4 apiKeyLast4

/-- An item of the answer. Its other members are the columns of the row. -/
structure LogItem where
  id : Nat
  level : LogLevel
  apiKeyMasked : Option String
  log : RequestLog
deriving DecidableEq

structure LogPage where
  items : List LogItem
  nextCursor : Option Nat
  hasMore : Bool
deriving DecidableEq

/-- An item, from a row and the last characters of its key, which the outer join leaves out where
there is no such key. -/
def logItem (row : (Nat × RequestLog) × Option String) : LogItem :=
  { id := row.1.1
    level := requestLogLevel row.1.2.statusCode row.1.2.success
    apiKeyMasked :=
      if row.1.2.apiKeyId.getD 0 = 0 then none else some (maskApiKeyLast4 (row.2.getD ""))
    log := row.1.2 }

/-- A row with the last characters of its key, by the outer join. -/
def joinKey (keys : Table ApiKey) (row : Nat × RequestLog) : (Nat × RequestLog) × Option String :=
  (row, row.2.apiKeyId.bind fun id => (keys.get? id).map ApiKey.apiKeyLast4)

/-- The filters of a query. -/
def logCondition (cursor : Option Int) (conditions : RequestLog → Condition)
    (level : Option LogLevel) (row : Nat × RequestLog) : Condition :=
  .all
    [givenCondition cursor fun cursor => some (decide ((row.1 : Int) < cursor)), conditions row.2,
      givenCondition level fun level => levelCondition level row.2]

/-- `query_logs`. -/
def queryLogs (query : LogQuery) (db : LogTables) : Except FcamError LogPage := do
  let limit ← checkLimit query.limit
  let level ← parseLevel query.level
  let conditions ← queryConditions text query
  let joined := db.logs.rows.map (joinKey db.keys)
  let kept := joined.filter fun row => (logCondition query.cursor conditions level row.1).holds
  let rows := kept.reverse.take (limit + 1)
  let hasMore := decide (limit < rows.length)
  let items := (rows.take limit).map logItem
  let nextCursor := if hasMore then items.getLast?.map LogItem.id else none
  return { items, nextCursor, hasMore }

end

end Fcam
