import Fcam.Model.BaseUrl
import Fcam.Model.Forward
import Fcam.Model.Idempotency

/-!
# Creating upstream resources

The handlers that create crawls and agents: they begin idempotently, forward the request, once more
under another path where the first one is not served, bind the resource that was created to its key,
and complete. The seven of them are `createResource` with the values of a `CreateRoute`.
-/

namespace Fcam

/-! ### Binding a resource to its key -/

/-- `bind_resource`, begun at `now`. Every exception of the insert is caught; a text with a lone
surrogate raises one. -/
def bindResource (now : Instant) (clientId apiKeyId : Nat) (resourceType : String)
    (resourceId : PyStr) (ttlSeconds : Option Int) (bindings : Table UpstreamResourceBinding) :
    Except Raised (Table UpstreamResourceBinding) :=
  let rid := strip resourceId
  let ttl := ttlSeconds.filter (· ≠ 0)
  match rid, ttl, ttl.bind (plusSeconds now) with
  | [], _, _ => .ok bindings
  | _ :: _, some _, none => .error .overflowError
  | rid, _, expiresAt =>
    let record : UpstreamResourceBinding :=
      { clientId
        apiKeyId
        resourceType := String.ofList (resourceType.toList.take 32)
        resourceId := rid.take 128
        expiresAt }
    if record.resourceId.any isSurrogate then .ok bindings
    else
      let same (row : Nat × UpstreamResourceBinding) : Bool :=
        row.2.clientId == clientId && row.2.resourceType == record.resourceType &&
          row.2.resourceId == record.resourceId
      match bindings.rows.find? same with
      | none => .ok (bindings.insert record)
      | some (id, existing) =>
        let prolongs := existing.apiKeyId == apiKeyId &&
          expiresAt.any fun until' => existing.expiresAt.all (· < until')
        .ok (if prolongs then bindings.modify id fun row => { row with expiresAt } else bindings)

/-- `lookup_bound_key_id`, asked at `now`, and the bindings after it: one that has expired is
deleted. A text with a lone surrogate raises in the query, which is caught. -/
def lookupBoundKeyId (now : Instant) (clientId : Nat) (resourceType : String) (resourceId : PyStr)
    (bindings : Table UpstreamResourceBinding) : Option Nat × Table UpstreamResourceBinding :=
  let rid := (strip resourceId).take 128
  let resourceType := String.ofList (resourceType.toList.take 32)
  let found := bindings.select fun row =>
    row.clientId == clientId && row.resourceType == resourceType && row.resourceId == rid
  if rid = [] ∨ rid.any isSurrogate = true then (none, bindings)
  else
    match found with
    | [(id, record)] =>
      if record.expiresAt.any (· < now) then (none, bindings.deleteWhere fun row _ => row == id)
      else (some record.apiKeyId, bindings)
    | _ => (none, bindings)

/-- One call of the two functions, with the clock it reads. -/
inductive BindingCall where
  | bind (now : Instant) (clientId apiKeyId : Nat) (resourceType : String) (resourceId : PyStr)
      (ttlSeconds : Option Int)
  | lookup (now : Instant) (clientId : Nat) (resourceType : String) (resourceId : PyStr)
deriving DecidableEq

/-- The bindings after a call; one that raises leaves them as they are. -/
def BindingCall.next (bindings : Table UpstreamResourceBinding) :
    BindingCall → Option (Table UpstreamResourceBinding)
  | bind now clientId apiKeyId resourceType resourceId ttlSeconds =>
    match bindResource now clientId apiKeyId resourceType resourceId ttlSeconds bindings with
    | .ok bindings => some bindings
    | .error _ => some bindings
  | lookup now clientId resourceType resourceId =>
    some (lookupBoundKeyId now clientId resourceType resourceId bindings).2

/-- `_extract_id_from_response`, where `loads` is `json.loads`. -/
def extractIdFromResponse (loads : Bytes → Option Json) (response : Response) : Option PyStr :=
  let contentType := lower ((header response.headers "content-type").getD "")
  if !is2xx response.statusCode then none
  else if !contentType.tails.any "application/json".toList.isPrefixOf then none
  else if response.body = [] then none
  else
    match loads response.body with
    | some (.obj members) =>
      match members.lookup (PyStr.ofString "id") with
      | some (.str resourceId) => if strip resourceId = [] then none else some (strip resourceId)
      | _ => none
    | _ => none

/-- `_maybe_bind_created_resource`. -/
def maybeBindCreatedResource (loads : Bytes → Option Json) (now : Instant) (clientId : Nat)
    (apiKeyId : Option Nat) (resourceType : String) (response : Response) (w : World) : World :=
  match extractIdFromResponse loads response, apiKeyId with
  | some resourceId, some apiKeyId =>
    match bindResource now clientId apiKeyId resourceType resourceId none w.db.bindings with
    | .ok bindings => { w with db := { w.db with bindings } }
    | .error _ => w
  | _, _ => w

/-! ### Forwarding under another path -/

/-- `_forward_with_fallback`: an answer 404 or 405 sends the request once more, under the fallback
path. -/
def forwardOrFallback (fwd : Forwarder) (primary fallback : Nat → Turn) (req : ForwardRequest)
    (fallbackPath : Option String) (w : World) : Forwarded :=
  let first := forward fwd primary req w
  match first.result, fallbackPath with
  | .ok result, some path =>
    if result.response.statusCode = 404 ∨ result.response.statusCode = 405 then
      let second := forward fwd fallback { req with upstreamPath := path } first.world
      { second with events := first.events ++ second.events }
    else first
  | _, _ => first

/-! ### The routes -/

/-- Where a request is directed: the version of the API, the path and the query string. -/
structure UpstreamOperation where
  version : ApiVersion
  path : String
  query : String
deriving DecidableEq, Repr

/-- `_with_query`. -/
def UpstreamOperation.text (op : UpstreamOperation) : String :=
  if op.query = "" then op.path else op.path ++ "?" ++ op.query

/-- The routes of `data_plane.py`, `firecrawl_compat.py` and `firecrawl_v2_compat.py` that create
crawls and agents. -/
inductive CreateRoute where
  | apiCrawl
  | apiAgent
  | v1Crawl
  | v1Agent
  | v2Crawl
  | v2CrawlStart
  | v2Agent
deriving DecidableEq, Repr

namespace CreateRoute

/-- The endpoint a route names to `start_or_replay`. -/
def endpoint : CreateRoute → String
  | apiCrawl | v1Crawl | v2Crawl | v2CrawlStart => "crawl"
  | apiAgent | v1Agent | v2Agent => "agent"

/-- The upstream operation a route tries first; `/api` drops the query string. -/
def primary (query : String) : CreateRoute → UpstreamOperation
  | apiCrawl => { version := .v1, path := "/v1/crawl", query := "" }
  | apiAgent => { version := .v2, path := "/v2/agent", query := "" }
  | v1Crawl => { version := .v1, path := "/v1/crawl", query }
  | v1Agent => { version := .v2, path := "/v2/agent", query }
  | v2Crawl => { version := .v2, path := "/v2/crawl", query }
  | v2CrawlStart => { version := .v2, path := "/v2/crawl", query }
  | v2Agent => { version := .v2, path := "/v2/agent", query }

/-- The upstream operation a route tries where the first one answers 404 or 405. -/
def fallback (query : String) : CreateRoute → Option UpstreamOperation
  | apiCrawl => none
  | apiAgent => some { version := .v1, path := "/v1/agent", query := "" }
  | v1Crawl => none
  | v1Agent => some { version := .v1, path := "/v1/agent", query }
  | v2Crawl => some { version := .v2, path := "/v2/crawl/start", query }
  | v2CrawlStart => some { version := .v2, path := "/v2/crawl/start", query }
  | v2Agent => none

/-- The type under which a route binds what it creates. -/
def resourceType : CreateRoute → Option String
  | apiCrawl | apiAgent | v1Crawl | v1Agent => none
  | v2Crawl | v2CrawlStart => some "crawl"
  | v2Agent => some "agent"

end CreateRoute

/-! ### The handlers -/

structure CreateRequest where
  clientId : Nat
  idempotencyKey : Option String
  query : String := ""
  payload : Json
  inboundHeaders : List (String × String) := []
  requestId : String := ""

/-- What the surroundings answer during one run of a handler. -/
structure CreateEnv where
  clock : Nat → Instant
  primary : Nat → Turn
  fallback : Nat → Turn
  loads : Bytes → Option Json
  boundAt : Instant

/-- The end of a handler: what it returns or raises, the state it leaves and what its forwards
did. -/
structure Created where
  result : Except Raised Response
  world : World
  events : List Event

def World.withRecords (w : World) (records : Records) : World :=
  { w with db := { w.db with idempotencyRecords := records } }

section

variable (fwd : Forwarder) (sha256 : Bytes → String) (env : CreateEnv) (route : CreateRoute)
  (req : CreateRequest)

/-- What a handler asks `start_or_replay`. -/
def idempotentRequest : IdempotentRequest :=
  { clientId := req.clientId
    idempotencyKey := req.idempotencyKey
    endpoint := route.endpoint
    method := "POST"
    payload := req.payload }

def forwardRequest (op : UpstreamOperation) : ForwardRequest :=
  { clientId := req.clientId
    method := "POST"
    upstreamPath := op.text
    jsonBody := some req.payload
    inboundHeaders := req.inboundHeaders
    requestId := req.requestId }

/-- `_forward_with_fallback`, and the forwards of the handlers that do not call it. -/
def forwardWithFallback (w : World) : Forwarded :=
  let first := forward fwd env.primary (forwardRequest req (route.primary req.query)) w
  match first.result, route.fallback req.query with
  | .ok result, some op =>
    if result.response.statusCode = 404 ∨ result.response.statusCode = 405 then
      let second := forward fwd env.fallback (forwardRequest req op) first.world
      { second with events := first.events ++ second.events }
    else first
  | _, _ => first

theorem forwardWithFallback_eq (w : World) :
    forwardWithFallback fwd env route req w =
      forwardOrFallback fwd env.primary env.fallback (forwardRequest req (route.primary req.query))
        ((route.fallback req.query).map UpstreamOperation.text) w := by
  simp only [forwardWithFallback, forwardOrFallback]
  cases (forward fwd env.primary (forwardRequest req (route.primary req.query)) w).result with
  | error error => rfl
  | ok result =>
    cases route.fallback req.query with
    | none => rfl
    | some op => rfl

/-- The seven handlers. -/
def createResource (w : World) : Created :=
  let (begun, records) :=
    startOrReplay fwd.config sha256 (idempotentRequest route req) env.clock w.db.idempotencyRecords
  let w := w.withRecords records
  match begun with
  | .raised error => { result := .error error, world := w, events := [] }
  | .replay response => { result := .ok response, world := w, events := [] }
  | .letThrough ctx =>
    let forwarded := forwardWithFallback fwd env route req w
    match forwarded.result with
    | .error error =>
      { result := .error error, world := forwarded.world, events := forwarded.events }
    | .ok result =>
      let w :=
        match route.resourceType with
        | none => forwarded.world
        | some type =>
          maybeBindCreatedResource env.loads env.boundAt req.clientId result.apiKeyId type
            result.response forwarded.world
      { result := .ok result.response
        world := w.withRecords (complete fwd.config ctx result.response w.db.idempotencyRecords)
        events := forwarded.events }

end

end Fcam
