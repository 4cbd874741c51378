import Fcam.Base.Url
import Fcam.Model.DataPlane

/-!
# The routes of the data plane

`RequestLimitsMiddleware`, and the routes of `data_plane.py`, `firecrawl_compat.py`,
`firecrawl_v2_compat.py` and `exa_compat.py`: what each matches, where it sends the request and
under which type it binds or looks up a resource. A path is the list of the octets of its text. The
`Host` of a request has none of the delimiters of a URL, so that `request.url` is the decoded path
and the raw query, read as the text of a URL again.
-/

namespace Fcam

/-- An inbound request as the server hands it over: the path is percent-decoded, the query string is
not. -/
structure InboundRequest where
  clientId : Nat
  method : String
  path : List Char
  queryString : List Char := []
  headers : List (String × String) := []
  body : Bytes := []
  payload : Option Json := none
  requestId : String := ""

namespace InboundRequest

variable (req : InboundRequest)

/-- The path and the query of `request.url` as text; the parser of the URL drops tabs and line
ends. -/
def urlText : List Char :=
  (if req.queryString = [] then req.path else req.path ++ '?' :: req.queryString).filter fun c =>
    c ≠ '\t' ∧ c ≠ '\r' ∧ c ≠ '\n'

/-- `request.url.path`. -/
def urlPath : List Char := pathOf req.urlText

/-- `request.url.query`. -/
def urlQuery : List Char := queryOf req.urlText

/-- `_with_query`. -/
def withQuery (path : List Char) : List Char :=
  if req.urlQuery = [] then path else path ++ '?' :: req.urlQuery

end InboundRequest

/-! ### The limits of a request -/

/-- The octets of a text. -/
def octetsOf (text : String) : List Char :=
  text.toList.flatMap fun c => (String.utf8EncodeChar c).map fun octet => Char.ofNat octet.toNat

/-- `str.strip("/")`. -/
def stripSlashes (text : List Char) : List Char := rstripChar '/' (text.dropWhile (· = '/'))

/-- `RequestLimitsMiddleware`. -/
structure RequestLimits where
  maxBodyBytes : Int
  allowedApiPaths : List (List Char)
  allowedExaPaths : List (List Char)

namespace RequestLimits

/-- The middleware as `create_app` adds it. -/
def ofConfig (config : AppConfig) : RequestLimits :=
  let exa := config.providers.exa
  { maxBodyBytes := config.security.requestLimits.maxBodyBytes
    allowedApiPaths :=
      config.security.requestLimits.allowedPaths.map fun path => stripSlashes (octetsOf path)
    allowedExaPaths :=
      if exa.enabled then exa.allowedPaths.map fun path => stripSlashes (octetsOf path) else [] }

def pathNotAllowed : FcamError :=
  { statusCode := 404, code := .pathNotAllowed, message := "Path not allowed" }

variable (limits : RequestLimits)

def requestTooLarge : FcamError :=
  { statusCode := 413
    code := .requestTooLarge
    message := "Request body too large"
    details := some { maxBodyBytes := some limits.maxBodyBytes } }

/-- The check of the path: the segment after the prefix of a router is an allowed one. -/
def checkPath (path : List Char) : Except FcamError Unit :=
  match segments path with
  | [] :: root :: first :: _ =>
    if root = "api".toList ∨ root = "v1".toList ∨ root = "v2".toList then
      if first ∈ limits.allowedApiPaths then .ok () else .error pathNotAllowed
    else if root = "exa".toList ∧ limits.allowedExaPaths ≠ [] then
      if first ∈ limits.allowedExaPaths then .ok () else .error pathNotAllowed
    else .ok ()
  | _ => .ok ()

/-- The check of the announced length. -/
def checkContentLength (headers : List (String × String)) : Except FcamError Unit :=
  match header headers "content-length" with
  | none | some "" => .ok ()
  | some text =>
    match intOfText (PyStr.ofString text) with
    | none =>
      .error { statusCode := 400, code := .validationError, message := "Invalid Content-Length" }
    | some length => if limits.maxBodyBytes < length then .error limits.requestTooLarge else .ok ()

/-- The check of the body. -/
def checkBody (headers : List (String × String)) (body : Bytes) : Except FcamError Unit :=
  if body = [] then .ok ()
  else if !((header headers "content-type").getD "").toList.tails.any
    "application/json".toList.isPrefixOf then
    .error
      { statusCode := 415
        code := .unsupportedMediaType
        message := "Only application/json is supported" }
  else if limits.maxBodyBytes < body.length then .error limits.requestTooLarge
  else .ok ()

/-- `dispatch`, up to the call of the application. -/
def dispatch (req : InboundRequest) : Except FcamError Unit :=
  (limits.checkPath req.urlPath).bind fun _ =>
    if req.method = "GET" ∨ req.method = "HEAD" then .ok ()
    else (limits.checkContentLength req.headers).bind fun _ => limits.checkBody req.headers req.body

end RequestLimits

/-! ### Routes -/

inductive Router where
  | api
  | v1
  | v2
  | exa
deriving DecidableEq, Repr

/-- The segment every path of a router begins with. -/
def Router.segment : Router → List Char
  | api => "api".toList
  | v1 => "v1".toList
  | v2 => "v2".toList
  | exa => "exa".toList

/-- One segment of a path template: fixed, or the parameter of the route. -/
inductive PathPart where
  | lit (text : String)
  | param
deriving DecidableEq, Repr

/-- What a route matches after the segment of its router; `rest` is `{path:path}`. -/
inductive Pattern where
  | rest
  | parts (parts : List PathPart)
deriving DecidableEq, Repr

/-- How a handler writes the path it sends: as it came in, without the segment of the router, or
from a template. -/
inductive Target where
  | inbound
  | withoutExa
  | built (version : ApiVersion) (parts : List PathPart) (keepsQuery : Bool)
deriving DecidableEq, Repr

/-- A route, with the types under which its handler binds what it creates and looks up its
parameter, and the endpoint it names to `start_or_replay`. -/
structure Route where
  router : Router
  method : String
  pattern : Pattern
  primary : Target
  fallback : Option Target := none
  binds : Option String := none
  pins : Option String := none
  idempotent : Option String := none
deriving DecidableEq, Repr

def ApiVersion.segment : ApiVersion → List Char
  | v1 => "v1".toList
  | v2 => "v2".toList

def PathPart.text (param : List Char) : PathPart → List Char
  | lit text => text.toList
  | .param => param

/-- The segments of a path that is matched by the parts of a template, as its parameter. -/
def matchParts : List PathPart → List (List Char) → Option (List (List Char))
  | [], [] => some []
  | .lit text :: parts, segment :: rest =>
    if text.toList = segment then matchParts parts rest else none
  | .param :: parts, segment :: rest =>
    if segment = [] then none else (matchParts parts rest).map (segment :: ·)
  | _, _ => none

/-- The parameters with which a route matches a path. -/
def Route.params (route : Route) (path : List Char) : Option (List (List Char)) :=
  match segments path with
  | [] :: root :: first :: rest =>
    if root = route.router.segment then
      match route.pattern with
      | .rest => some []
      | .parts parts => matchParts parts (first :: rest)
    else none
  | _ => none

/-- `_upstream_path` of `exa_compat.py`. -/
def withoutExaPrefix (path : List Char) : List Char :=
  let rest := if "/exa".toList.isPrefixOf path then path.drop 4 else path
  if ['/'].isPrefixOf rest then rest else '/' :: rest

/-- The path a template gives. -/
def builtPath (version : ApiVersion) (parts : List PathPart) (param : List Char) : List Char :=
  '/' :: version.segment ++ parts.flatMap fun part => '/' :: part.text param

/-- The text a handler gives to `forward`. -/
def Target.text (req : InboundRequest) (param : List Char) : Target → List Char
  | inbound => req.withQuery req.urlPath
  | withoutExa => req.withQuery (withoutExaPrefix req.urlPath)
  | built version parts true => req.withQuery (builtPath version parts param)
  | built version parts false => builtPath version parts param

/-! ### `data_plane.py` -/

namespace Api

def scrape : Route :=
  { router := .api, method := "POST", pattern := .parts [.lit "scrape"],
    primary := .built .v1 [.lit "scrape"] false }

def crawl : Route :=
  { router := .api
    method := "POST"
    pattern := .parts [.lit "crawl"]
    primary := .built .v1 [.lit "crawl"] false
    idempotent := some "crawl" }

def crawlStatus : Route :=
  { router := .api
    method := "GET"
    pattern := .parts [.lit "crawl", .param]
    primary := .built .v1 [.lit "crawl", .param] false }

def search : Route :=
  { router := .api, method := "POST", pattern := .parts [.lit "search"],
    primary := .built .v1 [.lit "search"] false }

def agent : Route :=
  { router := .api
    method := "POST"
    pattern := .parts [.lit "agent"]
    primary := .built .v2 [.lit "agent"] false
    fallback := some (.built .v1 [.lit "agent"] false)
    idempotent := some "agent" }

def routes : List Route := [scrape, crawl, crawlStatus, search, agent]

end Api

/-! ### `firecrawl_compat.py` -/

namespace V1

def scrape : Route :=
  { router := .v1, method := "POST", pattern := .parts [.lit "scrape"], primary := .inbound }

def crawl : Route :=
  { router := .v1
    method := "POST"
    pattern := .parts [.lit "crawl"]
    primary := .inbound
    idempotent := some "crawl" }

def crawlStatus : Route :=
  { router := .v1, method := "GET", pattern := .parts [.lit "crawl", .param], primary := .inbound }

def search : Route :=
  { router := .v1, method := "POST", pattern := .parts [.lit "search"], primary := .inbound }

def agent : Route :=
  { router := .v1
    method := "POST"
    pattern := .parts [.lit "agent"]
    primary := .built .v2 [.lit "agent"] true
    fallback := some .inbound
    idempotent := some "agent" }

def routes : List Route := [scrape, crawl, crawlStatus, search, agent]

end V1

/-! ### `firecrawl_v2_compat.py` -/

namespace V2

/-- A route that sends a fixed path, under which it came in. -/
def fixed (method : String) (parts : List PathPart) : Route :=
  { router := .v2, method, pattern := .parts parts, primary := .built .v2 parts true }

/-- A route about a resource, to the key the resource is bound to. -/
def pinned (method : String) (type : String) (parts : List PathPart) : Route :=
  { router := .v2, method, pattern := .parts parts, primary := .built .v2 parts true,
    pins := some type }

def crawl : Route :=
  { fixed "POST" [.lit "crawl"] with
    fallback := some (.built .v2 [.lit "crawl", .lit "start"] true)
    binds := some "crawl"
    idempotent := some "crawl" }

def crawlStart : Route :=
  { crawl with pattern := .parts [.lit "crawl", .lit "start"] }

def crawlActive : Route := fixed "GET" [.lit "crawl", .lit "active"]

def crawlParamsPreview : Route := fixed "POST" [.lit "crawl", .lit "params-preview"]

def crawlStatus : Route :=
  { pinned "GET" "crawl" [.lit "crawl", .param] with
    fallback := some (.built .v2 [.lit "crawl", .lit "status", .param] true) }

def crawlStatusAlias : Route :=
  { crawlStatus with pattern := .parts [.lit "crawl", .lit "status", .param] }

def agent : Route :=
  { router := .v2
    method := "POST"
    pattern := .parts [.lit "agent"]
    primary := .inbound
    binds := some "agent"
    idempotent := some "agent" }

def batchScrape : Route :=
  { fixed "POST" [.lit "batch", .lit "scrape"] with
    fallback := some (.built .v2 [.lit "batch", .lit "scrape", .lit "start"] true)
    binds := some "batch_scrape" }

def batchScrapeStart : Route :=
  { batchScrape with pattern := .parts [.lit "batch", .lit "scrape", .lit "start"] }

def batchScrapeStatus : Route :=
  { pinned "GET" "batch_scrape" [.lit "batch", .lit "scrape", .param] with
    fallback := some (.built .v2 [.lit "batch", .lit "scrape", .lit "status", .param] true) }

def batchScrapeStatusAlias : Route :=
  { batchScrapeStatus with pattern := .parts [.lit "batch", .lit "scrape", .lit "status", .param] }

def crawlDelete : Route := pinned "DELETE" "crawl" [.lit "crawl", .param]

def crawlErrors : Route := pinned "GET" "crawl" [.lit "crawl", .param, .lit "errors"]

def batchScrapeErrors : Route :=
  pinned "GET" "batch_scrape" [.lit "batch", .lit "scrape", .param, .lit "errors"]

def batchScrapeDelete : Route :=
  pinned "DELETE" "batch_scrape" [.lit "batch", .lit "scrape", .param]

def agentStatus : Route := pinned "GET" "agent" [.lit "agent", .param]

def agentDelete : Route := pinned "DELETE" "agent" [.lit "agent", .param]

def browserCreate : Route := { fixed "POST" [.lit "browser"] with binds := some "browser" }

def browserList : Route := fixed "GET" [.lit "browser"]

def browserExecute : Route := pinned "POST" "browser" [.lit "browser", .param, .lit "execute"]

def browserDelete : Route := pinned "DELETE" "browser" [.lit "browser", .param]

def extract : Route := { fixed "POST" [.lit "extract"] with binds := some "extract" }

def extractStatus : Route := pinned "GET" "extract" [.lit "extract", .param]

def scrape : Route := fixed "POST" [.lit "scrape"]

def search : Route := fixed "POST" [.lit "search"]

def mapUrls : Route := fixed "POST" [.lit "map"]

def teamCreditUsage : Route := fixed "GET" [.lit "team", .lit "credit-usage"]

def teamQueueStatus : Route := fixed "GET" [.lit "team", .lit "queue-status"]

def teamCreditUsageHistorical : Route :=
  fixed "GET" [.lit "team", .lit "credit-usage", .lit "historical"]

def teamTokenUsage : Route := fixed "GET" [.lit "team", .lit "token-usage"]

def teamTokenUsageHistorical : Route :=
  fixed "GET" [.lit "team", .lit "token-usage", .lit "historical"]

def passthrough (method : String) : Route :=
  { router := .v2, method, pattern := .rest, primary := .inbound }

def passthroughGet : Route := passthrough "GET"

def passthroughPost : Route := passthrough "POST"

def passthroughDelete : Route := passthrough "DELETE"

/-- In the order of their registration, in which the first match is taken. -/
def routes : List Route :=
  [crawl, crawlStart, crawlActive, crawlParamsPreview, crawlStatus, crawlStatusAlias, agent,
    batchScrape, batchScrapeStart, batchScrapeStatus, batchScrapeStatusAlias, crawlDelete,
    crawlErrors, batchScrapeErrors, batchScrapeDelete, agentStatus, agentDelete, browserCreate,
    browserList, browserExecute, browserDelete, extract, extractStatus, scrape, search, mapUrls,
    teamCreditUsage, teamQueueStatus, teamCreditUsageHistorical, teamTokenUsage,
    teamTokenUsageHistorical, passthroughGet, passthroughPost, passthroughDelete]

end V2

/-! ### `exa_compat.py` -/

namespace Exa

def exaRoute (name : String) : Route :=
  { router := .exa, method := "POST", pattern := .parts [.lit name], primary := .withoutExa }

def exaSearch : Route := exaRoute "search"

def exaFindSimilar : Route := exaRoute "findSimilar"

def exaContents : Route := exaRoute "contents"

def exaAnswer : Route := exaRoute "answer"

def routes : List Route := [exaSearch, exaFindSimilar, exaContents, exaAnswer]

end Exa

/-- The routers `create_app` includes. -/
def routesOf (config : AppConfig) : List Route :=
  Api.routes ++ V1.routes ++ V2.routes ++ if config.providers.exa.enabled then Exa.routes else []

/-- The route that handles a request, with its parameters. -/
def routeOf (config : AppConfig) (req : InboundRequest) : Option (Route × List (List Char)) :=
  (routesOf config).findSome? fun route =>
    if route.method = req.method then (route.params req.path).map fun params => (route, params)
    else none

/-! ### The handlers -/

/-- The text of UTF-8 octets; an octet that belongs to no character is replaced. -/
def utf8Decode : List Nat → PyStr
  | a :: b :: c :: d :: rest =>
    if a < 0x80 then a :: utf8Decode (b :: c :: d :: rest)
    else if 0xc2 ≤ a ∧ a < 0xe0 ∧ b / 64 = 2 then
      (a % 32 * 64 + b % 64) :: utf8Decode (c :: d :: rest)
    else if a / 16 = 14 ∧ b / 64 = 2 ∧ c / 64 = 2 then
      (a % 16 * 4096 + b % 64 * 64 + c % 64) :: utf8Decode (d :: rest)
    else if 0xf0 ≤ a ∧ a < 0xf5 ∧ b / 64 = 2 ∧ c / 64 = 2 ∧ d / 64 = 2 then
      (a % 8 * 262144 + b % 64 * 4096 + c % 64 * 64 + d % 64) :: utf8Decode rest
    else 0xfffd :: utf8Decode (b :: c :: d :: rest)
  | [a, b, c] =>
    if a < 0x80 then a :: utf8Decode [b, c]
    else if 0xc2 ≤ a ∧ a < 0xe0 ∧ b / 64 = 2 then (a % 32 * 64 + b % 64) :: utf8Decode [c]
    else if a / 16 = 14 ∧ b / 64 = 2 ∧ c / 64 = 2 then [a % 16 * 4096 + b % 64 * 64 + c % 64]
    else 0xfffd :: utf8Decode [b, c]
  | [a, b] =>
    if a < 0x80 then a :: utf8Decode [b]
    else if 0xc2 ≤ a ∧ a < 0xe0 ∧ b / 64 = 2 then [a % 32 * 64 + b % 64]
    else 0xfffd :: utf8Decode [b]
  | [a] => if a < 0x80 then [a] else [0xfffd]
  | [] => []

namespace Route

variable (route : Route) (req : InboundRequest) (params : List (List Char))

def provider : Provider := if route.router = .exa then .exa else .firecrawl

def param : List Char := params.headD []

/-- The parameter as the handler passes it to `lookup_bound_key_id`. -/
def resourceId : PyStr := utf8Decode ((param params).map Char.toNat)

def primaryText : List Char := route.primary.text req (param params)

def fallbackText : Option (List Char) :=
  route.fallback.map fun target => target.text req (param params)

/-- What a handler may send a request to. -/
def texts : List (List Char) :=
  route.primaryText req params :: (route.fallbackText req params).toList

/-- The key a handler pins, and the bindings once it has looked. -/
def pin (now : Instant) (bindings : Table UpstreamResourceBinding) :
    Option Nat × Table UpstreamResourceBinding :=
  match route.pins with
  | none => (none, bindings)
  | some type => lookupBoundKeyId now req.clientId type (resourceId params) bindings

/-- The state a handler forwards in, once it has looked for the key to pin. -/
def pinned (now : Instant) (w : World) : World :=
  { w with db := { w.db with bindings := (route.pin req params now w.db.bindings).2 } }

/-- The request a handler forwards under a text of its route. -/
def sentRequest (now : Instant) (w : World) (text : List Char) : ForwardRequest where
  clientId := req.clientId
  method := route.method
  upstreamPath := String.ofList text
  jsonBody := req.payload
  inboundHeaders := req.headers
  requestId := req.requestId
  pinnedApiKeyId := (route.pin req params now w.db.bindings).1
  provider := route.provider

/-- The first forward of a handler. -/
def firstForward (fwd : Forwarder) (primary : Nat → Turn) (now : Instant) (w : World) : Forwarded :=
  forward fwd primary (route.sentRequest req params now w (route.primaryText req params))
    (route.pinned req params now w)

/-- Its forward under another text, after the first. -/
def secondForward (fwd : Forwarder) (primary fallback : Nat → Turn) (now : Instant) (w : World)
    (text : List Char) : Forwarded :=
  forward fwd fallback (route.sentRequest req params now w text)
    (route.firstForward req params fwd primary now w).world

/-- The forwards of a handler. -/
def forwards (fwd : Forwarder) (primary fallback : Nat → Turn) (now : Instant)
    (w : World) : Forwarded :=
  forwardOrFallback fwd primary fallback
    (route.sentRequest req params now w (route.primaryText req params))
    ((route.fallbackText req params).map String.ofList) (route.pinned req params now w)

end Route

end Fcam
