import Fcam.Model.Forward

/-!
# Testing a key

`Forwarder.test_key` and `_test_key_exa`: probe the key's own upstream with a small request and
write the outcome into the row. A Firecrawl key is tried on both API versions, the second only where
the first one is not served.
-/

namespace Fcam

/-- What the surroundings answer during a key test: the outcome of each request, and the clock when
the last one is written. -/
structure TestEnv where
  outcome : Nat → Outcome
  now : Instant

structure KeyTestResult where
  ok : Bool
  upstreamStatusCode : Option Nat
  observedStatus : KeyStatus
  observedCooldownUntil : Option Instant
deriving DecidableEq, Repr

structure KeyTested where
  result : Except Raised KeyTestResult
  world : World
  exchanges : List Exchange

/-- What a key test makes of the outcome of its last request. -/
def settleTest (config : AppConfig) (outcome : Outcome) (now : Instant) (id : Nat)
    (w : World) : World :=
  match outcome with
  | .timeout => recordFailure config now id w
  | .httpError _ => recordFailure config now id w
  | .exception _ => w
  | .unsent _ => w
  | .response r =>
    if is2xx r.statusCode then w.modifyKey id markActive
    else if r.statusCode = 429 then w.modifyKey id (markCooling now (cooldownOf config r.headers))
    else if r.statusCode = 401 ∨ r.statusCode = 403 then w.modifyKey id disableKey
    else if 500 ≤ r.statusCode then recordFailure config now id w
    else w

/-- The version of the API is not served. -/
def Outcome.notServed : Outcome → Bool
  | response r => r.statusCode == 404 || r.statusCode == 405
  | _ => false

/-- The requests sent to the candidates, with their outcomes: the next one follows where a candidate
is not served. -/
def probes (outcome : Nat → Outcome) : Nat → List String → List (String × Outcome)
  | _, [] => []
  | i, path :: rest =>
    (path, outcome i) :: if (outcome i).notServed then probes outcome (i + 1) rest else []

section

variable (fwd : Forwarder) (env : TestEnv) (requestId : String) (id : Nat) (w : World)

/-- The test of a key with the candidate paths and the body of its provider. -/
def testKeyWith (provider : Provider) (candidates : List String) (body : Json) (masterKey : Bytes)
    (key : ApiKey) :
    KeyTested :=
  let observe (w : World) (ok : Bool) (status : Option Nat) : KeyTestResult :=
    let row := (w.key? id).getD key
    { ok, upstreamStatusCode := status, observedStatus := row.status,
      observedCooldownUntil := row.cooldownUntil }
  match fwd.decrypt masterKey key with
  | none =>
    let w := w.modifyKey id disableKeyDecryptFailed
    { result := .ok (observe w false none), world := w, exchanges := [] }
  | some plaintextKey =>
    match fwd.providerBaseUrl provider with
    | .error error => { result := .error (.fcam error), world := w, exchanges := [] }
    | .ok baseUrl =>
      let sent := probes env.outcome 0 candidates
      let outcome := (sent.getLast?.map Prod.snd).getD (.exception "AssertionError")
      let w' := settleTest fwd.config outcome env.now id w
      let exchange (after : World) (probe : String × Outcome) : Exchange :=
        { request :=
            { baseUrl
              method := "POST"
              path := probe.1
              headers :=
                [("x-request-id", requestId), ("content-type", "application/json"),
                  fwd.providerAuthHeader provider plaintextKey]
              jsonBody := some body }
          keyId := id
          secret := plaintextKey
          outcome := probe.2
          before := w.db.keys
          after := after.db.keys }
      -- Only the last answer is written.
      let logged := sent.filter fun probe => match probe.2 with
        | .unsent _ => false
        | _ => true
      let exchanges := logged.dropLast.map (exchange w) ++ logged.getLast?.toList.map (exchange w')
      { result :=
          match outcome with
          | .response r => .ok (observe w' (is2xx r.statusCode) (some r.statusCode))
          | .timeout => .ok (observe w' false none)
          | .httpError _ => .ok (observe w' false none)
          | .exception text => .error (.other text)
          | .unsent text => .error (.other text)
        world := w'
        exchanges }

/-- The candidate paths of a Firecrawl key, the configured version first. -/
def testCandidates : List String :=
  if fwd.firecrawlUpstreamVersion = some .v1 then ["/v1/scrape", "/v2/scrape"]
  else ["/v2/scrape", "/v1/scrape"]

/-- `_test_key_exa`. -/
def testKeyExa (masterKey : Bytes) (key : ApiKey) : KeyTested :=
  testKeyWith fwd env requestId id w .exa ["/search"]
    (.obj [(PyStr.ofString "query", .str (PyStr.ofString "test")),
     (PyStr.ofString "numResults", .int 1)]) masterKey key

/-- `test_key`, for the key row with an id. -/
def testKey (mode : String) (testUrl : PyStr) (key : ApiKey) : KeyTested :=
  let refuse (error : FcamError) : KeyTested :=
    { result := .error (.fcam error), world := w, exchanges := [] }
  match fwd.masterKey with
  | none => refuse notReady
  | some masterKey =>
    if mode ≠ "scrape" then
      refuse { statusCode := 400, code := .validationError, message := "Unsupported test mode" }
    else
      match key.provider with
      | .exa => testKeyExa fwd env requestId id w masterKey key
      | .firecrawl =>
        testKeyWith fwd env requestId id w .firecrawl (testCandidates fwd)
          (.obj [(PyStr.ofString "url", .str testUrl)]) masterKey key

end

end Fcam
