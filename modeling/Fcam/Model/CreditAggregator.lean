import Mathlib.Algebra.Ring.Int.Defs
import Mathlib.Data.List.MinMax
import Fcam.Model.ClientAdmin
import Fcam.Model.CreditRefresh
import Fcam.Model.GatewayRun

/-!
# Credits of a key, and the runs that write them

`get_key_credits` reads the snapshot a key points to, whoever it belongs to, and two other functions
compute a key's total again. The pointer is written by fetches that answer with credits; the
snapshots are removed by retention and with the keys that are purged. A fetch loads its key, waits
for the answer, and commits what it made of the row it loaded.
-/

namespace Fcam

/-! ### Reading credits -/

/-- What `get_key_credits` returns, its times unformatted. -/
structure KeyCredits where
  apiKeyId : Nat
  remainingCredits : Option Int
  planCredits : Option Int
  totalCredits : Option Int
  lastUpdatedAt : Option Instant
  isEstimated : Bool
  latestSnapshot : Option CreditSnapshot
  nextRefreshAt : Option Instant
deriving DecidableEq

/-- The snapshots of a key that pass a test. -/
def snapshotsOf (id : Nat) (p : CreditSnapshot → Bool) (w : World) : List CreditSnapshot :=
  (w.db.creditSnapshots.select fun snapshot => snapshot.apiKeyId == id && p snapshot).map Prod.snd

/-- The order in which the newest and the oldest snapshot are looked for. -/
local instance instantOrder : Preorder Instant := Int.instLinearOrder.toPartialOrder.toPreorder

/-- The snapshot shown as the latest: the one the key points to, else the key's newest. -/
def latestSnapshot (id : Nat) (key : ApiKey) (w : World) : Option CreditSnapshot :=
  let pointed := (key.lastCreditSnapshotId.filter (· ≠ 0)).bind w.db.creditSnapshots.get?
  pointed.or ((snapshotsOf id (fun _ => true) w).argmax CreditSnapshot.snapshotAt)

/-- `get_key_credits`. -/
def getKeyCredits (id : Nat) (w : World) : Except String KeyCredits :=
  match w.key? id with
  | none => .error ("Key " ++ toString id ++ " not found")
  | some key =>
    let latest := latestSnapshot id key w
    let first := (snapshotsOf id CreditSnapshot.fetchSuccess w).argmin CreditSnapshot.snapshotAt
    let initial := (first.map CreditSnapshot.remainingCredits).or key.cachedRemainingCredits
    .ok
      { apiKeyId := id
        remainingCredits := key.cachedRemainingCredits
        planCredits := key.cachedPlanCredits
        totalCredits := (key.cachedPlanCredits.filter (0 < ·)).or initial
        lastUpdatedAt := key.lastCreditCheckAt
        isEstimated :=
          match key.cachedRemainingCredits, latest with
          | some remaining, some snapshot => remaining != snapshot.remainingCredits
          | _, _ => false
        latestSnapshot := latest
        nextRefreshAt := key.nextRefreshAt }

/-- The oldest snapshot of a successful fetch of a key. -/
def firstSnapshot (id : Nat) (w : World) : Option CreditSnapshot :=
  (snapshotsOf id CreditSnapshot.fetchSuccess w).argmin CreditSnapshot.snapshotAt

/-- `cached_total_credits` of `_key_item`. -/
def keyItemTotalCredits (id : Nat) (key : ApiKey) (w : World) : Option Int :=
  match firstSnapshot id w with
  | some first => some first.remainingCredits
  | none => key.cachedRemainingCredits

/-- What part of a total is used, in per cent. The source rounds it to two decimals. -/
def usagePercentage (total remaining : Int) : Rat :=
  if total = 0 then 0 else ((total - remaining : Int) : Rat) / total * 100

/-- An entry of `keys` in what `aggregate_client_credits` returns. -/
structure KeyUsage where
  apiKeyId : Nat
  name : Option String
  remainingCredits : Int
  planCredits : Int
  totalCredits : Int
  usagePercentage : Rat
  lastUpdatedAt : Option Instant
deriving DecidableEq

/-- What `aggregate_client_credits` returns. -/
structure ClientUsage where
  clientId : Nat
  clientName : String
  totalRemainingCredits : Int
  totalPlanCredits : Int
  totalCredits : Int
  usagePercentage : Rat
  keys : List KeyUsage
deriving DecidableEq

/-- The body of the loop of `aggregate_client_credits`. -/
def keyUsage (w : World) (id : Nat) (key : ApiKey) : KeyUsage :=
  let remaining := key.cachedRemainingCredits.getD 0
  let plan := key.cachedPlanCredits.getD 0
  let totalCredits :=
    if 0 < plan then plan
    else
      match firstSnapshot id w with
      | some first => first.remainingCredits
      | none => remaining
  { apiKeyId := id
    name := key.name
    remainingCredits := remaining
    planCredits := plan
    totalCredits
    usagePercentage := usagePercentage totalCredits remaining
    lastUpdatedAt := key.lastCreditCheckAt }

/-- `aggregate_client_credits`. -/
def aggregateClientCredits (clientId : Nat) (w : World) : Except String ClientUsage :=
  match w.db.clients.get? clientId with
  | none => .error ("Client " ++ toString clientId ++ " not found")
  | some client =>
    let keys := w.db.keys.select fun key => key.clientId == some clientId && key.isActive
    let details := keys.map fun row => keyUsage w row.1 row.2
    let total := (details.map KeyUsage.totalCredits).sum
    let remaining := (details.map KeyUsage.remainingCredits).sum
    .ok
      { clientId
        clientName := client.name
        totalRemainingCredits := remaining
        totalPlanCredits := (details.map KeyUsage.planCredits).sum
        totalCredits := total
        usagePercentage := usagePercentage total remaining
        keys := details }

/-! ### Commits the database may refuse -/

/-- The credits an ended fetch brings. -/
def fetchedCredits (fwd : Forwarder) (loaded : ApiKey) (env : FetchEnv) : Option (Int × Int) :=
  if undecryptable fwd loaded then none
  else
    match env.outcome with
    | .response r =>
      if r.statusCode = 200 then
        match r.json.map creditAnswer with
        | some (.credits remaining plan) => some (remaining, plan)
        | _ => none
      else none
    | _ => none

section

variable (enforced : Bool) (w : World)

/-- The database refuses a change of a key row that is gone, and, where it enforces foreign keys, a
snapshot without its key. -/
def Write.refused : Write → Bool
  | key id loaded current => (w.key? id).isNone && current != loaded
  | snapshot row => enforced && (w.key? row.apiKeyId).isNone
  | _ => false

/-- Commit, or roll back where a change is refused. -/
def tryCommit (writes : List Write) : World :=
  if writes.any (Write.refused enforced w) then w else commit writes w

end

/-! ### Runs -/

/-- The database, and the fetches under way with the row each has loaded. -/
structure CreditState where
  world : World := {}
  fetches : List (Nat × ApiKey) := []

/-- A step of a run: a fetch loads its key, a fetch ends as its surroundings answer, a fetch ends
without a commit, a forward deducts a cost from the row it has loaded, old snapshots are removed, a
key is purged, or keys are created. -/
inductive CreditAction where
  | beginFetch (id : Nat)
  | endFetch (f : Nat) (env : FetchEnv)
  | dropFetch (f : Nat)
  | deduct (id : Nat) (loaded : ApiKey) (cost : Option Int)
  | cleanUp (now : Instant)
  | purge (id : Nat)
  | create (today : Day) (nonce : Bytes) (req : CreateKeyRequest)
  | importKeys (today : Day) (nonces : Nat → Bytes × Bytes) (items : List ParsedKeyLine)
      (failures : List (Nat × String × String)) (req : ImportRequest)

section

variable (fwd : Forwarder) (enforced : Bool)

/-- The state after the end of a fetch of the row `loaded`. -/
def endedFetch (env : FetchEnv) (id : Nat) (loaded : ApiKey) (w : World) : World :=
  tryCommit enforced w ((KeyEdit.fetch env).writes fwd w id loaded)

def CreditAction.next (st : CreditState) : CreditAction → Option CreditState
  | beginFetch id =>
    (st.world.key? id).map fun key => { st with fetches := st.fetches ++ [(id, key)] }
  | endFetch f env =>
    st.fetches[f]?.map fun fetch =>
      { world := endedFetch fwd enforced env fetch.1 fetch.2 st.world,
        fetches := st.fetches.eraseIdx f }
  | dropFetch f => some { st with fetches := st.fetches.eraseIdx f }
  | deduct id loaded cost =>
    some
      { st with
        world := tryCommit enforced st.world [.key id loaded (deductCredits cost loaded)] }
  | cleanUp now => some { st with world := cleanupOldSnapshots fwd.config now st.world }
  | purge id => some { st with world := (purgeKey enforced id st.world).2 }
  | create today nonce req =>
    some { st with world := (createKey fwd.security fwd.masterKey today nonce req st.world).2 }
  | importKeys today nonces items failures req =>
    some
      { st with
        world := (Fcam.importKeys fwd.security fwd.masterKey today nonces items failures req
          st.world).2 }

end

/-- A step of a run without overlaps: the request of a fetch ends, an answered request is charged to
the key that served it, or old snapshots are removed. -/
inductive CreditStep where
  | fetch (id : Nat) (env : FetchEnv)
  | deduct (id : Nat) (method upstreamPath : String) (r : UpstreamResponse)
  | cleanUp (now : Instant)

def CreditStep.next (config : AppConfig) (w : World) : CreditStep → Option World
  | fetch id env => some (settleFetch config env id w).2
  | deduct id method upstreamPath r =>
    some (w.modifyKey id (deductCredits (localCost config method upstreamPath r)))
  | cleanUp now => some (cleanupOldSnapshots config now w)

end Fcam
