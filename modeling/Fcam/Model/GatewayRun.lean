import Fcam.Model.ControlPlane
import Fcam.Model.CreditFetcher
import Fcam.Model.DispatchRun

/-!
# The gateway with everything that writes keys

Besides the forwards there are key tests, credit fetches and the administrator's changes. Each is a
transaction: it loads key rows, does its work, which may take an upstream call, and commits what it
made of the rows it loaded. A call that commits more than once is several transactions.
-/

namespace Fcam

/-- What a transaction makes of a row it has loaded. -/
inductive KeyEdit where
  | test (outcome : Outcome) (now : Instant)
  | fetch (env : FetchEnv)
  | update (nonce : Bytes) (clientId : Option Nat) (req : UpdateKeyRequest)
  | delete
  | batch (req : BatchKeysRequest)
  | quotaReset (today : Day)

section

variable (fwd : Forwarder) (w : World) (id : Nat) (key : ApiKey)

/-- The key cannot be decrypted. -/
def undecryptable : Bool := (fwd.masterKey.bind fun masterKey => fwd.decrypt masterKey key).isNone

/-- The row after the end of a key test, and the failure it counts. -/
def testWrites (outcome : Outcome) (now : Instant) : List Write :=
  match outcome with
  | .response r =>
    if is2xx r.statusCode then [.key id key (markActive key)]
    else (Dispatch.outcomeWrites fwd now id key outcome w).1
  | outcome => (Dispatch.outcomeWrites fwd now id key outcome w).1

/-- The row and the snapshot a credit fetch writes. -/
def fetchWrites (env : FetchEnv) : List Write :=
  let failed : Write := .snapshot (failedSnapshot id env.writtenAt)
  match env.outcome with
  | .timeout => [failed]
  | .httpError _ => []
  | .exception _ => []
  | .unsent _ => []
  | .response r =>
    if r.statusCode = 200 then
      match r.json.map creditAnswer with
      | none => [failed]
      | some .unsuccessful => [failed]
      | some .notAnObject => []
      | some .unreadable => []
      | some (.credits remaining plan) =>
        [.key id key (fetchSucceeded fwd.config env.now env.writtenAt w.db.creditSnapshots.nextId
          remaining plan key), .snapshot
            { apiKeyId := id
              remainingCredits := remaining
              planCredits := plan
              snapshotAt := env.writtenAt
              fetchSuccess := true }]
    else if r.statusCode = 401 ∨ r.statusCode = 403 then
      [.key id key (fetchUnauthorized key), failed]
    else if r.statusCode = 429 then [.key id key (fetchRateLimited env.now key), failed]
    else [failed]

/-- The row `update_key` makes of the loaded one; a new secret needs the master key. -/
def updatedRow (nonce : Bytes) (clientId : Option Nat) (req : UpdateKeyRequest) : Option ApiKey :=
  match req.apiKey, fwd.masterKey with
  | none, _ => some (updateRow clientId req key)
  | some _, none => none
  | some apiKey, some masterKey =>
    some (updateRow clientId req (rotateKey fwd.security masterKey nonce apiKey key))

/-- What a transaction sends for one of its rows. -/
def KeyEdit.writes : KeyEdit → List Write
  | test outcome now =>
    if undecryptable fwd key then [.key id key (disableKeyDecryptFailed key)]
      else testWrites fwd w id key outcome now
  | fetch env =>
    if undecryptable fwd key then
      [.key id key (disableKeyDecryptFailed key), .snapshot (failedSnapshot id env.writtenAt)]
    else fetchWrites fwd w id key env
  | update nonce clientId req =>
    (updatedRow fwd key nonce clientId req).toList.map fun row => .key id key row
  | delete => [.key id key (disableKey key)]
  | batch req => [.key id key (batchRow req key)]
  | quotaReset today => [.key id key (resetQuotaRow today key)]

end

/-- The state shared by all, every request, and the rows every transaction has loaded. -/
structure GatewayState where
  world : World
  requests : List Dispatch := []
  transactions : List (List (Nat × ApiKey)) := []

namespace GatewayState

def dispatch (st : GatewayState) : DispatchState := { world := st.world, requests := st.requests }

def withDispatch (st : GatewayState) (dispatched : DispatchState) : GatewayState :=
  { st with world := dispatched.world, requests := dispatched.requests }

end GatewayState

/-- A step of a request, a transaction that loads the keys with some ids, or one that commits at an
instant. -/
inductive GatewayAction where
  | dispatch (a : DispatchAction)
  | load (ids : List Nat)
  | save (t : Nat) (edit : KeyEdit) (now : Instant)

/-- The rows with the given ids. -/
def loadRows (w : World) (ids : List Nat) : List (Nat × ApiKey) :=
  ids.filterMap fun id => (w.key? id).map fun key => (id, key)

/-- One step of a run. A commit is the end of a transaction. -/
def GatewayAction.next (fwd : Forwarder) (st : GatewayState) : GatewayAction → Option GatewayState
  | dispatch a => (a.next fwd st.dispatch).map st.withDispatch
  | load ids => some { st with transactions := st.transactions ++ [loadRows st.world ids] }
  | save t edit _ =>
    st.transactions[t]?.map fun loaded =>
      { st with
        world := commit (loaded.flatMap fun row => edit.writes fwd st.world row.1 row.2) st.world
        transactions := st.transactions.set t [] }

end Fcam
