import Fcam.Model.CreditAggregator

/-!
# One pass of the credit refresh, commit by commit

`_refresh_once` works on one session. A fetch that ends in a commit sends along what is still
pending of earlier keys, and a commit that is refused discards all of it. After a commit or a
roll-back every row is read again at its next use, which raises where the row is gone.
-/

namespace Fcam

/-- What happens during one key's turn: how its fetch ends, whether an administrator purges the key
meanwhile, and the clock when the next refresh time is computed again. -/
structure KeyTurn where
  env : FetchEnv
  purged : Bool := false
  refreshedAt : Instant

/-- A next refresh time the session has written into the row it has loaded, not yet sent. -/
structure Scheduled where
  id : Nat
  loaded : ApiKey
  nextRefreshAt : Instant

def Scheduled.write (p : Scheduled) : Write :=
  .key p.id p.loaded (scheduleRefresh p.nextRefreshAt p.loaded)

/-- The pass so far: the database, what the session still has to send, and the keys whose fetch has
been called. -/
structure PassState where
  world : World
  pending : List Scheduled := []
  attempted : List Nat := []

section

variable (fwd : Forwarder) (enforced : Bool) (now : Instant) (turns : Nat → KeyTurn)

/-- `now + timedelta(minutes=retry_delay_minutes)`. -/
def retryTime : Option Instant :=
  plusMinutes now (max fwd.config.creditMonitoring.retryDelayMinutes 1)

/-- The end of a turn whose row can be read: its next refresh time is set, or the exception leaves
the pass. -/
def PassState.schedule (s : PassState) (id : Nat) (key : ApiKey) (nextRefreshAt : Option Instant) :
    Except PassState PassState :=
  match nextRefreshAt with
  | none => .error s
  | some nextRefreshAt =>
    .ok { s with pending := s.pending ++ [{ id, loaded := key, nextRefreshAt }] }

/-- Send what is pending along with some writes. -/
def PassState.commit (s : PassState) (writes : List Write) : PassState :=
  { s with
    world := tryCommit enforced s.world (s.pending.map Scheduled.write ++ writes)
    pending := [] }

/-- The rest of a turn whose fetch ends in a commit of some writes. An error carries the state in
which an exception leaves the pass. -/
def PassState.settle (s : PassState) (turn : KeyTurn) (id : Nat) (loaded : ApiKey)
    (writes : List Write) :
    Except PassState PassState :=
  let refused := (s.pending.map Scheduled.write ++ writes).any (Write.refused enforced s.world)
  let s := s.commit enforced writes
  match s.world.key? id with
  | none => .error s
  | some key =>
    let fetched := (fetchedCredits fwd loaded turn.env).isSome && !refused
    let next := calculateNextRefreshTime fwd.config turn.refreshedAt key
    s.schedule id key (if fetched then next.or (retryTime fwd now) else retryTime fwd now)

/-- One key of a batch. -/
def refreshTurn (id : Nat) (s : PassState) : Except PassState PassState :=
  let turn := turns id
  match s.world.key? id with
  | none => .error s
  | some loaded =>
    let world := if turn.purged then (purgeKey false id s.world).2 else s.world
    let s := { s with world, attempted := s.attempted ++ [id] }
    let writes := (KeyEdit.fetch turn.env).writes fwd world id loaded
    -- A fetch that sends nothing has raised, and the handler still has the row that was loaded.
    if writes.isEmpty then s.schedule id loaded (retryTime fwd now)
    else s.settle fwd enforced now turn id loaded writes

/-- The keys of a batch, and its commit. -/
def refreshBatch : List (Nat × ApiKey) → PassState → Except PassState PassState
  | [], s => .ok (s.commit enforced [])
  | (id, _) :: rest, s => (refreshTurn fwd enforced now turns id s).bind (refreshBatch rest)

def refreshBatches : List (List (Nat × ApiKey)) → PassState → Except PassState PassState
  | [], s => .ok s
  | batch :: rest, s => (refreshBatch fwd enforced now turns batch s).bind (refreshBatches rest)

/-- `[keys[i : i + size] for i in range(0, len(keys), size)]`. -/
def batches {α : Type} (size : Nat) (keys : List α) : List (List α) :=
  (List.range ((keys.length + size - 1) / size)).map fun i => (keys.drop (i * size)).take size

/-- `_refresh_once`, begun at `now`. What the session has not sent is lost when an exception leaves
the pass. -/
def refreshPass (cleanupAt : Instant) (w : World) : PassState :=
  let keys := w.db.keys.select (refreshDue now)
  let size := (max fwd.config.creditMonitoring.batchSize 1).toNat
  if keys.isEmpty then { world := w }
  else
    match refreshBatches fwd enforced now turns (batches size keys) { world := w } with
    | .error s => s
    | .ok s => { s with world := cleanupOldSnapshots fwd.config cleanupAt s.world }

end

end Fcam
