import Fcam.Model.Concurrency
import Fcam.Model.GatewayRun

/-!
# The gateway with the leases of its keys

What the leases answer is no longer left open: every attempt asks the one `ConcurrencyManager` of
the keys, and gives its lease back when it leaves the `try` whose `finally` releases it. The release
is a step of its own, and a request does nothing else before it.
-/

namespace Fcam

/-- A request, with the lease of its attempt and whether the attempt has left the `try`. -/
structure Leased where
  dispatch : Dispatch
  lease : Option Lease := none
  leaving : Bool := false

/-- Inside the `try` after the decryption: in the upstream call, or in a handler of its
exceptions. -/
def DispatchPhase.guarded : DispatchPhase → Bool
  | .calling _ _ => true
  | .settling _ _ .timeout => true
  | .settling _ _ (.httpError _) => true
  | _ => false

/-- The turn of a request the limiter has let pass and the leases have answered. -/
def Turn.leased (turn : Turn) (granted : Bool) : Turn :=
  { turn with allow := fun _ _ => .ok (true, none), tryAcquire := fun _ _ => .ok granted }

/-- The next step of a request: where it is then, with its lease, what the manager has become, and
what it has written. -/
def Leased.step (fwd : Forwarder) (turn : Turn) (w : World) (m : ConcurrencyManager) (r : Leased) :
    Option (Leased × ConcurrencyManager × List Write) :=
  let moves (turn : Turn) (m : ConcurrencyManager) :
    Option (Leased × ConcurrencyManager × List Write) :=
    (r.dispatch.step fwd turn w).map fun (d, writes) =>
      ({ r with dispatch := d, leaving := !d.phase.guarded }, m, writes)
  match r.lease with
  | some lease =>
    if r.leaving then some ({ r with lease := none }, (m.release lease).2, [])
    else moves (turn.leased true) m
  | none =>
    match r.dispatch.phase with
    | .gating id key =>
      match turn.allow id key.rateLimitPerMin with
      | .ok (true, _) =>
        match m.tryAcquire id key.maxConcurrent with
        | (some lease, m) => some ({ r with lease := some lease, leaving := false }, m, [])
        | (none, m) => moves (turn.leased false) m
      | _ => moves turn m
    | _ => moves turn m

/-- The state shared by all, the leases of the keys, every request, and the rows every transaction
has loaded. -/
structure LeasedState where
  world : World
  manager : ConcurrencyManager := {}
  requests : List Leased := []
  transactions : List (List (Nat × ApiKey)) := []

/-- The same without the leases. -/
def LeasedState.gateway (st : LeasedState) : GatewayState :=
  { world := st.world, requests := st.requests.map Leased.dispatch,
    transactions := st.transactions }

/-- One step of a run. -/
def LeasedState.next (fwd : Forwarder) (st : LeasedState) : GatewayAction → Option LeasedState
  | .dispatch (.arrive req) =>
    ((st.world.client? req.clientId).filter Client.isActive).map fun client =>
      { st with requests := st.requests ++ [{ dispatch := { req, phase := .governing client } }] }
  | .dispatch (.advance i turn) =>
    (st.requests[i]?.bind fun r => r.step fwd turn st.world st.manager).map fun (r, m, writes) =>
      { st with world := commit writes st.world, manager := m, requests := st.requests.set i r }
  | .load ids => some { st with transactions := st.transactions ++ [loadRows st.world ids] }
  | .save t edit _ =>
    st.transactions[t]?.map fun loaded =>
      { st with
        world := commit (loaded.flatMap fun row => edit.writes fwd st.world row.1 row.2) st.world
        transactions := st.transactions.set t [] }

end Fcam
