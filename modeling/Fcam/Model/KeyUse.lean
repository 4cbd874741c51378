import Fcam.Base.Run
import Fcam.Model.CreditRefresh
import Fcam.Model.KeyTest

/-!
# Every use of a key's secret

The operations that decrypt keys and send them upstream, each with what it was called with and what
its surroundings answer. A run performs them one after the other.
-/

namespace Fcam

def Forwarded.exchanges (forwarded : Forwarded) : List Exchange :=
  forwarded.events.filterMap fun event =>
    match event with
    | .exchanged exchange => some exchange
    | _ => none

inductive KeyUse where
  | forward (turns : Nat → Turn) (req : ForwardRequest)
  | testKey (env : TestEnv) (requestId : String) (id : Nat) (mode : String) (testUrl : PyStr)
  | refreshKeyCredits (now : Instant) (env : FetchEnv) (requestId : String) (id : Nat)
  | refreshAllCredits (keyIds : List Nat) (force : Bool) (now : Instant) (env : Nat → FetchEnv)
      (requestId : Nat → String)
  | refreshOnce (now : Instant) (env : Nat → FetchEnv) (requestId : Nat → String)
      (cleanupAt : Instant)

/-- The state a use of keys leaves and the exchanges it makes. Without a master key none of the
credit operations starts, and a test needs a key that exists. -/
def KeyUse.perform (fwd : Forwarder) (use : KeyUse) (w : World) : World × List Exchange :=
  match use with
  | .forward turns req =>
    let forwarded := Fcam.forward fwd turns req w
    (forwarded.world, forwarded.exchanges)
  | .testKey env requestId id mode testUrl =>
    match w.key? id with
    | none => (w, [])
    | some key =>
      let tested := Fcam.testKey fwd env requestId id w mode testUrl key
      (tested.world, tested.exchanges)
  | .refreshKeyCredits now env requestId id =>
    match fwd.masterKey with
    | none => (w, [])
    | some masterKey =>
      let fetched := Fcam.refreshKeyCredits fwd.config fwd.security masterKey now env requestId id w
      (fetched.world, fetched.exchanges)
  | .refreshAllCredits keyIds force now env requestId =>
    match fwd.masterKey with
    | none => (w, [])
    | some masterKey =>
      Fcam.refreshAllCredits fwd.config fwd.security masterKey keyIds force now env requestId w
  | .refreshOnce now env requestId cleanupAt =>
    match fwd.masterKey with
    | none => (w, [])
    | some masterKey =>
      Fcam.refreshOnce fwd.config fwd.security masterKey now env requestId cleanupAt w

/-- One step of a run. -/
def KeyUse.next (fwd : Forwarder) (w : World) (use : KeyUse) : Option World :=
  some (use.perform fwd w).1

end Fcam
