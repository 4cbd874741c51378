import Fcam.Model.ControlPlane
import Fcam.Model.KeyUse

/-!
# Every operation on keys

The uses of keys, the selections on their own and the administrator's changes, performed one after
the other.
-/

namespace Fcam

inductive KeyOperation where
  | useKey (use : KeyUse)
  | select (env : PoolEnv) (clientId : Option Nat) (provider : Provider)
  | createKey (today : Day) (nonce : Bytes) (req : CreateKeyRequest)
  | importKeys (today : Day) (nonces : Nat → Bytes × Bytes) (items : List ParsedKeyLine)
      (failures : List (Nat × String × String)) (req : ImportRequest)
  | updateKey (nonce : Bytes) (id : Nat) (req : UpdateKeyRequest)
  | deleteKey (id : Nat)
  | batchKeys (env : Nat → TestEnv) (requestId : String) (req : BatchKeysRequest)
  | resetKeysQuota (today : Day)

/-- The state an operation leaves. -/
def KeyOperation.perform (fwd : Forwarder) (op : KeyOperation) (w : World) : World :=
  match op with
  | .useKey use => (use.perform fwd w).1
  | .select env clientId provider => (Fcam.select env w clientId provider).world
  | .createKey today nonce req => (Fcam.createKey fwd.security fwd.masterKey today nonce req w).2
  | .importKeys today nonces items failures req =>
    (Fcam.importKeys fwd.security fwd.masterKey today nonces items failures req w).2
  | .updateKey nonce id req => (Fcam.updateKey fwd.security fwd.masterKey nonce id req w).2
  | .deleteKey id => (Fcam.deleteKey id w).2
  | .batchKeys env requestId req => (Fcam.batchKeys fwd env requestId req w).2
  | .resetKeysQuota today => Fcam.resetKeysQuota today w

/-- One step of a run. -/
def KeyOperation.next (fwd : Forwarder) (w : World) (op : KeyOperation) : Option World :=
  some (op.perform fwd w)

end Fcam
