import Fcam.Model.KeyCustody

/-!
# The tokens that were handed out

The gateway keeps a hash of a client's token. `Registry` is what an administrator knows instead: for
every client the token handed out last, and whether the client is enabled. `CustodyAction.record`
keeps it, from the answers an operation gets and from nothing else.
-/

namespace Fcam

/-- What an administrator knows of a client. -/
structure Credential where
  token : String
  active : Bool
deriving DecidableEq, Repr

abbrev Registry := Nat → Option Credential

/-- A client that is known is known differently. -/
def Registry.modify (registry : Registry) (id : Nat) (f : Credential → Credential) : Registry :=
  Function.update registry id ((registry id).map f)

section

variable (security : Security) (masterKey : Option Bytes) (enforced : Bool) (w : World)
  (registry : Registry)

/-- The registry after an operation on clients is answered. -/
def AdminOperation.record : AdminOperation → Registry
  | .createClient today token req =>
    match (Fcam.createClient security masterKey today token req w).1 with
    | .ok (id, _) => Function.update registry id (some { token, active := req.isActive })
    | .error _ => registry
  | .updateClient id req =>
    match (Fcam.updateClient id req w).1, req.isActive with
    | .ok _, some isActive =>
      registry.modify id fun known => { known with active := isActive.getD false }
    | _, _ => registry
  | .deleteClient id =>
    match (Fcam.deleteClient id w).1 with
    | .ok _ => registry.modify id fun known => { known with active := false }
    | .error _ => registry
  | .purgeClient id =>
    match (w.purgeClient enforced id).1 with
    | .ok _ => Function.update registry id none
    | .error _ => registry
  | .rotateClientToken token id =>
    match (Fcam.rotateClientToken security masterKey token id w).1 with
    | .ok _ => registry.modify id fun known => { known with token }
    | .error _ => registry
  | .batchClients clientIds action => fun id =>
    if id ∈ clientIds then (registry id).map fun known => { known with active := action == .enable }
    else registry id
  | _ => registry

end

/-- The registry after a step. -/
def CustodyAction.record (fwd : Forwarder) (enforced : Bool) (w : World) (registry : Registry) :
    CustodyAction → Registry
  | .admin op => op.record fwd.security fwd.masterKey enforced w registry
  | _ => registry

/-- A step of the gateway beside the registry. -/
def registryNext (fwd : Forwarder) (enforced : Bool) (s : World × Registry)
    (action : CustodyAction) :
    Option (World × Registry) :=
  some ((action.perform fwd enforced s.1).1, action.record fwd enforced s.1 s.2)

/-- A client of the registry is known under a token, as far as its hash says. -/
def Registry.Knows (security : Security) (masterKey : Bytes) (registry : Registry) (id : Nat)
    (token : String) (active : Bool) : Prop :=
  ∃ known, registry id = some known ∧
    security.hmacSha256Hex masterKey known.token = security.hmacSha256Hex masterKey token ∧
      known.active = active

end Fcam
