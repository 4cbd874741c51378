import Fcam.Model.AdminSession
import Fcam.Model.KeyUse

/-!
# The custody of secrets

Everything that reads or writes key rows, performed one after the other: the uses of keys, the
selections on their own, and all of administration. `World.secret?` is what the gateway keeps for a
key: the secret it would send.
-/

namespace Fcam

/-- The secret of a key, as its ciphertext is decrypted. -/
def World.secret? (security : Security) (masterKey : Bytes) (w : World)
    (id : Nat) : Option String :=
  (w.key? id).bind fun key => security.decryptApiKey masterKey key.apiKeyCiphertext

inductive CustodyAction where
  | use (keyUse : KeyUse)
  | select (env : PoolEnv) (clientId : Option Nat) (provider : Provider)
  | admin (op : AdminOperation)

/-- The exchanges of the tests of a batch. -/
def batchTestExchanges (fwd : Forwarder) (env : Nat → TestEnv) (requestId mode : String)
    (testUrl : PyStr) :
    List (Nat × Except FcamError ApiKey) → World → List Exchange
  | [], _ => []
  | (_, .error _) :: rest, w => batchTestExchanges fwd env requestId mode testUrl rest w
  | (id, .ok _) :: rest, w =>
    match w.key? id with
    | none => batchTestExchanges fwd env requestId mode testUrl rest w
    | some key =>
      let tested := testKey fwd (env id) requestId id w mode testUrl key
      tested.exchanges ++ batchTestExchanges fwd env requestId mode testUrl rest tested.world

/-- The exchanges of a batch, which tests nothing unless it is asked to and may. -/
def batchKeysExchanges (fwd : Forwarder) (env : Nat → TestEnv) (requestId : String)
    (req : BatchKeysRequest) (w : World) : List Exchange :=
  match req.test with
  | none => []
  | some (mode, testUrl) =>
    if mode ≠ "scrape" || 1 < req.ids.length && mixedProviders req.ids w then []
    else
      let (results, w) := batchLoop req req.ids w
      batchTestExchanges fwd env requestId mode testUrl results w

/-- The exchanges of an operation: those of the keys it tests and refreshes. -/
def AdminOperation.exchanges (fwd : Forwarder) (op : AdminOperation) (w : World) : List Exchange :=
  match op with
  | .batchKeys env requestId req => batchKeysExchanges fwd env requestId req w
  | .testKey env requestId mode testUrl id =>
    ((KeyUse.testKey env requestId id mode testUrl).perform fwd w).2
  | .refreshKey now env requestId id =>
    ((KeyUse.refreshKeyCredits now env requestId id).perform fwd w).2
  | .refreshAll keyIds force now env requestId =>
    ((KeyUse.refreshAllCredits keyIds force now env requestId).perform fwd w).2
  | _ => []

/-- The state an action leaves, and its exchanges. -/
def CustodyAction.perform (fwd : Forwarder) (enforced : Bool) (action : CustodyAction) (w : World) :
    World × List Exchange :=
  match action with
  | .use keyUse => keyUse.perform fwd w
  | .select env clientId provider => ((Fcam.select env w clientId provider).world, [])
  | .admin op => (op.perform fwd enforced w, op.exchanges fwd w)

/-- One step of a run. -/
def CustodyAction.next (fwd : Forwarder) (enforced : Bool) (w : World)
    (action : CustodyAction) : Option World :=
  some (action.perform fwd enforced w).1

/-- The secrets an administrator gives for a key with an id: a new key's, an imported one's, or the
one it is rotated to. -/
def AdminOperation.Gives (w : World) (id : Nat) (secret : String) : AdminOperation → Prop
  | .createKey _ _ req => w.key? id = none ∧ secret = req.apiKey
  | .importKeys _ _ _ items _ _ => w.key? id = none ∧ ∃ item ∈ items, secret = item.apiKey
  | .updateKey _ other req => other = id ∧ req.apiKey = some secret
  | _ => False

/-- Primitives that hide nothing and lose nothing. -/
def Security.utf8 : Security :=
  { Security.plain with
    encryptApiKey := fun _ _ text => text.toByteArray.data.toList
    decryptApiKey := fun _ ciphertext => String.fromUTF8? ⟨ciphertext.toArray⟩ }

end Fcam
