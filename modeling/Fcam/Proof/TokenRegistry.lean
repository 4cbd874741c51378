import Fcam.Base.Unique
import Fcam.Model.TokenRegistry
import Fcam.Proof.ClientDeletion
import Fcam.Proof.Dispatch
import Fcam.Proof.KeyCustody

/-!
# A request is let in by the tokens that were handed out

`Tracks` is the refinement between the rows of the clients and the registry: every row has the hash
of the registry's token and its flag, and no two rows have one hash. The uses of keys and the
operations on keys leave the credentials of the clients alone (`CredentialsKept`), and an operation
on clients changes row and registry alike. So in every state of a run the gateway answers a token as
the registry says.
-/

namespace Fcam

/-! ### The columns of a credential -/

def Client.credential (client : Client) : String × Bool := (client.tokenHash, client.isActive)

/-- No client is made or lost, and none gets another hash or another flag. -/
def CredentialsKept (w v : World) : Prop :=
  ∀ id, Option.Rel (fun before after : Client => after.credential = before.credential)
    (w.client? id) (v.client? id)

namespace CredentialsKept

variable {w v u : World}

theorem of_clients (hclients : ∀ id, v.client? id = w.client? id) : CredentialsKept w v := by
  intro id
  rw [hclients id]
  exact .of_eq _ fun _ => rfl

theorem refl (w : World) : CredentialsKept w w := of_clients fun _ => rfl

theorem trans (h : CredentialsKept w v) (h' : CredentialsKept v u) : CredentialsKept w u := by
  intro id
  apply (h id).comp (h' id)
  intro before mid after hfirst hsecond
  exact hsecond.trans hfirst

end CredentialsKept

/-! ### Uses of keys -/

section Uses

variable {fwd : Forwarder} {w : World}

theorem select_credentialsKept (env : PoolEnv) (w : World) (clientId : Option Nat)
    (provider : Provider) :
    CredentialsKept w (select env w clientId provider).world := by
  apply CredentialsKept.of_clients
  intro id
  simp only [select]
  split
  · rfl
  split
  · rfl
  split <;> rfl

theorem settled_credentialsKept (req : ForwardRequest) (turns : Nat → Turn) (i id : Nat)
    (w : World) :
    CredentialsKept w (settled fwd req turns i id w) := by
  intro other
  rw [settled, settle_client?]
  split
  · exact Option.Rel.map _ _ fun _ => rfl
  · exact .of_eq _ fun _ => rfl

theorem forward_credentialsKept (turns : Nat → Turn) (req : ForwardRequest) (w : World) :
    CredentialsKept w (forward fwd turns req w).world := by
  have hcall :
      ∀ baseUrl bound,
        CallRule fwd baseUrl req turns bound (fun v _ => CredentialsKept w v)
        (fun v _ => CredentialsKept w v) fun _ _ => True := by
    intro baseUrl bound
    constructor
    · exact fun hkept => hkept
    · exact fun _ hkept _ => hkept
    · exact fun id hkept => hkept.trans (.of_clients fun _ => rfl)
    · exact fun id _ _ hkept _ => hkept.trans (settled_credentialsKept req turns _ id _)
    · exact fun id _ _ hkept _ _ => hkept.trans (settled_credentialsKept req turns _ id _)
    · exact fun _ _ _ _ _ => trivial
  have hselect : SelectRule req turns (fun v _ => CredentialsKept w v) fun _ _ => True :=
    ⟨fun _ hkept => hkept.trans (select_credentialsKept _ _ _ _), fun _ _ _ _ _ => trivial⟩
  apply forward_rule (fun v _ => CredentialsKept w v) (fun v _ => CredentialsKept w v) (.refl w)
    (.refl w)
  · exact fun baseUrl _ _ _ _ _ => ⟨_, hcall baseUrl _, trivial⟩
  · exact fun baseUrl _ _ => ⟨_, hcall baseUrl _, hselect⟩

theorem testKey_client? (env : TestEnv) (requestId : String) (id : Nat) (w : World) (mode : String)
    (testUrl : PyStr) (key : ApiKey) (other : Nat) :
    (testKey fwd env requestId id w mode testUrl key).world.client? other = w.client? other := by
  have hsettled :
      ∀ outcome, (settleTest fwd.config outcome env.now id w).client? other = w.client? other := by
    intro outcome
    cases outcome with
    | timeout => exact recordFailure_client? fwd.config env.now id w other
    | httpError text => exact recordFailure_client? fwd.config env.now id w other
    | exception text => rfl
    | unsent text => rfl
    | response r =>
      simp only [settleTest]
      split
      · rfl
      split
      · rfl
      split
      · rfl
      split
      · exact recordFailure_client? fwd.config env.now id w other
      · rfl
  have hwith : ∀ provider candidates body masterKey,
      (testKeyWith fwd env requestId id w provider candidates body masterKey key).world.client?
        other = w.client? other := by
    intro provider candidates body masterKey
    rw [testKeyWith]
    simp only
    split
    · rfl
    split
    · rfl
    · exact hsettled _
  rw [testKey]
  simp only
  split
  · rfl
  split
  · rfl
  split
  · exact hwith _ _ _ _
  · exact hwith _ _ _ _

theorem fetch_client? (config : AppConfig) (security : Security) (masterKey : Bytes)
    (env : FetchEnv) (requestId : String) (id : Nat) (key : ApiKey) (w : World) (other : Nat) :
    (fetchCreditFromFirecrawl config security masterKey env requestId id key w).world.client?
      other = w.client? other := by
  rw [fetchCreditFromFirecrawl]
  split
  · rfl
  simp only
  rw [settleFetch]
  simp only
  split
  · rfl
  · rfl
  · rfl
  · rfl
  split
  · split <;> rfl
  split
  · rfl
  split <;> rfl

theorem refreshKeyCredits_client? (config : AppConfig) (security : Security) (masterKey : Bytes)
    (now : Instant) (env : FetchEnv) (requestId : String) (id : Nat) (w : World) (other : Nat) :
    (refreshKeyCredits config security masterKey now env requestId id w).world.client? other =
      w.client? other := by
  rw [refreshKeyCredits]
  simp only
  split
  · rfl
  split
  · rfl
  split
  · rfl
  · exact fetch_client? config security masterKey env requestId id _ w other

theorem refreshAllKeys_client? (config : AppConfig) (security : Security) (masterKey : Bytes)
    (force : Bool) (now : Instant) (env : Nat → FetchEnv) (requestId : Nat → String)
    (keys : List (Nat × ApiKey)) (w : World) (other : Nat) :
    (refreshAllKeys config security masterKey force now env requestId keys w).1.client? other =
      w.client? other := by
  induction keys generalizing w with
  | nil => rfl
  | cons row rest ih =>
    rw [refreshAllKeys]
    split
    · exact ih w
    · exact (ih _).trans (fetch_client? config security masterKey _ _ row.1 row.2 w other)

theorem refreshKeys_client? (config : AppConfig) (security : Security) (masterKey : Bytes)
    (now : Instant) (env : Nat → FetchEnv) (requestId : Nat → String) (keys : List (Nat × ApiKey))
    (w : World) (other : Nat) :
    (refreshKeys config security masterKey now env requestId keys w).1.client? other =
      w.client? other := by
  induction keys generalizing w with
  | nil => rfl
  | cons row rest ih =>
    have hfetched :=
      fetch_client? config security masterKey (env row.1) (requestId row.1) row.1 row.2 w other
    rw [refreshKeys]
    simp only
    split
    · exact hfetched
    · exact (ih _).trans hfetched

theorem refreshOnce_client? (config : AppConfig) (security : Security) (masterKey : Bytes)
    (now : Instant) (env : Nat → FetchEnv) (requestId : Nat → String) (cleanupAt : Instant)
    (w : World) (other : Nat) :
    (refreshOnce config security masterKey now env requestId cleanupAt w).1.client? other =
      w.client? other := by
  have hcleanup : ∀ v :
      World, (cleanupOldSnapshots config cleanupAt v).client? other = v.client? other := by
    intro v
    rw [cleanupOldSnapshots]
    split
    · rfl
    split <;> rfl
  rw [refreshOnce]
  split
  · rfl
  · exact (hcleanup _).trans
      (refreshKeys_client? config security masterKey now env requestId _ w other)

theorem keyUse_credentialsKept (keyUse : KeyUse) (w : World) :
    CredentialsKept w (keyUse.perform fwd w).1 := by
  cases keyUse with
  | forward turns req => exact forward_credentialsKept turns req w
  | testKey env requestId id mode testUrl =>
    simp only [KeyUse.perform]
    split
    · exact .refl w
    · exact .of_clients (testKey_client? env requestId id w mode testUrl _)
  | refreshKeyCredits now env requestId id =>
    simp only [KeyUse.perform]
    split
    · exact .refl w
    · exact .of_clients (refreshKeyCredits_client? fwd.config fwd.security _ now env requestId id w)
  | refreshAllCredits keyIds force now env requestId =>
    simp only [KeyUse.perform]
    split
    · exact .refl w
    · exact .of_clients (refreshAllKeys_client? fwd.config fwd.security _ force now env requestId
        _ w)
  | refreshOnce now env requestId cleanupAt =>
    simp only [KeyUse.perform]
    split
    · exact .refl w
    · exact .of_clients (refreshOnce_client? fwd.config fwd.security _ now env requestId cleanupAt
        w)

end Uses

/-! ### Operations on keys -/

section Keys

variable {fwd : Forwarder} {enforced : Bool} {w : World}

/-- The operation is none on clients. -/
def AdminOperation.onKeys : AdminOperation → Bool
  | createClient .. | updateClient .. | deleteClient .. => false
  | purgeClient .. | rotateClientToken .. | batchClients .. => false
  | _ => true

theorem batchLoop_client? (req : BatchKeysRequest) (ids : List Nat) (w : World) (other : Nat) :
    (batchLoop req ids w).2.client? other = w.client? other := by
  induction ids generalizing w with
  | nil => rfl
  | cons id rest ih =>
    rw [batchLoop]
    split
    · exact ih w
    · exact ih _

theorem batchTests_client? (env : Nat → TestEnv) (requestId mode : String) (testUrl : PyStr)
    (results : List (Nat × Except FcamError ApiKey)) (w : World) (other : Nat) :
    (batchTests fwd env requestId mode testUrl results w).2.client? other = w.client? other := by
  induction results generalizing w with
  | nil => rfl
  | cons result rest ih =>
    obtain ⟨id, updated⟩ := result
    cases updated with
    | error error =>
      rw [batchTests]
      exact ih w
    | ok row =>
      rw [batchTests]
      split
      · exact ih w
      · exact (ih _).trans (testKey_client? _ requestId id w mode testUrl _ other)

theorem importItems_client? (security : Security) (today : Day) (masterKey : Bytes)
    (clientId : Option Nat) (req : ImportRequest) (nonces : Nat → Bytes × Bytes)
    (items : List ParsedKeyLine) (result : ImportResult) (w : World) (other : Nat) :
    (importItems security today masterKey clientId req nonces items result w).2.client? other =
      w.client? other := by
  induction items generalizing result w with
  | nil => rfl
  | cons item rest ih =>
    rw [importItems]
    refine (ih _ _).trans ?_
    simp only
    split
    · rfl
    split
    · rfl
    split <;> rfl

theorem onKeys_credentialsKept {op : AdminOperation} (hkeys : op.onKeys = true) (w : World) :
    CredentialsKept w (op.perform fwd enforced w) := by
  apply CredentialsKept.of_clients
  intro other
  cases op with
  | createKey today nonce req =>
    simp only [AdminOperation.perform, createKey]
    split
    · rfl
    · rfl
    split <;> rfl
  | importKeys today nonces savepoint items failures req =>
    simp only [AdminOperation.perform, importKeys]
    split
    · rfl
    · rfl
    split
    · rfl
    · exact importItems_client? fwd.security today _ _ req nonces items _ w other
  | updateKey nonce id req =>
    simp only [AdminOperation.perform, updateKey]
    split
    · rfl
    · rfl
    split
    · rfl
    · rfl
    split <;> rfl
  | deleteKey id =>
    simp only [AdminOperation.perform, deleteKey]
    split <;> rfl
  | purgeKey id =>
    simp only [AdminOperation.perform, purgeKey]
    split
    · rfl
    split <;> rfl
  | batchKeys env requestId req =>
    simp only [AdminOperation.perform, batchKeys]
    split
    · exact batchLoop_client? req req.ids w other
    split
    · rfl
    split
    · rfl
    · exact (batchTests_client? env requestId _ _ _ _ other).trans
        (batchLoop_client? req req.ids w other)
  | resetKeysQuota today => rfl
  | testKey env requestId mode testUrl id =>
    rw [AdminOperation.perform]
    cases w.key? id with
    | none => rfl
    | some key => exact testKey_client? env requestId id w mode testUrl key other
  | refreshKey now env requestId id =>
    rw [AdminOperation.perform]
    cases fwd.masterKey with
    | none => rfl
    | some masterKey =>
      exact refreshKeyCredits_client? fwd.config fwd.security masterKey now env requestId id w other
  | refreshAll keyIds force now env requestId =>
    rw [AdminOperation.perform]
    cases fwd.masterKey with
    | none => rfl
    | some masterKey =>
      exact refreshAllKeys_client? fwd.config fwd.security masterKey force now env requestId _ w
        other
  | createClient today token req => cases hkeys
  | updateClient id req => cases hkeys
  | deleteClient id => cases hkeys
  | purgeClient id => cases hkeys
  | rotateClientToken token id => cases hkeys
  | batchClients clientIds action => cases hkeys

end Keys

/-! ### The rows and the registry -/

section Registry

variable {security : Security} {masterKey : Bytes} {w v : World} {registry registry' : Registry}

/-- A row and what is known of its client. -/
def SameCredential (security : Security) (masterKey : Bytes) (client : Client)
    (known : Credential) : Prop :=
  client.tokenHash = security.hmacSha256Hex masterKey known.token ∧ client.isActive = known.active

/-- The registry tells what the rows say, and no two rows have one hash. -/
structure Tracks (security : Security) (masterKey : Bytes) (w : World)
    (registry : Registry) : Prop where
  rows : ∀ id, Option.Rel (SameCredential security masterKey) (w.client? id) (registry id)
  distinct : DistinctBy Client.tokenHash w.client?

namespace Tracks

theorem narrowed (h : Tracks security masterKey w registry)
    (hrows : ∀ id, Option.Rel (SameCredential security masterKey) (v.client? id) (registry' id))
    (hbefore : ∀ id row, v.client? id = some row → ∃ client, w.client? id = some client ∧
      row.tokenHash = client.tokenHash) :
    Tracks security masterKey v registry' := ⟨hrows, h.distinct.narrowed hbefore⟩

theorem kept (h : Tracks security masterKey w registry) (hkept : CredentialsKept w v) :
    Tracks security masterKey v registry := by
  apply h.narrowed
  · intro id
    have hid := hkept id
    have hrow := h.rows id
    revert hid hrow
    generalize w.client? id = before
    generalize v.client? id = after
    intro hid hrow
    cases hid with
    | none => exact hrow
    | some hsame =>
      obtain ⟨known, hknown, hhash, hactive⟩ := hrow.exists_of_eq_some rfl
      rw [hknown]
      exact .some ⟨(congrArg Prod.fst hsame).trans hhash, (congrArg Prod.snd hsame).trans hactive⟩
  · intro id row hrow
    obtain ⟨client, hclient, hsame⟩ := (hkept id).exists_of_some_right hrow
    exact ⟨client, hclient, congrArg Prod.fst hsame⟩

/-- A row of a client is changed, and what is known of the client with it. -/
theorem modified (h : Tracks security masterKey w registry) (id : Nat) {f : Client → Client}
    {g : Credential → Credential}
    (hsame : ∀ client known, SameCredential security masterKey client known →
      SameCredential security masterKey (f client) (g known))
    (hhash : ∀ client, (f client).tokenHash = client.tokenHash) :
    Tracks security masterKey (w.modifyClient id f) (registry.modify id g) := by
  apply h.narrowed
  · intro other
    have hrow := h.rows other
    rw [client?_modifyClient, Registry.modify, Function.update_apply]
    split
    · next heq => exact heq ▸ hrow.map_both hsame
    · exact hrow
  · intro other row hrow
    rw [client?_modifyClient] at hrow
    split at hrow
    · obtain ⟨client, hclient, rfl⟩ := Option.map_eq_some_iff.mp hrow
      exact ⟨client, hclient, hhash client⟩
    · exact ⟨row, hrow, rfl⟩

/-- A row is written under an id, with a hash no other row has. -/
theorem written (h : Tracks security masterKey w registry) {id : Nat} {client : Client}
    {known : Credential} (hsame : SameCredential security masterKey client known)
    (hclient : v.client? id = some client)
    (hothers : ∀ other, other ≠ id → v.client? other = w.client? other)
    (hfresh : ∀ other row, other ≠ id → w.client? other = some row →
      row.tokenHash ≠ client.tokenHash) :
    Tracks security masterKey v (Function.update registry id (some known)) := by
  constructor
  · intro other
    rw [Function.update_apply]
    split
    · next heq =>
      rw [heq, hclient]
      exact .some hsame
    · next hne =>
      rw [hothers other hne]
      exact h.rows other
  · exact h.distinct.written hclient hothers hfresh

theorem inserted (h : Tracks security masterKey w registry) {client : Client} {known : Credential}
    (hsame : SameCredential security masterKey client known)
    (hfresh : ∀ id row, w.client? id = some row → row.tokenHash ≠ client.tokenHash) :
    Tracks security masterKey { w with db := { w.db with clients := w.db.clients.insert client } }
      (Function.update registry w.db.clients.nextId (some known)) := by
  have hself : ({ w with db := { w.db with clients := w.db.clients.insert client } } :
    World).client? w.db.clients.nextId =
      some client := Table.get?_insert_self w.db.clients client
  apply h.written hsame hself
  · intro other hne
    exact (Table.get?_insert w.db.clients client other).trans (if_neg hne)
  · exact fun other row _ hrow => hfresh other row hrow

theorem removed (h : Tracks security masterKey w registry) {id : Nat}
    (hclients : v.db.clients = w.db.clients.deleteWhere fun row _ => row == id) :
    Tracks security masterKey v (Function.update registry id none) := by
  have hothers : ∀ other, other ≠ id → v.client? other = w.client? other := by
    intro other hne
    rw [World.client?, hclients]
    exact Table.get?_delete_of_ne w.db.clients hne
  have hself : v.client? id = none := by
    rw [World.client?, hclients, Table.get?_deleteWhere]
    simp
  apply h.narrowed
  · intro other
    rw [Function.update_apply]
    split
    · next heq =>
      rw [heq, hself]
      exact .none
    · next hne =>
      rw [hothers other hne]
      exact h.rows other
  · intro other row hrow
    by_cases heq : other = id
    · rw [heq, hself] at hrow
      cases hrow
    · exact ⟨row, hothers other heq ▸ hrow, rfl⟩

end Tracks

end Registry

/-! ### Operations on clients -/

section Clients

variable {fwd : Forwarder} {enforced : Bool} {masterKey : Bytes} {w : World} {registry : Registry}

theorem updateClientRow_credential (req : UpdateClientRequest) (client : Client) :
    (updateClientRow req client).tokenHash = client.tokenHash ∧
      (updateClientRow req client).isActive =
        (req.isActive.map fun isActive => isActive.getD false).getD client.isActive := by
  rw [updateClientRow]
  cases req.isActive with
  | none => exact ⟨rfl, rfl⟩
  | some isActive => exact ⟨rfl, rfl⟩

theorem onClients_tracks (hmaster : fwd.masterKey = some masterKey) {op : AdminOperation}
    (hclients : op.onKeys = false) (h : Tracks fwd.security masterKey w registry) :
    Tracks fwd.security masterKey (op.perform fwd enforced w)
      (op.record fwd.security fwd.masterKey enforced w registry) := by
  cases op with
  | createClient today token req =>
    simp only [AdminOperation.perform, AdminOperation.record, createClient, hmaster]
    split
    · exact h
    next hunique =>
    apply h.inserted ⟨rfl, rfl⟩
    intro other row hrow hhash
    apply hunique
    rw [List.any_eq_true]
    refine ⟨(other, row), Table.get?_eq_some_iff.mp hrow, ?_⟩
    rw [Bool.or_eq_true]
    exact .inr (beq_iff_eq.mpr hhash)
  | updateClient id req =>
    simp only [AdminOperation.perform, AdminOperation.record, updateClient]
    split
    · exact h
    split
    · exact h
    split
    · exact h
    simp only
    cases hactive : req.isActive with
    | none =>
      apply h.kept
      intro other
      rw [client?_modifyClient]
      split
      · apply Option.Rel.map
        intro client
        have hcredential := updateClientRow_credential req client
        rw [hactive] at hcredential
        exact Prod.ext hcredential.1 hcredential.2
      · exact .of_eq _ fun _ => rfl
    | some isActive =>
      apply h.modified id
      · rintro client known ⟨hhash, _⟩
        have hcredential := updateClientRow_credential req client
        rw [hactive] at hcredential
        exact ⟨hcredential.1.trans hhash, hcredential.2⟩
      · exact fun client => (updateClientRow_credential req client).1
  | deleteClient id =>
    simp only [AdminOperation.perform, AdminOperation.record, deleteClient]
    split
    · apply h.modified id
      · exact fun client known hsame => ⟨hsame.1, rfl⟩
      · exact fun _ => rfl
    · exact h
  | purgeClient id =>
    simp only [AdminOperation.perform, AdminOperation.record, World.purgeClient]
    split
    · exact h
    split
    · exact h
    exact h.removed rfl
  | rotateClientToken token id =>
    simp only [AdminOperation.perform, AdminOperation.record, rotateClientToken, hmaster]
    cases hclient : w.db.clients.get? id with
    | none => exact h
    | some client =>
    simp only
    split
    · exact h
    next hunique =>
    obtain ⟨known, hknown, _, hactive⟩ := (h.rows id).exists_of_eq_some hclient
    simp only [Registry.modify, hknown, Option.map_some]
    have hself : (w.modifyClient id fun client =>
        { client with tokenHash := fwd.security.hmacSha256Hex masterKey token }).client? id =
          some { client with tokenHash := fwd.security.hmacSha256Hex masterKey token } := by
      rw [client?_modifyClient, if_pos rfl, World.client?, hclient]
      rfl
    have hsame : SameCredential fwd.security masterKey
        { client with tokenHash := fwd.security.hmacSha256Hex masterKey token }
          { known with token } := ⟨rfl, hactive⟩
    apply h.written hsame hself
    · intro other hne
      rw [client?_modifyClient, if_neg hne]
    · intro other row hne hrow hhash
      apply hunique
      rw [List.any_eq_true]
      refine ⟨(other, row), Table.get?_eq_some_iff.mp hrow, ?_⟩
      rw [Bool.and_eq_true]
      exact ⟨bne_iff_ne.mpr hne, beq_iff_eq.mpr hhash⟩
  | batchClients clientIds action =>
    simp only [AdminOperation.perform, AdminOperation.record, batchUpdateClients]
    have hget :
        ∀ id, World.client?
          (List.foldl (fun w id => w.modifyClient id (applyBatchActionToClient action)) w
           ((deduplicateClientIds clientIds).filter fun id => (w.db.clients.get? id).isSome)) id =
          if id ∈ clientIds then (w.client? id).map (applyBatchActionToClient action)
          else w.client? id := by
      intro id
      rw [World.client?,
        get?_foldl_modifyClient _ id ((nodup_deduplicateClientIds clientIds).filter _),
        World.client?]
      simp only [List.mem_filter, mem_deduplicateClientIds]
      cases w.db.clients.get? id <;> simp
    have hrow : ∀ client, (applyBatchActionToClient action client).tokenHash = client.tokenHash ∧
        (applyBatchActionToClient action client).isActive = (action == .enable) := by
      intro client
      cases action <;> exact ⟨rfl, rfl⟩
    apply h.narrowed
    · intro id
      have hid := h.rows id
      rw [hget]
      split
      · exact hid.map_both fun client known hsame =>
          ⟨(hrow client).1.trans hsame.1, (hrow client).2⟩
      · exact hid
    · intro id row hafter
      rw [hget] at hafter
      split at hafter
      · obtain ⟨client, hclient, rfl⟩ := Option.map_eq_some_iff.mp hafter
        exact ⟨client, hclient, (hrow client).1⟩
      · exact ⟨row, hafter, rfl⟩
  | _ => cases hclients

end Clients

/-! ### Answers -/

section Answers

variable {security : Security} {masterKey : Bytes} {w : World} {registry : Registry}

theorem Tracks.knows_iff (h : Tracks security masterKey w registry) {id : Nat} {token : String}
    {active : Bool} :
    registry.Knows security masterKey id token active ↔
      ∃ client, w.client? id = some client ∧
        client.tokenHash = security.hmacSha256Hex masterKey token ∧
        client.isActive = active := by
  constructor
  · rintro ⟨known, hknown, hhash, rfl⟩
    obtain ⟨client, hclient, hsame⟩ := (h.rows id).exists_of_some_right hknown
    exact ⟨client, hclient, hsame.1.trans hhash, hsame.2⟩
  · rintro ⟨client, hclient, hhash, rfl⟩
    obtain ⟨known, hknown, hsame⟩ := (h.rows id).exists_of_eq_some hclient
    exact ⟨known, hknown, hsame.1.symm.trans hhash, hsame.2.symm⟩

/-- A hash names one client or none. -/
theorem Tracks.select_hash (h : Tracks security masterKey w registry) (hash : String) :
    (w.db.clients.select (fun client => client.tokenHash == hash) = [] ∧
        ∀ id client, w.client? id = some client → client.tokenHash ≠ hash) ∨
      ∃ id client, w.db.clients.select (fun client => client.tokenHash == hash) = [(id, client)] ∧
        w.client? id = some client ∧ client.tokenHash = hash := by
  have hmem : ∀ row ∈ w.db.clients.select (fun client => client.tokenHash == hash),
      w.client? row.1 = some row.2 ∧ row.2.tokenHash = hash := by
    intro row hrow
    obtain ⟨hget, hhash⟩ := Table.mem_select.mp hrow
    exact ⟨hget, beq_iff_eq.mp hhash⟩
  have hsorted := Table.pairwise_select w.db.clients fun client => client.tokenHash == hash
  cases hselect : w.db.clients.select (fun client => client.tokenHash == hash) with
  | nil =>
    refine .inl ⟨rfl, fun id client hclient hhash => ?_⟩
    have hfound : (id, client) ∈ w.db.clients.select (fun client => client.tokenHash == hash) :=
      Table.mem_select.mpr ⟨hclient, beq_iff_eq.mpr hhash⟩
    rw [hselect] at hfound
    cases hfound
  | cons row rest =>
    rw [hselect] at hmem hsorted
    obtain ⟨hrow, hhash⟩ := hmem row List.mem_cons_self
    cases rest with
    | nil => exact .inr ⟨row.1, row.2, rfl, hrow, hhash⟩
    | cons next rest =>
      obtain ⟨hnext, hhash'⟩ := hmem next (List.mem_cons_of_mem _ List.mem_cons_self)
      have hsame : row.1 = next.1 :=
        h.distinct row.1 next.1 row.2 next.2 hrow hnext (hhash.trans hhash'.symm)
      have hlt := (List.pairwise_cons.mp hsorted).1 next List.mem_cons_self
      omega

/-- What the registry says about a request that bears a token. -/
structure Answers (security : Security) (masterKey : Bytes) (w : World) (registry : Registry)
    (token : String) (answer : Except FcamError (Nat × Client)) : Prop where
  admitted : ∀ id client, answer = .ok (id, client) ↔
    w.client? id = some client ∧ registry.Knows security masterKey id token true
  disabled : (∃ error, answer = .error error ∧ error.statusCode = 403 ∧
    error.code = .clientDisabled) ↔ ∃ id, registry.Knows security masterKey id token false
  unknown : (∃ error, answer = .error error ∧ error.statusCode = 401 ∧
    error.code = .clientUnauthorized) ↔
      ¬∃ id active, registry.Knows security masterKey id token active

theorem Tracks.answers (h : Tracks security masterKey w registry) {authorization : Option String}
    {token : String} (hbearer : bearerToken authorization = some token) :
    Answers security masterKey w registry token
      (requireClient security (some masterKey) authorization w) := by
  obtain ⟨hselect, hnone⟩ | ⟨id, client, hselect, hclient, hhash⟩ :=
    h.select_hash (security.hmacSha256Hex masterKey token)
  · have hunknown : ¬∃ id active, registry.Knows security masterKey id token active := by
      rintro ⟨id, active, hknows⟩
      obtain ⟨client, hclient, hhash, _⟩ := h.knows_iff.mp hknows
      exact hnone id client hclient hhash
    simp only [requireClient, hbearer, hselect]
    constructor
    · intro id client
      refine iff_of_false (fun heq => by cases heq) fun hknows => hunknown ⟨id, true, hknows.2⟩
    · refine iff_of_false ?_ fun hknows => hunknown ⟨_, false, hknows.choose_spec⟩
      rintro ⟨error, heq, hstatus, _⟩
      cases heq
      cases hstatus
    · exact iff_of_true ⟨_, rfl, rfl, rfl⟩ hunknown
  · have honly : ∀ other active, registry.Knows security masterKey other token active ↔
        other = id ∧ client.isActive = active := by
      intro other active
      rw [h.knows_iff]
      constructor
      · rintro ⟨row, hrow, hsame, hactive⟩
        obtain rfl := h.distinct other id row client hrow hclient (hsame.trans hhash.symm)
        obtain rfl := Option.some.inj (hrow.symm.trans hclient)
        exact ⟨rfl, hactive⟩
      · rintro ⟨rfl, hactive⟩
        exact ⟨client, hclient, hhash, hactive⟩
    simp only [requireClient, hbearer, hselect]
    cases hactive : client.isActive with
    | true =>
      rw [if_pos rfl]
      constructor
      · intro other row
        rw [honly, Except.ok.injEq, Prod.mk.injEq]
        constructor
        · rintro ⟨rfl, rfl⟩
          exact ⟨hclient, rfl, hactive⟩
        · rintro ⟨hrow, rfl, _⟩
          exact ⟨rfl, Option.some.inj (hclient.symm.trans hrow)⟩
      · refine iff_of_false ?_ ?_
        · rintro ⟨error, heq, _⟩
          cases heq
        · rintro ⟨other, hknows⟩
          rw [honly, hactive] at hknows
          cases hknows.2
      · refine iff_of_false ?_ fun hnot => hnot ⟨id, true, (honly id true).mpr ⟨rfl, hactive⟩⟩
        rintro ⟨error, heq, _⟩
        cases heq
    | false =>
      rw [if_neg Bool.false_ne_true]
      constructor
      · intro other row
        refine iff_of_false (fun heq => by cases heq) ?_
        rintro ⟨_, hknows⟩
        rw [honly, hactive] at hknows
        cases hknows.2
      · exact iff_of_true ⟨_, rfl, rfl, rfl⟩ ⟨id, (honly id false).mpr ⟨rfl, hactive⟩⟩
      · refine iff_of_false ?_ fun hnot => hnot ⟨id, false, (honly id false).mpr ⟨rfl, hactive⟩⟩
        rintro ⟨error, heq, hstatus, _⟩
        cases heq
        cases hstatus

end Answers

/-! ### Runs -/

theorem registryNext_tracks {fwd : Forwarder} {enforced : Bool} {masterKey : Bytes}
    (hmaster : fwd.masterKey = some masterKey) {s s' : World × Registry} {action : CustodyAction}
    (h : Tracks fwd.security masterKey s.1 s.2)
    (hnext : registryNext fwd enforced s action = some s') :
    Tracks fwd.security masterKey s'.1 s'.2 := by
  obtain rfl := Option.some.inj hnext
  cases action with
  | use keyUse => exact h.kept (keyUse_credentialsKept keyUse s.1)
  | select env clientId provider => exact h.kept (select_credentialsKept env s.1 clientId provider)
  | admin op =>
    cases hkeys : op.onKeys with
    | false => exact onClients_tracks hmaster hkeys h
    | true =>
      have hsame : op.record fwd.security fwd.masterKey enforced s.1 s.2 = s.2 := by
        cases op <;> first | rfl | cases hkeys
      have hkept : Tracks fwd.security masterKey (op.perform fwd enforced s.1) s.2 :=
        h.kept (onKeys_credentialsKept hkeys s.1)
      rw [← hsame] at hkept
      exact hkept

/-- In every state a run reaches from the empty database the gateway answers every token as the
registry of the tokens that were handed out says: whose it is, whether the client is enabled, and
nothing else. -/
theorem answers_as_registry {fwd : Forwarder} {enforced : Bool} {masterKey : Bytes}
    (hmaster : fwd.masterKey = some masterKey) {trace : List CustodyAction}
    {last : World × Registry}
    (hexec : exec (registryNext fwd enforced) ({}, fun _ => none) trace = some last)
    {authorization : Option String} {token : String}
    (hbearer : bearerToken authorization = some token) :
    Answers fwd.security masterKey last.1 last.2 token
      (requireClient fwd.security fwd.masterKey authorization last.1) := by
  have hstart : Tracks fwd.security masterKey {} fun _ => none :=
    ⟨fun _ => .none, fun id other client row hclient => by cases hclient⟩
  have htracks :=
    exec_invariant (fun s action s' h hnext => registryNext_tracks hmaster h hnext) hexec hstart
  rw [hmaster]
  exact htracks.answers hbearer

/-- After a new token no client is known by the old one, and the new one is let in. -/
theorem rotated_token_unknown :
    let trace : List CustodyAction :=
      [.admin (.createClient 0 "old" { name := "a" }),
        .admin (.createClient 0 "other" { name := "b" }), .admin (.rotateClientToken "new" 1)]
    ∃ last, exec (registryNext defaultForwarder true) ({}, fun _ => none) trace = some last ∧
      (¬∃ id active, last.2.Knows .plain [] id "old" active) ∧
      ∃ client, requireClient .plain (some []) (some "Bearer new") last.1 = .ok (1, client) := by
  intro trace
  have hexec : exec (registryNext defaultForwarder true) ({}, fun _ => none) trace = some _ := rfl
  have hold : bearerToken (some "Bearer old") = some "old" := by decide
  have hnew : bearerToken (some "Bearer new") = some "new" := by decide
  refine ⟨_, hexec, (answers_as_registry rfl hexec hold).unknown.mp ⟨_, rfl, rfl, rfl⟩,
    { name := "a", tokenHash := "new", quotaResetAt := some 0, rateLimitPerMin := 60,
      maxConcurrent := 10 }, ?_⟩
  exact ((answers_as_registry rfl hexec hnew).admitted 1 _).mpr ⟨rfl, _, rfl, rfl, rfl⟩

end Fcam
