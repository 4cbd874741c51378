import Fcam.Base.Unique
import Fcam.Model.KeyCustody
import Fcam.Proof.Isolation
import Fcam.Proof.Passes
import Fcam.Proof.RowInvariant

/-!
# Secrets are kept, and sent, as they were given

A row of `api_keys` has three columns made of its secret: the ciphertext, the hash and the last
characters. Only the creation of a key, an import and a rotation write them (`SecretsKept` is what
everything else does to them), and these write all three of one secret, under a hash no other row
has. So in every state an administrator's operations and the uses of keys can reach, the columns of
a row agree, no two keys have the same secret, and what is sent with a key is the secret last given
for it.
-/

namespace Fcam

/-! ### The columns of a secret -/

def ApiKey.sealedColumns (key : ApiKey) : Bytes × String × String :=
  (key.apiKeyCiphertext, key.apiKeyHash, key.apiKeyLast4)

/-- No key is made or lost, and none gets another secret. -/
def SecretsKept (w v : World) : Prop :=
  ∀ id, Option.Rel (fun before after : ApiKey => after.sealedColumns = before.sealedColumns)
    (w.key? id) (v.key? id)

namespace SecretsKept

variable {w v u : World}

theorem of_keys (hkeys : ∀ id, v.key? id = w.key? id) : SecretsKept w v := by
  intro id
  rw [hkeys id]
  exact .of_eq _ fun _ => rfl

theorem refl (w : World) : SecretsKept w w := of_keys fun _ => rfl

theorem trans (h : SecretsKept w v) (h' : SecretsKept v u) : SecretsKept w u := by
  intro id
  apply (h id).comp (h' id)
  intro before mid after hfirst hsecond
  exact hsecond.trans hfirst

theorem secret?_eq (h : SecretsKept w v) (security : Security) (masterKey : Bytes) (id : Nat) :
    v.secret? security masterKey id = w.secret? security masterKey id := by
  have hid := h id
  rw [World.secret?, World.secret?]
  cases hw : w.key? id with
  | none =>
    rw [hw] at hid
    cases hv : v.key? id with
    | none => rfl
    | some after =>
      rw [hv] at hid
      cases hid
  | some before =>
    obtain ⟨after, hv, hsame⟩ := hid.exists_of_eq_some hw
    have hcipher : after.apiKeyCiphertext = before.apiKeyCiphertext := congrArg Prod.fst hsame
    rw [hv, Option.bind_some, Option.bind_some, hcipher]

end SecretsKept

theorem RowUpdated.secretsKept {w v : World} {id : Nat} {f : ApiKey → ApiKey}
    (h : RowUpdated w v id f) (hf : ∀ key, (f key).sealedColumns = key.sealedColumns) :
    SecretsKept w v := by
  intro other
  rw [h other]
  split
  · exact Option.Rel.map _ _ hf
  · exact .of_eq _ fun _ => rfl

theorem sealedColumns_of_outcome {key row : ApiKey} (hframe : row = withOutcome key row) :
    row.sealedColumns = key.sealedColumns := by
  rw [hframe]
  rfl

theorem testRow_frame (config : AppConfig) (outcome : Outcome) (now : Instant) (reached : Bool)
    (key : ApiKey) :
    testRow config outcome now reached key =
      withOutcome key (testRow config outcome now reached key) := by
  cases outcome with
  | timeout => exact failureRow_frame config now reached key
  | httpError text => exact failureRow_frame config now reached key
  | exception text => rfl
  | unsent text => rfl
  | response r =>
    simp only [testRow]
    split
    · exact markActive_frame key
    split
    · exact markCooling_frame _ _ _
    split
    · rfl
    split
    · exact failureRow_frame config now reached key
    · rfl

/-! ### Uses of keys -/

section Uses

variable {fwd : Forwarder} {masterKey : Bytes} {w : World}

/-- What a use of keys does to secrets and with them. -/
structure Served (security : Security) (masterKey : Bytes) (w v : World)
    (exchanges : List Exchange) : Prop where
  kept : SecretsKept w v
  sent : ∀ e ∈ exchanges, w.secret? security masterKey e.keyId = some e.secret

theorem Served.nothing (security : Security) (masterKey : Bytes) (w : World) :
    Served security masterKey w w [] :=
  ⟨.refl w, List.forall_mem_nil _⟩

theorem select_secretsKept (env : PoolEnv) (w : World) (clientId : Option Nat)
    (provider : Provider) :
    SecretsKept w (select env w clientId provider).world := by
  intro id
  apply (select_scheduling env w clientId provider id).imp
  intro key row hrow
  rw [hrow]
  rfl

/-- What a forward has done so far. -/
def ServedSoFar (fwd : Forwarder) (masterKey : Bytes) (w v : World) (events : List Event) : Prop :=
  SecretsKept w v ∧ EachExchange (fun e => w.secret? fwd.security masterKey e.keyId = some e.secret)
    events

def Progress.Serves (fwd : Forwarder) (masterKey : Bytes) (w : World) (p : Progress) : Prop :=
  ServedSoFar fwd masterKey w p.world p.events

def Forwarded.Serves (fwd : Forwarder) (masterKey : Bytes) (w : World)
    (forwarded : Forwarded) : Prop :=
  ServedSoFar fwd masterKey w forwarded.world forwarded.events

theorem Tried.served {baseUrl : String} {req : ForwardRequest} {turn : Turn} {id : Nat}
    {key : ApiKey} {p : Progress} {pass : Pass Progress Forwarded}
    (h : Tried fwd masterKey baseUrl req turn id key p pass) (hkey : p.world.key? id = some key)
    (hserved : p.Serves fwd masterKey w) :
    pass.Satisfies (Progress.Serves fwd masterKey w) (Forwarded.Serves fwd masterKey w) := by
  obtain ⟨hkept, hsent⟩ := hserved
  have hquiet : ∀ more : List Event, (∀ event ∈ more, event.quiet = true) →
      ServedSoFar fwd masterKey w p.world (p.events ++ more) :=
    fun more hmore => ⟨hkept, hsent.append (eachExchange_of_quiet hmore)⟩
  have hundecrypted : (p.undecrypted id).Serves fwd masterKey w :=
    ⟨hkept.trans ((rowUpdated_modifyKey p.world id disableKeyDecryptFailed).secretsKept fun _ =>
     rfl),
      hsent.append (eachExchange_of_quiet (by simp [Event.quiet]))⟩
  have hcalled : ∀ plaintextKey, fwd.decrypt masterKey key = some plaintextKey →
      (p.called fwd baseUrl req turn id plaintextKey).Serves fwd masterKey w := by
    intro plaintextKey hsecret
    have hsettled :=
      settle_row fwd.config req.method req.upstreamPath turn.outcome turn.settledAt req.clientId id
        p.world
    refine ⟨hkept.trans (hsettled.secretsKept fun key =>
      sealedColumns_of_outcome (settleRow_frame _ _ _ _ _ _ key)), ?_⟩
    have hleased : EachExchange (fun e => w.secret? fwd.security masterKey e.keyId = some e.secret)
        (p.events ++ [.tokenTaken id, .leased id]) :=
          hsent.append (eachExchange_of_quiet (by simp [Event.quiet]))
    refine hleased.append fun e hmem => ?_
    obtain hexchange | hreleased := List.mem_append.mp hmem
    · rw [mem_exchanges hexchange, ← hkept.secret?_eq fwd.security masterKey id, World.secret?,
        hkey]
      exact hsecret
    · cases List.mem_singleton.mp hreleased
  cases h with
  | refused more error hmore hnot htoken =>
    apply hquiet
    obtain rfl | rfl | rfl | rfl := hmore <;> simp [Event.quiet]
  | passedOver more retryCount hmore hnot htoken =>
    apply hquiet
    obtain rfl | rfl := hmore <;> simp [Event.quiet]
  | undecryptable error hsecret hadmits => exact hundecrypted
  | disabled retryCount hsecret hadmits => exact hundecrypted
  | failed plaintextKey text hadmits hsecret houtcome => exact hcalled plaintextKey hsecret
  | gaveUp plaintextKey retryCount error hadmits hsecret houtcome =>
    exact hcalled plaintextKey hsecret
  | again plaintextKey retryCount hadmits hsecret houtcome => exact hcalled plaintextKey hsecret
  | answered plaintextKey retryCount r hadmits hsecret houtcome =>
    exact hcalled plaintextKey hsecret

theorem pooledPass_served {baseUrl : String} {req : ForwardRequest} (turns : Nat → Turn) (i : Nat)
    {p : Progress} (hserved : p.Serves fwd masterKey w) :
    (pooledPass fwd masterKey baseUrl req turns i p).Satisfies (Progress.Serves fwd masterKey w)
      (Forwarded.Serves fwd masterKey w) := by
  have hselected : (p.selected req (turns i)).Serves fwd masterKey w := by
    refine ⟨hserved.1.trans (select_secretsKept _ _ _ _), hserved.2.append fun e hmem => ?_⟩
    cases List.mem_singleton.mp hmem
  have hcases := pooledPass_cases fwd masterKey baseUrl req turns i p
  generalize pooledPass fwd masterKey baseUrl req turns i p = pass at hcases ⊢
  cases hcases with
  | refused error raised hresult => exact hselected
  | tried id key hresult htried => exact htried.served (select_ok hresult).1 hselected

theorem pinnedPass_served {baseUrl : String} {req : ForwardRequest} (turns : Nat → Turn)
    (id i : Nat) {p : Progress} (hserved : p.Serves fwd masterKey w) :
    (pinnedPass fwd masterKey baseUrl req turns id i p).Satisfies (Progress.Serves fwd masterKey w)
      (Forwarded.Serves fwd masterKey w) := by
  have hcases := pinnedPass_cases fwd masterKey baseUrl req turns id i p
  generalize pinnedPass fwd masterKey baseUrl req turns id i p = pass at hcases ⊢
  cases hcases with
  | deleted text hkey => exact hserved
  | tried key hkey htried => exact htried.served hkey hserved

theorem forward_served (hmaster : fwd.masterKey = some masterKey) (turns : Nat → Turn)
    (req : ForwardRequest) (w : World) :
    Served fwd.security masterKey w (forward fwd turns req w).world
      (forward fwd turns req w).exchanges := by
  have hstart : ({ world := w } : Progress).Serves fwd masterKey w :=
    ⟨.refl w, eachExchange_of_quiet (List.forall_mem_nil _)⟩
  have hforward : (forward fwd turns req w).Serves fwd masterKey w := by
    refine forward_passes (fun _ => hstart) ?_ ?_
    · intro mk baseUrl hmk _ id _ _ _
      obtain rfl : mk = masterKey := Option.some.inj (hmk.symm.trans hmaster)
      exact forwardPinned_passes fwd mk baseUrl req turns id
        (fun i _ _ h => pinnedPass_served turns id i h) _ hstart
    · intro mk baseUrl hmk _ _
      obtain rfl : mk = masterKey := Option.some.inj (hmk.symm.trans hmaster)
      exact forwardPooled_passes fwd mk baseUrl req turns
        (fun i _ _ h _ => pooledPass_served turns i h) (fun _ _ _ h => h) _ hstart
  refine ⟨hforward.1, fun e he => ?_⟩
  obtain ⟨event, hevent, hsome⟩ := List.mem_filterMap.mp he
  cases event with
  | exchanged exchange =>
    obtain rfl := Option.some.inj hsome
    exact hforward.2 exchange hevent
  | examined | rateLimited | tokenTaken | busy | leased | released => cases hsome

theorem testKeyWith_served {env : TestEnv} {requestId : String} {id : Nat} {provider : Provider}
    {candidates : List String} {body : Json} {key : ApiKey} (hkey : w.key? id = some key) :
    Served fwd.security masterKey w
      (testKeyWith fwd env requestId id w provider candidates body masterKey key).world
      (testKeyWith fwd env requestId id w provider candidates body masterKey key).exchanges := by
  rw [testKeyWith]
  simp only
  split
  · exact ⟨(rowUpdated_modifyKey w id disableKeyDecryptFailed).secretsKept fun _ => rfl,
      List.forall_mem_nil _⟩
  next plaintextKey hsecret =>
  split
  · exact .nothing _ _ w
  refine ⟨(settleTest_row _ _ _ id w).secretsKept fun key =>
    sealedColumns_of_outcome (testRow_frame _ _ _ _ key), ?_⟩
  intro e he
  simp only [List.mem_append, List.mem_map, Option.mem_toList] at he
  obtain ⟨probe, _, rfl⟩ | ⟨probe, _, rfl⟩ := he
  · rw [World.secret?, hkey]
    exact hsecret
  · rw [World.secret?, hkey]
    exact hsecret

theorem testKey_served (hmaster : fwd.masterKey = some masterKey) {env : TestEnv}
    {requestId : String} {id : Nat} {mode : String} {testUrl : PyStr} {key : ApiKey}
    (hkey : w.key? id = some key) :
    Served fwd.security masterKey w (testKey fwd env requestId id w mode testUrl key).world
      (testKey fwd env requestId id w mode testUrl key).exchanges := by
  rw [testKey]
  simp only [hmaster]
  split
  · exact .nothing _ _ w
  split
  · exact testKeyWith_served hkey
  · exact testKeyWith_served hkey

end Uses

/-! ### Credits -/

section Credits

variable {config : AppConfig} {security : Security} {masterKey : Bytes} {w v u : World}

theorem Served.append {exchanges more : List Exchange} (h : Served security masterKey w v exchanges)
    (h' : Served security masterKey v u more) :
    Served security masterKey w u (exchanges ++ more) := by
  refine ⟨h.kept.trans h'.kept, fun e he => ?_⟩
  obtain hfirst | hmore := List.mem_append.mp he
  · exact h.sent e hfirst
  · rw [← h.kept.secret?_eq security masterKey e.keyId]
    exact h'.sent e hmore

/-- The rows of a loop have the secrets of the table. -/
def HoldsSecrets (security : Security) (masterKey : Bytes) (w : World)
    (keys : List (Nat × ApiKey)) : Prop :=
  ∀ row ∈ keys,
    w.secret? security masterKey row.1 = security.decryptApiKey masterKey row.2.apiKeyCiphertext

theorem HoldsSecrets.tail {row : Nat × ApiKey} {rest : List (Nat × ApiKey)}
    (h : HoldsSecrets security masterKey w (row :: rest)) (hkept : SecretsKept w v) :
    HoldsSecrets security masterKey v rest := by
  intro other hother
  rw [hkept.secret?_eq security masterKey other.1]
  exact h other (List.mem_cons_of_mem _ hother)

theorem holdsSecrets_select (security : Security) (masterKey : Bytes) (w : World)
    (p : ApiKey → Bool) :
    HoldsSecrets security masterKey w (w.db.keys.select p) := by
  intro row hrow
  have hget : w.key? row.1 = some row.2 := (Table.mem_select.mp hrow).1
  rw [World.secret?, hget, Option.bind_some]

theorem fetch_served {env : FetchEnv} {requestId : String} {id : Nat} {key : ApiKey}
    (hsecret : w.secret? security masterKey id = security.decryptApiKey masterKey
      key.apiKeyCiphertext) :
    Served security masterKey w
    (fetchCreditFromFirecrawl config security masterKey env requestId id key w).world
      (fetchCreditFromFirecrawl config security masterKey env requestId id key w).exchanges := by
  constructor
  · apply (fetch_row config security masterKey env requestId id key w).secretsKept
    intro row
    split
    · rfl
    · exact sealedColumns_of_outcome (fetchRow_frame config env _ row)
  intro e he
  rw [fetchCreditFromFirecrawl] at he
  split at he
  · cases he
  next plaintextKey hplain =>
  simp only at he
  split at he
  · cases he
  obtain rfl := List.mem_singleton.mp he
  exact hsecret.trans hplain

theorem refreshKeyCredits_served (config : AppConfig) (security : Security) (masterKey : Bytes)
    (now : Instant) (env : FetchEnv) (requestId : String) (id : Nat) (w : World) :
    Served security masterKey w
      (refreshKeyCredits config security masterKey now env requestId id w).world
      (refreshKeyCredits config security masterKey now env requestId id w).exchanges := by
  rw [refreshKeyCredits]
  simp only
  split
  · exact .nothing _ _ w
  next key hkey =>
  split
  · exact .nothing _ _ w
  split
  · exact .nothing _ _ w
  · apply fetch_served
    rw [World.secret?, hkey, Option.bind_some]

theorem refreshAllKeys_served {force : Bool} {now : Instant} {env : Nat → FetchEnv}
    {requestId : Nat → String} {keys : List (Nat × ApiKey)}
    (hkeys : HoldsSecrets security masterKey w keys) :
    Served security masterKey w
      (refreshAllKeys config security masterKey force now env requestId keys w).1
      (refreshAllKeys config security masterKey force now env requestId keys w).2 := by
  induction keys generalizing w with
  | nil => exact .nothing _ _ w
  | cons row rest ih =>
    rw [refreshAllKeys]
    split
    · exact ih (hkeys.tail (.refl w))
    · have hfetched : Served security masterKey w
          (fetchCreditFromFirecrawl config security masterKey (env row.1) (requestId row.1) row.1
           row.2 w).world _ :=
        fetch_served (hkeys row List.mem_cons_self)
      exact hfetched.append (ih (hkeys.tail hfetched.kept))

theorem refreshAllCredits_served (config : AppConfig) (security : Security) (masterKey : Bytes)
    (keyIds : List Nat) (force : Bool) (now : Instant) (env : Nat → FetchEnv)
    (requestId : Nat → String) (w : World) :
    Served security masterKey w
      (refreshAllCredits config security masterKey keyIds force now env requestId w).1
      (refreshAllCredits config security masterKey keyIds force now env requestId w).2 := by
  rw [refreshAllCredits]
  apply refreshAllKeys_served
  intro row hrow
  exact holdsSecrets_select security masterKey w refreshAllScope row (List.mem_of_mem_filter hrow)

theorem refreshKeys_served {now : Instant} {env : Nat → FetchEnv} {requestId : Nat → String}
    {keys : List (Nat × ApiKey)} (hkeys : HoldsSecrets security masterKey w keys) :
    Served security masterKey w (refreshKeys config security masterKey now env requestId keys w).1
      (refreshKeys config security masterKey now env requestId keys w).2 := by
  induction keys generalizing w with
  | nil => exact .nothing _ _ w
  | cons row rest ih =>
    have hfetched : Served security masterKey w
        (fetchCreditFromFirecrawl config security masterKey (env row.1) (requestId row.1) row.1
         row.2 w).world _ :=
      fetch_served (hkeys row List.mem_cons_self)
    rw [refreshKeys]
    simp only
    split
    · exact hfetched
    next nextRefreshAt _ =>
    apply hfetched.append
    have hscheduled := (rowUpdated_modifyKey
      (fetchCreditFromFirecrawl config security masterKey (env row.1) (requestId row.1) row.1 row.2
       w).world row.1
      (scheduleRefresh nextRefreshAt)).secretsKept fun _ => rfl
    have hrest := ih (hkeys.tail (hfetched.kept.trans hscheduled))
    refine ⟨hscheduled.trans hrest.kept, fun e he => ?_⟩
    rw [← hscheduled.secret?_eq security masterKey e.keyId]
    exact hrest.sent e he

theorem refreshOnce_served (config : AppConfig) (security : Security) (masterKey : Bytes)
    (now : Instant) (env : Nat → FetchEnv) (requestId : Nat → String) (cleanupAt : Instant)
    (w : World) :
    Served security masterKey w
      (refreshOnce config security masterKey now env requestId cleanupAt w).1
      (refreshOnce config security masterKey now env requestId cleanupAt w).2 := by
  rw [refreshOnce]
  split
  · exact .nothing _ _ w
  · have hrefreshed : Served security masterKey w
        (refreshKeys config security masterKey now env requestId (w.db.keys.select (refreshDue now))
         w).1 _ :=
      refreshKeys_served (holdsSecrets_select security masterKey w (refreshDue now))
    exact ⟨hrefreshed.kept.trans (.of_keys (cleanupOldSnapshots_key? cleanupAt _)), hrefreshed.sent⟩

end Credits

theorem keyUse_served {fwd : Forwarder} {masterKey : Bytes}
    (hmaster : fwd.masterKey = some masterKey) (use : KeyUse) (w : World) :
    Served fwd.security masterKey w (use.perform fwd w).1 (use.perform fwd w).2 := by
  cases use with
  | forward turns req => exact forward_served hmaster turns req w
  | testKey env requestId id mode testUrl =>
    simp only [KeyUse.perform]
    split
    · exact .nothing _ _ w
    · next key hkey => exact testKey_served hmaster hkey
  | refreshKeyCredits now env requestId id =>
    simp only [KeyUse.perform, hmaster]
    exact refreshKeyCredits_served fwd.config fwd.security masterKey now env requestId id w
  | refreshAllCredits keyIds force now env requestId =>
    simp only [KeyUse.perform, hmaster]
    exact refreshAllCredits_served fwd.config fwd.security masterKey keyIds force now env requestId
      w
  | refreshOnce now env requestId cleanupAt =>
    simp only [KeyUse.perform, hmaster]
    exact refreshOnce_served fwd.config fwd.security masterKey now env requestId cleanupAt w

/-! ### Administration -/

section Administration

variable {security : Security} {masterKey : Bytes} {w v : World}

/-- The columns of a row are made of one secret. -/
def Sealed (security : Security) (masterKey : Bytes) (key : ApiKey) : Prop :=
  ∃ secret, security.decryptApiKey masterKey key.apiKeyCiphertext = some secret ∧
    key.apiKeyHash = security.hmacSha256Hex masterKey secret ∧ key.apiKeyLast4 = last4 secret

/-- Every row is sealed, and no two rows have one hash. -/
structure Custody (security : Security) (masterKey : Bytes) (w : World) : Prop where
  rows : ∀ id key, w.key? id = some key → Sealed security masterKey key
  distinct : DistinctBy ApiKey.apiKeyHash w.key?

theorem Sealed.congr {key row : ApiKey} (h : Sealed security masterKey key)
    (hsame : row.sealedColumns = key.sealedColumns) :
    Sealed security masterKey row := by
  have hcipher : row.apiKeyCiphertext = key.apiKeyCiphertext := congrArg Prod.fst hsame
  have hhash : row.apiKeyHash = key.apiKeyHash := congrArg (fun columns => columns.2.1) hsame
  have hlast4 : row.apiKeyLast4 = key.apiKeyLast4 := congrArg (fun columns => columns.2.2) hsame
  rw [Sealed, hcipher, hhash, hlast4]
  exact h

namespace Custody

theorem kept (h : Custody security masterKey w) (hkept : SecretsKept w v) :
    Custody security masterKey v := by
  have hbefore :
      ∀ id row, v.key? id = some row → ∃ key, w.key? id = some key ∧
        row.sealedColumns = key.sealedColumns :=
    fun id row hrow => (hkept id).exists_of_some_right hrow
  constructor
  · intro id row hrow
    obtain ⟨key, hkey, hsame⟩ := hbefore id row hrow
    exact (h.rows id key hkey).congr hsame
  · apply h.distinct.narrowed
    intro id row hrow
    obtain ⟨key, hkey, hsame⟩ := hbefore id row hrow
    exact ⟨key, hkey, congrArg (fun columns => columns.2.1) hsame⟩

theorem secret?_inj (h : Custody security masterKey w) {id other : Nat} {secret : String}
    (hid : w.secret? security masterKey id = some secret)
    (hother : w.secret? security masterKey other = some secret) :
    id = other := by
  obtain ⟨key, hkey, hplain⟩ := Option.bind_eq_some_iff.mp hid
  obtain ⟨row, hrow, hplain'⟩ := Option.bind_eq_some_iff.mp hother
  obtain ⟨_, hsecret, hhash, _⟩ := h.rows id key hkey
  obtain ⟨_, hsecret', hhash', _⟩ := h.rows other row hrow
  obtain rfl := Option.some.inj (hplain.symm.trans hsecret)
  obtain rfl := Option.some.inj (hplain'.symm.trans hsecret')
  exact h.distinct id other key row hkey hrow (hhash.trans hhash'.symm)

/-- A row that is written under an id, sealed and under a hash no other row has. -/
theorem written (h : Custody security masterKey w) {id : Nat} {key : ApiKey}
    (hsealed : Sealed security masterKey key) (hkey : v.key? id = some key)
    (hothers : ∀ other, other ≠ id → v.key? other = w.key? other)
    (hfresh : ∀ other row, other ≠ id → w.key? other = some row → row.apiKeyHash ≠ key.apiKeyHash) :
    Custody security masterKey v := by
  constructor
  · intro other row hrow
    by_cases heq : other = id
    · obtain rfl := Option.some.inj (hkey.symm.trans (heq ▸ hrow))
      exact hsealed
    · exact h.rows other row (hothers other heq ▸ hrow)
  · exact h.distinct.written hkey hothers hfresh

end Custody

/-- Every key has the secret it had or one that is given for it, and no key is lost. -/
structure SecretsGiven (security : Security) (masterKey : Bytes) (given : Nat → String → Prop)
    (w v : World) : Prop where
  held : ∀ id, v.key? id = none → w.key? id = none
  secrets : ∀ id, v.secret? security masterKey id = w.secret? security masterKey id ∨
    ∃ secret, given id secret ∧ v.secret? security masterKey id = some secret

theorem SecretsKept.given (h : SecretsKept w v) (given : Nat → String → Prop) :
    SecretsGiven security masterKey given w v := by
  refine ⟨fun id hnone => ?_, fun id => .inl (h.secret?_eq security masterKey id)⟩
  have hid := (h id).isSome_eq
  rw [hnone] at hid
  exact Option.not_isSome_iff_eq_none.mp (by simp [hid])

theorem SecretsGiven.mono {given given' : Nat → String → Prop}
    (h : SecretsGiven security masterKey given w v)
    (himp : ∀ id secret, given id secret → given' id secret) :
    SecretsGiven security masterKey given' w v := by
  refine ⟨h.held, fun id => (h.secrets id).imp_right ?_⟩
  rintro ⟨secret, hgiven, hsecret⟩
  exact ⟨secret, himp id secret hgiven, hsecret⟩

theorem SecretsGiven.trans {given : Nat → String → Prop} {u : World}
    (h : SecretsGiven security masterKey given w v)
    (h' : SecretsGiven security masterKey given v u) :
    SecretsGiven security masterKey given w u := by
  refine ⟨fun id hnone => h.held id (h'.held id hnone), fun id => ?_⟩
  obtain hkept | hgiven := h'.secrets id
  · rw [hkept]
    exact h.secrets id
  · exact .inr hgiven

/-- A row is written under an id with a new secret. -/
theorem secretsGiven_written {id : Nat} {key : ApiKey} {secret : String}
    (hkey : v.key? id = some key)
    (hsecret : security.decryptApiKey masterKey key.apiKeyCiphertext = some secret)
    (hothers : ∀ other, other ≠ id → v.key? other = w.key? other) :
    SecretsGiven security masterKey (fun other text => other = id ∧ text = secret) w v := by
  constructor
  · intro other hnone
    by_cases heq : other = id
    · rw [heq, hkey] at hnone
      cases hnone
    · exact hothers other heq ▸ hnone
  · intro other
    by_cases heq : other = id
    · refine .inr ⟨secret, ⟨heq, rfl⟩, ?_⟩
      rw [heq, World.secret?, hkey]
      exact hsecret
    · left
      rw [World.secret?, World.secret?, hothers other heq]

end Administration

/-! ### Operations that keep the secrets -/

section Keeping

variable {w : World}

theorem patchRow_sealedColumns (planType : Option String)
    (dailyQuota maxConcurrent rateLimitPerMin : Option Nat) (isActive : Option Bool)
    (key : ApiKey) :
    (patchRow planType dailyQuota maxConcurrent rateLimitPerMin isActive key).sealedColumns =
      key.sealedColumns := by
  have hquota : ∀ key : ApiKey, (patchQuota dailyQuota key).sealedColumns = key.sealedColumns := by
    intro key
    cases dailyQuota with
    | none => rfl
    | some dailyQuota =>
      simp only [patchQuota]
      split <;> rfl
  have hactive : ∀ key : ApiKey, (patchActive isActive key).sealedColumns = key.sealedColumns := by
    intro key
    cases isActive with
    | none => rfl
    | some isActive =>
      simp only [patchActive]
      split
      · rfl
      split <;> rfl
  exact (hactive _).trans (hquota _)

theorem batchRow_sealedColumns (req : BatchKeysRequest) (key : ApiKey) :
    (batchRow req key).sealedColumns = key.sealedColumns := by
  have hreset : (if req.resetCooldown then resetCooldownRow key
      else key).sealedColumns = key.sealedColumns := by
    split <;> rfl
  have hpatched : ∀ row : ApiKey, row.sealedColumns = key.sealedColumns →
      (if req.softDelete then disableKey row else row).sealedColumns = key.sealedColumns := by
    intro row hrow
    split
    · exact hrow
    · exact hrow
  apply hpatched
  split
  · exact hreset
  · exact (patchRow_sealedColumns _ _ _ _ _ _).trans hreset

theorem deleteKey_secretsKept (id : Nat) (w : World) : SecretsKept w (deleteKey id w).2 := by
  rw [deleteKey]
  split
  · exact (rowUpdated_modifyKey w id disableKey).secretsKept fun _ => rfl
  · exact .refl w

theorem resetKeysQuota_secretsKept (today : Day) (w : World) :
    SecretsKept w (resetKeysQuota today w) := by
  intro id
  rw [resetKeysQuota, World.key?_withKeys, Table.get?_mapRows]
  exact Option.Rel.map _ _ fun _ => rfl

theorem batchLoop_secretsKept (req : BatchKeysRequest) (ids : List Nat) (w : World) :
    SecretsKept w (batchLoop req ids w).2 := by
  induction ids generalizing w with
  | nil => exact .refl w
  | cons id rest ih =>
    rw [batchLoop]
    split
    · exact ih w
    · exact ((rowUpdated_modifyKey w id (batchRow req)).secretsKept
        (batchRow_sealedColumns req)).trans (ih _)

theorem batchTests_served {fwd : Forwarder} {masterKey : Bytes}
    (hmaster : fwd.masterKey = some masterKey) (env : Nat → TestEnv) (requestId mode : String)
    (testUrl : PyStr) (results : List (Nat × Except FcamError ApiKey)) (w : World) :
    Served fwd.security masterKey w (batchTests fwd env requestId mode testUrl results w).2
      (batchTestExchanges fwd env requestId mode testUrl results w) := by
  induction results generalizing w with
  | nil => exact .nothing _ _ w
  | cons result rest ih =>
    obtain ⟨id, updated⟩ := result
    cases updated with
    | error error =>
      rw [batchTests, batchTestExchanges]
      exact ih w
    | ok row =>
      rw [batchTests, batchTestExchanges]
      cases hkey : w.key? id with
      | none => exact ih w
      | some key => exact (testKey_served hmaster hkey).append (ih _)

theorem batchKeys_served {fwd : Forwarder} {masterKey : Bytes}
    (hmaster : fwd.masterKey = some masterKey) (env : Nat → TestEnv) (requestId : String)
    (req : BatchKeysRequest) (w : World) :
    Served fwd.security masterKey w (batchKeys fwd env requestId req w).2
      (batchKeysExchanges fwd env requestId req w) := by
  have hedited : SecretsKept w (batchLoop req req.ids w).2 := batchLoop_secretsKept req req.ids w
  rw [batchKeys, batchKeysExchanges]
  cases req.test with
  | none => exact ⟨hedited, List.forall_mem_nil _⟩
  | some test =>
    obtain ⟨mode, testUrl⟩ := test
    simp only
    by_cases hmode : mode ≠ "scrape"
    · rw [if_pos hmode, if_pos (by simp [hmode])]
      exact .nothing _ _ w
    by_cases hmixed : (1 < req.ids.length && mixedProviders req.ids w) = true
    · rw [if_neg hmode, if_pos hmixed, if_pos (by simp [hmixed])]
      exact .nothing _ _ w
    rw [if_neg hmode, if_neg hmixed, if_neg (by simp [hmode, hmixed])]
    have htested := batchTests_served hmaster env requestId mode testUrl (batchLoop req req.ids w).1
      (batchLoop req req.ids w).2
    exact Served.append ⟨hedited, List.forall_mem_nil _⟩ htested

theorem purgeClient_secretsKept (enforced : Bool) (id : Nat) (w : World) :
    SecretsKept w (w.purgeClient enforced id).2 := by
  rw [World.purgeClient]
  split
  · exact .refl w
  split
  · exact .refl w
  intro other
  have hkeys : ∀ key : ApiKey,
      (if key.clientId = some id then { key with clientId := none }
       else key).sealedColumns = key.sealedColumns := by
    intro key
    split <;> rfl
  rw [World.key?, World.key?, Table.get?_mapRows]
  exact Option.Rel.map _ _ hkeys

theorem batchUpdateClients_keys (clientIds : List Nat) (action : BatchAction) (w : World) :
    (batchUpdateClients clientIds action w).2.db.keys = w.db.keys := by
  rw [batchUpdateClients]
  simp only
  generalize List.filter _ _ = found
  induction found generalizing w with
  | nil => rfl
  | cons id rest ih =>
    rw [List.foldl_cons]
    exact ih _

end Keeping

/-! ### Operations that give secrets -/

section Giving

variable {security : Security} {masterKey : Bytes} {w : World}

theorem insertKey_others (w : World) (key : ApiKey) (other : Nat) (hne : other ≠ w.db.keys.nextId) :
    (w.withKeys (w.db.keys.insert key)).key? other = w.key? other := by
  rw [World.key?_withKeys, Table.get?_insert, if_neg hne]
  rfl

theorem insertKey_self (w : World) (key : ApiKey) :
    (w.withKeys (w.db.keys.insert key)).key? w.db.keys.nextId = some key := by
  rw [World.key?_withKeys, Table.get?_insert_self]

/-- What an operation that gives secrets leaves. -/
structure Entrusted (security : Security) (masterKey : Bytes) (given : Nat → String → Prop)
    (w v : World) : Prop where
  custody : Custody security masterKey w → Custody security masterKey v
  secrets : SecretsGiven security masterKey given w v

theorem SecretsKept.entrusted {v : World} (h : SecretsKept w v) (given : Nat → String → Prop) :
    Entrusted security masterKey given w v := ⟨fun hcustody => hcustody.kept h, h.given given⟩

theorem entrusted_written {v : World} {id : Nat} {key : ApiKey} {secret : String}
    (hsealed : security.decryptApiKey masterKey key.apiKeyCiphertext = some secret ∧
      key.apiKeyHash = security.hmacSha256Hex masterKey secret ∧ key.apiKeyLast4 = last4 secret)
    (hkey : v.key? id = some key) (hothers : ∀ other, other ≠ id → v.key? other = w.key? other)
    (hfresh : ∀ other row, other ≠ id → w.key? other = some row → row.apiKeyHash ≠ key.apiKeyHash) :
    Entrusted security masterKey (fun other text => other = id ∧ text = secret) w v where
  custody := fun hcustody => hcustody.written ⟨secret, hsealed⟩ hkey hothers hfresh
  secrets := secretsGiven_written hkey hsealed.1 hothers

theorem Entrusted.mono {given given' : Nat → String → Prop} {v : World}
    (h : Entrusted security masterKey given w v)
    (himp : ∀ id secret, given id secret → given' id secret) :
    Entrusted security masterKey given' w v :=
  ⟨h.custody, h.secrets.mono himp⟩

variable (hlawful : ∀ nonce secret,
  security.decryptApiKey masterKey (security.encryptApiKey masterKey nonce secret) = some secret)

include hlawful

theorem createKey_entrusted (today : Day) (nonce : Bytes) (req : CreateKeyRequest) (w : World) :
    Entrusted security masterKey (fun id secret => w.key? id = none ∧ secret = req.apiKey) w
      (createKey security (some masterKey) today nonce req w).2 := by
  simp only [createKey]
  cases requestedClient w req.clientId with
  | error error => exact (SecretsKept.refl w).entrusted _
  | ok clientId =>
  simp only
  split
  · exact (SecretsKept.refl w).entrusted _
  next hunique =>
  apply Entrusted.mono (entrusted_written ⟨hlawful nonce req.apiKey, rfl, rfl⟩ (insertKey_self w _)
    (insertKey_others w _) ?_)
  · rintro id secret ⟨rfl, rfl⟩
    exact ⟨Table.get?_nextId _, rfl⟩
  · intro other row _ hrow hhash
    apply hunique
    rw [List.any_eq_true]
    exact ⟨(other, row), Table.get?_eq_some_iff.mp hrow, beq_iff_eq.mpr hhash⟩

theorem importItem_entrusted (today : Day) (clientId : Option Nat) (req : ImportRequest)
    (nonces : Bytes × Bytes) (item : ParsedKeyLine) (result : ImportResult) (w : World) :
    Entrusted security masterKey (fun id secret => w.key? id = none ∧ secret = item.apiKey) w
      (importItem security today masterKey clientId req nonces item result w).2 := by
  simp only [importItem]
  split
  · next hnone =>
    apply Entrusted.mono
      (entrusted_written ⟨hlawful nonces.1 item.apiKey, rfl, rfl⟩ (insertKey_self w _)
       (insertKey_others w _) ?_)
    · rintro id secret ⟨rfl, rfl⟩
      exact ⟨Table.get?_nextId _, rfl⟩
    · intro other row _ hrow hhash
      have hdiffers := List.find?_eq_none.mp hnone (other, row) (Table.get?_eq_some_iff.mp hrow)
      exact hdiffers (beq_iff_eq.mpr hhash)
  next id existing _ =>
  split
  · exact (SecretsKept.refl w).entrusted _
  split
  · exact (SecretsKept.refl w).entrusted _
  · exact ((rowUpdated_modifyKey w id (mergeImported clientId item _)).secretsKept fun _ =>
      rfl).entrusted _

theorem importItems_entrusted (today : Day) (clientId : Option Nat) (req : ImportRequest)
    (nonces : Nat → Bytes × Bytes) (items : List ParsedKeyLine) (result : ImportResult)
    (w : World) :
    Entrusted security masterKey
      (fun id secret => w.key? id = none ∧ ∃ item ∈ items, secret = item.apiKey) w
      (importItems security today masterKey clientId req nonces items result w).2 := by
  induction items generalizing result w with
  | nil => exact (SecretsKept.refl w).entrusted _
  | cons item rest ih =>
    rw [importItems]
    have hfirst :=
      importItem_entrusted hlawful today clientId req (nonces item.lineNo) item result w
    have hrest :=
      ih (importItem security today masterKey clientId req (nonces item.lineNo) item result w).1
      (importItem security today masterKey clientId req (nonces item.lineNo) item result w).2
    refine ⟨fun hcustody => hrest.custody (hfirst.custody hcustody), ?_⟩
    apply SecretsGiven.trans
    · apply hfirst.secrets.mono
      rintro id secret ⟨hnone, hsecret⟩
      exact ⟨hnone, item, List.mem_cons_self, hsecret⟩
    · apply hrest.secrets.mono
      rintro id secret ⟨hnone, other, hmem, hsecret⟩
      exact ⟨hfirst.secrets.held id hnone, other, List.mem_cons_of_mem _ hmem, hsecret⟩

theorem importKeys_entrusted (today : Day) (nonces : Nat → Bytes × Bytes)
    (items : List ParsedKeyLine) (failures : List (Nat × String × String)) (req : ImportRequest)
    (w : World) :
    Entrusted security masterKey
      (fun id secret => w.key? id = none ∧ ∃ item ∈ items, secret = item.apiKey) w
      (importKeys security (some masterKey) today nonces items failures req w).2 := by
  simp only [importKeys]
  cases requestedClient w req.clientId with
  | error error => exact (SecretsKept.refl w).entrusted _
  | ok clientId =>
  simp only
  split
  · exact (SecretsKept.refl w).entrusted _
  · exact importItems_entrusted hlawful today clientId req nonces items _ w

theorem updateKey_entrusted (nonce : Bytes) (id : Nat) (req : UpdateKeyRequest) (w : World) :
    Entrusted security masterKey (fun other secret => other = id ∧ req.apiKey = some secret) w
      (updateKey security (some masterKey) nonce id req w).2 := by
  cases hkey : w.key? id with
  | none =>
    simp only [updateKey, hkey]
    exact (SecretsKept.refl w).entrusted _
  | some key =>
  cases hclient : requestedClient w req.clientId with
  | error error =>
    simp only [updateKey, hkey, hclient]
    exact (SecretsKept.refl w).entrusted _
  | ok clientId =>
  have hcolumns : ∀ key :
      ApiKey, (updateRow clientId req key).sealedColumns = key.sealedColumns := by
    intro key
    exact patchRow_sealedColumns _ _ _ _ _ _
  simp only [updateKey, hkey, hclient]
  cases hsecret : req.apiKey with
  | none =>
    apply SecretsKept.entrusted
    intro other
    rw [rowUpdated_modifyKey w id _ other]
    split
    · next heq =>
      rw [heq, hkey]
      exact .some (hcolumns key)
    · exact .of_eq _ fun _ => rfl
  | some apiKey =>
  simp only
  split
  · exact (SecretsKept.refl w).entrusted _
  next hunique =>
  have hrotated := hcolumns (rotateKey security masterKey nonce apiKey key)
  have hcipher :
      (updateRow clientId req (rotateKey security masterKey nonce apiKey key)).apiKeyCiphertext =
        security.encryptApiKey masterKey nonce apiKey := congrArg Prod.fst hrotated
  have hhash : (updateRow clientId req (rotateKey security masterKey nonce apiKey key)).apiKeyHash =
      security.hmacSha256Hex masterKey apiKey := congrArg (fun columns => columns.2.1) hrotated
  have hlast4 :
      (updateRow clientId req (rotateKey security masterKey nonce apiKey key)).apiKeyLast4 =
        last4 apiKey :=
    congrArg (fun columns => columns.2.2) hrotated
  have hwritten :=
    rowUpdated_modifyKey w id fun _ =>
      updateRow clientId req (rotateKey security masterKey nonce apiKey key)
  apply Entrusted.mono
    (entrusted_written ⟨?_, hhash, hlast4⟩ (hwritten.self hkey)
     (fun other hne => hwritten.of_ne hne) ?_)
  · rintro other secret ⟨rfl, rfl⟩
    exact ⟨rfl, rfl⟩
  · rw [hcipher]
    exact hlawful nonce apiKey
  · intro other row hne hrow hsame
    apply hunique
    rw [List.any_eq_true]
    refine ⟨(other, row), Table.get?_eq_some_iff.mp hrow, ?_⟩
    rw [Bool.and_eq_true]
    exact ⟨bne_iff_ne.mpr hne, beq_iff_eq.mpr hsame⟩

end Giving

/-! ### Runs -/

section Runs

variable {fwd : Forwarder} {enforced : Bool} {masterKey : Bytes} {w last : World}

/-- A step sends the secrets that are kept, and changes a secret only to one an administrator gives
for its key. -/
structure CustodyAction.Faithful (fwd : Forwarder) (enforced : Bool) (masterKey : Bytes) (w : World)
    (action : CustodyAction) : Prop where
  sent : ∀ e ∈ (action.perform fwd enforced w).2, w.secret? fwd.security masterKey e.keyId =
    some e.secret
  secrets : ∀ id,
    (action.perform fwd enforced w).1.secret? fwd.security masterKey id =
      w.secret? fwd.security masterKey id ∨
        (action = .admin (.purgeKey id) ∧ (action.perform fwd enforced w).1.key? id = none) ∨
      ∃ op secret, action = .admin op ∧ op.Gives w id secret ∧
        (action.perform fwd enforced w).1.secret? fwd.security masterKey id = some secret

theorem Served.faithful {action : CustodyAction}
    (h : Served fwd.security masterKey w (action.perform fwd enforced w).1
      (action.perform fwd enforced w).2) :
    action.Faithful fwd enforced masterKey w :=
  ⟨h.sent, fun id => .inl (h.kept.secret?_eq fwd.security masterKey id)⟩

/-- What a step leaves: custody, and a faithful account of it. -/
def CustodyAction.Sound (fwd : Forwarder) (enforced : Bool) (masterKey : Bytes) (w : World)
    (action : CustodyAction) : Prop :=
  (Custody fwd.security masterKey w →
   Custody fwd.security masterKey (action.perform fwd enforced w).1) ∧
    action.Faithful fwd enforced masterKey w

theorem Served.sound {action : CustodyAction}
    (h : Served fwd.security masterKey w (action.perform fwd enforced w).1
      (action.perform fwd enforced w).2) :
    action.Sound fwd enforced masterKey w :=
  ⟨fun hcustody => hcustody.kept h.kept, h.faithful⟩

theorem sound_of_kept {op : AdminOperation} (hquiet : op.exchanges fwd w = [])
    (h : SecretsKept w (op.perform fwd enforced w)) :
    (CustodyAction.admin op).Sound fwd enforced masterKey w := by
  refine Served.sound ⟨h, fun e he => ?_⟩
  rw [CustodyAction.perform, hquiet] at he
  cases he

theorem sound_of_entrusted {op : AdminOperation} (hquiet : op.exchanges fwd w = [])
    (h : Entrusted fwd.security masterKey (op.Gives w) w (op.perform fwd enforced w)) :
    (CustodyAction.admin op).Sound fwd enforced masterKey w := by
  refine ⟨h.custody, fun e he => ?_, fun id => ?_⟩
  · rw [CustodyAction.perform, hquiet] at he
    cases he
  obtain hkept | ⟨secret, hgives, hsecret⟩ := h.secrets.secrets id
  · exact .inl hkept
  · exact .inr (.inr ⟨op, secret, rfl, hgives, hsecret⟩)

theorem purgeKey_sound (id : Nat) :
    (CustodyAction.admin (.purgeKey id)).Sound fwd enforced masterKey w := by
  by_cases hrefused : (purgeKey enforced id w).2 = w
  · apply sound_of_kept rfl
    intro other
    rw [AdminOperation.perform, hrefused]
    exact .of_eq _ fun _ => rfl
  have hkeys :
      (purgeKey enforced id w).2.db.keys = w.db.keys.deleteWhere fun other _ => other == id := by
    rw [purgeKey] at hrefused ⊢
    split at hrefused
    · exact absurd rfl hrefused
    split at hrefused
    · exact absurd rfl hrefused
    next hexists hunbound => rw [if_neg hexists, if_neg hunbound]
  have hothers : ∀ other, other ≠ id → (purgeKey enforced id w).2.key? other = w.key? other := by
    intro other hne
    rw [World.key?, hkeys, Table.get?_delete_of_ne _ hne]
    rfl
  have hself : (purgeKey enforced id w).2.key? id = none := by
    rw [World.key?, hkeys, Table.get?_deleteWhere]
    simp
  have hbefore :
      ∀ other key, (purgeKey enforced id w).2.key? other = some key → w.key? other = some key := by
    intro other key hkey
    by_cases heq : other = id
    · rw [heq, hself] at hkey
      cases hkey
    · exact hothers other heq ▸ hkey
  refine ⟨fun hcustody => ⟨?_, ?_⟩, List.forall_mem_nil _, fun other => ?_⟩
  · exact fun other key hkey => hcustody.rows other key (hbefore other key hkey)
  · exact hcustody.distinct.narrowed fun other key hkey => ⟨key, hbefore other key hkey, rfl⟩
  · by_cases heq : other = id
    · subst heq
      exact .inr (.inl ⟨rfl, hself⟩)
    · left
      have hsame :
          ((CustodyAction.admin (.purgeKey id)).perform fwd enforced w).1.key? other =
            w.key? other :=
        hothers other heq
      rw [World.secret?, World.secret?, hsame]

theorem admin_sound (hmaster : fwd.masterKey = some masterKey)
    (hlawful : ∀ nonce secret,
      fwd.security.decryptApiKey masterKey (fwd.security.encryptApiKey masterKey nonce secret) =
      some secret)
    (op : AdminOperation) : (CustodyAction.admin op).Sound fwd enforced masterKey w := by
  cases op with
  | createKey today nonce req =>
    apply sound_of_entrusted rfl
    rw [AdminOperation.perform, hmaster]
    exact createKey_entrusted hlawful today nonce req w
  | importKeys today nonces savepoint items failures req =>
    apply sound_of_entrusted rfl
    rw [AdminOperation.perform, hmaster]
    exact importKeys_entrusted hlawful today nonces items failures req w
  | updateKey nonce id req =>
    apply sound_of_entrusted rfl
    rw [AdminOperation.perform, hmaster]
    apply (updateKey_entrusted hlawful nonce id req w).mono
    rintro other secret ⟨heq, hsecret⟩
    exact ⟨heq.symm, hsecret⟩
  | deleteKey id => exact sound_of_kept rfl (deleteKey_secretsKept id w)
  | purgeKey id => exact purgeKey_sound id
  | batchKeys env requestId req => exact Served.sound (batchKeys_served hmaster env requestId req w)
  | resetKeysQuota today => exact sound_of_kept rfl (resetKeysQuota_secretsKept today w)
  | testKey env requestId mode testUrl id =>
    have hserved := keyUse_served hmaster (.testKey env requestId id mode testUrl) w
    apply Served.sound
    rw [CustodyAction.perform, AdminOperation.perform]
    simp only [AdminOperation.exchanges, KeyUse.perform] at hserved ⊢
    cases hkey : w.key? id with
    | none => exact .nothing _ _ w
    | some key => exact testKey_served hmaster hkey
  | refreshKey now env requestId id =>
    have hserved := keyUse_served hmaster (.refreshKeyCredits now env requestId id) w
    refine Served.sound ?_
    rw [CustodyAction.perform, AdminOperation.perform, hmaster]
    simpa only [AdminOperation.exchanges, KeyUse.perform, hmaster, Option.elim_some] using hserved
  | refreshAll keyIds force now env requestId =>
    have hserved := keyUse_served hmaster (.refreshAllCredits keyIds force now env requestId) w
    refine Served.sound ?_
    rw [CustodyAction.perform, AdminOperation.perform, hmaster]
    simpa only [AdminOperation.exchanges, KeyUse.perform, hmaster, Option.elim_some] using hserved
  | createClient today token req =>
    apply sound_of_kept rfl
    simp only [AdminOperation.perform, createClient, hmaster]
    split
    · exact .refl w
    · exact .of_keys fun _ => rfl
  | updateClient id req =>
    apply sound_of_kept rfl
    rw [AdminOperation.perform, updateClient]
    split
    · exact .refl w
    split
    · exact .refl w
    split
    · exact .refl w
    · exact .of_keys fun _ => rfl
  | deleteClient id =>
    apply sound_of_kept rfl
    rw [AdminOperation.perform, deleteClient]
    split
    · exact .of_keys fun _ => rfl
    · exact .refl w
  | purgeClient id => exact sound_of_kept rfl (purgeClient_secretsKept enforced id w)
  | rotateClientToken token id =>
    apply sound_of_kept rfl
    simp only [AdminOperation.perform, rotateClientToken, hmaster]
    split
    · exact .refl w
    · exact .refl w
    split
    · exact .refl w
    · exact .of_keys fun _ => rfl
  | batchClients clientIds action =>
    apply sound_of_kept rfl
    refine .of_keys fun id => ?_
    rw [AdminOperation.perform, World.key?, batchUpdateClients_keys]
    rfl

theorem custodyAction_sound (hmaster : fwd.masterKey = some masterKey)
    (hlawful : ∀ nonce secret,
      fwd.security.decryptApiKey masterKey (fwd.security.encryptApiKey masterKey nonce secret) =
      some secret)
    (action : CustodyAction) : action.Sound fwd enforced masterKey w := by
  cases action with
  | use keyUse => exact Served.sound (keyUse_served hmaster keyUse w)
  | select env clientId provider =>
    exact Served.sound ⟨select_secretsKept env w clientId provider, List.forall_mem_nil _⟩
  | admin op => exact admin_sound hmaster hlawful op

/-- In every run from a state in custody the state stays so, no two keys have one secret, and every
step sends the secrets that are kept and changes them only as an administrator says. -/
theorem secrets_in_custody {trace : List CustodyAction} (hmaster : fwd.masterKey = some masterKey)
    (hlawful : ∀ nonce secret,
      fwd.security.decryptApiKey masterKey (fwd.security.encryptApiKey masterKey nonce secret) =
      some secret)
    (hstart : Custody fwd.security masterKey w)
    (hexec : exec (CustodyAction.next fwd enforced) w trace = some last) :
    Custody fwd.security masterKey last ∧
      (∀ id other secret, last.secret? fwd.security masterKey id = some secret →
        last.secret? fwd.security masterKey other = some secret → id = other) ∧
      Meets (CustodyAction.next fwd enforced)
        (CustodyAction.Faithful fwd enforced masterKey) w trace := by
  have hstep :
      ∀ w action w', Custody fwd.security masterKey w → True →
        CustodyAction.next fwd enforced w action = some w' → Custody fwd.security masterKey w' ∧
          CustodyAction.Faithful fwd enforced masterKey w action := by
    intro w action w' hcustody _ hnext
    obtain ⟨hkeeps, hfaithful⟩ : action.Sound fwd enforced masterKey w :=
      custodyAction_sound hmaster hlawful action
    obtain rfl := Option.some.inj hnext
    exact ⟨hkeeps hcustody, hfaithful⟩
  have hcustody : Custody fwd.security masterKey last :=
    exec_invariant (fun w action w' h hnext => (hstep w action w' h trivial hnext).1) hexec hstart
  refine ⟨hcustody, fun id other secret hid hother => hcustody.secret?_inj hid hother, ?_⟩
  exact meets_of_invariant hstep (meets_of_forall (fun _ _ => trivial) w trace) hexec hstart

theorem Security.utf8_lawful (masterKey nonce : Bytes) (secret : String) :
    utf8.decryptApiKey masterKey (utf8.encryptApiKey masterKey nonce secret) = some secret := by
  have hvalid : secret.toByteArray.IsValidUTF8 := secret.isValidUTF8
  show String.fromUTF8? secret.toByteArray = some secret
  rw [String.fromUTF8?, dif_pos hvalid]
  rfl

/-- A key is created, gets another secret, and is tested with it. -/
theorem secrets_in_custody_rotated :
    let fwd : Forwarder := { defaultForwarder with security := .utf8 }
    let trace : List CustodyAction :=
      [.admin (.createKey 0 [] { apiKey := "fc-old" }),
        .admin (.updateKey [] 1 { apiKey := some "fc-new" }),
        .admin (.testKey { outcome := fun _ => .timeout, now := 0 } "r" "scrape" [] 1)]
    ∃ last, exec (CustodyAction.next fwd true) {} trace = some last ∧
      last.secret? fwd.security [] 1 = some "fc-new" ∧
        Meets (CustodyAction.next fwd true) (CustodyAction.Faithful fwd true []) {} trace := by
  intro fwd trace
  have hnone : ∀ id key, ¬({} : World).key? id = some key := by
    intro id key hkey
    cases hkey
  have hstart : Custody fwd.security [] {} :=
    ⟨fun id key hkey => absurd hkey (hnone id key),
     fun id _ key _ hkey => absurd hkey (hnone id key)⟩
  have hexec : exec (CustodyAction.next fwd true) {} trace = some _ := rfl
  refine ⟨_, hexec, ?_, (secrets_in_custody rfl (Security.utf8_lawful []) hstart hexec).2.2⟩
  decide

end Runs

end Fcam
