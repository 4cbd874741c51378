import Fcam.Model.KeyUse
import Fcam.Proof.Dispatch

/-!
# Secrets stay with their provider

An exchange is isolated when the key's secret went to a server of the key's own provider and its
outcome changed the rows of that provider's keys only. An exchange changes no row but its key's, so
what has to be shown is where each path sends the secret. The forward and the key test derive the
server from the provider they filter keys by; the credit operations always ask the Firecrawl server,
and the background pass is the one caller that does not ask for Firecrawl keys.
-/

namespace Fcam

/-- A base URL is one of the two spellings of a provider's configured URL. -/
def OwnServer (fwd : Forwarder) (provider : Provider) (baseUrl : String) : Prop :=
  match provider with
  | .firecrawl => baseUrl = fwd.config.firecrawl.baseUrl ∨ baseUrl = fwd.firecrawlUpstreamBaseUrl
  | .exa =>
    baseUrl = fwd.config.providers.exa.baseUrl ∨
      baseUrl = String.ofList (rstripChar '/' fwd.config.providers.exa.baseUrl.toList)

instance (fwd : Forwarder) (provider : Provider) (baseUrl : String) :
    Decidable (OwnServer fwd provider baseUrl) := by
  unfold OwnServer
  cases provider <;> infer_instance

/-- The columns of a key that an upstream's answers are about. -/
def answeredColumns (key : ApiKey) : KeyStatus × Bool × Option Instant × Option Int × Option Int :=
  (key.status, key.isActive, key.cooldownUntil, key.cachedRemainingCredits, key.cachedPlanCredits)

/-- The secret went to a server of the key's provider, and the outcome changed nothing in the rows
of the keys of other providers. -/
structure Exchange.Isolated (fwd : Forwarder) (e : Exchange) : Prop where
  sentToOwnServer :
    ∀ key, e.before.get? e.keyId = some key → OwnServer fwd key.provider e.request.baseUrl
  changesOwnRows : ∀ id key row, e.before.get? id = some key → e.after.get? id = some row →
    ¬OwnServer fwd key.provider e.request.baseUrl → answeredColumns row = answeredColumns key

theorem Exchange.isolated_of_sent {fwd : Forwarder} {e : Exchange}
    (hsent : ∀ key, e.before.get? e.keyId = some key → OwnServer fwd key.provider e.request.baseUrl)
    (hother : ∀ id, id ≠ e.keyId → e.after.get? id = e.before.get? id) : e.Isolated fwd where
  sentToOwnServer := hsent
  changesOwnRows := by
    intro id key row hkey hrow hforeign
    by_cases hid : id = e.keyId
    · subst hid
      exact absurd (hsent key hkey) hforeign
    · rw [hother id hid, hkey, Option.some.injEq] at hrow
      rw [hrow]

/-- All exchanges of a use of keys are isolated. -/
def KeyUse.Isolated (fwd : Forwarder) (w : World) (use : KeyUse) : Prop :=
  ∀ e ∈ (use.perform fwd w).2, e.Isolated fwd

theorem ownServer_of_providerBaseUrl {fwd : Forwarder} {provider : Provider} {baseUrl : String}
    (h : fwd.providerBaseUrl provider = .ok baseUrl) : OwnServer fwd provider baseUrl := by
  cases provider with
  | firecrawl => exact .inr (Except.ok.inj h).symm
  | exa =>
    rw [Forwarder.providerBaseUrl] at h
    split at h
    · exact .inr (Except.ok.inj h).symm
    · cases h

/-! ### Forwards -/

section Forward

variable {fwd : Forwarder} {baseUrl : String} {req : ForwardRequest}

/-- Every exchange logged so far is isolated. -/
def LogIsolated (fwd : Forwarder) (events : List Event) : Prop :=
  ∀ e, Event.exchanged e ∈ events → e.Isolated fwd

theorem mem_exchanges {outcome : Outcome} {id : Nat} {plaintextKey : String} {before after : World}
    {e : Exchange}
    (hmem : Event.exchanged e ∈ exchanges fwd baseUrl req outcome id plaintextKey before after) :
    e =
      { request := upstreamRequest fwd baseUrl req plaintextKey
        keyId := id
        secret := plaintextKey
        outcome
        before := before.db.keys
        after := after.db.keys } := by
  cases outcome with
  | unsent text => cases hmem
  | response r => exact Event.exchanged.inj (List.mem_singleton.mp hmem)
  | timeout => exact Event.exchanged.inj (List.mem_singleton.mp hmem)
  | httpError text => exact Event.exchanged.inj (List.mem_singleton.mp hmem)
  | exception text => exact Event.exchanged.inj (List.mem_singleton.mp hmem)

/-- A call with a key of the requested provider is isolated. -/
theorem callEvents_isolated {turns : Nat → Turn} {i id : Nat} {key : ApiKey} {plaintextKey : String}
    {w : World} (hown : OwnServer fwd req.provider baseUrl) (hkey : w.key? id = some key)
    (hprovider : key.provider = req.provider) :
    LogIsolated fwd (callEvents fwd baseUrl req turns i id plaintextKey w) := by
  have hupdated :=
    settle_row fwd.config req.method req.upstreamPath (turns i).outcome (turns i).settledAt
      req.clientId
    id w
  intro e hmem
  rcases List.mem_append.mp hmem with hexchange | hreleased
  · have he := mem_exchanges hexchange
    subst he
    apply Exchange.isolated_of_sent
    · intro row hrow
      rw [World.key?, hrow, Option.some.injEq] at hkey
      rw [hkey, hprovider]
      exact hown
    · intro other hne
      exact hupdated.of_ne hne
  · simp at hreleased

/-- The key about to be called is a key of the requested provider. -/
def OfProvider (req : ForwardRequest) (w : World) (id : Nat) : Prop :=
  ∃ key, w.key? id = some key ∧ key.provider = req.provider

theorem forward_isolated (turns : Nat → Turn) (req : ForwardRequest) (w : World) :
    LogIsolated fwd (forward fwd turns req w).events := by
  refine forward_eachExchange (OfProvider req) ?_ ?_ ?_ ?_
  · intro id key haccepted
    obtain ⟨hkey, _, _, hprovider⟩ := pinnedKey?_eq_some haccepted
    exact ⟨key, hkey, hprovider⟩
  · intro i w id key selection hresult
    obtain ⟨hkey, row, _, hscope, hcases⟩ := select_ok hresult
    refine ⟨key, hkey, ?_⟩
    rw [hcases.frame]
    simp only [inScope, Bool.and_eq_true, beq_iff_eq] at hscope
    exact hscope.1
  · intro baseUrl hbase i id plaintextKey w hready
    obtain ⟨key, hkey, hprovider⟩ := hready
    exact callEvents_isolated (ownServer_of_providerBaseUrl hbase) hkey hprovider
  · intro i id w hready
    obtain ⟨key, hkey, hprovider⟩ := hready
    refine ⟨_, (settle_row _ _ _ _ _ _ _ _).self hkey, ?_⟩
    rw [settleRow_frame]
    exact hprovider

end Forward

/-! ### Key tests -/

theorem testKeyWith_isolated {fwd : Forwarder} {env : TestEnv} {requestId : String} {id : Nat}
    {w : World} {candidates : List String} {body : Json} {masterKey : Bytes} {key : ApiKey}
    (hkey : w.key? id = some key) :
    ∀ e ∈ (testKeyWith fwd env requestId id w key.provider candidates body masterKey key).exchanges,
      e.Isolated fwd := by
  intro e hmem
  rw [testKeyWith] at hmem
  simp only at hmem
  split at hmem
  · cases hmem
  split at hmem
  · cases hmem
  next baseUrl hbase =>
  have hown := ownServer_of_providerBaseUrl hbase
  have hupdated := settleTest_row fwd.config
    (((probes env.outcome 0 candidates).getLast?.map Prod.snd).getD (.exception "AssertionError"))
      env.now id w
  simp only [List.mem_append, List.mem_map, Option.mem_toList] at hmem
  rcases hmem with ⟨probe, _, rfl⟩ | ⟨probe, _, rfl⟩
  · apply Exchange.isolated_of_sent
    · intro row hrow
      rw [World.key?, hrow, Option.some.injEq] at hkey
      exact hkey ▸ hown
    · exact fun _ _ => rfl
  · apply Exchange.isolated_of_sent
    · intro row hrow
      rw [World.key?, hrow, Option.some.injEq] at hkey
      exact hkey ▸ hown
    · exact fun other hne => hupdated.of_ne hne

theorem testKey_isolated {fwd : Forwarder} {env : TestEnv} {requestId : String} {id : Nat}
    {w : World} {mode : String} {testUrl : PyStr} {key : ApiKey} (hkey : w.key? id = some key) :
    ∀ e ∈ (testKey fwd env requestId id w mode testUrl key).exchanges, e.Isolated fwd := by
  intro e hmem
  rw [testKey] at hmem
  simp only at hmem
  split at hmem
  · cases hmem
  split at hmem
  · cases hmem
  split at hmem
  · next hexa =>
    rw [testKeyExa, ← hexa] at hmem
    exact testKeyWith_isolated hkey e hmem
  · next hfirecrawl =>
    rw [← hfirecrawl] at hmem
    exact testKeyWith_isolated hkey e hmem

/-! ### Credit operations -/

section Credits

variable {fwd : Forwarder} {masterKey : Bytes}

/-- A fetch is isolated where the Firecrawl URL is the key's own server, or its secret is
unreadable. -/
theorem fetch_isolated {env : FetchEnv} {requestId : String} {id : Nat} {key : ApiKey} {w : World}
    (hkey : w.key? id = some key)
    (hown : fwd.decrypt masterKey key ≠ none →
      OwnServer fwd key.provider fwd.config.firecrawl.baseUrl) :
    ∀ e ∈ (fetchCreditFromFirecrawl fwd.config fwd.security masterKey env requestId id key
      w).exchanges, e.Isolated fwd := by
  intro e hmem
  rw [fetchCreditFromFirecrawl] at hmem
  split at hmem
  · cases hmem
  next plaintextKey hsecret =>
  have hown := hown (by rw [Forwarder.decrypt, hsecret]; simp)
  have hupdated := settleFetch_row fwd.config env id w
  simp only at hmem
  split at hmem
  · cases hmem
  rw [List.mem_singleton] at hmem
  subst hmem
  apply Exchange.isolated_of_sent
  · intro row hrow
    rw [World.key?, hrow, Option.some.injEq] at hkey
    exact hkey ▸ hown
  · exact fun other hne => hupdated.of_ne hne

theorem ownServer_firecrawl (fwd : Forwarder) :
    OwnServer fwd .firecrawl fwd.config.firecrawl.baseUrl := .inl rfl

theorem refreshKeyCredits_isolated (now : Instant) (env : FetchEnv) (requestId : String) (id : Nat)
    (w : World) :
    ∀ e ∈ (refreshKeyCredits fwd.config fwd.security masterKey now env requestId id w).exchanges,
      e.Isolated fwd := by
  intro e hmem
  rw [refreshKeyCredits] at hmem
  simp only at hmem
  split at hmem
  · cases hmem
  next key hkey =>
  split at hmem
  · cases hmem
  next hprovider =>
  split at hmem
  · cases hmem
  · exact fetch_isolated hkey (fun _ => hprovider ▸ ownServer_firecrawl fwd) e hmem

/-- The loop of the refresh of all keys, over keys of the Firecrawl provider with distinct ids. -/
theorem refreshAllKeys_isolated {force : Bool} {now : Instant} {env : Nat → FetchEnv}
    {requestId : Nat → String} {keys : List (Nat × ApiKey)} {w : World}
    (hnodup : (keys.map Prod.fst).Nodup)
    (hkeys : ∀ row ∈ keys, w.key? row.1 = some row.2 ∧ row.2.provider = .firecrawl) :
    ∀ e ∈ (refreshAllKeys fwd.config fwd.security masterKey force now env requestId keys w).2,
      e.Isolated fwd := by
  induction keys generalizing w with
  | nil => simp [refreshAllKeys]
  | cons row rest ih =>
    obtain ⟨id, key⟩ := row
    rw [List.map_cons, List.nodup_cons] at hnodup
    obtain ⟨hkey, hprovider⟩ := hkeys (id, key) List.mem_cons_self
    intro e hmem
    rw [refreshAllKeys] at hmem
    split at hmem
    · exact ih hnodup.2 (fun row hrow => hkeys row (List.mem_cons_of_mem _ hrow)) e hmem
    rcases List.mem_append.mp hmem with hfetched | hrest
    · exact fetch_isolated hkey (fun _ => hprovider ▸ ownServer_firecrawl fwd) e hfetched
    · refine ih hnodup.2 (fun row hrow => ?_) e hrest
      obtain ⟨hget, hfirecrawl⟩ := hkeys row (List.mem_cons_of_mem _ hrow)
      have hid : row.1 ∈ rest.map Prod.fst := List.mem_map_of_mem hrow
      have hne : row.1 ≠ id := fun heq => hnodup.1 (heq ▸ hid)
      refine ⟨?_, hfirecrawl⟩
      rw [(fetch_row fwd.config fwd.security masterKey (env id) (requestId id) id key w).of_ne hne]
      exact hget

/-- The loop of the background pass, over keys with distinct ids whose readable secrets may be sent
to the Firecrawl URL. -/
theorem refreshKeys_isolated {now : Instant} {env : Nat → FetchEnv} {requestId : Nat → String}
    {keys : List (Nat × ApiKey)} {w : World} (hnodup : (keys.map Prod.fst).Nodup)
    (hkeys : ∀ row ∈ keys, w.key? row.1 = some row.2 ∧
      (fwd.decrypt masterKey row.2 ≠ none →
        OwnServer fwd row.2.provider fwd.config.firecrawl.baseUrl)) :
    ∀ e ∈ (refreshKeys fwd.config fwd.security masterKey now env requestId keys w).2,
      e.Isolated fwd := by
  induction keys generalizing w with
  | nil => simp [refreshKeys]
  | cons row rest ih =>
    obtain ⟨id, key⟩ := row
    rw [List.map_cons, List.nodup_cons] at hnodup
    obtain ⟨hkey, hown⟩ := hkeys (id, key) List.mem_cons_self
    intro e hmem
    rw [refreshKeys] at hmem
    simp only at hmem
    split at hmem
    · exact fetch_isolated hkey hown e hmem
    next nextRefreshAt _ =>
    rcases List.mem_append.mp hmem with hfetched | hrest
    · exact fetch_isolated hkey hown e hfetched
    · refine ih hnodup.2 (fun row hrow => ?_) e hrest
      obtain ⟨hget, hrow'⟩ := hkeys row (List.mem_cons_of_mem _ hrow)
      have hid : row.1 ∈ rest.map Prod.fst := List.mem_map_of_mem hrow
      have hne : row.1 ≠ id := fun heq => hnodup.1 (heq ▸ hid)
      refine ⟨?_, hrow'⟩
      rw [World.key?_modifyKey, if_neg hne,
        (fetch_row fwd.config fwd.security masterKey (env id) (requestId id) id key w).of_ne hne]
      exact hget

end Credits

/-! ### Runs -/

/-- A background pass starts where every due key whose secret can be read belongs to the server the
credits are fetched from. Every other use of keys may start anywhere. -/
def KeyUse.DueKeysAreFirecrawl (fwd : Forwarder) (w : World) : KeyUse → Prop
  | .refreshOnce now _ _ _ =>
    ∀ masterKey, fwd.masterKey = some masterKey → ∀ row ∈ w.db.keys.select (refreshDue now),
      fwd.decrypt masterKey row.2 ≠ none → OwnServer fwd row.2.provider fwd.config.firecrawl.baseUrl
  | _ => True

theorem perform_isolated {fwd : Forwarder} {w : World} {use : KeyUse}
    (hdue : use.DueKeysAreFirecrawl fwd w) :
    use.Isolated fwd w := by
  intro e hmem
  cases use with
  | forward turns req =>
    simp only [KeyUse.perform, Forwarded.exchanges, List.mem_filterMap] at hmem
    obtain ⟨event, hevent, hsome⟩ := hmem
    split at hsome
    · next exchange =>
      cases hsome
      exact forward_isolated turns req w e hevent
    · cases hsome
  | testKey env requestId id mode testUrl =>
    simp only [KeyUse.perform] at hmem
    split at hmem
    · cases hmem
    · next key hkey => exact testKey_isolated hkey e hmem
  | refreshKeyCredits now env requestId id =>
    simp only [KeyUse.perform] at hmem
    split at hmem
    · cases hmem
    · exact refreshKeyCredits_isolated now env requestId id w e hmem
  | refreshAllCredits keyIds force now env requestId =>
    simp only [KeyUse.perform] at hmem
    split at hmem
    · cases hmem
    rw [refreshAllCredits] at hmem
    refine refreshAllKeys_isolated ?_ (fun row hrow => ?_) e hmem
    · exact (select_ids_nodup w.db.keys refreshAllScope).sublist (List.filter_sublist.map _)
    · have hselected := Table.mem_select.mp (List.mem_of_mem_filter hrow)
      simp only [refreshAllScope, Bool.and_eq_true, beq_iff_eq] at hselected
      exact ⟨hselected.1, hselected.2.2⟩
  | refreshOnce now env requestId cleanupAt =>
    simp only [KeyUse.perform] at hmem
    split at hmem
    · cases hmem
    next masterKey hmaster =>
    rw [refreshOnce] at hmem
    split at hmem
    · cases hmem
    refine refreshKeys_isolated (select_ids_nodup w.db.keys (refreshDue now)) (fun row hrow => ?_) e
      hmem
    exact ⟨(Table.mem_select.mp hrow).1, hdue masterKey hmaster row hrow⟩

/-- In every run whose background passes meet no due key of another provider, every exchange of
every step is isolated. -/
theorem run_isolated (fwd : Forwarder) {w : World} {trace : List KeyUse}
    (hdue : Meets (KeyUse.next fwd) (fun w use => use.DueKeysAreFirecrawl fwd w) w trace) :
    Meets (KeyUse.next fwd) (fun w use => use.Isolated fwd w) w trace := by
  rw [meets_iff] at hdue ⊢
  intro before use after w' htrace hexec
  exact perform_isolated (hdue before use after w' htrace hexec)

/-! ### A background pass over an Exa key -/

/-- A state with one key, of the given provider, with the id 1. -/
def oneKeyWorld (provider : Provider) : World :=
  { db := { keys := Table.empty.insert { apiKeyCiphertext := [101, 120, 97], provider } } }

/-- A background pass in which the credit endpoint answers 401. -/
def unauthorizedPass : KeyUse :=
  .refreshOnce 0 (fun _ => { outcome := .response { statusCode := 401 }, now := 0, writtenAt := 0 })
    (fun _ => "") 0

theorem run_isolated_firecrawl :
    Meets (KeyUse.next defaultForwarder) (fun w use => use.Isolated defaultForwarder w)
      (oneKeyWorld .firecrawl)
      [unauthorizedPass] := by
  apply run_isolated
  refine ⟨?_, fun _ _ => trivial⟩
  intro masterKey _ row hmem _
  have hrow : row = (1, { apiKeyCiphertext := [101, 120, 97], provider := .firecrawl }) :=
    List.mem_singleton.mp hmem
  rw [hrow]
  exact ownServer_firecrawl defaultForwarder

/-- The pass sends the Exa key to the Firecrawl server, and the server's 401 disables it. -/
theorem refreshOnce_not_isolated :
    ¬∀ (fwd : Forwarder) (w : World) (trace : List KeyUse),
      Meets (KeyUse.next fwd) (fun w use => use.Isolated fwd w) w trace := by
  intro h
  have hisolated := (h defaultForwarder (oneKeyWorld .exa) [unauthorizedPass]).1
  have hown := (hisolated _ List.mem_cons_self).sentToOwnServer
    { apiKeyCiphertext := [101, 120, 97], provider := .exa } rfl
  exact absurd hown (by decide)

example : ((unauthorizedPass.perform defaultForwarder (oneKeyWorld .exa)).1.key? 1).map
    (·.isActive) = some false := by
  decide

end Fcam
