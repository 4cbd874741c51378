import Fcam.Base.Tally
import Fcam.Model.DispatchRun
import Fcam.Proof.Select

/-!
# Counters under concurrent forwards

Every answer a request gets is to be added once to each counter it concerns. An increment is the
loaded value plus one, so it is right where the value is still the stored one when it is committed,
and a lazy reset is right where nothing has been counted on the day. `Counted` says that the
counters agree with what has been accounted, for any choice of counters to keep track of; a step
that meets the two conditions for them keeps it.
-/

namespace Fcam

/-! ### What a request contributes -/

/-- The 2xx answer a request has got, with the key that got it. -/
def Dispatch.answered (d : Dispatch) : Option (Nat × UpstreamResponse) :=
  match d.phase with
  | .settling id _ (.response r) => if is2xx r.statusCode then some (id, r) else none
  | .accounting id _ _ r => some (id, r)
  | .finished answered => answered
  | _ => none

/-- The answer, once it has been accounted. -/
def Dispatch.accounted (d : Dispatch) : Option (Nat × UpstreamResponse) :=
  match d.phase with
  | .finished answered => answered
  | _ => none

def countWith (id : Nat) (answer : Option (Nat × UpstreamResponse)) : Nat :=
  if answer.any fun a => a.1 == id then 1 else 0

def countFor (clientId : Nat) (d : Dispatch) (answer : Option (Nat × UpstreamResponse)) : Nat :=
  if d.req.clientId = clientId ∧ answer.isSome then 1 else 0

def chargeWith (fwd : Forwarder) (id : Nat) (d : Dispatch)
    (answer : Option (Nat × UpstreamResponse)) : Int :=
  ((answer.filter fun a => a.1 == id).bind fun a => d.cost fwd a.2).getD 0

namespace DispatchState

/-- The number of 2xx answers obtained with a key. -/
def answersWith (st : DispatchState) (id : Nat) : Nat :=
  tally (fun d => countWith id d.answered) st.requests

/-- The number of 2xx answers obtained for a client. -/
def answersFor (st : DispatchState) (clientId : Nat) : Nat :=
  tally (fun d => countFor clientId d d.answered) st.requests

/-- The sum of the costs of the 2xx answers obtained with a key. -/
def chargesWith (fwd : Forwarder) (st : DispatchState) (id : Nat) : Int :=
  tally (fun d => chargeWith fwd id d d.answered) st.requests

end DispatchState

/-! ### Rows and copies -/

/-- The counters one can keep track of. -/
inductive Counter where
  | keyUsage
  | keyRequests
  | credits
  | clientUsage

/-- Credits from which a sum of costs has been deducted, down to 0 at the least. -/
def deducted (credits charges : Int) : Int :=
  if charges = 0 then credits else max 0 (credits - charges)

section

variable (tracked : Counter → Prop) (today : Day)

/-- A key's row agrees with what was accounted since it was `key₀`. -/
structure KeyCounted (key₀ : ApiKey) (count : Nat) (charges : Int) (key : ApiKey) : Prop where
  quota : key.dailyQuota = key₀.dailyQuota
  reset : key.quotaResetAt = key₀.quotaResetAt ∨ key.quotaResetAt = some today
  usage : tracked .keyUsage →
    key.dailyUsage = (if key.quotaResetAt = key₀.quotaResetAt then key₀.dailyUsage else 0) + count
  requests : tracked .keyRequests → key.totalRequests = key₀.totalRequests + count
  credits : tracked .credits → ∀ credits, key₀.cachedRemainingCredits = some credits →
    key.cachedRemainingCredits = some (deducted credits charges)

structure ClientCounted (client₀ : Client) (count : Nat) (client : Client) : Prop where
  quota : client.dailyQuota = client₀.dailyQuota
  reset : client.quotaResetAt = client₀.quotaResetAt ∨ client.quotaResetAt = some today
  usage : tracked .clientUsage → client₀.dailyQuota.isSome →
    client.dailyUsage = (if client.quotaResetAt = client₀.quotaResetAt then client₀.dailyUsage
      else 0) + count

/-- A copy of a row, however old, is of this day or has at least what the row started with. -/
def KeyCopy (key₀ copy : ApiKey) : Prop :=
  copy.quotaResetAt = some today ∨
    (copy.quotaResetAt = key₀.quotaResetAt ∧
     (tracked .keyUsage → key₀.dailyUsage ≤ copy.dailyUsage))

def ClientCopy (client₀ copy : Client) : Prop :=
  copy.dailyQuota = client₀.dailyQuota ∧
    (copy.quotaResetAt = some today ∨
      (copy.quotaResetAt = client₀.quotaResetAt ∧
        (tracked .clientUsage → client₀.dailyQuota.isSome → client₀.dailyUsage ≤ copy.dailyUsage)))

/-- The row a selection examined, with its counters as loaded or reset. -/
def Scanned (before row : ApiKey) : Prop :=
  row.dailyQuota = before.dailyQuota ∧ row.totalRequests = before.totalRequests ∧
    row.cachedRemainingCredits = before.cachedRemainingCredits ∧
      ((row.quotaResetAt = before.quotaResetAt ∧ row.dailyUsage = before.dailyUsage) ∨
        (before.quotaResetAt ≠ some today ∧ row.quotaResetAt = some today ∧ row.dailyUsage = 0))

/-- The copies of key rows a request holds. -/
def DispatchPhase.keyCopies : DispatchPhase → List (Nat × ApiKey)
  | choosing held => held.toList
  | picked _ _ loaded _ => loaded
  | gating id key => [(id, key)]
  | calling id key => [(id, key)]
  | settling id key _ => [(id, key)]
  | accounting id key _ _ => [(id, key)]
  | _ => []

def DispatchPhase.clientCopies : DispatchPhase → List Client
  | governing client => [client]
  | accounting _ _ client _ => [client]
  | _ => []

/-- What a request holds comes from the rows of the state `w₀` and what became of them. -/
structure Dispatch.CopiesOk (w₀ : World) (d : Dispatch) : Prop where
  hasClient : ∃ client₀, w₀.client? d.req.clientId = some client₀
  keys : ∀ copy ∈ d.phase.keyCopies, ∀ key₀, w₀.key? copy.1 = some key₀ →
    KeyCopy tracked today key₀ copy.2
  clients : ∀ copy ∈ d.client.toList ++ d.phase.clientCopies, ∀ client₀,
    w₀.client? d.req.clientId = some client₀ →
    ClientCopy tracked today client₀ copy
  scanned : ∀ idx id loaded examined, d.phase = .picked idx id loaded examined →
    ∀ e ∈ examined, ∀ before,
    loaded.lookup e.id = some before → Scanned today before e.row

/-- The counters of every key agree with what has been accounted. -/
def KeysCounted (fwd : Forwarder) (w₀ : World) (requests : List Dispatch) (w : World) : Prop :=
  ∀ id key₀, w₀.key? id = some key₀ → ∃ key, w.key? id = some key ∧
    KeyCounted tracked today key₀ (tally (fun d => countWith id d.accounted) requests)
      (tally (fun d => chargeWith fwd id d d.accounted) requests) key

def ClientsCounted (w₀ : World) (requests : List Dispatch) (w : World) : Prop :=
  ∀ id client₀, w₀.client? id = some client₀ → ∃ client, w.client? id = some client ∧
    ClientCounted tracked today client₀ (tally (fun d => countFor id d d.accounted) requests) client

structure Counted (fwd : Forwarder) (w₀ : World) (st : DispatchState) : Prop where
  keys : KeysCounted tracked today fwd w₀ st.requests st.world
  clients : ClientsCounted tracked today w₀ st.requests st.world
  copies : ∀ d ∈ st.requests, d.CopiesOk tracked today w₀

/-! ### The condition on a step -/

/-- A reset counts nothing of the day away, and what is incremented is still what was loaded. -/
def Dispatch.CountsFresh (fwd : Forwarder) (st : DispatchState) (d : Dispatch) : Prop :=
  match d.phase with
  | .governing client =>
    tracked .clientUsage → fwd.config.quota.enableQuotaCheck = true → client.dailyQuota.isSome →
      client.quotaResetAt ≠ some today → client.dailyUsage ≠ 0 → st.answersFor d.req.clientId = 0
  | .picked _ _ loaded examined =>
    tracked .keyUsage → ∀ e ∈ examined, ∀ before, loaded.lookup e.id = some before →
      e.row.quotaResetAt ≠ before.quotaResetAt → before.dailyUsage ≠ 0 → st.answersWith e.id = 0
  | .accounting id key client r =>
    (∀ stored, st.world.key? id = some stored →
      (tracked .keyUsage → key.dailyUsage = stored.dailyUsage) ∧
        (tracked .keyRequests → key.totalRequests = stored.totalRequests) ∧
          (tracked .credits → (d.cost fwd r).isSome →
           key.cachedRemainingCredits = stored.cachedRemainingCredits)) ∧
      ∀ stored, st.world.client? d.req.clientId = some stored → tracked .clientUsage →
        client.dailyQuota.isSome → client.dailyUsage = stored.dailyUsage
  | _ => True

/-- A step of the day that meets the condition. -/
def DispatchAction.CountsFresh (fwd : Forwarder) (st : DispatchState) : DispatchAction → Prop
  | .arrive _ => True
  | .advance i turn =>
    turn.pool.reading.today = today ∧ ∀ d, st.requests[i]? = some d →
      d.CountsFresh tracked today fwd st

end

/-! ### Costs -/

theorem baseCost_pos (endpoint : String) : 1 ≤ (creditCostMap.lookup endpoint).getD 1 := by
  cases hlookup : creditCostMap.lookup endpoint with
  | none => exact le_refl 1
  | some cost =>
    obtain ⟨before, after, hmap, _⟩ := List.lookup_eq_some_iff.mp hlookup
    have hmem : (endpoint, cost) ∈ creditCostMap := by simp [hmap]
    have hall : ∀ entry ∈ creditCostMap, 1 ≤ entry.2 := by decide
    exact hall _ hmem

theorem estimateCreditCost_pos {endpoint : String} {responseData : Option Json} {cost : Int}
    (h : estimateCreditCost endpoint responseData = some cost) : 1 ≤ cost := by
  have hbase := baseCost_pos endpoint
  simp only [estimateCreditCost] at h
  split at h
  · obtain ⟨pages, _, rfl⟩ := Option.map_eq_some_iff.mp h
    exact le_trans hbase (le_max_left _ _)
  · obtain ⟨count, _, rfl⟩ := Option.map_eq_some_iff.mp h
    exact le_max_right _ _
  · rw [← Option.some.inj h]
    exact hbase

theorem localCost_pos {config : AppConfig} {method upstreamPath : String} {r : UpstreamResponse}
    {cost : Int} (h : localCost config method upstreamPath r = some cost) : 1 ≤ cost := by
  simp only [localCost] at h
  split at h
  · exact estimateCreditCost_pos h
  · cases h

theorem chargeWith_nonneg (fwd : Forwarder) (id : Nat) (d : Dispatch)
    (answer : Option (Nat × UpstreamResponse)) :
    0 ≤ chargeWith fwd id d answer := by
  rw [chargeWith]
  cases hcost : (answer.filter fun a => a.1 == id).bind fun a => d.cost fwd a.2 with
  | none => exact le_refl 0
  | some cost =>
    obtain ⟨a, _, hlocal⟩ := Option.bind_eq_some_iff.mp hcost
    exact le_trans (by decide) (localCost_pos hlocal)

theorem deducted_add {credits charges cost : Int} (hcharges : 0 ≤ charges) (hcost : 1 ≤ cost) :
    max 0 (deducted credits charges - cost) = deducted credits (charges + cost) := by
  rw [deducted, deducted]
  split <;> split <;> omega

/-! ### Rows -/

/-- The row has the counters it was loaded with. -/
def SameCounters (loaded current : ApiKey) : Prop :=
  current.dailyQuota = loaded.dailyQuota ∧ current.quotaResetAt = loaded.quotaResetAt ∧
    current.dailyUsage = loaded.dailyUsage ∧ current.totalRequests = loaded.totalRequests ∧
      current.cachedRemainingCredits = loaded.cachedRemainingCredits

section

variable {tracked : Counter → Prop} {today : Day} {key₀ key : ApiKey} {count : Nat} {charges : Int}

theorem KeyCounted.copy (h : KeyCounted tracked today key₀ count charges key) :
    KeyCopy tracked today key₀ key := by
  rcases h.reset with heq | htoday
  · refine .inr ⟨heq, fun hkept => ?_⟩
    have husage := h.usage hkept
    rw [if_pos heq] at husage
    omega
  · exact .inl htoday

theorem KeyCounted.save_same {loaded current : ApiKey}
    (h : KeyCounted tracked today key₀ count charges key) (hsame : SameCounters loaded current) :
    KeyCounted tracked today key₀ count charges (ApiKey.save loaded current key) := by
  obtain ⟨hquota, hreset, husage, hrequests, hcredits⟩ := hsame
  constructor
  · simp only [ApiKey.save, hquota, writeBack_unchanged]
    exact h.quota
  · simp only [ApiKey.save, hreset, writeBack_unchanged]
    exact h.reset
  · simp only [ApiKey.save, husage, hreset, writeBack_unchanged]
    exact h.usage
  · simp only [ApiKey.save, hrequests, writeBack_unchanged]
    exact h.requests
  · simp only [ApiKey.save, hcredits, writeBack_unchanged]
    exact h.credits

/-- A selection that resets the counter of a row, where nothing has been counted on it. -/
theorem KeyCounted.save_scanned {before row : ApiKey}
    (h : KeyCounted tracked today key₀ count charges key)
    (hcopy : KeyCopy tracked today key₀ before) (hscanned : Scanned today before row)
    (hfresh : tracked .keyUsage → row.quotaResetAt ≠ before.quotaResetAt →
      before.dailyUsage ≠ 0 → count = 0) :
    KeyCounted tracked today key₀ count charges (ApiKey.save before row key) := by
  obtain ⟨hquota, hrequests, hcredits, ⟨hreset, husage⟩ | ⟨hbefore, hreset, husage⟩⟩ := hscanned
  · exact h.save_same ⟨hquota, hreset, husage, hrequests, hcredits⟩
  have hkey₀ := hcopy.resolve_left hbefore
  have hne : key₀.quotaResetAt ≠ some today := hkey₀.1 ▸ hbefore
  have hchanged : row.quotaResetAt ≠ before.quotaResetAt := by
    rw [hreset]
    exact hbefore.symm
  have hsaved : writeBack before.quotaResetAt row.quotaResetAt key.quotaResetAt = some today := by
    rw [writeBack_of_ne hchanged, hreset]
  constructor
  · simp only [ApiKey.save, hquota, writeBack_unchanged]
    exact h.quota
  · exact .inr hsaved
  · intro hkept
    simp only [ApiKey.save, hsaved, if_neg hne.symm]
    rcases writeBack_cases before.dailyUsage row.dailyUsage key.dailyUsage with ⟨hzero, hstored⟩ |
      ⟨hwritten, hstored⟩
    · -- The copy had nothing to reset, so the row had nothing at the start either.
      rw [hstored, h.usage hkept]
      have hstart := hkey₀.2 hkept
      split <;> omega
    · rw [hstored, husage, hfresh hkept hchanged (fun hzero => hwritten (husage.trans hzero.symm))]
  · simp only [ApiKey.save, hrequests, writeBack_unchanged]
    exact h.requests
  · simp only [ApiKey.save, hcredits, writeBack_unchanged]
    exact h.credits

@[simp] theorem consumeKey_dailyQuota (now : Instant) (key : ApiKey) :
    (consumeKey now key).dailyQuota = key.dailyQuota := by
  simp only [consumeKey]
  split <;> rfl

@[simp] theorem consumeKey_quotaResetAt (now : Instant) (key : ApiKey) :
    (consumeKey now key).quotaResetAt = key.quotaResetAt := by
  simp only [consumeKey]
  split <;> rfl

@[simp] theorem consumeKey_dailyUsage (now : Instant) (key : ApiKey) :
    (consumeKey now key).dailyUsage = key.dailyUsage + 1 := by
  simp only [consumeKey]
  split <;> rfl

@[simp] theorem consumeKey_totalRequests (now : Instant) (key : ApiKey) :
    (consumeKey now key).totalRequests = key.totalRequests + 1 := by
  simp only [consumeKey]
  split <;> rfl

@[simp] theorem consumeKey_cachedRemainingCredits (now : Instant) (key : ApiKey) :
    (consumeKey now key).cachedRemainingCredits = key.cachedRemainingCredits := by
  simp only [consumeKey]
  split <;> rfl

theorem deductCredits_eq (cost : Option Int) (key : ApiKey) :
    deductCredits cost key =
      { key with
        cachedRemainingCredits :=
          key.cachedRemainingCredits.map fun old =>
            (cost.map fun cost => max 0 (old - cost)).getD old } := by
  cases cost with
  | none => cases key; simp [deductCredits]
  | some cost =>
    cases hcredits : key.cachedRemainingCredits with
    | none => cases key; simp_all [deductCredits]
    | some old => simp [deductCredits, hcredits]

/-- An answer accounted on a row whose counters are still what was loaded. -/
theorem KeyCounted.save_accounted {loaded : ApiKey} {cost : Option Int} {now : Instant}
    (h : KeyCounted tracked today key₀ count charges key) (hcharges : 0 ≤ charges)
    (hcost : ∀ c, cost = some c → 1 ≤ c)
    (husage : tracked .keyUsage → loaded.dailyUsage = key.dailyUsage)
    (hrequests : tracked .keyRequests → loaded.totalRequests = key.totalRequests)
    (hcredits : tracked .credits → cost.isSome →
      loaded.cachedRemainingCredits = key.cachedRemainingCredits) :
    KeyCounted tracked today key₀ (count + 1) (charges + cost.getD 0)
      (ApiKey.save loaded (consumeKey now (deductCredits cost loaded)) key) := by
  rw [deductCredits_eq]
  constructor
  · simp only [ApiKey.save, consumeKey_dailyQuota, writeBack_unchanged]
    exact h.quota
  · simp only [ApiKey.save, consumeKey_quotaResetAt, writeBack_unchanged]
    exact h.reset
  · intro hkept
    simp only [ApiKey.save, consumeKey_quotaResetAt, consumeKey_dailyUsage, writeBack_unchanged,
      writeBack_of_ne (Nat.succ_ne_self _), husage hkept, h.usage hkept]
    omega
  · intro hkept
    simp only [ApiKey.save, consumeKey_totalRequests, writeBack_of_ne (Nat.succ_ne_self _),
      hrequests hkept, h.requests hkept]
    omega
  · intro hkept credits hstart
    have hstored := h.credits hkept credits hstart
    cases cost with
    | none =>
      simp only [ApiKey.save, consumeKey_cachedRemainingCredits, Option.map_none, Option.getD_none,
        Option.map_id', writeBack_unchanged, add_zero]
      exact hstored
    | some cost =>
      have hloaded := hcredits hkept rfl
      simp only [ApiKey.save, consumeKey_cachedRemainingCredits, hloaded, writeBack_fresh, hstored,
        Option.map_some, Option.getD_some]
      rw [deducted_add hcharges (hcost cost rfl)]

theorem ClientCounted.copy {client₀ client : Client}
    (h : ClientCounted tracked today client₀ count client) :
    ClientCopy tracked today client₀ client := by
  refine ⟨h.quota, ?_⟩
  rcases h.reset with heq | htoday
  · refine .inr ⟨heq, fun hkept hquota => ?_⟩
    have husage := h.usage hkept hquota
    rw [if_pos heq] at husage
    omega
  · exact .inl htoday

/-- The reset of a client's counter, where nothing has been counted on it. -/
theorem ClientCounted.save_reset {client₀ client loaded : Client}
    (h : ClientCounted tracked today client₀ count client)
    (hcopy : ClientCopy tracked today client₀ loaded) (hbefore : loaded.quotaResetAt ≠ some today)
    (hfresh : tracked .clientUsage → loaded.dailyUsage ≠ 0 → count = 0) :
    ClientCounted tracked today client₀ count
      (Client.save loaded (resetClient today loaded) client) := by
  have hclient₀ := hcopy.2.resolve_left hbefore
  have hne : client₀.quotaResetAt ≠ some today := hclient₀.1 ▸ hbefore
  have hsaved : (Client.save loaded (resetClient today loaded) client).quotaResetAt = some today :=
    writeBack_of_ne hbefore.symm _
  constructor
  · simp only [Client.save, resetClient, writeBack_unchanged]
    exact h.quota
  · exact .inr hsaved
  · intro hkept hquota
    rw [hsaved, if_neg hne.symm]
    simp only [Client.save, resetClient]
    rcases writeBack_cases loaded.dailyUsage 0 client.dailyUsage with ⟨hzero, hstored⟩ |
      ⟨hwritten, hstored⟩
    · rw [hstored, h.usage hkept hquota]
      have hstart := hclient₀.2 hkept hquota
      split <;> omega
    · rw [hstored, hfresh hkept hwritten.symm]

theorem ClientCounted.save_accounted {client₀ client loaded : Client} {now : Instant}
    (h : ClientCounted tracked today client₀ count client)
    (hcopy : ClientCopy tracked today client₀ loaded)
    (hfresh : tracked .clientUsage → loaded.dailyQuota.isSome →
      loaded.dailyUsage = client.dailyUsage) :
    ClientCounted tracked today client₀ (count + 1)
    (Client.save loaded (consumeClient now loaded) client) := by
  constructor
  · simp only [Client.save, consumeClient, writeBack_unchanged]
    exact h.quota
  · simp only [Client.save, consumeClient, writeBack_unchanged]
    exact h.reset
  · intro hkept hquota
    have hloaded : loaded.dailyQuota.isSome = true := hcopy.1 ▸ hquota
    simp only [Client.save, consumeClient, hloaded, if_true, writeBack_unchanged,
      writeBack_of_ne (Nat.succ_ne_self _), hfresh hkept hloaded, h.usage hkept hquota]
    omega

end

end Fcam
