import Fcam.Proof.Sent

/-!
# A key after a 429

Every 429 of a forward or a key test is written into the row of its key: it cools down until the
header's or the configured number of seconds from then. The date arithmetic raises past the last
representable time, and the whole change is rolled back; a number of too many digits is not read at
all. `benches_iff` says for which headers the key ends up benched.
-/

namespace Fcam

/-! ### What a 429 asks for -/

/-- The integer a text states, however long it is. -/
def integerOf (s : PyStr) : Option Int :=
  let text := strip s
  let unsigned := if text.head? = some 43 ∨ text.head? = some 45 then text.tail else text
  (digits? unsigned).map fun digits =>
    if text.head? = some 45 then -(natOfDigits digits : Int) else natOfDigits digits

/-- The integer the `Retry-After` header states. -/
def statedSeconds (headers : List (String × String)) : Option Int :=
  (header headers "retry-after").bind fun raw => integerOf (strip (PyStr.ofString raw))

section

variable (config : AppConfig) (now : Instant) (headers : List (String × String))

/-- When the cooldown after a 429 may end at the earliest: the stated number of seconds from now, as
far as times go, where it is positive, and the configured number otherwise. -/
def earliestEnd : Instant :=
  match (statedSeconds headers).filter (0 < ·) with
  | some seconds => min (now + seconds * 1000000) datetimeMax
  | none => now + config.rateLimit.cooldownSeconds * 1000000

def Benched (row : ApiKey) : Prop :=
  row.status = .cooling ∧ ∃ cooldownUntil, row.cooldownUntil = some cooldownUntil ∧
    earliestEnd config now headers ≤ cooldownUntil

/-- A positive number that is stated but not read promises no later end than the configured
cooldown. -/
def UnreadCovered : Prop :=
  ∀ seconds, statedSeconds headers = some seconds → 0 < seconds → parseRetryAfter headers = none →
    min (now + seconds * 1000000) datetimeMax ≤ now + config.rateLimit.cooldownSeconds * 1000000

/-- The cooldown that is set ends at a representable time, and covers a number that is not read;
where it is not representable, the key is benched for as long already. -/
def Benchable (key : ApiKey) : Prop :=
  if (plusSeconds now (cooldownOf config headers)).isSome then UnreadCovered config now headers
  else Benched config now headers key

end

variable {config : AppConfig} {now : Instant} {headers : List (String × String)} {key : ApiKey}

theorem digits_of_natOfText {s : PyStr} {n : Nat} (h : natOfText s = some n) :
    ∃ digits, digits? s = some digits ∧ natOfDigits digits = n := by
  rw [natOfText] at h
  obtain ⟨digits, hdigits, hif⟩ := Option.bind_eq_some_iff.mp h
  split at hif
  · exact ⟨digits, hdigits, Option.some.inj hif⟩
  · cases hif

theorem integerOf_of_intOfText {s : PyStr} {n : Int} (h : intOfText s = some n) :
    integerOf s = some n := by
  have hsigned :
      ∀ {rest : PyStr} (sign : Int → Int),
        ((natOfText rest).bind fun k => some (k : Int)).map sign = some n →
        (digits? rest).map (fun digits => sign (natOfDigits digits)) = some n := by
    intro rest sign hsign
    obtain ⟨a, hbind, rfl⟩ := Option.map_eq_some_iff.mp hsign
    obtain ⟨k, hk, hcast⟩ := Option.bind_eq_some_iff.mp hbind
    obtain ⟨digits, hdigits, rfl⟩ := digits_of_natOfText hk
    rw [hdigits, Option.map_some, Option.some.inj hcast]
  rw [intOfText] at h
  split at h
  · next rest heq =>
    simp only [integerOf, heq, List.head?_cons, List.tail_cons, or_true, if_true]
    exact hsigned (fun n => -n) h
  · next rest heq =>
    simp only [integerOf, heq, List.head?_cons, List.tail_cons, true_or, if_true, Option.some.injEq,
      Nat.reduceEqDiff, if_false]
    exact hsigned id h
  · next text hminus hplus =>
    have hnominus : (strip s).head? ≠ some 45 := by
      intro hhead
      obtain ⟨rest, hrest⟩ := List.head?_eq_some_iff.mp hhead
      exact hminus rest hrest
    have hnoplus : (strip s).head? ≠ some 43 := by
      intro hhead
      obtain ⟨rest, hrest⟩ := List.head?_eq_some_iff.mp hhead
      exact hplus rest hrest
    simp only [integerOf, hnominus, hnoplus, or_self, if_false]
    exact hsigned id h

theorem parseRetryAfter_eq_some {seconds : Int} (h : parseRetryAfter headers = some seconds) :
    ∃ stated, statedSeconds headers = some stated ∧ seconds = max stated 0 := by
  rw [parseRetryAfter] at h
  split at h
  · cases h
  next raw hraw =>
  split at h
  · cases h
  obtain ⟨stated, hstated, hmax⟩ := Option.map_eq_some_iff.mp h
  refine ⟨stated, ?_, hmax.symm⟩
  rw [statedSeconds, hraw, Option.bind_some]
  exact integerOf_of_intOfText hstated

theorem earliestEnd_le_iff :
    earliestEnd config now headers ≤ now + cooldownOf config headers * 1000000 ↔
      UnreadCovered config now headers := by
  cases hread : parseRetryAfter headers with
  | some seconds =>
    obtain ⟨stated, hstated, hmax⟩ := parseRetryAfter_eq_some hread
    refine iff_of_true ?_ (fun _ _ _ hunread => by rw [hread] at hunread; cases hunread)
    rw [earliestEnd, hstated, cooldownOf, hread]
    dsimp only
    by_cases hpositive : 0 < stated
    · rw [Option.filter_some, if_pos (decide_eq_true hpositive), if_neg (by omega), hmax]
      rw [max_eq_left (Int.le_of_lt hpositive)]
      exact min_le_left _ _
    · rw [Option.filter_some, if_neg (by simpa using hpositive), if_pos (by omega)]
  | none =>
    rw [earliestEnd, UnreadCovered, cooldownOf, hread]
    dsimp only
    cases hstated : statedSeconds headers with
    | none =>
      refine iff_of_true ?_ (fun _ h => by cases h)
      exact Int.le_refl _
    | some stated =>
      by_cases hpositive : 0 < stated
      · rw [Option.filter_some, if_pos (decide_eq_true hpositive)]
        constructor
        · rintro hle _ ⟨⟩ _ _
          exact hle
        · intro h
          exact h stated rfl hpositive rfl
      · rw [Option.filter_some, if_neg (by simpa using hpositive)]
        refine iff_of_true (Int.le_refl _) ?_
        rintro _ ⟨⟩ hpos
        exact absurd hpos hpositive

theorem benched_markCooling_iff (henabled : isDisabled key = false) :
    Benched config now headers (markCooling now (cooldownOf config headers) key) ↔
      Benchable config now headers key := by
  rw [markCooling, if_neg (by rw [henabled]; exact Bool.false_ne_true), Benchable]
  cases hsum : plusSeconds now (cooldownOf config headers) with
  | none => exact Iff.rfl
  | some cooldownUntil =>
    have hlate := plusSeconds_eq_some hsum
    rw [Option.isSome_some, if_pos rfl, ← earliestEnd_le_iff, ← hlate, Benched]
    constructor
    · rintro ⟨-, _, ⟨⟩, hle⟩
      exact hle
    · intro hle
      exact ⟨rfl, cooldownUntil, rfl, hle⟩

/-! ### Exchanges -/

namespace Exchange

section

variable (config : AppConfig) (now : Instant) (e : Exchange)

/-- A 429 for an enabled key, written now, leaves it benched. -/
def Benches : Prop :=
  ∀ r key, e.outcome = .response r → r.statusCode = 429 → e.before.get? e.keyId = some key →
    isDisabled key = false →
      ∃ row, e.after.get? e.keyId = some row ∧ Benched config now r.headers row

/-- What the key and the header of a 429 have to be for it. -/
def CanBench : Prop :=
  ∀ r key, e.outcome = .response r → r.statusCode = 429 → e.before.get? e.keyId = some key →
    isDisabled key = false → Benchable config now r.headers key

end

theorem benches_iff {e : Exchange} (hwritten : ∀ r, e.outcome = .response r → r.statusCode = 429 →
      e.after.get? e.keyId =
      (e.before.get? e.keyId).map (markCooling now (cooldownOf config r.headers))) :
    e.Benches config now ↔ e.CanBench config now := by
  refine forall₂_congr fun r key => forall₄_congr fun houtcome h429 hkey henabled => ?_
  rw [hwritten r houtcome h429, hkey, Option.map_some, ← benched_markCooling_iff henabled]
  constructor
  · rintro ⟨_, ⟨⟩, hbenched⟩
    exact hbenched
  · intro hbenched
    exact ⟨_, rfl, hbenched⟩

end Exchange

/-! ### Forwards -/

section Forward

variable {fwd : Forwarder} {req : ForwardRequest} {turns : Nat → Turn} {e : Exchange}

theorem Exchange.MadeBy.benches_iff {i : Nat} (h : e.MadeBy fwd req turns i) :
    e.Benches fwd.config (turns i).settledAt ↔ e.CanBench fwd.config (turns i).settledAt := by
  apply Exchange.benches_iff
  intro r hr h429
  obtain ⟨reached, hrow⟩ := h.written
  rw [hr] at hrow
  rw [hrow]
  congr 1
  funext key
  rw [settleRow, if_pos h429]

end Forward

/-! ### Key tests -/

theorem notServed_of_mem_dropLast {outcome : Nat → Outcome} {candidates : List String} {i : Nat}
    {probe : String × Outcome} (h : probe ∈ (probes outcome i candidates).dropLast) :
    probe.2.notServed = true := by
  induction candidates generalizing i with
  | nil => cases h
  | cons path rest ih =>
    rw [probes] at h
    split at h
    · next hnot =>
      cases hrest : probes outcome (i + 1) rest with
      | nil =>
        rw [hrest] at h
        cases h
      | cons next more =>
        rw [hrest, List.dropLast_cons_cons, List.mem_cons] at h
        rcases h with rfl | hmem
        · exact hnot
        · rw [← hrest] at hmem
          exact ih hmem
    · cases h

theorem mem_dropLast_of_filter {α : Type} {p : α → Bool} {l : List α} {a : α}
    (h : a ∈ (l.filter p).dropLast) :
    a ∈ l.dropLast := by
  cases hlast : l.getLast? with
  | none =>
    rw [List.getLast?_eq_none_iff] at hlast
    rw [hlast] at h
    cases h
  | some last =>
    obtain ⟨init, rfl⟩ := List.getLast?_eq_some_iff.mp hlast
    rw [List.dropLast_concat]
    rw [List.filter_append] at h
    cases hp : p last with
    | true =>
      rw [List.filter_cons_of_pos hp, List.filter_nil, List.dropLast_concat] at h
      exact List.mem_of_mem_filter h
    | false =>
      rw [List.filter_cons_of_neg (by simp [hp]), List.filter_nil, List.append_nil] at h
      exact List.mem_of_mem_filter (List.mem_of_mem_dropLast h)

theorem not_notServed_of_429 {r : UpstreamResponse} (h429 : r.statusCode = 429) :
    (Outcome.response r).notServed = false := by
  rw [Outcome.notServed, h429]
  rfl

theorem testKeyWith_benches_iff {fwd : Forwarder} {env : TestEnv} {requestId : String} {id : Nat}
    {w : World} {provider : Provider} {candidates : List String} {body : Json} {masterKey : Bytes}
    {key : ApiKey} {e : Exchange}
    (hmem : e ∈ (testKeyWith fwd env requestId id w provider candidates body masterKey
      key).exchanges) :
    e.Benches fwd.config env.now ↔ e.CanBench fwd.config env.now := by
  rw [testKeyWith] at hmem
  simp only at hmem
  split at hmem
  · cases hmem
  split at hmem
  · cases hmem
  apply Exchange.benches_iff
  intro r hr h429
  have hserved := not_notServed_of_429 h429
  simp only [List.mem_append, List.mem_map, Option.mem_toList] at hmem
  rcases hmem with ⟨probe, hprobe, rfl⟩ | ⟨probe, hprobe, rfl⟩
  · have hnot := notServed_of_mem_dropLast (mem_dropLast_of_filter hprobe)
    rw [show probe.2 = .response r from hr, hserved] at hnot
    cases hnot
  · have hsent := List.mem_of_mem_filter (List.mem_of_getLast? hprobe)
    obtain ⟨last, hlast⟩ :=
      Option.isSome_iff_exists.mp (List.getLast?_isSome.mpr (List.ne_nil_of_mem hsent))
    have hsame : probe = last := by
      obtain ⟨init, hinit⟩ := List.getLast?_eq_some_iff.mp hlast
      rw [hinit, List.mem_append, List.mem_singleton] at hsent
      refine hsent.resolve_left fun hearlier => ?_
      have hdropped : probe ∈ (probes env.outcome 0 candidates).dropLast := by
        rw [hinit, List.dropLast_concat]
        exact hearlier
      have hnot := notServed_of_mem_dropLast hdropped
      rw [show probe.2 = .response r from hr, hserved] at hnot
      cases hnot
    have hrow := settleTest_row fwd.config probe.2 env.now id w id
    rw [if_pos rfl, show probe.2 = .response r from hr] at hrow
    rw [hlast, ← hsame, Option.map_some, Option.getD_some, show probe.2 = .response r from hr]
    refine hrow.trans ?_
    congr 1
    funext row
    have hlost : ¬is2xx r.statusCode = true := by
      rw [h429]
      decide
    rw [testRow, if_neg hlost, if_pos h429]

theorem testKey_benches_iff {fwd : Forwarder} {env : TestEnv} {requestId : String} {id : Nat}
    {w : World} {mode : String} {testUrl : PyStr} {key : ApiKey} {e : Exchange}
    (hmem : e ∈ (testKey fwd env requestId id w mode testUrl key).exchanges) :
    e.Benches fwd.config env.now ↔ e.CanBench fwd.config env.now := by
  rw [testKey] at hmem
  simp only at hmem
  split at hmem
  · cases hmem
  split at hmem
  · cases hmem
  split at hmem
  · exact testKeyWith_benches_iff hmem
  · exact testKeyWith_benches_iff hmem

/-- Every 429 of a forward or of a key test benches its key exactly when its header and the key
allow it. -/
theorem rate_limit_benches_iff (fwd : Forwarder) :
    (∀ turns req w, ∀ e ∈ exchangesOf (forward fwd turns req w).events, ∃ i,
      e.MadeBy fwd req turns i ∧
        (e.Benches fwd.config (turns i).settledAt ↔ e.CanBench fwd.config (turns i).settledAt)) ∧
      ∀ env requestId id w mode testUrl key,
        ∀ e ∈ (testKey fwd env requestId id w mode testUrl key).exchanges,
        (e.Benches fwd.config env.now ↔ e.CanBench fwd.config env.now) := by
  constructor
  · intro turns req w e hmem
    obtain ⟨i, hmade⟩ := forward_logMade fwd turns req w e (mem_exchangesOf.mp hmem)
    exact ⟨i, hmade, hmade.benches_iff⟩
  · intro env requestId id w mode testUrl key e hmem
    exact testKey_benches_iff hmem

/-- A 429 with a `Retry-After` header. -/
def tooManyRequests (retryAfter : String) : Outcome :=
  .response { statusCode := 429, headers := [("retry-after", retryAfter)] }

/-- A forward over one key that is answered so. -/
def rateLimitedForward (retryAfter : String) : Forwarded :=
  forward defaultForwarder (fun _ => .unhindered 0 0 (tooManyRequests retryAfter))
    { clientId := 1, method := "POST", upstreamPath := "/scrape" } (servedWorld 5)

theorem half_minute_benches :
    ∃ e ∈ exchangesOf (rateLimitedForward "30").events, e.Benches {} 0 := by
  have hsome : (exchangesOf (rateLimitedForward "30").events).head?.isSome = true := by
    decide
  obtain ⟨e, hhead⟩ := Option.isSome_iff_exists.mp hsome
  have hmem := List.mem_of_head? hhead
  obtain ⟨i, ⟨baseUrl, plaintextKey, w, hmade⟩, hiff⟩ :=
    (rate_limit_benches_iff defaultForwarder).1 _ _ _ e hmem
  refine ⟨e, hmem, hiff.mpr ?_⟩
  intro r key houtcome _ _ _
  rw [(mem_callEvents hmade).2.1] at houtcome
  cases houtcome
  have hread : parseRetryAfter [("retry-after", "30")] = some 30 := by decide
  rw [Benchable, cooldownOf, hread, if_pos (by decide)]
  intro _ _ _ hnone
  rw [hread] at hnone
  cases hnone

/-- A number of seconds past the last representable time: the key stays as it was. -/
theorem distant_retry_after_benches_nothing :
    ∃ e ∈ exchangesOf (rateLimitedForward "999999999999").events, ¬e.Benches {} 0 := by
  have hrows : (exchangesOf (rateLimitedForward "999999999999").events).head?.map (fun e =>
      (e.before.get? e.keyId, (e.after.get? e.keyId).map ApiKey.status)) =
        some ((servedWorld 5).key? 1, some .active) := by decide
  obtain ⟨e, hhead, hrow⟩ := Option.map_eq_some_iff.mp hrows
  have hmem := List.mem_of_head? hhead
  obtain ⟨i, baseUrl, plaintextKey, w, hmade⟩ := forward_logMade _ _ _ _ e (mem_exchangesOf.mp hmem)
  rw [Prod.mk.injEq] at hrow
  refine ⟨e, hmem, fun hbenches => ?_⟩
  obtain ⟨row, hafter, hcooling, -⟩ := hbenches _ _ (mem_callEvents hmade).2.1 rfl hrow.1 rfl
  rw [hafter, Option.map_some, Option.some.injEq, hcooling] at hrow
  cases hrow.2

end Fcam
