import Fcam.Proof.CreditCost
import Fcam.Proof.Sent

/-!
# What is charged against the cached credits

An answer is charged by its method and its endpoint alone, and everything below a crawl or a batch
is taken for the creation itself. So a request that cancels a job or previews its parameters is
charged like one that starts it.
-/

namespace Fcam

/-! ### Endpoints -/

/-- The path a request is sent under, without its query. -/
def endpointText (path : String) : List Char := path.toList.takeWhile (· ≠ '?')

/-- The endpoint has a price. -/
def IsPriced (path : String) : Prop :=
  String.ofList (endpointText path) ∈ creditCostMap.map Prod.fst
deriving Decidable

/-- The other endpoints under which priced work is started. -/
def startAliases : List String := ["/v2/crawl/start", "/v2/batch/scrape/start"]

/-- The request starts work on a priced endpoint. -/
def StartsPriced (method path : String) : Prop :=
  upper method = "POST".toList ∧ (IsPriced path ∨ String.ofList (endpointText path) ∈ startAliases)
deriving Decidable

/-- The endpoint lies below one that creates crawls or batches. -/
def BelowCreation (path : String) : Prop :=
  ∃ root ∈ ["/v1/crawl", "/v2/crawl", "/v2/batch/scrape"],
  root.toList ++ ['/'] <+: endpointText path

/-- An endpoint cut to three segments below a crawl, to four below a batch. -/
def cutSegments (parts : List (List Char)) : List (List Char) :=
  if 4 ≤ parts.length ∧ parts[2]? = some "crawl".toList then parts.take 3
  else if 5 ≤ parts.length ∧ parts[2]? = some "batch".toList then parts.take 4
  else parts

/-- The segments of the priced endpoints. -/
def pricedSegments : List (List (List Char)) :=
  creditCostMap.map fun entry => segments entry.1.toList

theorem segments_injective {first second : List Char} (h : segments first = segments second) :
    first = second := by
  have hjoined : ∀ text, ['/'].intercalate (segments text) = text :=
    fun text => List.intercalate_splitOn '/'
  rw [← hjoined first, h, hjoined]

theorem mem_creditCostMap_iff (text : List Char) :
    String.ofList text ∈ creditCostMap.map Prod.fst ↔ segments text ∈ pricedSegments := by
  rw [pricedSegments, List.mem_map, List.mem_map]
  constructor
  · rintro ⟨entry, hentry, htext⟩
    exact ⟨entry, hentry, by rw [htext, String.toList_ofList]⟩
  · rintro ⟨entry, hentry, hsegments⟩
    refine ⟨entry, hentry, ?_⟩
    rw [← segments_injective hsegments, String.ofList_toList]

theorem normalizeEndpoint_eq (path : String) :
    normalizeEndpoint path =
      String.ofList (['/'].intercalate (cutSegments (segments (endpointText path)))) := by
  have hself :
      String.ofList (endpointText path) =
        String.ofList (['/'].intercalate (segments (endpointText path))) := by
    rw [segments, List.intercalate_splitOn]
  rw [normalizeEndpoint, cutSegments]
  show (if endpointText path = [] ∨ endpointText path = ['/'] then String.ofList (endpointText path)
    else if 4 ≤ (segments (endpointText path)).length ∧ (segments (endpointText path))[2]? =
      some "crawl".toList then _
    else if 5 ≤ (segments (endpointText path)).length ∧ (segments (endpointText path))[2]? =
      some "batch".toList then _
    else String.ofList (endpointText path)) = _
  split
  · next hroot =>
    rcases hroot with hnil | hslash
    · rw [hnil]
      rfl
    · rw [hslash]
      rfl
  split
  · rfl
  split
  · rfl
  · exact hself

theorem pricedSegments_eq :
    pricedSegments =
      [[[], "v1".toList, "scrape".toList], [[], "v1".toList, "crawl".toList],
        [[], "v1".toList, "search".toList],
        [[], "v1".toList, "map".toList], [[], "v2".toList, "scrape".toList],
          [[], "v2".toList, "crawl".toList],
        [[], "v2".toList, "map".toList], [[], "v2".toList, "extract".toList],
        [[], "v2".toList, "batch".toList, "scrape".toList]] := by
  decide

/-- Cut to its endpoint a path has a price where it had one before, or lies below a creation. -/
theorem cutSegments_priced_iff (parts : List (List Char)) :
    cutSegments parts ∈ pricedSegments ↔ parts ∈ pricedSegments ∨
      ∃ next rest, parts = [[], "v1".toList, "crawl".toList] ++ next :: rest ∨
        parts = [[], "v2".toList, "crawl".toList] ++ next :: rest ∨
        parts = [[], "v2".toList, "batch".toList, "scrape".toList] ++ next :: rest := by
  have hdistinct : "crawl".toList ≠ "batch".toList := by decide
  rw [cutSegments, pricedSegments_eq]
  -- No price hangs on what the segments are, only on which of them are the same.
  generalize "v1".toList = v1, "v2".toList = v2, "scrape".toList = scrape, "search".toList = search,
    "map".toList = mapUrls, "extract".toList = extract, "crawl".toList = crawl,
    "batch".toList = batch at *
  match parts with
  | [] => simp
  | [a] => simp
  | [a, b] => simp
  | [a, b, c] => simp
  | [a, b, c, d] =>
    by_cases hcrawl : c = crawl
    · subst hcrawl
      simp [hdistinct]
      grind
    · simp [hcrawl]
  | a :: b :: c :: d :: e :: rest =>
    by_cases hcrawl : c = crawl
    · subst hcrawl
      simp [hdistinct]
      grind
    · by_cases hbatch : c = batch
      · subst hbatch
        simp [hcrawl]
      · simp [hcrawl, hbatch]

theorem append_slash_prefix_iff {root text : List Char} :
    root ++ ['/'] <+: text ↔ ∃ next rest, segments text = segments root ++ next :: rest := by
  constructor
  · rintro ⟨tail, rfl⟩
    obtain ⟨next, rest, htail⟩ := List.exists_cons_of_ne_nil (segments_ne_nil tail)
    refine ⟨next, rest, ?_⟩
    rw [List.append_assoc, List.singleton_append, segments_append_slash, htail]
  · rintro ⟨next, rest, hsegments⟩
    have hparts : ∀ part ∈ next :: rest, '/' ∉ part := by
      intro part hpart
      apply @not_mem_of_mem_segments text
      rw [hsegments]
      exact List.mem_append_right _ hpart
    have htail := segments_joined (hparts next List.mem_cons_self) fun part hpart =>
      hparts part (List.mem_cons_of_mem _ hpart)
    have htext : root ++ '/' :: (next ++ joined rest) = text := by
      apply segments_injective
      rw [segments_append_slash, htail, hsegments]
    rw [← htext]
    exact ⟨next ++ joined rest, by rw [List.append_assoc, List.singleton_append]⟩

theorem belowCreation_iff (path : String) :
    BelowCreation path ↔ ∃ next rest,
      segments (endpointText path) = [[], "v1".toList, "crawl".toList] ++ next :: rest ∨
        segments (endpointText path) = [[], "v2".toList, "crawl".toList] ++ next :: rest ∨
        segments (endpointText path) = [[], "v2".toList, "batch".toList, "scrape".toList] ++ next ::
          rest := by
  have hv1 : segments "/v1/crawl".toList = [[], "v1".toList, "crawl".toList] := by decide
  have hv2 : segments "/v2/crawl".toList = [[], "v2".toList, "crawl".toList] := by decide
  have hbatch :
      segments "/v2/batch/scrape".toList = [[], "v2".toList, "batch".toList, "scrape".toList] := by
    decide
  simp only [BelowCreation, List.exists_mem_cons_iff, List.not_mem_nil, false_and, exists_false,
    or_false, append_slash_prefix_iff, hv1, hv2, hbatch, exists_or]

theorem cutSegments_mem {parts : List (List Char)} {part : List Char}
    (h : part ∈ cutSegments parts) : part ∈ parts := by
  rw [cutSegments] at h
  split at h
  · exact List.mem_of_mem_take h
  split at h
  · exact List.mem_of_mem_take h
  · exact h

theorem cutSegments_ne_nil {parts : List (List Char)} (h : parts ≠ []) :
    cutSegments parts ≠ [] := by
  rw [cutSegments]
  split
  · simp [h]
  split
  · simp [h]
  · exact h

theorem normalizeEndpoint_priced_iff (path : String) :
    (creditCostMap.lookup (normalizeEndpoint path)).isSome = true ↔
      IsPriced path ∨ BelowCreation path := by
  have hlookup : ∀ endpoint : String,
      (creditCostMap.lookup endpoint).isSome = true ↔ endpoint ∈ creditCostMap.map Prod.fst := by
    intro endpoint
    rw [List.lookup_isSome_iff, List.mem_map]
    constructor
    · rintro ⟨entry, hentry, hsame⟩
      exact ⟨entry, hentry, (eq_of_beq hsame).symm⟩
    · rintro ⟨entry, hentry, rfl⟩
      exact ⟨entry, hentry, beq_self_eq_true _⟩
  have hcut : segments (['/'].intercalate (cutSegments (segments (endpointText path)))) =
      cutSegments (segments (endpointText path)) := by
    apply List.splitOn_intercalate
    · intro part hpart
      exact not_mem_of_mem_segments (cutSegments_mem hpart)
    · exact cutSegments_ne_nil (segments_ne_nil _)
  rw [hlookup, normalizeEndpoint_eq, mem_creditCostMap_iff, hcut, cutSegments_priced_iff, IsPriced,
    mem_creditCostMap_iff, belowCreation_iff]

theorem priced_or_below_of_starts {method path : String} (h : StartsPriced method path) :
    upper method ≠ "GET".toList ∧ (IsPriced path ∨ BelowCreation path) := by
  obtain ⟨hpost, hendpoint⟩ := h
  refine ⟨by rw [hpost]; decide, hendpoint.imp_right ?_⟩
  intro halias
  have hroots : ∀ text ∈ startAliases, ∃ root ∈ ["/v1/crawl", "/v2/crawl", "/v2/batch/scrape"],
      root.toList ++ ['/'] <+: text.toList := by
    decide
  obtain ⟨root, hroot, hprefix⟩ := hroots _ halias
  refine ⟨root, hroot, ?_⟩
  rwa [String.toList_ofList] at hprefix

/-! ### Charges -/

/-- What an answer is estimated from. -/
def responseData (r : UpstreamResponse) : Option Json :=
  if "application/json".toList.isPrefixOf (lower ((header r.headers "content-type").getD "")) then
    r.json
  else none

/-- The counts of a crawl or a batch can be read. -/
def CountsHold (endpoint : String) (responseData : Option Json) : Prop :=
  contains endpoint "/crawl" = true ∨ contains endpoint "/batch/" = true →
    ∀ response ∈ responseData, response.truthy = true → HoldsCounts response

theorem countField_isSome_iff {response : Json} {field : String} :
    (countField response field).isSome = true ↔ HoldsCounts response := by
  rw [Option.isSome_iff_exists]
  simp only [countField_eq_some_iff, exists_and_left, exists_eq, and_true]

theorem estimateCreditCost_isSome_iff (endpoint : String) (responseData : Option Json) :
    (estimateCreditCost endpoint responseData).isSome = true ↔
      CountsHold endpoint responseData := by
  cases hpresent : responseData.filter Json.truthy with
  | none =>
    rw [estimateCreditCost_empty hpresent]
    refine iff_of_true rfl ?_
    intro _ response hresponse htruthy
    rw [Option.mem_def] at hresponse
    rw [hresponse, Option.filter_some_pos htruthy] at hpresent
    cases hpresent
  | some response =>
    obtain ⟨rfl, htruthy⟩ := Option.filter_eq_some_iff.mp hpresent
    have hholds : (∀ other ∈ some response, other.truthy = true → HoldsCounts other) ↔
        HoldsCounts response := by
      simp [htruthy]
    rw [CountsHold, hholds]
    simp only [estimateCreditCost, hpresent]
    cases contains endpoint "/crawl" with
    | true => simp [countField_isSome_iff]
    | false =>
      cases contains endpoint "/batch/" with
      | true => simp [countField_isSome_iff]
      | false => simp

namespace Exchange

variable (config : AppConfig) (r : UpstreamResponse) (e : Exchange)

/-- The cached credits of the key are fewer after the exchange. -/
def Lowers : Prop :=
  ∃ key row old new, e.before.get? e.keyId = some key ∧ e.after.get? e.keyId = some row ∧
    key.cachedRemainingCredits = some old ∧ row.cachedRemainingCredits = some new ∧ new < old

/-- Credits are estimated, the key has some left, and the answer can be counted. -/
structure Estimable : Prop where
  monitored : config.creditMonitoring.enabled = true ∧
    config.creditMonitoring.localEstimation.enabled = true ∧
      config.creditMonitoring.localEstimation.syncOnRequest = true
  credits : ∃ key old, e.before.get? e.keyId = some key ∧
    key.cachedRemainingCredits = some old ∧ 0 < old
  counts : CountsHold (normalizeEndpoint e.request.path) (responseData r)

/-- What starts priced work can be charged, and nothing else that can be charged is sent under a
priced endpoint or below a creation with another method than `GET`. -/
def ChargedAsStart : Prop :=
  (StartsPriced e.request.method e.request.path → e.Estimable config r) ∧
    (e.Estimable config r → upper e.request.method ≠ "GET".toList → IsPriced e.request.path ∨
     BelowCreation e.request.path →
      StartsPriced e.request.method e.request.path)

end Exchange

section

variable {config : AppConfig} {r : UpstreamResponse} {e : Exchange} {now : Instant}

theorem localCost_isSome_iff (method path : String) :
    (localCost config method path r).isSome = true ↔
      (config.creditMonitoring.enabled = true ∧
        config.creditMonitoring.localEstimation.enabled = true ∧
        config.creditMonitoring.localEstimation.syncOnRequest = true) ∧
          upper method ≠ "GET".toList ∧
        (IsPriced path ∨ BelowCreation path) ∧ CountsHold (normalizeEndpoint path)
          (responseData r) := by
  have hget : "GET".toList = ['G', 'E', 'T'] := by decide
  rw [← normalizeEndpoint_priced_iff, ← estimateCreditCost_isSome_iff, hget]
  simp only [localCost]
  split
  · next hcharged =>
    simp only [Bool.and_eq_true, bne_iff_ne] at hcharged
    obtain ⟨⟨⟨⟨hmonitoring, hestimation⟩, hsync⟩, hmethod⟩, hpriced⟩ := hcharged
    constructor
    · intro hsome
      exact ⟨⟨hmonitoring, hestimation, hsync⟩, hmethod, hpriced, hsome⟩
    · rintro ⟨-, -, -, hsome⟩
      exact hsome
  · next huncharged =>
    simp only [Bool.and_eq_true, bne_iff_ne] at huncharged
    refine iff_of_false (by simp) ?_
    rintro ⟨⟨hmonitoring, hestimation, hsync⟩, hmethod, hpriced, -⟩
    exact huncharged ⟨⟨⟨⟨hmonitoring, hestimation⟩, hsync⟩, hmethod⟩, hpriced⟩

theorem accountRow_cachedRemainingCredits (method path : String) (key : ApiKey) :
    (accountRow config method path r now key).cachedRemainingCredits =
      (deductCredits (localCost config method path r) key).cachedRemainingCredits := by
  rw [accountRow]
  split
  · rw [consumeKey]
    dsimp only
    split
    · rfl
    · rfl
  · rfl

/-- A cost lowers what is cached where there is something left. -/
theorem deductCredits_lowers_iff {cost : Option Int} (hpositive : ∀ c ∈ cost, 1 ≤ c)
    (key : ApiKey) :
    (∃ old new, key.cachedRemainingCredits = some old ∧
      (deductCredits cost key).cachedRemainingCredits = some new ∧
      new < old) ↔ cost.isSome = true ∧ ∃ old, key.cachedRemainingCredits = some old ∧ 0 < old := by
  cases cost with
  | none =>
    refine iff_of_false ?_ (by simp)
    rintro ⟨old, new, hold, hnew, hless⟩
    have hsame : deductCredits none key = key := rfl
    rw [hsame, hold, Option.some.injEq] at hnew
    omega
  | some c =>
    have hc := hpositive c rfl
    cases hcached : key.cachedRemainingCredits with
    | none => simp
    | some old =>
      have hrow : (deductCredits (some c) key).cachedRemainingCredits = some (max 0 (old - c)) := by
        simp only [deductCredits, hcached]
      rw [hrow]
      constructor
      · rintro ⟨_, _, ⟨⟩, ⟨⟩, hless⟩
        exact ⟨rfl, old, rfl, by omega⟩
      · rintro ⟨-, _, ⟨⟩, hpos⟩
        exact ⟨old, _, rfl, rfl, by omega⟩

theorem Exchange.lowers_iff
    (hwritten : e.after.get? e.keyId =
      (e.before.get? e.keyId).map (accountRow config e.request.method e.request.path r now)) :
    e.Lowers ↔ e.Estimable config r ∧ upper e.request.method ≠ "GET".toList ∧
      (IsPriced e.request.path ∨ BelowCreation e.request.path) := by
  have hpositive : ∀ c ∈ localCost config e.request.method e.request.path r, 1 ≤ c :=
    fun c hc => localCost_pos hc
  have hkey : e.Lowers ↔ ∃ key, e.before.get? e.keyId = some key ∧
      (localCost config e.request.method e.request.path r).isSome = true ∧
        ∃ old, key.cachedRemainingCredits = some old ∧ 0 < old := by
    constructor
    · rintro ⟨key, row, old, new, hbefore, hafter, hold, hnew, hless⟩
      rw [hwritten, hbefore, Option.map_some, Option.some.injEq] at hafter
      rw [← hafter, accountRow_cachedRemainingCredits] at hnew
      exact ⟨key, hbefore,
        (deductCredits_lowers_iff hpositive key).mp ⟨old, new, hold, hnew, hless⟩⟩
    · rintro ⟨key, hbefore, hcharged⟩
      obtain ⟨old, new, hold, hnew, hless⟩ := (deductCredits_lowers_iff hpositive key).mpr hcharged
      rw [← accountRow_cachedRemainingCredits] at hnew
      exact ⟨key, _, old, new, hbefore, by rw [hwritten, hbefore, Option.map_some], hold, hnew,
        hless⟩
  rw [hkey]
  simp only [localCost_isSome_iff]
  constructor
  · rintro ⟨key, hbefore, ⟨hmonitored, hmethod, hpriced, hcounts⟩, old, hold, hpos⟩
    exact ⟨⟨hmonitored, ⟨key, old, hbefore, hold, hpos⟩, hcounts⟩, hmethod, hpriced⟩
  · rintro ⟨⟨hmonitored, ⟨key, old, hbefore, hold, hpos⟩, hcounts⟩, hmethod, hpriced⟩
    exact ⟨key, hbefore, ⟨hmonitored, hmethod, hpriced, hcounts⟩, old, hold, hpos⟩

theorem Exchange.lowers_starts_iff
    (hwritten : e.after.get? e.keyId =
      (e.before.get? e.keyId).map (accountRow config e.request.method e.request.path r now)) :
    (e.Lowers ↔ StartsPriced e.request.method e.request.path) ↔ e.ChargedAsStart config r := by
  rw [e.lowers_iff hwritten, Exchange.ChargedAsStart]
  constructor
  · intro hiff
    refine ⟨fun hstarts => (hiff.mpr hstarts).1, fun hestimable hmethod hpriced => ?_⟩
    exact hiff.mp ⟨hestimable, hmethod, hpriced⟩
  · rintro ⟨hcharged, hother⟩
    constructor
    · rintro ⟨hestimable, hmethod, hpriced⟩
      exact hother hestimable hmethod hpriced
    · intro hstarts
      exact ⟨hcharged hstarts, priced_or_below_of_starts hstarts⟩

end

/-- A 2xx answer to a request of a route lowers the key's cached credits exactly for a start of
priced work, exactly where what starts such work can be charged and nothing else that looks like
it. -/
theorem local_charge_iff (fwd : Forwarder) (route : Route) (req : InboundRequest)
    (params : List (List Char)) (primary fallback : Nat → Turn) (now : Instant) (w : World)
    {e : Exchange}
    (hmem : e ∈ exchangesOf (route.forwards req params fwd primary fallback now w).events)
    {r : UpstreamResponse} (houtcome : e.outcome = .response r) (hwon : is2xx r.statusCode = true) :
    e.request.method = route.method ∧
      ((e.Lowers ↔ StartsPriced e.request.method e.request.path) ↔
        e.ChargedAsStart fwd.config r) := by
  obtain ⟨sent, turns, i, hmethod, hmade⟩ := forwards_made hmem
  obtain ⟨reached, hrow⟩ := hmade.written
  have hwritten : e.after.get? e.keyId = (e.before.get? e.keyId).map
      (accountRow fwd.config e.request.method e.request.path r (turns i).settledAt) := by
    rw [hrow, houtcome]
    congr 1
    funext key
    exact settleRow_won _ _ _ _ _ key hwon
  exact ⟨hmade.sent.1.trans hmethod, e.lowers_starts_iff hwritten⟩

/-- A request to a route with the only key there is, answered 200 with nothing. -/
def answeredEmpty (route : Route) (path : String) (params : List String) : Forwarded :=
  let answered : Nat → Turn := fun _ => .unhindered 0 0 (.response { statusCode := 200 })
  route.forwards { clientId := 1, method := route.method, path := path.toList }
    (params.map String.toList)
      { defaultForwarder with config := { creditMonitoring := { enabled := true } } } answered
        answered 0 (servedWorld 5)

def Outcome.statusCode? : Outcome → Option Nat
  | response r => some r.statusCode
  | _ => none

/-- What an exchange was, and its key's cached credits before it and after. -/
structure Charge where
  method : String
  path : String
  statusCode : Option Nat
  before : Option Int
  after : Option Int
deriving DecidableEq

def Exchange.charge (e : Exchange) : Charge :=
  { method := e.request.method
    path := e.request.path
    statusCode := e.outcome.statusCode?
    before := (e.before.get? e.keyId).bind ApiKey.cachedRemainingCredits
    after := (e.after.get? e.keyId).bind ApiKey.cachedRemainingCredits }

theorem Exchange.lowers_of_charge {e : Exchange} {method path : String} {statusCode : Option Nat}
    {old new : Int}
    (h : e.charge = { method, path, statusCode, before := some old, after := some new })
    (hless : new < old) :
    e.Lowers := by
  obtain ⟨key, hkey, hold⟩ := Option.bind_eq_some_iff.mp (congrArg Charge.before h)
  obtain ⟨row, hrow, hnew⟩ := Option.bind_eq_some_iff.mp (congrArg Charge.after h)
  exact ⟨key, row, old, new, hkey, hrow, hold, hnew, hless⟩

theorem scrape_charged :
    ∃ e ∈ exchangesOf (answeredEmpty V2.scrape "/v2/scrape" []).events,
      e.Lowers ↔ StartsPriced e.request.method e.request.path := by
  have hcharge :
      (exchangesOf (answeredEmpty V2.scrape "/v2/scrape" []).events).head?.map Exchange.charge =
        some
          { method := "POST"
            path := "/v2/scrape"
            statusCode := some 200
            before := some 100
            after := some 99 } := by
    decide
  obtain ⟨e, hhead, hcharge⟩ := Option.map_eq_some_iff.mp hcharge
  have hmethod : e.request.method = "POST" := congrArg Charge.method hcharge
  have hpath : e.request.path = "/v2/scrape" := congrArg Charge.path hcharge
  have hstatus : e.outcome.statusCode? = some 200 := congrArg Charge.statusCode hcharge
  obtain ⟨r, houtcome, h200⟩ : ∃ r, e.outcome = .response r ∧ r.statusCode = 200 := by
    cases houtcome : e.outcome with
    | response r =>
      rw [houtcome] at hstatus
      exact ⟨r, rfl, Option.some.inj hstatus⟩
    | _ =>
      rw [houtcome] at hstatus
      cases hstatus
  have hstarts : StartsPriced e.request.method e.request.path := by
    rw [hmethod, hpath]
    exact ⟨by decide, .inl (by decide)⟩
  have hwon : is2xx r.statusCode = true := by
    rw [h200]
    decide
  obtain ⟨-, hiff⟩ := local_charge_iff _ _ _ _ _ _ _ _ (List.mem_of_head? hhead) houtcome hwon
  refine ⟨e, List.mem_of_head? hhead,
    hiff.mpr ⟨fun _ => ⟨⟨rfl, rfl, rfl⟩, ?_, ?_⟩, fun _ _ _ => hstarts⟩⟩
  · obtain ⟨key, hkey, hold⟩ := Option.bind_eq_some_iff.mp (congrArg Charge.before hcharge)
    exact ⟨key, 100, hkey, hold, by decide⟩
  · rw [hpath]
    intro hcounted
    exact absurd hcounted (by decide)

/-- A crawl that is cancelled costs what one costs that is started. -/
theorem cancelled_crawl_charged :
    ∃ e ∈ exchangesOf (answeredEmpty V2.crawlDelete "/v2/crawl/job" ["job"]).events,
      e.Lowers ∧ ¬StartsPriced e.request.method e.request.path := by
  have hcharge :
      (exchangesOf (answeredEmpty V2.crawlDelete "/v2/crawl/job" ["job"]).events).head?.map
        Exchange.charge =
          some
            { method := "DELETE"
              path := "/v2/crawl/job"
              statusCode := some 200
              before := some 100
              after := some 95 } := by
    decide
  obtain ⟨e, hhead, hcharge⟩ := Option.map_eq_some_iff.mp hcharge
  refine ⟨e, List.mem_of_head? hhead, Exchange.lowers_of_charge hcharge (by decide), ?_⟩
  rintro ⟨hpost, -⟩
  rw [show e.request.method = "DELETE" from congrArg Charge.method hcharge] at hpost
  exact absurd hpost (by decide)

end Fcam
