import Fcam.Model.Routes
import Fcam.Proof.FreshPool
import Fcam.Proof.Isolation

/-!
# What a forward sends

Every request of a forward is the one built from what the handler gave it, to the server of its
provider.
-/

namespace Fcam

/-- Every exchange logged so far was made with the request of the forward. -/
def SentAs (fwd : Forwarder) (req : ForwardRequest) (events : List Event) : Prop :=
  ∀ e, .exchanged e ∈ events → ∃ baseUrl plaintextKey,
    fwd.providerBaseUrl req.provider = .ok baseUrl ∧
    e.request = upstreamRequest fwd baseUrl req plaintextKey

section

variable {fwd : Forwarder} {baseUrl : String} {req : ForwardRequest}

theorem sentAs_callEvents (hbase : fwd.providerBaseUrl req.provider = .ok baseUrl)
    (turns : Nat → Turn) (i id : Nat) (plaintextKey : String) (w : World) :
    SentAs fwd req (callEvents fwd baseUrl req turns i id plaintextKey w) := by
  intro e hmem
  rcases List.mem_append.mp hmem with hexchange | hreleased
  · exact ⟨baseUrl, plaintextKey, hbase, congrArg Exchange.request (mem_exchanges hexchange)⟩
  · simp at hreleased

theorem forward_sentAs (fwd : Forwarder) (turns : Nat → Turn) (req : ForwardRequest) (w : World) :
    SentAs fwd req (forward fwd turns req w).events := by
  refine forward_eachExchange (fun _ _ => True) ?_ ?_ ?_ ?_
  · exact fun _ _ _ => trivial
  · exact fun _ _ _ _ _ => trivial
  · exact fun baseUrl hbase i id plaintextKey w _ =>
      sentAs_callEvents hbase turns i id plaintextKey w
  · exact fun _ _ _ _ => trivial

theorem mem_exchangesOf {events : List Event} {e : Exchange} : e ∈ exchangesOf events ↔
    .exchanged e ∈ events := by
  rw [exchangesOf, List.mem_filterMap]
  constructor
  · rintro ⟨event, hmem, hevent⟩
    cases event with
    | exchanged other => exact Option.some.inj hevent ▸ hmem
    | _ => cases hevent
  · intro hmem
    exact ⟨.exchanged e, hmem, rfl⟩

end

/-! ### Passes -/

/-- The exchange is the one of a pass of a forward. -/
def Exchange.MadeBy (fwd : Forwarder) (req : ForwardRequest) (turns : Nat → Turn) (i : Nat)
    (e : Exchange) : Prop :=
  ∃ baseUrl plaintextKey w, .exchanged e ∈ callEvents fwd baseUrl req turns i e.keyId plaintextKey w

section

variable {fwd : Forwarder} {req : ForwardRequest} {turns : Nat → Turn} {baseUrl : String}
  {e : Exchange}

/-- Every exchange logged so far is the one of a pass. -/
def LogMade (fwd : Forwarder) (req : ForwardRequest) (turns : Nat → Turn)
    (events : List Event) : Prop :=
  ∀ e, .exchanged e ∈ events → ∃ i, e.MadeBy fwd req turns i

theorem mem_callEvents {i id : Nat} {plaintextKey : String} {w : World}
    (hmem : .exchanged e ∈ callEvents fwd baseUrl req turns i id plaintextKey w) :
    e.keyId = id ∧ e.outcome = (turns i).outcome ∧ e.before = w.db.keys ∧
      e.after = (settled fwd req turns i id w).db.keys := by
  rcases List.mem_append.mp hmem with hexchange | hreleased
  · have he := mem_exchanges hexchange
    subst he
    exact ⟨rfl, rfl, rfl, rfl⟩
  · simp at hreleased

theorem logMade_callEvents (i id : Nat) (plaintextKey : String) (w : World) :
    LogMade fwd req turns (callEvents fwd baseUrl req turns i id plaintextKey w) := by
  intro e hmem
  refine ⟨i, baseUrl, plaintextKey, w, ?_⟩
  rw [(mem_callEvents hmem).1]
  exact hmem

theorem forward_logMade (fwd : Forwarder) (turns : Nat → Turn) (req : ForwardRequest) (w : World) :
    LogMade fwd req turns (forward fwd turns req w).events := by
  refine forward_eachExchange (fun _ _ => True) ?_ ?_ ?_ ?_
  · exact fun _ _ _ => trivial
  · exact fun _ _ _ _ _ => trivial
  · exact fun baseUrl _ i id plaintextKey w _ => logMade_callEvents i id plaintextKey w
  · exact fun _ _ _ _ => trivial

theorem Exchange.MadeBy.sent {i : Nat} (h : e.MadeBy fwd req turns i) :
    e.request.method = req.method ∧ e.request.path = req.upstreamPath := by
  obtain ⟨baseUrl, plaintextKey, w, hmem⟩ := h
  rcases List.mem_append.mp hmem with hexchange | hreleased
  · rw [mem_exchanges hexchange]
    exact ⟨rfl, rfl⟩
  · simp at hreleased

theorem Exchange.MadeBy.written {i : Nat} (h : e.MadeBy fwd req turns i) :
    ∃ reached, e.after.get? e.keyId = (e.before.get? e.keyId).map
      (settleRow fwd.config e.request.method e.request.path e.outcome (turns i).settledAt
        reached) := by
  obtain ⟨hmethod, hpath⟩ := h.sent
  obtain ⟨baseUrl, plaintextKey, w, hmem⟩ := h
  obtain ⟨-, houtcome, hbefore, hafter⟩ := mem_callEvents hmem
  have hrow :=
    settle_row fwd.config req.method req.upstreamPath (turns i).outcome (turns i).settledAt
      req.clientId e.keyId
    w e.keyId
  rw [if_pos rfl] at hrow
  refine ⟨reachesThreshold fwd.config (turns i).settledAt e.keyId w, ?_⟩
  rw [hmethod, hpath, houtcome, hafter, hbefore]
  exact hrow

end

theorem forward_path {fwd : Forwarder} {turns : Nat → Turn} {req : ForwardRequest} {w : World}
    {e : Exchange} (hmem : e ∈ exchangesOf (forward fwd turns req w).events) :
    e.request.path = req.upstreamPath := by
  obtain ⟨baseUrl, plaintextKey, _, hrequest⟩ :=
    forward_sentAs fwd turns req w e (mem_exchangesOf.mp hmem)
  rw [hrequest]
  rfl

/-- A handler makes its first forward and, where it has a fallback, may make the second after it. -/
theorem forwards_cases (fwd : Forwarder) (primary fallback : Nat → Turn) (now : Instant)
    (route : Route) (req : InboundRequest) (params : List (List Char)) (w : World) :
    route.forwards req params fwd primary fallback now w =
        route.firstForward req params fwd primary now w ∨
      ∃ text, route.fallbackText req params = some text ∧
        route.forwards req params fwd primary fallback now w =
          let second := route.secondForward req params fwd primary fallback now w text
          { second with
            events := (route.firstForward req params fwd primary now w).events ++
              second.events } := by
  simp only [Route.forwards, forwardOrFallback]
  split
  · next result path hresult hpath =>
    obtain ⟨text, htext, rfl⟩ := Option.map_eq_some_iff.mp hpath
    split
    · exact .inr ⟨text, htext, rfl⟩
    · exact .inl rfl
  · exact .inl rfl

/-- Every exchange of a handler is the one of a pass of a forward with the method of its route. -/
theorem forwards_made {fwd : Forwarder} {primary fallback : Nat → Turn} {now : Instant}
    {route : Route} {req : InboundRequest} {params : List (List Char)} {w : World} {e : Exchange}
    (hmem : e ∈ exchangesOf (route.forwards req params fwd primary fallback now w).events) :
    ∃ sent turns i, sent.method = route.method ∧ e.MadeBy fwd sent turns i := by
  have hmade :
      ∀ {sent : ForwardRequest} {turns : Nat → Turn} {w : World}, sent.method = route.method →
        e ∈ exchangesOf (forward fwd turns sent w).events →
          ∃ sent turns i, sent.method = route.method ∧ e.MadeBy fwd sent turns i := by
    intro sent turns w hmethod hmem
    obtain ⟨i, hmade⟩ := forward_logMade fwd turns sent w e (mem_exchangesOf.mp hmem)
    exact ⟨sent, turns, i, hmethod, hmade⟩
  obtain hone | ⟨text, -, hboth⟩ := forwards_cases fwd primary fallback now route req params w
  · rw [hone] at hmem
    exact hmade rfl hmem
  · rw [hboth, exchangesOf_append, List.mem_append] at hmem
    obtain hmem | hmem := hmem
    · exact hmade rfl hmem
    · exact hmade rfl hmem

/-- Every request of a handler is sent to one of the texts of its route. -/
theorem forwards_path {fwd : Forwarder} {primary fallback : Nat → Turn} {now : Instant}
    {route : Route} {req : InboundRequest} {params : List (List Char)} {w : World} {e : Exchange}
    (hmem : e ∈ exchangesOf (route.forwards req params fwd primary fallback now w).events) :
    ∃ text ∈ route.texts req params, e.request.path = String.ofList text := by
  obtain hone | ⟨text, htext, hboth⟩ := forwards_cases fwd primary fallback now route req params w
  · rw [hone] at hmem
    exact ⟨_, List.mem_cons_self, forward_path hmem⟩
  · rw [hboth, exchangesOf_append, List.mem_append] at hmem
    obtain hmem | hmem := hmem
    · exact ⟨_, List.mem_cons_self, forward_path hmem⟩
    · refine ⟨text, List.mem_cons_of_mem _ ?_, forward_path hmem⟩
      rw [htext]
      exact List.mem_singleton_self text

/-! ### Handlers that send to all their texts -/

theorem lookupBoundKeyId_empty (now : Instant) (clientId : Nat) (resourceType : String)
    (resourceId : PyStr) :
    lookupBoundKeyId now clientId resourceType resourceId .empty = (none, .empty) := by
  simp [lookupBoundKeyId, Table.select, Table.empty]

theorem Route.pin_empty (route : Route) (req : InboundRequest) (params : List (List Char))
    (now : Instant) :
    route.pin req params now .empty = (none, .empty) := by
  rw [Route.pin]
  split
  · rfl
  · exact lookupBoundKeyId_empty now req.clientId _ _

/-- A forward over a fresh pool sends its request. -/
theorem forward_sends (config : AppConfig) (req : ForwardRequest) {w : World} {ids : List Nat}
    (hprovider : req.provider = .firecrawl) (hpin : req.pinnedApiKeyId = none)
    (hfresh : FreshIn req.clientId req.provider ids w) (hkeys : 0 < ids.length) :
    (∃ e ∈ exchangesOf (forward (openForwarder config) (timeouts 0) req w).events, e.request.path =
      req.upstreamPath) ∧
      (∃ result, (forward (openForwarder config) (timeouts 0) req w).result = .ok result ∧
        result.response.statusCode = 404) ∧
      ∃ rest : List Nat, ids.length ≤ rest.length ∧
        FreshIn req.clientId req.provider rest
          (forward (openForwarder config) (timeouts 0) req w).world := by
  have hbase : (openForwarder config).providerBaseUrl req.provider =
      .ok (openForwarder config).firecrawlUpstreamBaseUrl := by
    rw [hprovider]
    rfl
  obtain ⟨hanswer, hcalls, rest, hrest, hlast⟩ := forward_timeouts (openForwarder config) rfl hbase
    (openForwarder_decrypt config []) hpin hfresh hkeys (Nat.succ_pos _)
  refine ⟨?_, hanswer, rest, hrest, hlast⟩
  obtain ⟨e, hmem⟩ := List.exists_mem_of_length_pos (by rw [hcalls]; exact Nat.succ_pos 0)
  exact ⟨e, hmem, forward_path hmem⟩

/-- Over a fresh pool a request is sent to its path and, where it may be sent again, under the other
path. -/
theorem forwardOrFallback_sends (config : AppConfig) {req : ForwardRequest}
    (hprovider : req.provider = .firecrawl) (hpin : req.pinnedApiKeyId = none)
    {fallbackPath : Option String} {path : String}
    (hpath : path = req.upstreamPath ∨ fallbackPath = some path) :
    ∃ e ∈ exchangesOf (forwardOrFallback (openForwarder config) (timeouts 0) (timeouts 0) req
      fallbackPath
      (freshWorld req.clientId req.provider 1)).events, e.request.path = path := by
  obtain ⟨ids, hlength, hfresh⟩ := freshIn_freshWorld req.clientId req.provider 1
  obtain ⟨⟨e, hsent, hprimary⟩, ⟨result, hresult, hanswer⟩, rest, hrest, hfresh'⟩ :=
    forward_sends config req hprovider hpin hfresh (by omega)
  cases fallbackPath with
  | none =>
    obtain rfl | hnone := hpath
    · refine ⟨e, ?_, hprimary⟩
      simp only [forwardOrFallback, hresult]
      exact hsent
    · cases hnone
  | some other =>
    simp only [forwardOrFallback, hresult, hanswer, true_or, if_true, exchangesOf_append,
      List.mem_append]
    obtain rfl | hother := hpath
    · exact ⟨e, .inl hsent, hprimary⟩
    · obtain rfl := Option.some.inj hother
      obtain ⟨⟨e, hsent, hsame⟩, _⟩ :=
        forward_sends config { req with upstreamPath := other } hprovider hpin hfresh'
        (by omega)
      exact ⟨e, .inr hsent, hsame⟩

/-- Some run of a handler sends to each of the texts of its route. -/
theorem forwards_reach (config : AppConfig) {route : Route} (hrouter : route.router ≠ .exa)
    (req : InboundRequest) (params : List (List Char)) {text : List Char}
    (htext : text ∈ route.texts req params) :
    ∃ fwd : Forwarder, ∃ primary fallback now w, fwd.config = config ∧
      ∃ e ∈ exchangesOf (route.forwards req params fwd primary fallback now w).events,
        e.request.path = String.ofList text := by
  have hprovider : route.provider = .firecrawl := if_neg hrouter
  refine ⟨openForwarder config, timeouts 0, timeouts 0, 0, freshWorld req.clientId .firecrawl 1,
    rfl, ?_⟩
  have hpin :
      route.pin req params 0 (freshWorld req.clientId .firecrawl 1).db.bindings = (none, .empty) :=
    route.pin_empty req params 0
  have hkey : (route.sentRequest req params 0 (freshWorld req.clientId .firecrawl 1)
      (route.primaryText req params)).pinnedApiKeyId = none := congrArg Prod.fst hpin
  have hworld : route.pinned req params 0 (freshWorld req.clientId .firecrawl 1) =
      freshWorld req.clientId route.provider 1 := by
    rw [Route.pinned, hpin, hprovider]
    rfl
  rw [Route.forwards, hworld]
  refine forwardOrFallback_sends config hprovider hkey ?_
  rw [Route.texts, List.mem_cons, Option.mem_toList] at htext
  exact htext.imp (congrArg String.ofList) fun hfallback => by rw [hfallback, Option.map_some]

end Fcam
