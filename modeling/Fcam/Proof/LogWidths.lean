import Fcam.Model.RequestLogs
import Fcam.Proof.Fingerprint

/-!
# The rows of the log that are written

Which rows of the request log fit their columns: the id always does, and so does an endpoint that a
handler names or that is cut from a path of Firecrawl. What is inferred from a path of Exa is cut
before its prefix is put in front. A row that fits may still hold a text that cannot be stored, or
name a client or a key that is gone.
-/

namespace Fcam

@[simp] theorem length_ofString (s : String) : (PyStr.ofString s).length = s.length := by
  rw [PyStr.ofString, List.length_map, String.length_toList]

/-! ### The id -/

theorem length_newRequestId (uuid : BitVec 128) : (newRequestId uuid).length = 32 := by
  rw [newRequestId, List.length_map, List.length_range]

theorem length_of_valid {value : PyStr} (hvalid : isValidRequestId value = true) :
    8 ≤ value.length ∧ value.length ≤ 64 := by
  rw [isValidRequestId, Bool.and_eq_true, Bool.and_eq_true, decide_eq_true_eq,
    decide_eq_true_eq] at hvalid
  exact hvalid.1

theorem length_requestIdOf (headers : List (String × String)) (uuid : BitVec 128) :
    8 ≤ (requestIdOf headers uuid).length ∧ (requestIdOf headers uuid).length ≤ 64 := by
  rw [requestIdOf]
  cases hid : ((header headers "x-request-id").map PyStr.ofString).filter isValidRequestId with
  | none =>
    rw [Option.getD_none, length_newRequestId]
    omega
  | some value => exact length_of_valid (Option.filter_eq_some_iff.mp hid).2

theorem hexDigit_bounds {d : Nat} (hd : d < 16) : 48 ≤ Json.hexDigit d ∧ Json.hexDigit d < 128 := by
  rw [Json.hexDigit]
  split <;> omega

theorem requestIdOf_bounds (headers : List (String × String)) (uuid : BitVec 128) :
    ∀ c ∈ requestIdOf headers uuid, 45 ≤ c ∧ c < 128 := by
  intro c hc
  rw [requestIdOf] at hc
  cases hid : ((header headers "x-request-id").map PyStr.ofString).filter isValidRequestId with
  | none =>
    rw [hid, Option.getD_none, newRequestId] at hc
    obtain ⟨i, -, rfl⟩ := List.mem_map.mp hc
    obtain ⟨hleast, hmost⟩ :=
      @hexDigit_bounds (uuid.toNat / 16 ^ (31 - i) % 16) (Nat.mod_lt _ (by omega))
    omega
  | some value =>
    rw [hid, Option.getD_some] at hc
    have hvalid := (Option.filter_eq_some_iff.mp hid).2
    rw [isValidRequestId, Bool.and_eq_true, List.all_eq_true] at hvalid
    have hclass := hvalid.2 c hc
    simp only [Bool.or_eq_true, Bool.and_eq_true, decide_eq_true_eq, beq_iff_eq] at hclass
    omega

theorem requestIdOf_ascii (headers : List (String × String)) (uuid : BitVec 128) :
    ∀ c ∈ requestIdOf headers uuid, c < 128 := fun c hc => (requestIdOf_bounds headers uuid c hc).2

/-! ### Texts -/

theorem storable_iff {text : PyStr} : text.storable = true ↔
    0 ∉ text ∧ ∀ c ∈ text, isSurrogate c = false := by
  rw [PyStr.storable, List.all_eq_true]
  constructor
  · intro h
    refine ⟨fun hmem => ?_, fun c hc => ?_⟩
    · exact absurd (h 0 hmem) (by decide)
    · have hboth := h c hc
      rw [Bool.and_eq_true, Bool.not_eq_true'] at hboth
      exact hboth.2
  · intro h c hc
    rw [h.2 c hc, Bool.not_false, Bool.and_true, bne_iff_ne]
    rintro rfl
    exact h.1 hc

theorem isSurrogate_of_ascii {c : Nat} (hc : c < 128) : isSurrogate c = false := by
  rw [isSurrogate, decide_eq_false (by omega), Bool.false_and]

theorem storable_of_bounds {text : PyStr} (h : ∀ c ∈ text, 45 ≤ c ∧ c < 128) :
    text.storable = true := by
  refine storable_iff.mpr ⟨fun hmem => ?_, fun c hc => isSurrogate_of_ascii (h c hc).2⟩
  exact absurd (h 0 hmem).1 (by decide)

theorem storable_ofString {s : String} : (PyStr.ofString s).storable = true ↔
    0 ∉ PyStr.ofString s := by
  rw [storable_iff, and_iff_left]
  intro c hc
  obtain ⟨char, -, rfl⟩ := List.mem_map.mp hc
  exact (char_codePoint char).2

/-- Whatever bytes follow, the character is no surrogate. -/
def Utf8Partial.Sound (part : Utf8Partial) : Prop :=
  0x80 ≤ part.least ∧ part.most ≤ 0xbf ∧
    (part.owed = 1 ∧ (part.value * 64 + 63 < 0xd800 ∨ 0xdfff < part.value * 64) ∨
      part.owed = 2 ∧ (part.value ≠ 0xd ∨ part.most ≤ 0x9f) ∨ part.owed = 3 ∧
        (1 ≤ part.value ∨ 0x90 ≤ part.least))

theorem utf8Start_sound (b : Nat) :
    (∀ c ∈ (utf8Start b).1, isSurrogate c = false) ∧ ∀ part ∈ (utf8Start b).2, part.Sound := by
  have hbegun : ∀ part : Utf8Partial, part.Sound →
      (∀ c ∈ ([] : PyStr), isSurrogate c = false) ∧ ∀ other ∈ some part, other.Sound := by
    intro part hsound
    refine ⟨fun c hc => absurd hc List.not_mem_nil, fun other hother => ?_⟩
    rwa [← Option.mem_some.mp hother]
  have hdone : ∀ c, isSurrogate c = false →
      (∀ d ∈ [c], isSurrogate d = false) ∧ ∀ other ∈ (none : Option Utf8Partial), other.Sound := by
    intro c hc
    refine ⟨fun d hd => ?_, fun other hother => by cases hother⟩
    rwa [List.mem_singleton.mp hd]
  rw [utf8Start]
  split
  · exact hdone b (isSurrogate_of_ascii (by omega))
  split
  · exact hbegun _ ⟨Nat.le_refl _, Nat.le_refl _, .inl ⟨rfl, by dsimp only; omega⟩⟩
  split
  · exact hbegun _ ⟨by decide, by decide, .inr (.inl ⟨rfl, .inl (by decide)⟩)⟩
  split
  · exact hbegun _ ⟨by decide, by decide, .inr (.inl ⟨rfl, .inr (by decide)⟩)⟩
  split
  · exact hbegun _ ⟨Nat.le_refl _, Nat.le_refl _, .inr (.inl ⟨rfl, .inl (by dsimp only; omega)⟩)⟩
  split
  · exact hbegun _ ⟨by decide, by decide, .inr (.inr ⟨rfl, .inr (by decide)⟩)⟩
  split
  · exact hbegun _ ⟨Nat.le_refl _, Nat.le_refl _, .inr (.inr ⟨rfl, .inl (by dsimp only; omega)⟩)⟩
  split
  · exact hbegun _ ⟨by decide, by decide, .inr (.inr ⟨rfl, .inl (by decide)⟩)⟩
  · exact hdone 0xfffd (by decide)

theorem utf8Replace_no_surrogate (bytes : Bytes) (begun : Option Utf8Partial)
    (hbegun : ∀ part ∈ begun, part.Sound) :
    ∀ c ∈ utf8Replace begun bytes, isSurrogate c = false := by
  have hreplaced : isSurrogate 0xfffd = false := by decide
  induction bytes generalizing begun with
  | nil =>
    intro c hc
    cases begun with
    | none => cases hc
    | some part => rwa [List.mem_singleton.mp hc]
  | cons b rest ih =>
    obtain ⟨htext, hstarted⟩ := utf8Start_sound b.toNat
    intro c hc
    cases begun with
    | none =>
      rcases List.mem_append.mp hc with hfirst | hrest
      · exact htext c hfirst
      · exact ih _ hstarted c hrest
    | some part =>
      obtain ⟨hleast, hmost, hvalue⟩ := hbegun part rfl
      rw [utf8Replace] at hc
      split at hc
      · dsimp only at hc
        split at hc
        · rcases List.mem_cons.mp hc with hfirst | hrest
          · rw [hfirst, isSurrogate, ← Bool.decide_and]
            exact decide_eq_false (by omega)
          · exact ih none (fun other hother => by cases hother) c hrest
        · refine ih _ (fun other hother => ?_) c hc
          cases hother
          refine ⟨Nat.le_refl _, Nat.le_refl _, ?_⟩
          dsimp only
          omega
      · rcases List.mem_cons.mp hc with rfl | hmem
        · exact hreplaced
        · rcases List.mem_append.mp hmem with hfirst | hrest
          · exact htext c hfirst
          · exact ih _ hstarted c hrest

theorem pathText_no_surrogate (req : InboundRequest) : ∀ c ∈ req.pathText, isSurrogate c = false :=
  utf8Replace_no_surrogate _ none fun part hpart => by cases hpart

/-! ### The endpoint -/

theorem routeEndpoint_fits {route : Route} {endpoint : PyStr}
    (hendpoint : route.endpoint = some endpoint) :
    endpoint ≠ [] ∧ endpoint.length ≤ 32 ∧ endpoint.storable = true := by
  obtain ⟨text, htext, rfl⟩ := Option.map_eq_some_iff.mp hendpoint
  have hall : ∀ pair ∈ routeEndpoints,
      PyStr.ofString pair.2 ≠ [] ∧ pair.2.length ≤ 32 ∧ (PyStr.ofString pair.2).storable =
        true := by decide
  obtain ⟨before, after, hsplit, -⟩ := List.lookup_eq_some_iff.mp htext
  obtain ⟨hnonempty, hlength, hstorable⟩ := hall (route, text) (by rw [hsplit]; simp)
  exact ⟨hnonempty, (length_ofString text).trans_le hlength, hstorable⟩

/-- The first segment of a path below the root of Exa. -/
def exaSegment (path : PyStr) : PyStr := (stripSlash (path.drop 5)).takeWhile (· ≠ 47)

/-- The path is one of Exa. -/
def onExa (path : PyStr) : Bool := (PyStr.ofString "/exa/").isPrefixOf path

theorem roots_eq : ["/api/", "/v1/", "/v2/", "/exa/"].map PyStr.ofString =
    [[47, 97, 112, 105, 47], [47, 118, 49, 47], [47, 118, 50, 47], [47, 101, 120, 97, 47]] := by
  decide

theorem exaRoot_eq : PyStr.ofString "/exa/" = [47, 101, 120, 97, 47] := by decide

theorem exaRoot_found {path : PyStr} :
    (["/api/", "/v1/", "/v2/", "/exa/"].map PyStr.ofString).find? (·.isPrefixOf path) =
      some (PyStr.ofString "/exa/") ↔
      onExa path = true := by
  rw [onExa, roots_eq, exaRoot_eq]
  constructor
  · intro hfound
    have hstem := List.find?_some hfound
    exact hstem
  · intro hexa
    obtain ⟨rest, rfl⟩ := List.isPrefixOf_iff_prefix.mp hexa
    simp [List.find?, List.isPrefixOf]

theorem inferApiEndpoint_exa {path : PyStr} (hexa : onExa path = true) :
    inferApiEndpoint path =
      some (if exaSegment path = [] then PyStr.ofString "unknown"
        else PyStr.ofString "exa_" ++ (exaSegment path).take 32) := by
  rw [inferApiEndpoint]
  simp only [exaRoot_found.mpr hexa, length_ofString]
  rw [show "/exa/".length = 5 from rfl, exaSegment, if_pos trivial]
  by_cases hsuffix : stripSlash (path.drop 5) = []
  · rw [hsuffix, if_pos rfl, List.takeWhile_nil, if_pos rfl]
  · rw [if_neg hsuffix]
    split <;> rfl

theorem length_inferApiEndpoint_of_not_exa {path endpoint : PyStr} (hexa : onExa path = false)
    (hendpoint : inferApiEndpoint path = some endpoint) : endpoint.length ≤ 32 := by
  rw [inferApiEndpoint] at hendpoint
  split at hendpoint
  · cases hendpoint
  · next root hroot =>
    have hother : root ≠ PyStr.ofString "/exa/" := by
      rintro rfl
      exact Bool.false_ne_true (hexa.symm.trans (exaRoot_found.mp hroot))
    have hunknown : (PyStr.ofString "unknown").length ≤ 32 := by decide
    have hcrawl : (PyStr.ofString "crawl").length ≤ 32 := by decide
    have hstatus : (PyStr.ofString "crawl_status").length ≤ 32 := by decide
    simp only [if_neg hother] at hendpoint
    split at hendpoint
    · exact Option.some.inj hendpoint ▸ hunknown
    split at hendpoint
    · split at hendpoint
      · exact Option.some.inj hendpoint ▸ hstatus
      · exact Option.some.inj hendpoint ▸ hcrawl
    split at hendpoint
    · exact Option.some.inj hendpoint ▸ hunknown
    · exact Option.some.inj hendpoint ▸ List.length_take_le _ _

theorem length_inferApiEndpoint {path endpoint : PyStr}
    (hendpoint : inferApiEndpoint path = some endpoint) :
    endpoint.length ≤ 32 ↔ (onExa path = true → (exaSegment path).length ≤ 28) := by
  cases hexa : onExa path with
  | false =>
    exact iff_of_true (length_inferApiEndpoint_of_not_exa hexa hendpoint) fun h =>
      absurd h Bool.false_ne_true
  | true =>
    rw [inferApiEndpoint_exa hexa, Option.some.injEq] at hendpoint
    subst hendpoint
    rw [forall_prop_of_true rfl]
    split
    · next hnil =>
      rw [hnil]
      exact iff_of_true (by decide) (Nat.zero_le _)
    · rw [List.length_append, List.length_take, length_ofString, show "exa_".length = 4 from rfl]
      omega

/-- The first segment of a path below its root. -/
def pathSegment (path : PyStr) : PyStr :=
  match (["/api/", "/v1/", "/v2/", "/exa/"].map PyStr.ofString).find? (·.isPrefixOf path) with
  | none => []
  | some root => (stripSlash (path.drop root.length)).takeWhile (· ≠ 47)

/-- An inferred endpoint is a word, or what is cut from the segment, with or without the prefix. -/
theorem inferApiEndpoint_cases {path endpoint : PyStr}
    (hendpoint : inferApiEndpoint path = some endpoint) :
    (endpoint.storable = true ∧ 0 ∉ pathSegment path) ∨ endpoint = (pathSegment path).take 32 ∨
      endpoint = PyStr.ofString "exa_" ++ (pathSegment path).take 32 := by
  have hunknown : (PyStr.ofString "unknown").storable = true := by decide
  have hcrawl : (PyStr.ofString "crawl").storable = true := by decide
  have hstatus : (PyStr.ofString "crawl_status").storable = true := by decide
  rw [inferApiEndpoint] at hendpoint
  split at hendpoint
  · cases hendpoint
  · next root hroot =>
    have hsegment : pathSegment path = (stripSlash (path.drop root.length)).takeWhile (· ≠ 47) := by
      rw [pathSegment, hroot]
    rw [hsegment]
    dsimp only at hendpoint
    split at hendpoint
    · next hempty =>
      rw [hempty]
      exact .inl ⟨Option.some.inj hendpoint ▸ hunknown, List.not_mem_nil⟩
    split at hendpoint
    · split at hendpoint
      · next hfirst =>
        rw [hfirst]
        exact .inl ⟨Option.some.inj hendpoint ▸ hunknown, List.not_mem_nil⟩
      · exact .inr (.inr (Option.some.inj hendpoint).symm)
    split at hendpoint
    · next hfirst =>
      rw [hfirst]
      have hnone : 0 ∉ PyStr.ofString "crawl" := by decide
      split at hendpoint
      · exact .inl ⟨Option.some.inj hendpoint ▸ hstatus, hnone⟩
      · exact .inl ⟨Option.some.inj hendpoint ▸ hcrawl, hnone⟩
    split at hendpoint
    · next hfirst =>
      rw [hfirst]
      exact .inl ⟨Option.some.inj hendpoint ▸ hunknown, List.not_mem_nil⟩
    · exact .inr (.inl (Option.some.inj hendpoint).symm)

theorem mem_pathSegment {path : PyStr} {c : Nat} (hc : c ∈ pathSegment path) : c ∈ path := by
  rw [pathSegment] at hc
  split at hc
  · cases hc
  · have hstripped := (List.takeWhile_sublist _).subset hc
    rw [stripSlash, List.mem_reverse] at hstripped
    have hdropped := List.mem_reverse.mp ((List.dropWhile_sublist _).subset hstripped)
    exact List.mem_of_mem_drop ((List.dropWhile_sublist _).subset hdropped)

theorem storable_inferApiEndpoint {req : InboundRequest} {endpoint : PyStr}
    (hendpoint : inferApiEndpoint req.pathText = some endpoint) :
    endpoint.storable = true ↔ 0 ∉ (pathSegment req.pathText).take 32 := by
  have hsurrogates : ∀ c ∈ (pathSegment req.pathText).take 32, isSurrogate c = false := fun c hc =>
    pathText_no_surrogate req c (mem_pathSegment (List.mem_of_mem_take hc))
  rcases inferApiEndpoint_cases hendpoint with ⟨hword, hnone⟩ | rfl | rfl
  · exact iff_of_true hword fun hmem => hnone (List.mem_of_mem_take hmem)
  · rw [storable_iff, and_iff_left hsurrogates]
  · have hprefix : (PyStr.ofString "exa_").storable = true := by decide
    rw [PyStr.storable, List.all_append, ← PyStr.storable, ← PyStr.storable, hprefix, Bool.true_and,
      storable_iff, and_iff_left hsurrogates]

/-! ### The row -/

/-- The state of a request whose handler, if it got to one, is that of a route. -/
def RequestState.of (state : RequestState) (req : InboundRequest) (handled : Option Route)
    (uuid : BitVec 128) : RequestState :=
  { state with
    endpoint := handled.bind Route.endpoint
    requestId := some (requestIdOf req.headers uuid) }

/-- The method and the idempotency key of the request fit, and so does the endpoint where it is
inferred from a path of Exa. -/
structure InboundRequest.Fits (req : InboundRequest) (handled : Option Route) : Prop where
  method : req.method.length ≤ 16
  idempotencyKey : ∀ key, header req.headers "x-idempotency-key" = some key → key.length ≤ 128
  endpoint : handled.bind Route.endpoint = none → onExa req.pathText = true →
    (exaSegment req.pathText).length ≤ 28

/-- No NUL is in what the row takes from the request. -/
structure InboundRequest.NulFree (req : InboundRequest) (handled : Option Route) : Prop where
  method : 0 ∉ PyStr.ofString req.method
  idempotencyKey : ∀ key, header req.headers "x-idempotency-key" = some key → 0 ∉ PyStr.ofString key
  endpoint : handled.bind Route.endpoint = none → 0 ∉ (pathSegment req.pathText).take 32

/-- What `request.state` holds can be written: its error, which has to be free of lone surrogates
and NUL, and the client and the key, which have to be there still. -/
structure RequestState.Writable (unicodeWord : Nat → Bool) (db : Db)
    (state : RequestState) : Prop where
  errorCode : ∀ code ∈ state.error.errorCode, code.storable = true
  errorDetails :
    ∀ details ∈ dumpErrorDetails unicodeWord state.error.errorDetails, details.storable = true
  retryCount : isInt4 (state.retryCount.getD 0) = true
  client : ∀ id ∈ state.clientId, (db.clients.get? id).isSome = true
  key : ∀ id ∈ state.apiKeyId, (db.keys.get? id).isSome = true

/-- The numbers that are measured fit an `Integer`. -/
def MeasuresFit (statusCode : Option Int) (responseTimeMs : Int) : Prop :=
  (∀ code ∈ statusCode, isInt4 code = true) ∧ isInt4 responseTimeMs = true

section

variable {unicodeWord : Nat → Bool} {req : InboundRequest} {handled : Option Route}
  {uuid : BitVec 128} {state : RequestState} {statusCode : Option Int} {responseTimeMs : Int}
  {createdAt : Instant} {log : RequestLog} {db : Db}

theorem requestLogOf_isSome (hplane : (inferApiEndpoint req.pathText).isSome) :
    (requestLogOf unicodeWord req (state.of req handled uuid) statusCode responseTimeMs
      createdAt).isSome = true := by
  rw [requestLogOf, Option.isSome_map, Option.isSome_or, hplane, Bool.or_true]

/-- The endpoint of a row is the one a handler names, or the inferred one. -/
theorem endpoint_named_or_inferred
    (hlog : requestLogOf unicodeWord req (state.of req handled uuid) statusCode responseTimeMs
      createdAt = some log) :
    (∃ route : Route, handled.bind Route.endpoint = some log.endpoint ∧
      route.endpoint = some log.endpoint) ∨ handled.bind Route.endpoint = none ∧
    inferApiEndpoint req.pathText = some log.endpoint := by
  obtain ⟨endpoint, hendpoint, rfl⟩ := Option.map_eq_some_iff.mp hlog
  dsimp only [RequestState.of] at hendpoint ⊢
  cases hnamed : handled.bind Route.endpoint with
  | none =>
    rw [hnamed, Option.filter_none, Option.none_or] at hendpoint
    exact .inr ⟨rfl, hendpoint⟩
  | some named =>
    obtain ⟨route, -, hroute⟩ := Option.bind_eq_some_iff.mp hnamed
    rw [hnamed, Option.filter_some, if_pos (decide_eq_true (routeEndpoint_fits hroute).1),
      Option.some_or, Option.some.injEq] at hendpoint
    subst hendpoint
    exact .inl ⟨route, rfl, hroute⟩

theorem length_endpoint
    (hlog : requestLogOf unicodeWord req (state.of req handled uuid) statusCode responseTimeMs
      createdAt = some log) :
    log.endpoint.length ≤ 32 ↔
      (handled.bind Route.endpoint = none → onExa req.pathText = true →
        (exaSegment req.pathText).length ≤ 28) := by
  rcases endpoint_named_or_inferred hlog with ⟨route, hnamed, hroute⟩ | ⟨hnone, hinferred⟩
  · exact iff_of_true (routeEndpoint_fits hroute).2.1 fun h => by rw [hnamed] at h; cases h
  · rw [length_inferApiEndpoint hinferred, forall_prop_of_true hnone]

theorem storable_endpoint
    (hlog : requestLogOf unicodeWord req (state.of req handled uuid) statusCode responseTimeMs
      createdAt = some log) :
    log.endpoint.storable = true ↔
    (handled.bind Route.endpoint = none → 0 ∉ (pathSegment req.pathText).take 32) := by
  rcases endpoint_named_or_inferred hlog with ⟨route, hnamed, hroute⟩ | ⟨hnone, hinferred⟩
  · exact iff_of_true (routeEndpoint_fits hroute).2.2 fun h => by rw [hnamed] at h; cases h
  · rw [storable_inferApiEndpoint hinferred, forall_prop_of_true hnone]

/-- What a row holds besides its endpoint. -/
theorem requestLogOf_columns
    (hlog : requestLogOf unicodeWord req (state.of req handled uuid) statusCode responseTimeMs
      createdAt = some log) :
    log.requestId = requestIdOf req.headers uuid ∧ log.method = PyStr.ofString req.method ∧
      log.idempotencyKey = (header req.headers "x-idempotency-key").map PyStr.ofString ∧
      log.errorMessage = state.error.errorCode ∧
      log.errorDetails = dumpErrorDetails unicodeWord state.error.errorDetails ∧
      log.statusCode = statusCode ∧ log.responseTimeMs = some responseTimeMs ∧
      log.retryCount = state.retryCount.getD 0 ∧ log.clientId = state.clientId ∧
      log.apiKeyId = state.apiKeyId := by
  obtain ⟨endpoint, -, rfl⟩ := Option.map_eq_some_iff.mp hlog
  refine ⟨?_, rfl, rfl, rfl, rfl, rfl, rfl, rfl, rfl, rfl⟩
  have hlength := length_requestIdOf req.headers uuid
  have hnonempty : requestIdOf req.headers uuid ≠ [] := List.ne_nil_of_length_pos (by omega)
  dsimp only [RequestState.of]
  rw [Option.filter_some, if_pos (decide_eq_true hnonempty), Option.getD_some]

theorem requestLogOf_fits
    (hlog : requestLogOf unicodeWord req (state.of req handled uuid) statusCode responseTimeMs
      createdAt = some log) :
    log.fits = true ↔ req.Fits handled := by
  obtain ⟨hid, hmethod, hkey, -⟩ := requestLogOf_columns hlog
  have hlength : log.requestId.length ≤ 64 := hid ▸ (length_requestIdOf req.headers uuid).2
  rw [RequestLog.fits, hmethod, hkey, Option.all_map, Bool.and_eq_true, Bool.and_eq_true,
    Bool.and_eq_true, decide_eq_true_eq, decide_eq_true_eq, decide_eq_true_eq, Option.all_eq_true,
    length_ofString, length_endpoint hlog]
  simp only [length_ofString, decide_eq_true_eq, hlength, true_and]
  constructor
  · rintro ⟨⟨hendpoint, hwidth⟩, hkeys⟩
    exact ⟨hwidth, hkeys, hendpoint⟩
  · rintro ⟨hwidth, hkeys, hendpoint⟩
    exact ⟨⟨hendpoint, hwidth⟩, hkeys⟩

/-- The texts of a row can be stored if and only if those of the request and its error can. -/
theorem requestLogOf_storable
    (hlog : requestLogOf unicodeWord req (state.of req handled uuid) statusCode responseTimeMs
      createdAt = some log) :
    log.texts.all PyStr.storable = true ↔ req.NulFree handled ∧
      (∀ code ∈ state.error.errorCode, code.storable = true) ∧
        ∀ details ∈ dumpErrorDetails unicodeWord state.error.errorDetails,
          details.storable = true := by
  obtain ⟨hid, hmethod, hkey, hcode, hdetails, -⟩ := requestLogOf_columns hlog
  have hidStorable : log.requestId.storable = true :=
    hid ▸ storable_of_bounds (requestIdOf_bounds req.headers uuid)
  have hkeys : (∀ text, log.idempotencyKey = some text → text.storable = true) ↔
      ∀ key, header req.headers "x-idempotency-key" = some key → 0 ∉ PyStr.ofString key := by
    rw [hkey]
    constructor
    · intro h key hheader
      exact storable_ofString.mp (h _ (Option.mem_map_of_mem _ hheader))
    · intro h text htext
      obtain ⟨key, hheader, rfl⟩ := Option.map_eq_some_iff.mp htext
      exact storable_ofString.mpr (h key hheader)
  rw [RequestLog.texts, List.all_eq_true]
  simp only [List.mem_append, List.mem_cons, List.not_mem_nil, or_false, Option.mem_toList, or_imp,
    forall_and, forall_eq]
  rw [hkeys, storable_endpoint hlog, hmethod, storable_ofString, hcode, hdetails]
  constructor
  · rintro ⟨⟨⟨⟨-, hendpoint, hnul⟩, hcodes⟩, htexts⟩, hnuls⟩
    exact ⟨⟨hnul, hnuls, hendpoint⟩, hcodes, htexts⟩
  · rintro ⟨⟨hnul, hnuls, hendpoint⟩, hcodes, htexts⟩
    exact ⟨⟨⟨⟨hidStorable, hendpoint, hnul⟩, hcodes⟩, htexts⟩, hnuls⟩

/-- A row is accepted if and only if the request fits, and it, its state and what is measured can be
written. -/
theorem acceptsLog_iff
    (hlog : requestLogOf unicodeWord req (state.of req handled uuid) statusCode responseTimeMs
      createdAt = some log) :
    db.acceptsLog log = true ↔
      req.Fits handled ∧ req.NulFree handled ∧ state.Writable unicodeWord db ∧
      MeasuresFit statusCode responseTimeMs := by
  obtain ⟨-, -, -, -, -, hstatus, htime, hretry, hclient, hkey⟩ := requestLogOf_columns hlog
  have hnumbers : log.numbers.all isInt4 = true ↔
      MeasuresFit statusCode responseTimeMs ∧ isInt4 (state.retryCount.getD 0) = true := by
    rw [RequestLog.numbers, List.all_eq_true, hstatus, htime, hretry]
    simp only [List.mem_append, List.mem_cons, List.not_mem_nil, or_false, Option.mem_toList,
      Option.mem_def, or_imp, forall_and, forall_eq, Option.some.injEq, forall_eq', MeasuresFit]
  rw [Db.acceptsLog, Bool.and_eq_true, Bool.and_eq_true, Bool.and_eq_true, Bool.and_eq_true,
    requestLogOf_fits hlog, requestLogOf_storable hlog, hnumbers, hclient, hkey, Option.all_eq_true,
    Option.all_eq_true]
  constructor
  · rintro ⟨⟨⟨⟨hfits, hnulFree, hcodes, htexts⟩, hmeasures, hretries⟩, hclients⟩, hkeys⟩
    exact ⟨hfits, hnulFree, ⟨hcodes, htexts, hretries, hclients, hkeys⟩, hmeasures⟩
  · rintro ⟨hfits, hnulFree, ⟨hcodes, htexts, hretries, hclients, hkeys⟩, hmeasures⟩
    exact ⟨⟨⟨⟨hfits, hnulFree, hcodes, htexts⟩, hmeasures, hretries⟩, hclients⟩, hkeys⟩

theorem persistRequestLog_eq_insert_iff (accepts : RequestLog → Bool) (log : RequestLog)
    (logs : Table RequestLog) :
    persistRequestLog accepts (some log) logs = logs.insert log ↔ accepts log = true := by
  rw [persistRequestLog, Option.filter_some]
  cases accepts log with
  | true => exact iff_of_true rfl rfl
  | false =>
    refine iff_of_false (fun heq => ?_) Bool.false_ne_true
    have hlength := congrArg (fun table => table.rows.length) heq
    dsimp only [Table.insert] at hlength
    rw [if_neg Bool.false_ne_true] at hlength
    simp at hlength

/-- On a database that enforces the types and widths of its columns and its foreign keys, the row of
a request of the data plane fits and is written if and only if the request fits, and it, its state
and what is measured can be written. -/
theorem logged_iff (hplane : (inferApiEndpoint req.pathText).isSome) (db : Db)
    (logs : Table RequestLog) :
    (∃ log, requestLogOf unicodeWord req (state.of req handled uuid) statusCode responseTimeMs
      createdAt = some log ∧
        log.fits = true ∧
        persistRequestLog db.acceptsLog
            (requestLogOf unicodeWord req (state.of req handled uuid) statusCode responseTimeMs
              createdAt) logs =
          logs.insert log) ↔
      req.Fits handled ∧ req.NulFree handled ∧ state.Writable unicodeWord db ∧
        MeasuresFit statusCode responseTimeMs := by
  obtain ⟨log, hlog⟩ :=
    Option.isSome_iff_exists.mp (@requestLogOf_isSome unicodeWord req handled uuid state statusCode
    responseTimeMs createdAt hplane)
  rw [← acceptsLog_iff hlog, hlog]
  constructor
  · rintro ⟨other, hother, -, hwritten⟩
    cases hother
    exact (persistRequestLog_eq_insert_iff _ _ _).mp hwritten
  · intro haccepts
    have hfits := ((acceptsLog_iff hlog).mp haccepts).1
    exact ⟨log, rfl, (requestLogOf_fits hlog).mpr hfits,
      (persistRequestLog_eq_insert_iff _ _ _).mpr haccepts⟩

end

/-- A request for forty letters below the root of Exa. -/
def longExaRequest : InboundRequest :=
  { clientId := 0, method := "POST", path := "/exa/".toList ++ List.replicate 40 'a' }

/-- The state it leaves when the middleware refuses its path. -/
def pathRefused : RequestState :=
  { error :=
      { errorCode := some (PyStr.ofString "PATH_NOT_ALLOWED")
        errorDetails :=
          some (.obj
            [(PyStr.ofString "code", .str (PyStr.ofString "PATH_NOT_ALLOWED")),
              (PyStr.ofString "message", .str (PyStr.ofString "Path not allowed")),
              (PyStr.ofString "details", .null), (PyStr.ofString "retry_after", .null)]) } }

/-- It is not logged. -/
theorem exa_request_unlogged :
    ¬∃ log, requestLogOf (fun _ => false) longExaRequest (pathRefused.of longExaRequest none 0)
      (some 404) 1 0 = some log ∧
      log.fits = true ∧
      persistRequestLog (Db.acceptsLog {})
          (requestLogOf (fun _ => false) longExaRequest (pathRefused.of longExaRequest none 0)
            (some 404) 1 0) .empty =
        Table.empty.insert log := by
  rintro ⟨log, hlog, hfits, -⟩
  have hrow :
      (requestLogOf (fun _ => false) longExaRequest (pathRefused.of longExaRequest none 0)
       (some 404) 1 0).map RequestLog.fits = some false := by decide
  rw [hlog, Option.map_some, hfits] at hrow
  cases hrow

/-- A request to scrape. -/
def loggedScrape : InboundRequest :=
  { clientId := 1, method := "POST", path := "/api/scrape".toList,
    headers := [("x-idempotency-key", "once")] }

/-- A database with the client of the request. -/
def clientDb : Db := { clients := Table.empty.insert { name := "one", tokenHash := "t1" } }

/-- It is logged. -/
theorem scrape_request_logged :
    ∃ log, requestLogOf (fun _ => false) loggedScrape
      (RequestState.of { clientId := some 1 } loggedScrape (some Api.scrape) 7)
          (some 200) 1 0 = some log ∧
      log.fits = true ∧
      persistRequestLog clientDb.acceptsLog
          (requestLogOf (fun _ => false) loggedScrape
            (RequestState.of { clientId := some 1 } loggedScrape (some Api.scrape) 7)
              (some 200) 1 0) .empty =
        Table.empty.insert log := by
  have honce : ∀ key, header loggedScrape.headers "x-idempotency-key" = some key → key = "once" :=
    fun key hkey =>
    (Option.some.inj hkey).symm
  refine (logged_iff ?_ clientDb .empty).mpr ⟨⟨?_, ?_, ?_⟩, ⟨?_, ?_, ?_⟩, ⟨?_, ?_, ?_, ?_, ?_⟩, ?_,
    ?_⟩
  · decide
  · decide
  · intro key hkey
    rw [honce key hkey]
    decide
  · intro hnone
    exact absurd hnone (by decide)
  · decide
  · intro key hkey
    rw [honce key hkey]
    decide
  · intro hnone
    exact absurd hnone (by decide)
  · intro code hcode
    cases hcode
  · intro details hdetails
    cases hdetails
  · decide
  · intro id hid
    cases hid
    decide
  · intro id hid
    cases hid
  · intro code hcode
    cases hcode
    decide
  · decide

end Fcam
