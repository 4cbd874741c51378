import Fcam.Model.Middleware
import Fcam.Proof.Fingerprint
import Fcam.Proof.LogWidths

/-!
# What is observed of a request

Every request is answered under its id. An answer that passes `RequestIdMiddleware` leaves a row
that tells of it and is counted once, whether the database takes the row or not, so the counters
exceed the rows by those it refused. An error the gateway answers a client of the data plane with
has the same code in the answer and in the row.
-/

namespace Fcam

/-! ### The id -/

theorem ofString_asString {s : PyStr} (hascii : ∀ c ∈ s, c < 128) :
    PyStr.ofString s.asString = s := by
  rw [PyStr.ofString, PyStr.asString, String.toList_ofList, List.map_map]
  conv_rhs => rw [← List.map_id s]
  apply List.map_congr_left
  intro c hc
  have hlt := hascii c hc
  show (Char.ofNat c).toNat = c
  rw [Char.ofNat, dif_pos (.inl (by omega))]
  rfl

/-! ### The headers -/

/-- The response has one header with the id of its request. -/
def Response.Carries (r : Response) (requestId : PyStr) : Prop :=
  ∃ value, r.headers.filter (fun member => member.1 = "x-request-id") = [("x-request-id", value)] ∧
    PyStr.ofString value = requestId

theorem filter_setHeader (name value : String) (headers : List (String × String)) :
    (setHeader name value headers).filter (fun member => member.1 = name) = [(name, value)] := by
  induction headers with
  | nil => simp [setHeader]
  | cons first rest ih =>
    rw [setHeader]
    split
    · rw [List.filter_cons, if_pos (by simp), List.filter_filter]
      congr 1
      apply List.filter_eq_nil_iff.mpr
      intro other _
      simp
    · next hother =>
      rw [List.filter_cons, if_neg (by simpa using hother)]
      exact ih

theorem filter_firstOfEach (name : String) (headers : List (String × String)) :
    (firstOfEach headers).filter (fun member => member.1 = name) =
      (headers.filter fun member => member.1 = name).take 1 := by
  induction headers with
  | nil => rfl
  | cons first rest ih =>
    rw [firstOfEach, List.filter_cons, List.filter_cons, List.filter_filter]
    by_cases hfirst : first.1 = name
    · rw [if_pos (by simpa using hfirst), if_pos (by simpa using hfirst), List.take_succ_cons,
        List.take_zero]
      congr 1
      apply List.filter_eq_nil_iff.mpr
      intro other _
      simp [hfirst]
    · rw [if_neg (by simpa using hfirst), if_neg (by simpa using hfirst), ← ih]
      apply List.filter_congr
      intro other _
      by_cases hother : other.1 = name
      · simp [hother, Ne.symm hfirst]
      · simp [hother]

theorem contentLength_other {name : String} (hname : name ≠ "content-length") (statusCode : Nat)
    (body : Bytes) :
    (contentLength statusCode body).filter (fun member => member.1 = name) = [] := by
  rw [contentLength]
  split
  · rfl
  · simp [Ne.symm hname]

theorem Response.Carries.captured {r : Response} {requestId : PyStr} (h : r.Carries requestId)
    (state : ErrorState) :
    (capturedResponse r state).Carries requestId := by
  obtain ⟨value, hvalue, hid⟩ := h
  rw [capturedResponse]
  split
  · exact ⟨value, hvalue, hid⟩
  · refine ⟨value, ?_, hid⟩
    rw [List.filter_append, contentLength_other (by decide), List.append_nil, List.filter_filter]
    have hsame : ((firstOfEach r.headers).filter fun member =>
        decide (member.1 = "x-request-id") && decide (member.1 ≠ "content-length")) =
          (firstOfEach r.headers).filter fun member => member.1 = "x-request-id" := by
      apply List.filter_congr
      intro member _
      by_cases hmember : member.1 = "x-request-id" <;> simp [hmember]
    rw [hsame, filter_firstOfEach, hvalue]
    rfl

theorem carries_setHeader (r : Response) {requestId : PyStr} (hascii : ∀ c ∈ requestId, c < 128) :
    { r with headers := setHeader "x-request-id" requestId.asString r.headers : Response }.Carries
      requestId :=
  ⟨requestId.asString, filter_setHeader _ _ _, ofString_asString hascii⟩

/-! ### The bodies -/

section

open Json

/-- A printable content is answered where no string in it holds a lone surrogate. -/
theorem jsonResponse_isSome {content : Json} (hprintable : content.printable = true)
    (statusCode : Nat) (headers : List (String × String)) :
    (jsonResponse statusCode headers content).isSome = content.textsAll fun c =>
      !isSurrogate c := by
  have hascii : ∀ c < 128, (!isSurrogate c) = true := by
    intro c hc
    rw [isSurrogate, decide_eq_false (by omega)]
    rfl
  rw [jsonResponse, Option.isSome_map, utf8Encode_isSome, dumpsCompact,
    write_all hascii (List.forall_mem_nil _) hprintable]

end

theorem ofString_encodable (text : String) :
    ((PyStr.ofString text).all fun c => !isSurrogate c) = true := by
  rw [PyStr.ofString, List.all_map, List.all_eq_true]
  intro c _
  exact congrArg not (char_codePoint c).2

theorem encodable_of_ascii {text : PyStr} (hascii : ∀ c ∈ text, c < 128) :
    (text.all fun c => !isSurrogate c) = true := by
  rw [List.all_eq_true]
  intro c hc
  have hlt := hascii c hc
  rw [isSurrogate, decide_eq_false (by omega)]
  rfl

theorem firecrawlError_parsed (float : PyStr → PyStr × Option Int) (code message : String) :
    (firecrawlError code message).parsed float = true := by
  show (decide [PyStr.ofString "success", PyStr.ofString "error", PyStr.ofString "code"].Nodup &&
    (true && (true && (true && true)))) = true
  decide

theorem firecrawlJsonError_told (requestId : PyStr) (statusCode : Nat) (code message : String)
    (retryAfter : Option Int) :
    ∃ body, utf8Encode (firecrawlError code message).dumpsCompact = some body ∧
      firecrawlJsonError requestId statusCode code message retryAfter =
        some
          { statusCode
            headers :=
              errorHeaders requestId retryAfter ++ contentLength statusCode body ++
                [("content-type", "application/json")]
            body } := by
  have hprintable :=
    Json.printable_of_parsed (firecrawlError_parsed (fun repr => (repr, none)) code message)
  have hencodable : ((firecrawlError code message).textsAll fun c => !isSurrogate c) = true := by
    show (([PyStr.ofString "success", PyStr.ofString "error", PyStr.ofString "code"].all fun name =>
        name.all fun c => !isSurrogate c) &&
      (true && ((PyStr.ofString message).all (fun c => !isSurrogate c) &&
        ((PyStr.ofString code).all (fun c => !isSurrogate c) && true)))) = true
    rw [ofString_encodable, ofString_encodable]
    decide
  have hsome := jsonResponse_isSome hprintable statusCode (errorHeaders requestId retryAfter)
  rw [hencodable] at hsome
  obtain ⟨r, hr⟩ := Option.isSome_iff_exists.mp hsome
  obtain ⟨body, hbody, hrest⟩ := Option.map_eq_some_iff.mp hr
  exact ⟨body, hbody, hr.trans (congrArg some hrest.symm)⟩

/-- The answer to an unexpected exception. -/
theorem handleUnexpected_told (path : PyStr) {requestId : PyStr} (hascii : ∀ c ∈ requestId, c < 128)
    (exceptionType : PyStr) :
    ∃ r, (handleUnexpected path requestId exceptionType).2 = some r ∧ r.statusCode = 500 ∧
      r.Carries requestId := by
  have hcarries : ∀ body : Bytes, Response.Carries
      { statusCode := 500
        headers := errorHeaders requestId none ++ contentLength 500 body ++
          [("content-type", "application/json")]
        body } requestId :=
    fun body => ⟨requestId.asString, by simp [errorHeaders, contentLength],
      ofString_asString hascii⟩
  rw [handleUnexpected]
  split
  · obtain ⟨body, -, hr⟩ := firecrawlJsonError_told requestId 500 "UNKNOWN_ERROR"
      "An unexpected error occurred on the server." none
    exact ⟨_, hr, rfl, hcarries body⟩
  · have hencodable :
        (jsonErrorBody requestId "INTERNAL_ERROR" "Internal error" none).textsAll
          (fun c => !isSurrogate c) =
        true := by
      show (([PyStr.ofString "request_id", PyStr.ofString "error"].all fun name => name.all fun c =>
        !isSurrogate c) && (requestId.all (fun c => !isSurrogate c) &&
          ((([PyStr.ofString "code", PyStr.ofString "message", PyStr.ofString "details"].all
             fun name =>
              name.all fun c => !isSurrogate c) &&
            ((PyStr.ofString "INTERNAL_ERROR").all (fun c => !isSurrogate c) &&
              ((PyStr.ofString "Internal error").all (fun c => !isSurrogate c) &&
                (true && true)))) && true))) = true
      rw [encodable_of_ascii hascii]
      decide
    have hsome := jsonResponse_isSome
      (show (jsonErrorBody requestId "INTERNAL_ERROR" "Internal error" none).printable =
       true from rfl) 500
      (errorHeaders requestId none)
    rw [hencodable] at hsome
    obtain ⟨r, hr⟩ := Option.isSome_iff_exists.mp hsome
    obtain ⟨body, -, hrest⟩ := Option.map_eq_some_iff.mp hr
    exact ⟨r, hr, by rw [← hrest], hrest ▸ hcarries body⟩

/-! ### One request -/

/-- The row tells of the answer to a request. -/
structure RequestLog.Tells (log : RequestLog) (x : Arrival) (r : Response) : Prop where
  requestId : log.requestId = x.requestId
  statusCode : log.statusCode = some (r.statusCode : Int)
  success : log.success = some (decide (200 ≤ r.statusCode ∧ r.statusCode < 300))
  failed : 400 ≤ r.statusCode → log.errorMessage.isSome = true

/-- The labels the request of a row is counted under. -/
def RequestLog.labels (log : RequestLog) : RequestLabels :=
  { endpoint := log.endpoint
    method := log.method
    statusCode := Json.intText (log.statusCode.getD 0)
    clientId := (log.clientId.map fun id => Json.intText id).getD (PyStr.ofString "unknown") }

namespace Middlewares

variable (m : Middlewares) (x : Arrival) (o : Observed)

/-- The row a request leaves, if an answer to it passes. -/
def rowOf : Option RequestLog :=
  match m.requestIdMiddleware x with
  | (_, .error _) => none
  | (state, .ok response) => m.logOf x state response

variable {m x} {state : RequestState} {response : Response} {log : RequestLog}

theorem fcamErrorMiddleware_requestId (m : Middlewares) (x : Arrival) :
    (m.fcamErrorMiddleware x).1.requestId = some x.requestId := by
  rw [fcamErrorMiddleware]
  split <;> rfl

theorem capturedResponse_statusCode (r : Response) (error : ErrorState) :
    (capturedResponse r error).statusCode = r.statusCode := by
  rw [capturedResponse]
  split <;> rfl

theorem requestIdMiddleware_ok (h : m.requestIdMiddleware x = (state, .ok response)) :
    response.Carries x.requestId ∧ state.requestId = some x.requestId ∧
      (400 ≤ response.statusCode → state.error.errorCode.isSome = true) := by
  rw [requestIdMiddleware] at h
  have hid := fcamErrorMiddleware_requestId m x
  cases hinner : m.fcamErrorMiddleware x with
  | mk inner result =>
    rw [hinner] at h hid
    cases result with
    | error exceptionType => cases h
    | ok first =>
      cases h
      refine ⟨(carries_setHeader first (requestIdOf_ascii _ _)).captured _, hid, ?_⟩
      rw [capturedResponse_statusCode, maybeCaptureErrorFromResponse]
      intro hfailed
      split
      · next hkept =>
        rw [Bool.or_eq_true, decide_eq_true_eq] at hkept
        exact hkept.resolve_right (by simpa using hfailed)
      · rfl

theorem logOf_eq_some (hlog : m.logOf x state response = some log) :
    log.requestId = (state.requestId.filter (· ≠ [])).getD (PyStr.ofString "-") ∧
      log.statusCode = some (response.statusCode : Int) ∧
      log.success = some (decide (200 ≤ response.statusCode ∧ response.statusCode < 300)) ∧
      log.errorMessage = state.error.errorCode ∧ log.method = PyStr.ofString x.req.method ∧
        log.clientId = state.clientId ∧
      log.responseTimeMs = some x.responseTimeMs := by
  obtain ⟨endpoint, -, rfl⟩ := Option.map_eq_some_iff.mp hlog
  refine ⟨rfl, rfl, ?_, rfl, rfl, rfl, rfl⟩
  have hsame : 200 ≤ (response.statusCode : Int) ∧ (response.statusCode : Int) < 300 ↔
      200 ≤ response.statusCode ∧ response.statusCode < 300 := by omega
  rw [Option.map_some, decide_eq_decide.mpr hsame]

theorem rowOf_tells (hrow : m.rowOf x = some log) :
    ∃ state response, m.requestIdMiddleware x = (state, .ok response) ∧
    log.Tells x response := by
  rw [rowOf] at hrow
  split at hrow
  · cases hrow
  · next state response hpassed =>
    obtain ⟨-, hid, hfailed⟩ := requestIdMiddleware_ok hpassed
    obtain ⟨hrequestId, hstatus, hsuccess, herror, -⟩ := logOf_eq_some hrow
    have hne : x.requestId ≠ [] := by
      intro hnil
      have hlength := (length_requestIdOf x.req.headers x.uuid).1
      rw [show requestIdOf x.req.headers x.uuid = [] from hnil] at hlength
      exact absurd hlength (by decide)
    refine ⟨state, response, hpassed, ?_, hstatus, hsuccess, ?_⟩
    · rw [hrequestId, hid, Option.filter_some, if_pos (by simpa using hne), Option.getD_some]
    · rw [herror]
      exact hfailed

/-! ### Runs -/

variable (m x) in
/-- The answer to a request, whatever has been observed before. -/
def answerOf : Option Response :=
  match m.requestIdMiddleware x with
  | (_, .error exceptionType) => (handleUnexpected x.req.pathText x.requestId exceptionType).2
  | (_, .ok response) => some response

theorem answerOf_passed (h : m.requestIdMiddleware x = (state, .ok response)) :
    m.answerOf x = some response := by
  rw [answerOf, h]

theorem serve_fst (m : Middlewares) (o : Observed) (x : Arrival) :
    (m.serve o x).1 = m.answerOf x := by
  rw [serve, answerOf]
  cases m.requestIdMiddleware x with
  | mk state result => cases result <;> rfl

theorem serveAll_fst (m : Middlewares) (o : Observed) (arrivals : List Arrival) :
    (m.serveAll o arrivals).1 = arrivals.map m.answerOf := by
  induction arrivals generalizing o with
  | nil => rfl
  | cons x rest ih =>
    show (m.serve o x).1 :: (m.serveAll (m.serve o x).2 rest).1 = _
    rw [ih, serve_fst, List.map_cons]

theorem answerOf_carries (m : Middlewares) (x : Arrival) :
    ∃ r, m.answerOf x = some r ∧ r.Carries x.requestId := by
  rw [answerOf]
  split
  · next exceptionType _ =>
    obtain ⟨r, hr, -, hcarries⟩ :=
      handleUnexpected_told x.req.pathText (requestIdOf_ascii x.req.headers x.uuid) exceptionType
    exact ⟨r, hr, hcarries⟩
  · next response hpassed => exact ⟨response, rfl, (requestIdMiddleware_ok hpassed).1⟩

/-- What is observed grows by some rows, each offered to a database: those it accepts are logged,
and all are counted. -/
structure Grows (m : Middlewares) (o o' : Observed) (rows : List (Db × RequestLog)) : Prop where
  logs : o'.logs.rows.map Prod.snd =
    o.logs.rows.map Prod.snd ++ (rows.filter fun row => m.accepts row.1 row.2).map Prod.snd
  counts : ∀ labels, o'.metrics.requestsTotal labels =
    o.metrics.requestsTotal labels + if m.metricsEnabled then
      rows.countP (fun row => row.2.labels = labels) else 0

theorem Grows.append {o o' o'' : Observed} {rows rows' : List (Db × RequestLog)}
    (h : m.Grows o o' rows) (h' : m.Grows o' o'' rows') : m.Grows o o'' (rows ++ rows') where
  logs := by rw [h'.logs, h.logs, List.filter_append, List.map_append, List.append_assoc]
  counts labels := by
    rw [h'.counts, h.counts, List.countP_append]
    split <;> omega

theorem persistRequestLog_rows (accepts : RequestLog → Bool) (log : Option RequestLog)
    (logs : Table RequestLog) :
    (persistRequestLog accepts log logs).rows.map Prod.snd = logs.rows.map Prod.snd ++
      log.toList.filter accepts := by
  cases log with
  | none => exact (List.append_nil _).symm
  | some log =>
    rw [persistRequestLog, Option.filter_some, Option.toList_some, List.filter_singleton]
    cases accepts log with
    | false => exact (List.append_nil _).symm
    | true => exact List.map_append

theorem labels_metricsOf (hlog : m.logOf x state response = some log) :
    (m.metricsOf x state response).map RequestMetrics.labels = some log.labels := by
  obtain ⟨-, hstatus, -, -, hmethod, hclient, -⟩ := logOf_eq_some hlog
  rw [metricsOf, hlog, Option.map_some, Option.map_some, RequestLog.labels, hstatus, hclient,
    hmethod]
  rfl

theorem recordRequest_total (metrics : Metrics) (recorded : RequestMetrics)
    (labels : RequestLabels) :
    (metrics.recordRequest recorded).requestsTotal labels =
      metrics.requestsTotal labels + if recorded.labels = labels then 1 else 0 := by
  show Function.update metrics.requestsTotal recorded.labels
    (metrics.requestsTotal recorded.labels + 1) labels = _
  split
  · next hsame => rw [← hsame, Function.update_self]
  · next hother => rw [Function.update_of_ne (Ne.symm hother), Nat.add_zero]

/-- The row of a request, with the database it is offered to. -/
def offered (m : Middlewares) (x : Arrival) : List (Db × RequestLog) :=
  (m.rowOf x).toList.map fun log => (x.db, log)

theorem serve_grows (m : Middlewares) (o : Observed) (x : Arrival) :
    m.Grows o (m.serve o x).2 (m.offered x) := by
  rw [serve, offered, rowOf]
  cases hpassed : m.requestIdMiddleware x with
  | mk state result =>
    cases result with
    | error exceptionType => exact ⟨(List.append_nil _).symm, fun labels => by simp⟩
    | ok response =>
      have hfilter : ∀ rows : List RequestLog,
          ((rows.map fun log => (x.db, log)).filter fun row => m.accepts row.1 row.2).map Prod.snd =
            rows.filter (m.accepts x.db) := by
        intro rows
        rw [List.filter_map, List.map_map]
        exact List.map_id _
      refine ⟨?_, fun labels => ?_⟩
      · rw [hfilter]
        exact persistRequestLog_rows _ _ _
      cases hlog : m.logOf x state response with
      | none => simp [metricsOf, hlog]
      | some log =>
        obtain ⟨recorded, hrecorded, hlabels⟩ := Option.map_eq_some_iff.mp (labels_metricsOf hlog)
        show (if m.metricsEnabled then
          (m.metricsOf x state response).elim o.metrics o.metrics.recordRequest
          else o.metrics).requestsTotal labels = o.metrics.requestsTotal labels +
            if m.metricsEnabled then
              ((m.logOf x state response).toList.map fun log => (x.db, log)).countP fun row =>
                row.2.labels = labels
            else 0
        rw [hlog, hrecorded, Option.elim_some, Option.toList_some, List.map_singleton,
          List.countP_singleton]
        split
        · rw [recordRequest_total, hlabels]
          simp only [decide_eq_true_eq]
        · rfl

theorem serveAll_grows (m : Middlewares) (o : Observed) (arrivals : List Arrival) :
    m.Grows o (m.serveAll o arrivals).2 (arrivals.flatMap m.offered) := by
  induction arrivals generalizing o with
  | nil => exact ⟨(List.append_nil _).symm, fun labels => by simp [serveAll]⟩
  | cons x rest ih => exact (serve_grows m o x).append (ih (m.serve o x).2)

variable (m) in
/-- The rows the database refuses. -/
def refusedRows (arrivals : List Arrival) : List RequestLog :=
  ((arrivals.flatMap m.offered).filter fun row => !m.accepts row.1 row.2).map Prod.snd

end Middlewares

/-- Every request is answered under its id. Every row of the log tells of the answer to a request,
and the counters exceed the rows by those the database has refused. -/
theorem requests_accounted (m : Middlewares) (arrivals : List Arrival) :
    ∃ responses observed, m.serveAll {} arrivals = (responses.map some, observed) ∧
      List.Forall₂ (fun x (r : Response) => r.Carries x.requestId) arrivals responses ∧
      (∀ row ∈ observed.logs.rows, ∃ (i : Nat) (x : Arrival) (r : Response),
        arrivals[i]? = some x ∧ responses[i]? = some r ∧ row.2.Tells x r) ∧
      ∀ labels, observed.metrics.requestsTotal labels =
        if m.metricsEnabled then
          observed.logs.rows.countP (fun row => row.2.labels = labels) +
            (m.refusedRows arrivals).countP (fun log => log.labels = labels)
        else 0 := by
  have hanswers : ∃ responses : List Response, arrivals.map m.answerOf = responses.map some ∧
      List.Forall₂ (fun x (r : Response) => r.Carries x.requestId) arrivals responses := by
    induction arrivals with
    | nil => exact ⟨[], rfl, .nil⟩
    | cons x rest ih =>
      obtain ⟨r, hr, hcarries⟩ := Middlewares.answerOf_carries m x
      obtain ⟨responses, hrest, hall⟩ := ih
      exact ⟨r :: responses, by rw [List.map_cons, List.map_cons, hr, hrest], .cons hcarries hall⟩
  obtain ⟨responses, hresponses, hall⟩ := hanswers
  obtain ⟨hlogs, hcounts⟩ := Middlewares.serveAll_grows m {} arrivals
  have hempty : (Table.empty : Table RequestLog).rows.map Prod.snd = [] := rfl
  refine ⟨responses, (m.serveAll {} arrivals).2, ?_, hall, ?_, ?_⟩
  · rw [← hresponses, ← Middlewares.serveAll_fst m {}]
  · intro row hrow
    have hmem : row.2 ∈ ((m.serveAll {} arrivals).2.logs.rows.map Prod.snd) :=
      List.mem_map_of_mem hrow
    rw [hlogs, hempty, List.nil_append] at hmem
    obtain ⟨offer, hoffer, hsame⟩ := List.mem_map.mp hmem
    obtain ⟨x, hx, hoffered⟩ := List.mem_flatMap.mp (List.mem_filter.mp hoffer).1
    obtain ⟨log, hlog, rfl⟩ := List.mem_map.mp hoffered
    obtain ⟨state, r, hpassed, htells⟩ := Middlewares.rowOf_tells (Option.mem_toList.mp hlog)
    obtain ⟨i, hi⟩ := List.mem_iff_getElem?.mp hx
    have hr := Middlewares.answerOf_passed hpassed
    have hget : (responses.map some)[i]? = some (some r) := by
      rw [← hresponses, List.getElem?_map, hi, Option.map_some, hr]
    rw [List.getElem?_map] at hget
    obtain ⟨r', hr', hfound⟩ := Option.map_eq_some_iff.mp hget
    exact ⟨i, x, r, hi, hr'.trans hfound, hsame ▸ htells⟩
  · intro labels
    rw [hcounts, Middlewares.refusedRows]
    have hrows :
        ∀ rows : List (Db × RequestLog),
          (rows.map Prod.snd).countP (fun log => log.labels = labels) = rows.countP fun row =>
          row.2.labels = labels := by
      intro rows
      rw [List.countP_map]
      rfl
    have hlogged : (m.serveAll {} arrivals).2.logs.rows.countP (fun row => row.2.labels = labels) =
        ((m.serveAll {} arrivals).2.logs.rows.map Prod.snd).countP fun log =>
          log.labels = labels := by
      rw [List.countP_map]
      rfl
    rw [hlogged, hlogs, hempty, List.nil_append, hrows, hrows, ← List.countP_eq_countP_filter_add]
    exact Nat.zero_add _

/-! ### Errors of the data plane -/

/-- An error the gateway itself answers a client of the data plane with. -/
structure Refusal where
  statusCode : Nat
  code : String
  message : String
  retryAfter : Option Int := none

def FcamError.refusal (error : FcamError) : Refusal :=
  { statusCode := error.statusCode, code := error.code.text, message := error.message,
    retryAfter := error.retryAfter }

/-- The error the routes end with, unless they answer or raise what no handler is for. -/
def Ending.refusal : Ending → Option Refusal
  | answered _ => none
  | fcamError error => some error.refusal
  | validationError _ =>
    some { statusCode := 400, code := "VALIDATION_ERROR", message := "Invalid request parameters" }
  | httpException statusCode =>
    some { statusCode, code := (httpError statusCode).1, message := (httpError statusCode).2 }
  | other _ => none

/-- The error a request is refused with: by the limits, or by the routes. -/
def Middlewares.refusalOf (m : Middlewares) (x : Arrival) : Option Refusal :=
  match m.limits.dispatch x.req with
  | .error error => some error.refusal
  | .ok () => x.routed.ending.refusal

/-- The answer with which a refusal passes the handlers. -/
def Refusal.Answers (refusal : Refusal) (requestId : PyStr) (response : Response) : Prop :=
  firecrawlJsonError requestId refusal.statusCode refusal.code refusal.message refusal.retryAfter =
    some response

section

variable {m : Middlewares} {x : Arrival} {refusal : Refusal} {path requestId : PyStr}

theorem lookup_filter_ne {name other : String} (hother : other ≠ name)
    (headers : List (String × String)) :
    (headers.filter fun member => member.1 ≠ name).lookup other = headers.lookup other := by
  induction headers with
  | nil => rfl
  | cons first rest ih =>
    rw [List.filter_cons]
    by_cases hfirst : first.1 = name
    · have hne : (other == first.1) = false :=
        beq_eq_false_iff_ne.mpr fun hsame => hother (hsame.trans hfirst)
      rw [if_neg (by simpa using hfirst), ih, List.lookup_cons, hne]
    · rw [if_pos (by simpa using hfirst), List.lookup_cons, List.lookup_cons, ih]

theorem header_setHeader {name other : String} (value : String) (hother : other ≠ name)
    (headers : List (String × String)) :
    header (setHeader name value headers) other = header headers other := by
  have hne : (other == name) = false := beq_eq_false_iff_ne.mpr hother
  induction headers with
  | nil => rw [setHeader, header, List.lookup_cons, hne, header]
  | cons first rest ih =>
    rw [header] at ih ⊢
    rw [setHeader, header, List.lookup_cons]
    split
    · next hfirst =>
      rw [List.lookup_cons, hne, hfirst, hne]
      exact lookup_filter_ne hother rest
    · rw [List.lookup_cons, ih, header]

theorem inferApiEndpoint_isSome (path : PyStr) :
    (inferApiEndpoint path).isSome = isProxyPath path := by
  rw [inferApiEndpoint, isProxyPath]
  cases hroot :
    (["/api/", "/v1/", "/v2/", "/exa/"].map PyStr.ofString).find? (·.isPrefixOf path) with
  | none =>
    rw [List.find?_eq_none] at hroot
    exact (List.any_eq_false.mpr hroot).symm
  | some root =>
    rw [List.any_eq_true.mpr ⟨root, List.mem_of_find?_eq_some hroot, List.find?_some hroot⟩]
    dsimp only
    split_ifs <;> rfl

theorem refusal_answered (refusal : Refusal) (requestId : PyStr) :
    ∃ response, refusal.Answers requestId response := by
  obtain ⟨body, -, hr⟩ :=
    firecrawlJsonError_told requestId refusal.statusCode refusal.code refusal.message
      refusal.retryAfter
  exact ⟨_, hr⟩

theorem handleFcamError_proxy (hproxy : isProxyPath path = true) (error : FcamError)
    {response : Response} (hresponse : error.refusal.Answers requestId response) :
    (encoded (handleFcamError path requestId error)).1.errorCode =
      some (PyStr.ofString error.code.text) ∧
      (encoded (handleFcamError path requestId error)).2 = .ok response := by
  refine ⟨rfl, ?_⟩
  rw [encoded, handleFcamError, if_pos hproxy,
    show firecrawlJsonError requestId error.statusCode error.code.text error.message
      error.retryAfter = some response from hresponse]

/-- The handlers answer with the error the routes end with. -/
theorem handled_proxy (hproxy : isProxyPath path = true) {ending : Ending}
    (hrefused : ending.refusal = some refusal) {response : Response}
    (hresponse : refusal.Answers requestId response) :
    (ending.handled path requestId).1.errorCode = some (PyStr.ofString refusal.code) ∧
      (ending.handled path requestId).2 = .ok response := by
  cases ending with
  | answered => cases hrefused
  | other => cases hrefused
  | fcamError error =>
    cases hrefused
    exact handleFcamError_proxy hproxy error hresponse
  | validationError errors =>
    cases hrefused
    refine ⟨rfl, ?_⟩
    rw [Ending.handled, encoded, handleValidationError, if_pos hproxy,
      show firecrawlJsonError requestId 400 "VALIDATION_ERROR" "Invalid request parameters" none =
        some response from hresponse]
  | httpException statusCode =>
    cases hrefused
    refine ⟨rfl, ?_⟩
    rw [Ending.handled, encoded, handleHttpException]
    dsimp only
    rw [if_pos hproxy,
      show firecrawlJsonError requestId statusCode (httpError statusCode).1 (httpError statusCode).2
        none = some response from hresponse]

theorem fcamErrorMiddleware_refused (hproxy : isProxyPath x.req.pathText = true)
    (hrefused : m.refusalOf x = some refusal) {response : Response}
    (hresponse : refusal.Answers x.requestId response) :
    (m.fcamErrorMiddleware x).1.error.errorCode = some (PyStr.ofString refusal.code) ∧
      (m.fcamErrorMiddleware x).2 = .ok response := by
  rw [Middlewares.refusalOf] at hrefused
  rw [Middlewares.fcamErrorMiddleware]
  cases hlimits : m.limits.dispatch x.req with
  | error error =>
    rw [hlimits] at hrefused
    cases hrefused
    exact handleFcamError_proxy hproxy error hresponse
  | ok passed =>
    rw [hlimits] at hrefused
    exact handled_proxy hproxy hrefused hresponse

/-- An error passes `RequestIdMiddleware` with the id of the request. -/
theorem requestIdMiddleware_failed {state : RequestState} {first : Response}
    (hinner : m.fcamErrorMiddleware x = (state, .ok first))
    (hfailed : state.error.errorCode.isSome = true) :
    m.requestIdMiddleware x =
      (state, .ok
        { first with
          headers := setHeader "x-request-id" x.requestId.asString first.headers }) := by
  rw [Middlewares.requestIdMiddleware, hinner]
  dsimp only
  rw [maybeCaptureErrorFromResponse, capturedResponse, hfailed, Bool.true_or, if_pos rfl,
    if_pos rfl]

/-- What a client of the data plane is refused with it can parse, and it is what the log says of its
request. -/
theorem refusal_told (float : PyStr → PyStr × Option Int) (o : Observed)
    (hproxy : isProxyPath x.req.pathText = true) (hrefused : m.refusalOf x = some refusal) :
    ∃ r text log, (m.serve o x).1 = some r ∧ r.statusCode = refusal.statusCode ∧
      header r.headers "retry-after" = refusal.retryAfter.map toString ∧
      utf8Encode text = some r.body ∧ Json.loads (.default float) text =
        some (firecrawlError refusal.code refusal.message) ∧
      (m.serve o x).2.logs = persistRequestLog (m.accepts x.db) (some log) o.logs ∧
      log.requestId = x.requestId ∧ log.statusCode = some (refusal.statusCode : Int) ∧
      log.errorMessage = some (PyStr.ofString refusal.code) := by
  obtain ⟨body, hbody, hr⟩ :=
    firecrawlJsonError_told x.requestId refusal.statusCode refusal.code refusal.message
      refusal.retryAfter
  obtain ⟨hcode, hresult⟩ := fcamErrorMiddleware_refused hproxy hrefused hr
  have hpassed :=
    requestIdMiddleware_failed (Prod.ext rfl hresult) (Option.isSome_iff_exists.mpr ⟨_, hcode⟩)
  obtain ⟨log, hlog⟩ : ∃ log, m.rowOf x = some log := by
    rw [Middlewares.rowOf, hpassed]
    refine Option.isSome_iff_exists.mp ?_
    dsimp only
    rw [Middlewares.logOf, requestLogOf, Option.isSome_map, Option.isSome_or,
      inferApiEndpoint_isSome, hproxy, Bool.or_true]
  obtain ⟨_, _, hpassed', htells⟩ := Middlewares.rowOf_tells hlog
  rw [hpassed] at hpassed'
  cases hpassed'
  have hrow := hlog
  rw [Middlewares.rowOf, hpassed] at hrow
  obtain ⟨-, -, -, herror, -⟩ := Middlewares.logOf_eq_some hrow
  have hserve := (Middlewares.serve_fst m o x).trans (Middlewares.answerOf_passed hpassed)
  refine ⟨_, (firecrawlError refusal.code refusal.message).dumpsCompact, log, hserve, rfl, ?_,
    hbody, ?_, ?_, htells.requestId, htells.statusCode, herror.trans hcode⟩
  · rw [header_setHeader _ (by decide)]
    cases refusal.retryAfter with
    | none =>
      rw [contentLength]
      split <;> rfl
    | some seconds => rfl
  · rw [Json.dumpsCompact]
    exact Json.loads_write_of_parsed (List.forall_mem_nil _) (firecrawlError_parsed float _ _)
  · rw [Middlewares.serve, hpassed]
    exact congrArg (fun row => persistRequestLog (m.accepts x.db) row o.logs) hrow

end

/-- The middlewares of the default configuration, before a database that enforces its columns and
foreign keys. -/
def defaultMiddlewares : Middlewares :=
  { limits := .ofConfig {}
    loads := fun _ => none
    unicodeWord := fun _ => false
    accepts := Db.acceptsLog }

/-- A client is over its quota, a path is not allowed, and a handler runs into an unexpected
exception. -/
def troubled : List Arrival :=
  let post (path : String) : InboundRequest :=
    { clientId := 1, method := "POST", path := path.toList,
      headers := [("x-request-id", "req-00000001")] }
  [{ req := post "/api/scrape"
     uuid := 0
     db := { clients := Table.empty.insert { name := "one", tokenHash := "t1" } }
     routed :=
      { clientId := some 1
        ending := .fcamError
          { statusCode := 429, code := .clientQuotaExceeded, message := "Client quota exceeded",
            retryAfter := some 60 } }
     responseTimeMs := 3
     createdAt := 0 },
    { req := post "/api/keys", uuid := 0, routed := { ending := .httpException 404 },
      responseTimeMs := 1, createdAt := 1 },
    { req := post "/api/scrape", uuid := 0,
      routed := { ending := .other (PyStr.ofString "KeyError") }, responseTimeMs := 2,
      createdAt := 2 }]

/-- The client over its quota is told when to come back. -/
theorem quota_refusal_told :
    ∃ x refusal, troubled[0]? = some x ∧ defaultMiddlewares.refusalOf x = some refusal ∧
      ∃ r text log, (defaultMiddlewares.serve {} x).1 = some r ∧ r.statusCode = refusal.statusCode ∧
        header r.headers "retry-after" = refusal.retryAfter.map toString ∧
        utf8Encode text = some r.body ∧
        Json.loads (.default fun repr => (repr, none)) text =
          some (firecrawlError refusal.code refusal.message) ∧
        (defaultMiddlewares.serve {} x).2.logs = persistRequestLog (defaultMiddlewares.accepts x.db)
          (some log) .empty ∧
        log.requestId = x.requestId ∧ log.statusCode = some (refusal.statusCode : Int) ∧
        log.errorMessage = some (PyStr.ofString refusal.code) := by
  have hlimits : defaultMiddlewares.limits.dispatch troubled[0].req = .ok () := by decide
  have hrefused : defaultMiddlewares.refusalOf troubled[0] =
      some
        { statusCode := 429
          code := "CLIENT_QUOTA_EXCEEDED"
          message := "Client quota exceeded"
          retryAfter := some 60 } := by
    rw [Middlewares.refusalOf, hlimits]
    rfl
  exact ⟨_, _, rfl, hrefused,
    refusal_told (fun repr => (repr, none)) {} (by decide) hrefused⟩

-- Two of the three requests leave a row.
example : ((defaultMiddlewares.serveAll {} troubled).2.logs.rows.map fun row =>
    (row.2.statusCode, row.2.errorMessage)) =
    [(some 429, some (PyStr.ofString "CLIENT_QUOTA_EXCEEDED")),
      (some 404, some (PyStr.ofString "PATH_NOT_ALLOWED"))] := by
  decide +kernel

end Fcam
