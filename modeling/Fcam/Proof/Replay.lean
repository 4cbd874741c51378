import Fcam.Model.DataPlane

/-!
# What a stored answer is replayed to

A request that finds a record of its key which has not expired is answered from that record alone:
`startOrReplay_found` gives the answer, which compares fingerprints and nothing else. The
fingerprint names the endpoint label a route chose and the payload, but not where the request is
directed. So two routes with one label answer for each other, and `replay_answers_iff` says for
which pairs of requests that is right.
-/

namespace Fcam

/-! ### One request after another -/

theorem find?_filter_of_kept {α : Type} {p q : α → Bool} {rows : List α} {row : α}
    (hfind : rows.find? p = some row) (hkept : q row = true) :
    (rows.filter q).find? p = some row := by
  obtain ⟨hp, before, after, rfl, hbefore⟩ := List.find?_eq_some_iff_append.mp hfind
  rw [List.find?_filter, List.find?_eq_some_iff_append]
  refine ⟨by rw [hkept, hp]; rfl, before, after, rfl, fun row' hmem => ?_⟩
  have hnot := hbefore row' hmem
  rw [Bool.not_eq_true'] at hnot ⊢
  rw [hnot]
  exact decide_eq_false fun h => Bool.false_ne_true h.2

/-- A clean-up keeps the record of a key that has not expired. -/
theorem recordOfKey?_cleanupExpired {clientId id : Nat} (other : Nat) {key : String} {now : Instant}
    {records : Records} {existing : IdempotencyRecord}
    (hfound : recordOfKey? clientId key records = some (id, existing))
    (hlive : expiredAt now existing = false) :
    recordOfKey? clientId key (cleanupExpired other now records) = some (id, existing) := by
  refine find?_filter_of_kept hfound ?_
  simp [hlive]

theorem loopWhile_done_first {σ ρ : Type} (pass : Nat → σ → Pass σ ρ) {s : σ} {r : ρ} (fuel : Nat)
    (hdone : pass 0 s = .done r) : loopWhile (fun _ => true) pass (fuel + 1) 0 s = .done r := by
  rw [loopWhile, if_pos rfl, hdone]

section

variable {config : AppConfig} {sha256 : Bytes → String} {req : IdempotentRequest}
  {clock : Nat → Instant} {records : Records} {key : String}

theorem startOrReplay_of_startOnce {ended : Begun × Records} (hkey : givenKey config req = .ok key)
    (hdone : startOnce config sha256 req key (clock 0) records = .done ended) :
    startOrReplay config sha256 req clock records = ended := by
  have hloop := loopWhile_done_first (fun i => startOnce config sha256 req key (clock i)) 999 hdone
  rw [startOrReplay, hkey]
  simp only [recursionLimit, hloop]

/-- A record of the key that has not expired is in the way, and answers. -/
theorem startOrReplay_found {id : Nat} {existing : IdempotencyRecord}
    (hkey : givenKey config req = .ok key)
    (hfound : recordOfKey? req.clientId key records = some (id, existing))
    (hlive : expiredAt (clock 0) existing = false) :
    startOrReplay config sha256 req clock records =
      (match recordFields config sha256 req (clock 0) with
        | .error error => .raised error
        | .ok fields => answerOf fields.1 existing,
        cleanupExpired req.clientId (clock 0) records) := by
  have hcleaned := recordOfKey?_cleanupExpired req.clientId hfound hlive
  apply startOrReplay_of_startOnce hkey
  simp only [startOnce]
  cases hfields : recordFields config sha256 req (clock 0) with
  | error error => rfl
  | ok fields =>
    have hrefused : insertRecord (newRecord req key fields.1 fields.2)
        (cleanupExpired req.clientId (clock 0) records) = none := by
      simp [insertRecord, newRecord, hcleaned]
    simp only [hrefused, reread, hcleaned, hlive, Bool.false_eq_true, if_false]

/-- Without a record of the key in the way the request gets one and is let through. -/
theorem startOrReplay_fresh {fields : String × Instant} (hkey : givenKey config req = .ok key)
    (hfree : recordOfKey? req.clientId key (cleanupExpired req.clientId (clock 0) records) = none)
    (hfields : recordFields config sha256 req (clock 0) = .ok fields) :
    startOrReplay config sha256 req clock records =
      (.letThrough (some (cleanupExpired req.clientId (clock 0) records).nextId),
        (cleanupExpired req.clientId (clock 0) records).insert
          (newRecord req key fields.1 fields.2)) := by
  apply startOrReplay_of_startOnce hkey
  simp [startOnce, hfields, insertRecord, newRecord, hfree]

theorem givenKey_of_some (henabled : config.idempotency.enabled = true)
    (hkey : req.idempotencyKey = some key) (hne : key ≠ "") : givenKey config req = .ok key := by
  simp [givenKey, henabled, hkey, Option.filter, hne]

end

/-! ### Stored responses -/

/-- The response comes out as it is when it is built again from what is stored of it. -/
def Response.WellFormed (response : Response) : Prop :=
  mkResponse response.statusCode response.headers response.body = .ok response

theorem latin1_toDigits (n : Nat) : latin1 (String.ofList (Nat.toDigits 10 n)) = true := by
  rw [latin1, String.toList_ofList, List.all_eq_true]
  intro c hc
  have hdigit := Nat.isDigit_of_mem_toDigits (by decide) (by decide) hc
  simp only [Char.isDigit, Bool.and_eq_true, decide_eq_true_eq] at hdigit
  have hle : c.toNat ≤ 57 := UInt32.le_iff_toNat_le.mp hdigit.2
  exact decide_eq_true (by omega)

theorem wellFormed_of_mkResponse {statusCode : Nat} {headers : List (String × String)}
    {body : Bytes} {response : Response} (h : mkResponse statusCode headers body = .ok response) :
    response.WellFormed := by
  rw [mkResponse] at h
  split at h
  · next hlatin =>
    have hresponse := Except.ok.inj h
    rw [← hresponse, Response.WellFormed]
    simp only
    split
    · next hkept =>
      rw [mkResponse, if_pos hlatin]
      simp only [if_pos hkept]
    · next hfilled =>
      have hlatin' :
          (headers ++ [("content-length", String.ofList (Nat.toDigits 10 body.length))]).all
            (fun h => latin1 h.1 && latin1 h.2) = true := by
        rw [List.all_append, hlatin]
        simp [latin1_toDigits, show latin1 "content-length" = true from by decide]
      rw [mkResponse, if_pos hlatin']
      simp
  · cases h

/-- The record is completed with a response. -/
structure IdempotencyRecord.Holds (record : IdempotencyRecord) (response : Response) : Prop where
  status : record.status = .completed
  statusCode : record.responseStatusCode = some response.statusCode
  stored : record.responseBody = some (response.headers, response.body)
  wellFormed : response.WellFormed

theorem answerOf_holds {record : IdempotencyRecord} {response : Response}
    (h : record.Holds response) (hash : String) :
    answerOf hash record =
      if record.requestHash = hash then .replay response
        else .raised (.fcam idempotencyKeyConflict) := by
  have hwell := h.wellFormed
  rw [Response.WellFormed] at hwell
  simp only [answerOf, h.status, h.statusCode, h.stored, deserializeResponse, hwell, ite_not]

/-! ### The fingerprint of a creation -/

theorem endpoint_cases (route : CreateRoute) :
    route.endpoint = "crawl" ∨ route.endpoint = "agent" := by
  cases route <;> simp [CreateRoute.endpoint]

/-- The text before the payload in what is hashed for a route. -/
def fingerprintHead (endpoint : String) : PyStr :=
  PyStr.ofString ("\x7b\"endpoint\":\"" ++ endpoint ++ "\",\"method\":\"POST\",\"payload\":")

theorem requestText_create (route : CreateRoute) (req : CreateRequest) :
    requestText (idempotentRequest route req) = fingerprintHead route.endpoint ++
      (req.payload.dumps ++ [125]) := by
  have hmembers : requestText (idempotentRequest route req) =
      [123] ++ Json.separated []
        ((Json.sortMembers
          [(PyStr.ofString "method", (Json.str ((upper "POST").map Char.toNat)).dumps),
            (PyStr.ofString "endpoint", (Json.str (PyStr.ofString route.endpoint)).dumps),
            (PyStr.ofString "payload", req.payload.dumps)]).map fun m =>
              Json.quote m.1 ++ [58] ++ m.2) ++ [125] := by
    simp only [requestText, Json.dumps, Json.dumpsMembers, idempotentRequest]
  have hseparated : ∀ first second third : PyStr,
      [123] ++ Json.separated [] [first, second, third] ++ [125] =
        ([123] ++ first ++ [44] ++ second ++ [44]) ++ (third ++ [125]) := by
    intro first second third
    simp only [Json.separated, List.flatMap_cons, List.flatMap_nil, List.append_nil,
      List.nil_append, List.append_assoc, List.cons_append]
  have hsorted : ∀ method endpoint payload : PyStr,
      Json.sortMembers [(PyStr.ofString "method", method), (PyStr.ofString "endpoint", endpoint),
        (PyStr.ofString "payload", payload)] =
      [(PyStr.ofString "endpoint", endpoint), (PyStr.ofString "method", method),
        (PyStr.ofString "payload", payload)] := fun _ _ _ => rfl
  rw [hmembers, hsorted, List.map_cons, List.map_cons, List.map_cons, List.map_nil, hseparated]
  rcases endpoint_cases route with hendpoint | hendpoint <;> rw [hendpoint] <;> rfl

theorem fingerprintHead_ne {rest rest' : PyStr} :
    fingerprintHead "crawl" ++ rest ≠ fingerprintHead "agent" ++ rest' := by
  have hdiffer : fingerprintHead "crawl" ≠ fingerprintHead "agent" := by decide
  have hlength : (fingerprintHead "crawl").length = (fingerprintHead "agent").length := by decide
  exact fun h => hdiffer (List.append_inj h hlength).1

theorem fingerprintHead_inj {route route' : CreateRoute} {rest rest' : PyStr}
    (h : fingerprintHead route.endpoint ++ rest = fingerprintHead route'.endpoint ++ rest') :
    route.endpoint = route'.endpoint ∧ rest = rest' := by
  have hendpoint : route.endpoint = route'.endpoint := by
    rcases endpoint_cases route with hroute | hroute <;> rcases endpoint_cases route' with
      hroute' | hroute'
    · exact hroute.trans hroute'.symm
    · rw [hroute, hroute'] at h
      exact absurd h fingerprintHead_ne
    · rw [hroute, hroute'] at h
      exact absurd h.symm fingerprintHead_ne
    · exact hroute.trans hroute'.symm
  rw [hendpoint] at h
  exact ⟨hendpoint, List.append_cancel_left h⟩

theorem requestText_create_inj {route route' : CreateRoute} {req req' : CreateRequest}
    (h : requestText (idempotentRequest route req) = requestText (idempotentRequest route' req')) :
    route.endpoint = route'.endpoint ∧ req.payload.dumps = req'.payload.dumps := by
  rw [requestText_create, requestText_create] at h
  obtain ⟨hendpoint, hrest⟩ := fingerprintHead_inj h
  exact ⟨hendpoint, List.append_cancel_right hrest⟩

/-! ### Routes that answer for each other -/

/-- Two requests create the same thing: the same payload, directed at the same upstream
operation. -/
def SameCreation (route route' : CreateRoute) (req req' : CreateRequest) : Prop :=
  req.payload.dumps = req'.payload.dumps ∧ route.primary req.query = route'.primary req'.query

/-- A request is replayed a stored answer only where it creates the same thing, and is refused with
a conflict otherwise. -/
def AnswersSameCreation (route route' : CreateRoute) (req req' : CreateRequest)
    (begun : Begun) : Prop :=
  (∀ response, begun = .replay response → SameCreation route route' req req') ∧
    (¬SameCreation route route' req req' → begun = .raised (.fcam idempotencyKeyConflict))

/-- The response to a request is stored under its key, and has not expired. -/
def Stored (sha256 : Bytes → String) (req : IdempotentRequest) (response : Response) (now : Instant)
    (records : Records) : Prop :=
  ∃ key id existing, req.idempotencyKey = some key ∧ key ≠ "" ∧
    recordOfKey? req.clientId key records = some (id, existing) ∧ expiredAt now existing = false ∧
      hashRequest sha256 req = some existing.requestHash ∧ existing.Holds response

theorem recordFields_ne_conflict {config : AppConfig} {sha256 : Bytes → String}
    {req : IdempotentRequest} {now : Instant} {error : Raised}
    (h : recordFields config sha256 req now = .error error) :
    Begun.raised error ≠ .raised (.fcam idempotencyKeyConflict) := by
  rw [recordFields] at h
  split at h
  · cases h
    simp
  · cases h
    simp
  · cases h

theorem hashRequest_of_recordFields {config : AppConfig} {sha256 : Bytes → String}
    {req : IdempotentRequest} {now : Instant} {fields : String × Instant}
    (h : recordFields config sha256 req now = .ok fields) :
    hashRequest sha256 req = some fields.1 := by
  rw [recordFields] at h
  split at h
  · cases h
  · cases h
  · next hash expiresAt hhash _ =>
    cases h
    exact hhash

/-- A later request with the key of a stored answer is treated as it should be exactly when it
creates the same thing, or its fingerprint can be computed and differs in the label or the
payload. -/
theorem replay_answers_iff {config : AppConfig} {sha256 : Bytes → String}
    {route route' : CreateRoute} {req req' : CreateRequest} {response : Response}
    {clock : Nat → Instant} {records : Records} (henabled : config.idempotency.enabled = true)
    (hclient : req'.clientId = req.clientId) (hkey : req'.idempotencyKey = req.idempotencyKey)
    (hstored : Stored sha256 (idempotentRequest route req) response (clock 0) records)
    (hcollision :
      hashRequest sha256 (idempotentRequest route req) =
      hashRequest sha256 (idempotentRequest route' req') →
      requestText (idempotentRequest route req) = requestText (idempotentRequest route' req')) :
    AnswersSameCreation route route' req req'
        (startOrReplay config sha256 (idempotentRequest route' req') clock records).1 ↔
      SameCreation route route' req req' ∨
        ((∃ fields, recordFields config sha256 (idempotentRequest route' req') (clock 0) =
          .ok fields) ∧
    ¬(route.endpoint = route'.endpoint ∧ req.payload.dumps = req'.payload.dumps)) := by
  obtain ⟨key, id, existing, hreqKey, hne, hfound, hlive, hhash, hholds⟩ := hstored
  have hgiven : givenKey config (idempotentRequest route' req') = .ok key :=
    givenKey_of_some henabled (hkey.trans hreqKey) hne
  have hfound' :
      recordOfKey? (idempotentRequest route' req').clientId key records = some (id, existing) := by
    rw [← hfound]
    exact congrArg (recordOfKey? · key records) hclient
  rw [startOrReplay_found hgiven hfound' hlive]
  cases hfields : recordFields config sha256 (idempotentRequest route' req') (clock 0) with
  | error error =>
    have hraised := recordFields_ne_conflict hfields
    simp only [AnswersSameCreation, reduceCtorEq, exists_false, false_and, or_false, false_implies,
      implies_true, true_and]
    exact ⟨fun h => Classical.byContradiction fun hdifferent => hraised (h hdifferent),
      fun h hdifferent =>
      absurd h hdifferent⟩
  | ok fields =>
    have hhash' := hashRequest_of_recordFields hfields
    have hsame : existing.requestHash = fields.1 ↔
        route.endpoint = route'.endpoint ∧ req.payload.dumps = req'.payload.dumps := by
      constructor
      · intro heq
        exact requestText_create_inj (hcollision (by rw [hhash, hhash', heq]))
      · rintro ⟨hendpoint, hpayload⟩
        have htext :
            requestText (idempotentRequest route req) =
              requestText (idempotentRequest route' req') := by
          rw [requestText_create, requestText_create, hendpoint, hpayload]
        rw [hashRequest, htext, ← hashRequest, hhash'] at hhash
        exact (Option.some.inj hhash).symm
    simp only [answerOf_holds hholds, ← hsame]
    by_cases heq : existing.requestHash = fields.1
    · simp [heq, AnswersSameCreation]
    · simp [heq, AnswersSameCreation]

/-! ### One crawl on two versions of the API -/

/-- A hash that hides nothing, for runs on fixed inputs. -/
def plainHash (bytes : Bytes) : String := String.ofList (bytes.map fun b => Char.ofNat b.toNat)

def crawlRequest : CreateRequest :=
  { clientId := 1, idempotencyKey := some "k", payload := .obj [] }

/-- Every request is answered 200 at once. -/
def answeredEnv : CreateEnv :=
  { clock := fun _ => 0
    primary := fun _ => .unhindered 0 0 (.response { statusCode := 200 })
    fallback := fun _ => .unhindered 0 0 (.response { statusCode := 200 })
    loads := fun _ => none
    boundAt := 0 }

/-- Client 1 has one key. -/
def clientWorld : World :=
  { db := { keys := Table.empty.insert { clientId := some 1, apiKeyCiphertext := [107] } } }

/-- The state after client 1 has crawled through `/v1`. -/
def crawledWorld : World :=
  (createResource defaultForwarder plainHash answeredEnv .v1Crawl crawlRequest clientWorld).world

theorem crawledWorld_stored : ∃ response,
    Stored plainHash (idempotentRequest .v1Crawl crawlRequest) response 0
      crawledWorld.db.idempotencyRecords :=
  ⟨_, "k", 1, _, rfl, by decide, rfl, rfl, rfl, ⟨rfl, rfl, rfl, rfl⟩⟩

theorem replay_answers_iff_api :
    AnswersSameCreation .v1Crawl .apiCrawl crawlRequest crawlRequest
      (startOrReplay {} plainHash (idempotentRequest .apiCrawl crawlRequest) (fun _ => 0)
        crawledWorld.db.idempotencyRecords).1 := by
  obtain ⟨response, hstored⟩ := crawledWorld_stored
  have henabled : ({} : AppConfig).idempotency.enabled = true := rfl
  exact (replay_answers_iff henabled rfl rfl hstored fun _ => rfl).mpr (.inl ⟨rfl, rfl⟩)

/-- The same crawl through `/v2` is answered with what `/v1` answered. -/
theorem crawl_replayed_across_versions :
    ¬∀ (config : AppConfig) (sha256 : Bytes → String) (route route' : CreateRoute)
      (req req' : CreateRequest)
      (response : Response) (clock : Nat → Instant) (records : Records),
      config.idempotency.enabled = true → req'.clientId = req.clientId →
        req'.idempotencyKey = req.idempotencyKey →
      Stored sha256 (idempotentRequest route req) response (clock 0) records →
      AnswersSameCreation route route' req req'
        (startOrReplay config sha256 (idempotentRequest route' req') clock records).1 := by
  intro h
  obtain ⟨response, hstored⟩ := crawledWorld_stored
  obtain ⟨hreplay, _⟩ :=
    h {} plainHash .v1Crawl .v2Crawl crawlRequest crawlRequest response (fun _ => 0) _ rfl rfl rfl
    hstored
  obtain ⟨_, hoperation⟩ := hreplay _ rfl
  exact absurd hoperation (by decide)

end Fcam
