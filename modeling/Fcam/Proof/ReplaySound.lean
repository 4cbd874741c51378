import Fcam.Model.IdempotencyRun
import Fcam.Proof.Replay

/-!
# Replayed responses were answers to the same request

A completed record should hold what the upstream answered to a request of its client with its key
and its hash. Every statement keeps that except the write of `complete`, which goes to whatever
record has the id by then. Where the record is still the one that was loaded, and is one for the
same request, the write is right; an id that was handed out again in between is the only way to
another record.
-/

namespace Fcam

section

variable {config : AppConfig} {sha256 : Bytes → String}

/-- The record is one for this request. -/
def Owns (sha256 : Bytes → String) (req : IdempotentRequest) (record : IdempotencyRecord) : Prop :=
  req.clientId = record.clientId ∧ req.idempotencyKey = some record.idempotencyKey ∧
    hashRequest sha256 req = some record.requestHash

/-- Every completed record holds what the upstream answered to a request it is one for. -/
def RecordsSound (sha256 : Bytes → String) (answers : List (IdempotentRequest × Response))
    (records : Records) : Prop :=
  ∀ id record, records.get? id = some record → record.status = .completed →
    ∃ req response, (req, response) ∈ answers ∧ Owns sha256 req record ∧ record.Holds response

/-- A replayed response was answered to a request of the same client with the same key and the same
hash. -/
def ReplaySound (sha256 : Bytes → String) (answers : List (IdempotentRequest × Response))
    (req : IdempotentRequest) (response : Response) : Prop :=
  ∃ req', (req', response) ∈ answers ∧ req'.clientId = req.clientId ∧
    req'.idempotencyKey = req.idempotencyKey ∧ hashRequest sha256 req' = hashRequest sha256 req

/-- What a session has got right by the place it is in. -/
def PhaseSound (sha256 : Bytes → String) (answers : List (IdempotentRequest × Response))
    (req : IdempotentRequest) :
    Phase → Prop
  | .inserting draft =>
    req.idempotencyKey = some draft.key ∧ hashRequest sha256 req = some draft.hash
  | .rereading draft =>
    req.idempotencyKey = some draft.key ∧ hashRequest sha256 req = some draft.hash
  | .begun (.replay response) => ReplaySound sha256 answers req response
  | .answered _ response => (req, response) ∈ answers ∧ response.WellFormed
  | .storing _ _ response => (req, response) ∈ answers ∧ response.WellFormed
  | _ => True

theorem givenKey_eq_ok {req : IdempotentRequest} {key : String}
    (h : givenKey config req = .ok key) :
    req.idempotencyKey = some key := by
  rw [givenKey] at h
  split at h
  · cases h
  split at h
  · next key' hkey =>
    cases h
    exact (Option.filter_eq_some_iff.mp hkey).1
  · split at h <;> cases h

theorem givenKey_eq_error {req : IdempotentRequest} {ended : Begun}
    (h : givenKey config req = .error ended) :
    ended = .letThrough none ∨ ended = .raised (.fcam idempotencyKeyRequired) := by
  rw [givenKey] at h
  split at h
  · exact .inl (Except.error.inj h).symm
  split at h
  · cases h
  split at h
  · exact .inr (Except.error.inj h).symm
  · exact .inl (Except.error.inj h).symm

theorem recordOfKey?_eq_some {clientId id : Nat} {key : String} {records : Records}
    {record : IdempotencyRecord} (h : recordOfKey? clientId key records = some (id, record)) :
    records.get? id = some record ∧ record.clientId = clientId ∧ record.idempotencyKey = key := by
  have hkey := List.find?_some h
  rw [ofKey, Bool.and_eq_true, beq_iff_eq, beq_iff_eq] at hkey
  exact ⟨Table.get?_of_mem (List.mem_of_find?_eq_some h), hkey⟩

/-! ### A session by itself -/

/-- The steps of a session between which no other moves. -/
def aloneNext (config : AppConfig) (sha256 : Bytes → String) (req : IdempotentRequest)
    (now : Instant) (st : Phase × Records) (_ : Unit) : Option (Phase × Records) :=
  st.1.step config sha256 req now st.2

/-- A session by itself does what one call of `start_or_replay` does. -/
theorem exec_startOnce {req : IdempotentRequest} {key : String} (now : Instant) (records : Records)
    (hkey : givenKey config req = .ok key) :
    ∃ steps, exec (aloneNext config sha256 req now) (.starting, records) steps =
      match startOnce config sha256 req key now records with
      | .done (ended, records') => some (.begun ended, records')
      | .again records' => some (.starting, records') := by
  rw [startOnce]
  cases hfields : recordFields config sha256 req now with
  | error error => exact ⟨[()], by simp [exec_cons, aloneNext, Phase.step, hkey, hfields]⟩
  | ok fields =>
    obtain ⟨hash, expiresAt⟩ := fields
    simp only
    cases hinsert :
      insertRecord (newRecord req key hash expiresAt) (cleanupExpired req.clientId now records) with
    | some inserted =>
      obtain ⟨id, records'⟩ := inserted
      have hget : ∃ record, records'.get? id = some record := by
        rw [insertRecord] at hinsert
        split at hinsert
        · cases hinsert
        · cases hinsert
          exact ⟨_, Table.get?_insert_self _ _⟩
      obtain ⟨record, hget⟩ := hget
      exact ⟨[(), (), ()], by simp [exec_cons, aloneNext, Phase.step, hkey, hfields, hinsert, hget]⟩
    | none =>
      cases hreread :
        reread req.clientId key hash now (cleanupExpired req.clientId now records) with
      | expired id =>
        exact ⟨[(), (), (),
          ()], by simp [exec_cons, aloneNext, Phase.step, hkey, hfields, hinsert, hreread]⟩
      | answer ended =>
        exact ⟨[(), (),
          ()], by simp [exec_cons, aloneNext, Phase.step, hkey, hfields, hinsert, hreread]⟩

/-! ### The statements -/

theorem RecordsSound.deleteWhere {answers : List (IdempotentRequest × Response)} {records : Records}
    (h : RecordsSound sha256 answers records) (p : Nat → IdempotencyRecord → Bool) :
    RecordsSound sha256 answers (records.deleteWhere p) :=
  fun id record hget => h id record (Table.get?_of_deleteWhere hget).1

theorem RecordsSound.inserted {answers : List (IdempotentRequest × Response)} {records : Records}
    (h : RecordsSound sha256 answers records) {record : IdempotencyRecord}
    (hnew : record.status = .inProgress) :
    RecordsSound sha256 answers (records.insert record) := by
  intro id row hget hcompleted
  rw [Table.get?_insert] at hget
  split at hget
  · rw [← Option.some.inj hget, hnew] at hcompleted
    cases hcompleted
  · exact h id row hget hcompleted

/-- A response written into the record it was loaded from, by a request the record is one for. -/
theorem RecordsSound.stored {answers : List (IdempotentRequest × Response)} {records : Records}
    (h : RecordsSound sha256 answers records) {id : Nat} {loaded : IdempotencyRecord}
    {req : IdempotentRequest} {response : Response} (hanswer : (req, response) ∈ answers)
    (hwell : response.WellFormed)
    (hown : ∀ record, records.get? id = some record → record = loaded ∧ Owns sha256 req record) :
    RecordsSound sha256 answers (storeResponse id loaded response records) := by
  intro other row hget hcompleted
  rw [storeResponse, Table.get?_modify] at hget
  split at hget
  · next heq =>
    subst heq
    obtain ⟨record, hrecord, rfl⟩ := Option.map_eq_some_iff.mp hget
    obtain ⟨rfl, howns⟩ := hown record hrecord
    refine ⟨req, response, hanswer, howns, ?_⟩
    constructor
    · exact writeBack_fresh _ _
    · exact writeBack_fresh _ _
    · exact writeBack_fresh _ _
    · exact hwell
  · exact h other row hget hcompleted

/-- The record that was in the way answers with what it holds. -/
theorem reread_replay_sound {answers : List (IdempotentRequest × Response)} {records : Records}
    (h : RecordsSound sha256 answers records) {req : IdempotentRequest} {draft : Draft}
    {response : Response} (hkey : req.idempotencyKey = some draft.key)
    (hhash : hashRequest sha256 req = some draft.hash)
    (hreread : reread req.clientId draft.key draft.hash draft.now records =
      .answer (.replay response)) :
    ReplaySound sha256 answers req response := by
  rw [reread] at hreread
  split at hreread
  · cases hreread
  next id existing hfound =>
  split at hreread
  · cases hreread
  obtain ⟨hget, hclient, hexisting⟩ := recordOfKey?_eq_some hfound
  have hanswer : answerOf draft.hash existing = .replay response := Reread.answer.inj hreread
  have hcompleted : existing.status = .completed := by
    rw [answerOf] at hanswer
    split at hanswer
    · cases hanswer
    split at hanswer
    · next hstatus _ _ => exact hstatus
    · cases hanswer
  obtain ⟨req', response', hmem, ⟨hclient', hkey', hhash'⟩, hholds⟩ := h id existing hget hcompleted
  rw [answerOf_holds hholds] at hanswer
  split at hanswer
  · next hsame =>
    rw [← Begun.replay.inj hanswer]
    refine ⟨req', hmem, hclient'.trans hclient, ?_, ?_⟩
    · rw [hkey', hexisting, hkey]
    · rw [hhash', hsame, hhash]
  · cases hanswer

/-! ### The steps of a session -/

/-- A session about to write finds the record it loaded, which is one for its request, or none. -/
def StoresOwn (sha256 : Bytes → String) (records : Records) (req : IdempotentRequest) : Phase → Prop
  | .storing id loaded _ =>
    ∀ record, records.get? id = some record → record = loaded ∧ Owns sha256 req record
  | _ => True

theorem step_sound {answers : List (IdempotentRequest × Response)} {records records' : Records}
    {req : IdempotentRequest} {now : Instant} {phase phase' : Phase}
    (h : RecordsSound sha256 answers records) (hphase : PhaseSound sha256 answers req phase)
    (hown : StoresOwn sha256 records req phase)
    (hstep : phase.step config sha256 req now records = some (phase', records')) :
    RecordsSound sha256 answers records' ∧ PhaseSound sha256 answers req phase' := by
  cases phase with
  | starting =>
    simp only [Phase.step] at hstep
    split at hstep
    · next ended hgiven =>
      cases hstep
      refine ⟨h, ?_⟩
      rcases givenKey_eq_error hgiven with rfl | rfl <;> trivial
    next key hgiven =>
    split at hstep
    · cases hstep
      exact ⟨h.deleteWhere _, trivial⟩
    · next hash expiresAt hfields =>
      cases hstep
      exact ⟨h.deleteWhere _, givenKey_eq_ok hgiven, hashRequest_of_recordFields hfields⟩
  | inserting draft =>
    simp only [Phase.step] at hstep
    split at hstep
    · next id records'' hinsert =>
      cases hstep
      rw [insertRecord] at hinsert
      split at hinsert
      · cases hinsert
      · cases hinsert
        exact ⟨h.inserted rfl, trivial⟩
    · cases hstep
      exact ⟨h, hphase⟩
  | refreshing id =>
    simp only [Phase.step] at hstep
    split at hstep <;> cases hstep <;> exact ⟨h, trivial⟩
  | rereading draft =>
    simp only [Phase.step] at hstep
    split at hstep
    · cases hstep
      exact ⟨h, trivial⟩
    · next ended hreread =>
      cases hstep
      refine ⟨h, ?_⟩
      cases ended with
      | replay response => exact reread_replay_sound h hphase.1 hphase.2 hreread
      | letThrough ctx => trivial
      | raised error => trivial
  | deleting id =>
    cases hstep
    exact ⟨h.deleteWhere _, trivial⟩
  | begun ended => cases hstep
  | answered ctx response =>
    simp only [Phase.step] at hstep
    split at hstep
    · cases hstep
      exact ⟨h, trivial⟩
    split at hstep
    · cases hstep
      exact ⟨h, hphase⟩
    · cases hstep
      exact ⟨h, trivial⟩
  | storing id loaded response =>
    cases hstep
    exact ⟨h.stored hphase.1 hphase.2 hown, trivial⟩
  | finished => cases hstep

/-! ### Runs -/

/-- The records and the sessions are right by what the upstream has answered. -/
structure RunState.Sound (sha256 : Bytes → String) (st : RunState) : Prop where
  records : RecordsSound sha256 st.answers st.records
  sessions : ∀ s session, st.sessions s = some session →
    PhaseSound sha256 st.answers session.req session.phase

theorem ReplaySound.mono {answers answers' : List (IdempotentRequest × Response)}
    (hsub : answers ⊆ answers') {req : IdempotentRequest} {response : Response}
    (h : ReplaySound sha256 answers req response) :
    ReplaySound sha256 answers' req response := by
  obtain ⟨req', hmem, hsame⟩ := h
  exact ⟨req', hsub hmem, hsame⟩

theorem PhaseSound.mono {answers answers' : List (IdempotentRequest × Response)}
    (hsub : answers ⊆ answers') {req : IdempotentRequest} {phase : Phase}
    (h : PhaseSound sha256 answers req phase) :
    PhaseSound sha256 answers' req phase := by
  cases phase with
  | begun ended =>
    cases ended with
    | replay response => exact ReplaySound.mono hsub h
    | letThrough ctx => trivial
    | raised error => trivial
  | answered ctx response => exact ⟨hsub h.1, h.2⟩
  | storing id loaded response => exact ⟨hsub h.1, h.2⟩
  | starting => trivial
  | inserting draft => exact h
  | refreshing id => trivial
  | rereading draft => exact h
  | deleting id => trivial
  | finished => trivial

theorem RecordsSound.mono {answers answers' : List (IdempotentRequest × Response)}
    (hsub : answers ⊆ answers') {records : Records} (h : RecordsSound sha256 answers records) :
    RecordsSound sha256 answers' records := by
  intro id record hget hcompleted
  obtain ⟨req, response, hmem, howns, hholds⟩ := h id record hget hcompleted
  exact ⟨req, response, hsub hmem, howns, hholds⟩

theorem session_of_update {sessions : Nat → Option Session} {s s' : Nat} {moved session : Session}
    (h : Function.update sessions s (some moved) s' = some session) :
    (s' = s ∧ session = moved) ∨ (s' ≠ s ∧ sessions s' = some session) := by
  by_cases heq : s' = s
  · rw [heq, Function.update_self, Option.some.injEq] at h
    exact .inl ⟨heq, h.symm⟩
  · rw [Function.update_of_ne heq] at h
    exact .inr ⟨heq, h⟩

/-- One session moves to a place it is right in. -/
theorem RunState.Sound.move {st : RunState} (h : st.Sound sha256) {s : Nat}
    {req : IdempotentRequest} {phase : Phase} {records : Records}
    {answers : List (IdempotentRequest × Response)} (hsub : st.answers ⊆ answers)
    (hrecords : RecordsSound sha256 answers records)
    (hphase : PhaseSound sha256 answers req phase) :
    RunState.Sound sha256
      { records, sessions := Function.update st.sessions s (some { req, phase }), answers } := by
  refine ⟨hrecords, fun s' session hsession => ?_⟩
  rcases session_of_update hsession with ⟨_, rfl⟩ | ⟨_, hsession⟩
  · exact hphase
  · exact (h.sessions s' session hsession).mono hsub

/-- A step that writes a response writes it into the record its session loaded, which is one for its
request. -/
def RunAction.StoresOwn (sha256 : Bytes → String) (st : RunState) : RunAction → Prop
  | .advance s _ =>
    ∀ session, st.sessions s = some session →
      Fcam.StoresOwn sha256 st.records session.req session.phase
  | _ => True

theorem storesOwn_advance {st : RunState} {s : Nat} {now : Instant} {session : Session}
    (hsession : st.sessions s = some session)
    (hown : Fcam.StoresOwn sha256 st.records session.req session.phase) :
    RunAction.StoresOwn sha256 st (.advance s now) := by
  intro session' hsession'
  rw [hsession, Option.some.injEq] at hsession'
  exact hsession' ▸ hown

theorem next_sound (st : RunState) (a : RunAction) (st' : RunState) (h : st.Sound sha256)
    (hown : a.StoresOwn sha256 st) (hnext : a.next config sha256 st = some st') :
    st'.Sound sha256 := by
  cases a with
  | arrive s req =>
    simp only [RunAction.next] at hnext
    split at hnext
    · cases hnext
      exact h.move (fun _ hmem => hmem) h.records trivial
    · cases hnext
  | advance s now =>
    simp only [RunAction.next] at hnext
    split at hnext
    · cases hnext
    next session hsession =>
    obtain ⟨⟨phase, records⟩, hstep, rfl⟩ := Option.map_eq_some_iff.mp hnext
    obtain ⟨hrecords, hphase⟩ :=
      step_sound h.records (h.sessions s session hsession) (hown session hsession) hstep
    exact h.move (fun _ hmem => hmem) hrecords hphase
  | answer s r =>
    simp only [RunAction.next] at hnext
    split at hnext
    · cases hnext
    next req ctx hwaiting =>
    split at hnext
    · cases hnext
      exact h.move (fun _ hmem => hmem) h.records trivial
    · next response hresponse =>
      cases hnext
      have hsub : st.answers ⊆ st.answers ++ [(req, response)] := List.subset_append_left _ _
      exact h.move hsub (h.records.mono hsub) ⟨by simp, wellFormed_of_mkResponse hresponse⟩
  | fail s =>
    obtain ⟨⟨req, ctx⟩, _, rfl⟩ := Option.map_eq_some_iff.mp hnext
    exact h.move (fun _ hmem => hmem) h.records trivial
  | cleanupRetention now =>
    cases hnext
    exact ⟨h.records.deleteWhere _, h.sessions⟩
  | purgeClient clientId =>
    cases hnext
    exact ⟨h.records.deleteWhere _, h.sessions⟩

/-- Every replay in a state is of a response answered before to a request of the same client with
the same key and the same hash. -/
def RunState.ReplaysSound (sha256 : Bytes → String) (st : RunState) : Prop :=
  ∀ s req response, st.sessions s = some { req, phase := .begun (.replay response) } →
    ReplaySound sha256 st.answers req response

/-- In every run whose sessions write only into the record they loaded, where it is one for their
request, every replay in every state reached is sound. -/
theorem run_replaysSound {st last : RunState} {trace : List RunAction} (h : st.Sound sha256)
    (hown : Meets (RunAction.next config sha256) (fun st a => a.StoresOwn sha256 st) st trace)
    (hexec : exec (RunAction.next config sha256) st trace = some last) :
    last.ReplaysSound sha256 := by
  have hlast : last.Sound sha256 := exec_invariant_of_meets next_sound hown hexec h
  exact fun s req response hsession => hlast.sessions s _ hsession

end

/-! ### A late answer in another client's record -/

def crawlOf (clientId : Nat) : IdempotentRequest :=
  { clientId, idempotencyKey := some "k", endpoint := "crawl", method := "POST",
    payload := .obj [] }

/-- A session arrives and takes the given number of steps. -/
def arriveAndAdvance (s clientId steps : Nat) (now : Instant) : List RunAction :=
  .arrive s (crawlOf clientId) :: List.replicate steps (.advance s now)

/-- The upstream answers 200, and `complete` runs to its end. -/
def answerAndComplete (s : Nat) (now : Instant) : List RunAction :=
  [.answer s { statusCode := 200 }, .advance s now, .advance s now]

theorem sound_start (sha256 : Bytes → String) : RunState.Sound sha256 {} where
  records id record hget := by
    rw [Table.get?_empty] at hget
    cases hget
  sessions s session hsession := by cases hsession

/-- The same request twice, the second time when the first has been answered. -/
def repeatedCrawl : List RunAction :=
  arriveAndAdvance 1 1 3 0 ++ answerAndComplete 1 0 ++ arriveAndAdvance 2 1 3 1

theorem run_replaysSound_repeated :
    ∃ last, exec (RunAction.next {} plainHash) {} repeatedCrawl = some last ∧
      last.ReplaysSound plainHash := by
  have hown :
      Meets (RunAction.next {} plainHash) (fun st a => a.StoresOwn plainHash st) {}
        repeatedCrawl := by
    refine meets_cons rfl trivial ?_
    refine meets_cons rfl (storesOwn_advance rfl trivial) ?_
    refine meets_cons rfl (storesOwn_advance rfl trivial) ?_
    refine meets_cons rfl (storesOwn_advance rfl trivial) ?_
    refine meets_cons rfl trivial ?_
    refine meets_cons rfl (storesOwn_advance rfl trivial) ?_
    -- The one write goes into the record that was loaded.
    refine meets_cons rfl (storesOwn_advance rfl fun record hrecord => ?_) ?_
    · rw [← Option.some.inj hrecord]
      exact ⟨rfl, rfl, rfl, rfl⟩
    refine meets_cons rfl trivial ?_
    refine meets_cons rfl (storesOwn_advance rfl trivial) ?_
    refine meets_cons rfl (storesOwn_advance rfl trivial) ?_
    refine meets_cons rfl (storesOwn_advance rfl trivial) ?_
    trivial
  exact ⟨_, rfl, run_replaysSound (sound_start plainHash) hown rfl⟩

/-- Client 1's record expires and is cleaned up while its request waits; client 2's record gets the
same id, and client 1's answer is written into it and replayed to client 2. -/
def lateAnswer : List RunAction :=
  arriveAndAdvance 1 1 3 0 ++ [.cleanupRetention 86400000001] ++ arriveAndAdvance 2 2 3
    86400000001 ++ answerAndComplete 1 86400000001 ++ arriveAndAdvance 3 2 3 86400000001

theorem late_answer_replayed_to_another :
    ¬∀ (config : AppConfig) (sha256 : Bytes → String) (st last : RunState) (trace : List RunAction),
      st.Sound sha256 → exec (RunAction.next config sha256) st trace = some last →
        last.ReplaysSound sha256 := by
  intro h
  have hsound := h {} plainHash {} _ lateAnswer (sound_start plainHash) rfl
  obtain ⟨req, hmem, hclient, _⟩ := hsound 3 _ _ rfl
  have hfirst : req = crawlOf 1 := (Prod.mk.inj (List.mem_singleton.mp hmem)).1
  rw [hfirst] at hclient
  exact absurd hclient (by decide)

end Fcam
