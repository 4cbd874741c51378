import Mathlib.Algebra.Order.Ring.Int
import Fcam.Proof.ReplaySound

/-!
# A request is let through at most once

Within the time to live of a record no reading of the clock finds it expired, so nothing deletes it
and every later insert for its key is refused. `Evolves` is what every statement then does to the
table: records that last stay, and what is new lasts. `PhaseOk` is what a session relies on in each
place, and no statement of another session takes it away.
-/

namespace Fcam

section

variable (sha256 : Bytes → String) (req₀ : IdempotentRequest) (start deadline : Instant)

/-- The record does not expire before the deadline. -/
def Lasting (record : IdempotencyRecord) : Prop :=
  ∀ expiresAt, record.expiresAt = some expiresAt → deadline ≤ expiresAt

/-- The record is one of the client and the key of the request. -/
def SameKey (record : IdempotencyRecord) : Prop :=
  record.clientId = req₀.clientId ∧ req₀.idempotencyKey = some record.idempotencyKey

def LatinHeaders (headers : List (String × String)) : Prop :=
  headers.all (fun h => latin1 h.1 && latin1 h.2) = true

/-- The columns that no statement changes. -/
def SameColumns (record record' : IdempotencyRecord) : Prop :=
  record'.clientId = record.clientId ∧ record'.idempotencyKey = record.idempotencyKey ∧
    record'.requestHash = record.requestHash ∧ record'.expiresAt = record.expiresAt

/-- What a statement does to the table. -/
structure Evolves (old new : Records) : Prop where
  kept : ∀ id record, old.get? id = some record → Lasting deadline record →
    ∃ record', new.get? id = some record' ∧ SameColumns record record'
  origin : ∀ id record', new.get? id = some record' →
    (∃ record, old.get? id = some record ∧ SameColumns record record') ∨ Lasting deadline record'

/-- The records of the key carry the hash of the request, last through the window or were over
before it, and hold only responses that can be built again. -/
def TableOk (records : Records) : Prop :=
  ∀ id record, records.get? id = some record → SameKey req₀ record →
    hashRequest sha256 req₀ = some record.requestHash ∧
      (Lasting deadline record ∨ expiredAt start record = true) ∧
      ∀ stored, record.responseBody = some stored → LatinHeaders stored.1

/-- The key is held by a record that lasts. -/
def Held (records : Records) : Prop :=
  ∃ id record, records.get? id = some record ∧ SameKey req₀ record ∧ Lasting deadline record

/-- No record of the client is expired at `now`. -/
def Cleaned (clientId : Nat) (now : Instant) (records : Records) : Prop :=
  ∀ id record, records.get? id = some record → record.clientId = clientId →
    expiredAt now record = false

structure DraftOk (req : IdempotentRequest) (draft : Draft) (records : Records) : Prop where
  key : req.idempotencyKey = some draft.key
  hash : hashRequest sha256 req = some draft.hash
  begun : start ≤ draft.now
  within : draft.now ≤ deadline
  cleaned : Cleaned req.clientId draft.now records

/-- What a session relies on in the place it is in. -/
def PhaseOk (records : Records) (req : IdempotentRequest) : Phase → Prop
  | .starting => True
  | .inserting draft => DraftOk sha256 start deadline req draft records
  | .refreshing id =>
    req = req₀ →
      ∃ record, records.get? id = some record ∧ SameKey req₀ record ∧ Lasting deadline record
  | .rereading draft =>
    DraftOk sha256 start deadline req draft records ∧ (req = req₀ → Held req₀ deadline records)
  | .deleting _ => False
  | .begun ended =>
    req = req₀ → ((∃ ctx, ended = .letThrough ctx) ∧ Held req₀ deadline records) ∨
      (∃ response, ended = .replay response) ∨ ended = .raised (.fcam idempotencyInProgress)
  | .answered _ response =>
    LatinHeaders response.headers ∧ (req = req₀ → Held req₀ deadline records)
  | .storing _ _ response =>
    LatinHeaders response.headers ∧ (req = req₀ → Held req₀ deadline records)
  | .finished => req = req₀ → Held req₀ deadline records

/-- What a session brings to a step: it is the request itself if it has its key, and it reads the
clock within the window. -/
structure StepInput (records : Records) (req : IdempotentRequest) (now : Instant)
    (phase : Phase) : Prop where
  sameRequest : req.clientId = req₀.clientId → req.idempotencyKey = req₀.idempotencyKey → req = req₀
  begun : start ≤ now
  within : now ≤ deadline
  lasts : ∀ draft, phase = .inserting draft →
    (insertRecord (newRecord req draft.key draft.hash draft.expiresAt) records).isSome →
      deadline ≤ draft.expiresAt

/-- The session has been let through, or has inserted its record and is about to be. -/
def Phase.won : Phase → Bool
  | refreshing _ => true
  | begun (.letThrough _) => true
  | answered _ _ => true
  | storing _ _ _ => true
  | finished => true
  | _ => false

end

section

variable {config : AppConfig} {sha256 : Bytes → String} {req₀ : IdempotentRequest}
  {start deadline : Instant}

/-! ### What the statements do to the table -/

theorem sameColumns_refl (record : IdempotencyRecord) : SameColumns record record :=
  ⟨rfl, rfl, rfl, rfl⟩

theorem SameColumns.lasting {record record' : IdempotencyRecord} (h : SameColumns record record')
    (hlasting : Lasting deadline record) : Lasting deadline record' := by
  intro expiresAt hexpires
  exact hlasting expiresAt (h.2.2.2 ▸ hexpires)

theorem SameColumns.sameKey {record record' : IdempotencyRecord} (h : SameColumns record record')
    (hsame : SameKey req₀ record) : SameKey req₀ record' := by
  rw [SameKey, h.1, h.2.1]
  exact hsame

theorem SameColumns.expiredAt {record record' : IdempotencyRecord} (h : SameColumns record record')
    (now : Instant) :
    Fcam.expiredAt now record' = Fcam.expiredAt now record := by
  rw [Fcam.expiredAt, h.2.2.2, ← Fcam.expiredAt]

theorem not_expired_of_lasting {record : IdempotencyRecord} {now : Instant}
    (h : Lasting deadline record) (hnow : now ≤ deadline) : expiredAt now record = false := by
  rw [expiredAt]
  cases hexpires : record.expiresAt with
  | none => rfl
  | some expiresAt =>
    have hle := le_trans hnow (h expiresAt hexpires)
    exact decide_eq_false (not_lt.mpr hle)

theorem evolves_refl (records : Records) : Evolves deadline records records where
  kept _ record hget _ := ⟨record, hget, sameColumns_refl record⟩
  origin _ record hget := .inl ⟨record, hget, sameColumns_refl record⟩

/-- Deleting expired records within the window. -/
theorem evolves_deleteWhere {records : Records} {p : Nat → IdempotencyRecord → Bool} {now : Instant}
    (hnow : now ≤ deadline) (hp : ∀ id record, p id record = true → expiredAt now record = true) :
    Evolves deadline records (records.deleteWhere p) where
  kept id record hget hlasting := by
    refine ⟨record, ?_, sameColumns_refl record⟩
    rw [Table.get?_deleteWhere, hget]
    have hkept : p id record = false := by
      by_contra hdeleted
      have hexpired := hp id record (Bool.not_eq_false _ ▸ hdeleted)
      rw [not_expired_of_lasting hlasting hnow] at hexpired
      cases hexpired
    simp [hkept]
  origin id record hget :=
    .inl ⟨record, (Table.get?_of_deleteWhere hget).1, sameColumns_refl record⟩

theorem evolves_insert {records : Records} {record : IdempotencyRecord}
    (hlasting : Lasting deadline record) :
    Evolves deadline records (records.insert record) where
  kept id old hget _ := by
    refine ⟨old, ?_, sameColumns_refl old⟩
    have hne := Nat.ne_of_lt (Table.lt_nextId hget)
    rw [Table.get?_insert, if_neg hne]
    exact hget
  origin id record' hget := by
    rw [Table.get?_insert] at hget
    split at hget
    · rw [← Option.some.inj hget]
      exact .inr hlasting
    · exact .inl ⟨record', hget, sameColumns_refl record'⟩

theorem evolves_storeResponse (id : Nat) (loaded : IdempotencyRecord) (response : Response)
    (records : Records) :
    Evolves deadline records (storeResponse id loaded response records) where
  kept other record hget _ := by
    rw [storeResponse, Table.get?_modify]
    split
    · rw [hget, Option.map_some]
      exact ⟨_, rfl, rfl, rfl, rfl, rfl⟩
    · exact ⟨record, hget, sameColumns_refl record⟩
  origin other record hget := by
    rw [storeResponse, Table.get?_modify] at hget
    split at hget
    · obtain ⟨old, hold, rfl⟩ := Option.map_eq_some_iff.mp hget
      exact .inl ⟨old, hold, rfl, rfl, rfl, rfl⟩
    · exact .inl ⟨record, hget, sameColumns_refl record⟩

/-! ### What a session relies on stays -/

theorem Held.evolves {old new : Records} (h : Held req₀ deadline old)
    (hevolves : Evolves deadline old new) :
    Held req₀ deadline new := by
  obtain ⟨id, record, hget, hsame, hlasting⟩ := h
  obtain ⟨record', hget', hcolumns⟩ := hevolves.kept id record hget hlasting
  exact ⟨id, record', hget', hcolumns.sameKey hsame, hcolumns.lasting hlasting⟩

theorem DraftOk.evolves {old new : Records} {req : IdempotentRequest} {draft : Draft}
    (h : DraftOk sha256 start deadline req draft old) (hevolves : Evolves deadline old new) :
    DraftOk sha256 start deadline req draft new where
  key := h.key
  hash := h.hash
  begun := h.begun
  within := h.within
  cleaned id record hget hclient := by
    rcases hevolves.origin id record hget with ⟨before, hbefore, hcolumns⟩ | hlasting
    · rw [hcolumns.expiredAt]
      exact h.cleaned id before hbefore (hcolumns.1 ▸ hclient)
    · exact not_expired_of_lasting hlasting h.within

theorem PhaseOk.evolves {old new : Records} {req : IdempotentRequest} {phase : Phase}
    (h : PhaseOk sha256 req₀ start deadline old req phase) (hevolves : Evolves deadline old new) :
    PhaseOk sha256 req₀ start deadline new req phase := by
  cases phase with
  | starting => trivial
  | inserting draft => exact DraftOk.evolves h hevolves
  | refreshing id =>
    intro hreq
    obtain ⟨record, hget, hsame, hlasting⟩ := h hreq
    obtain ⟨record', hget', hcolumns⟩ := hevolves.kept id record hget hlasting
    exact ⟨record', hget', hcolumns.sameKey hsame, hcolumns.lasting hlasting⟩
  | rereading draft => exact ⟨h.1.evolves hevolves, fun hreq => (h.2 hreq).evolves hevolves⟩
  | deleting id => exact h
  | begun ended =>
    exact fun hreq => (h hreq).imp_left fun hthrough => ⟨hthrough.1, hthrough.2.evolves hevolves⟩
  | answered ctx response => exact ⟨h.1, fun hreq => (h.2 hreq).evolves hevolves⟩
  | storing id loaded response => exact ⟨h.1, fun hreq => (h.2 hreq).evolves hevolves⟩
  | finished => exact fun hreq => (h hreq).evolves hevolves

theorem PhaseOk.held {records : Records} {phase : Phase}
    (h : PhaseOk sha256 req₀ start deadline records req₀ phase) (hwon : phase.won = true) :
    Held req₀ deadline records := by
  cases phase with
  | refreshing id =>
    obtain ⟨record, hget, hsame, hlasting⟩ := h rfl
    exact ⟨id, record, hget, hsame, hlasting⟩
  | begun ended =>
    rcases h rfl with ⟨_, hheld⟩ | ⟨response, rfl⟩ | rfl
    · exact hheld
    · cases hwon
    · cases hwon
  | answered ctx response => exact h.2 rfl
  | storing id loaded response => exact h.2 rfl
  | finished => exact h rfl
  | starting => cases hwon
  | inserting draft => cases hwon
  | rereading draft => cases hwon
  | deleting id => cases hwon

/-! ### The table -/

theorem TableOk.deleteWhere {records : Records} (h : TableOk sha256 req₀ start deadline records)
    (p : Nat → IdempotencyRecord → Bool) :
    TableOk sha256 req₀ start deadline (records.deleteWhere p) :=
  fun id record hget => h id record (Table.get?_of_deleteWhere hget).1

theorem TableOk.inserted {records : Records} (h : TableOk sha256 req₀ start deadline records)
    {req : IdempotentRequest} {draft : Draft}
    (hreq : req.clientId = req₀.clientId → req.idempotencyKey = req₀.idempotencyKey → req = req₀)
    (hdraft : DraftOk sha256 start deadline req draft records)
    (hlasts : deadline ≤ draft.expiresAt) :
    TableOk sha256 req₀ start deadline
      (records.insert (newRecord req draft.key draft.hash draft.expiresAt)) := by
  intro id record hget hsame
  rw [Table.get?_insert] at hget
  split at hget
  · rw [← Option.some.inj hget] at hsame ⊢
    have heq : req = req₀ := hreq hsame.1 (hdraft.key.trans hsame.2.symm)
    refine ⟨heq ▸ hdraft.hash, .inl fun expiresAt hexpires => ?_, fun stored hstored => ?_⟩
    · rw [← Option.some.inj hexpires]
      exact hlasts
    · cases hstored
  · exact h id record hget hsame

theorem TableOk.stored {records : Records} (h : TableOk sha256 req₀ start deadline records)
    {id : Nat} {loaded : IdempotencyRecord} {response : Response}
    (hlatin : LatinHeaders response.headers) :
    TableOk sha256 req₀ start deadline (storeResponse id loaded response records) := by
  intro other record hget hsame
  rw [storeResponse, Table.get?_modify] at hget
  split at hget
  · obtain ⟨old, hold, rfl⟩ := Option.map_eq_some_iff.mp hget
    obtain ⟨hhash, hlasts, hstoredLatin⟩ := h other old hold hsame
    refine ⟨hhash, hlasts, fun stored hstored => ?_⟩
    rcases writeBack_cases loaded.responseBody (some (response.headers, response.body))
      old.responseBody with ⟨_, hkept⟩ | ⟨_, hwritten⟩
    · exact hstoredLatin stored (hkept.symm.trans hstored)
    · rw [← Option.some.inj (hwritten.symm.trans hstored)]
      exact hlatin
  · exact h other record hget hsame

/-! ### The record in the way -/

theorem recordOfKey?_isSome_of_sameKey {records : Records} {key : String}
    (hkey : req₀.idempotencyKey = some key) {id : Nat} {record : IdempotencyRecord}
    (hget : records.get? id = some record) (hsame : SameKey req₀ record) :
    ∃ row, recordOfKey? req₀.clientId key records = some row := by
  rw [← Option.isSome_iff_exists, recordOfKey?, List.find?_isSome]
  refine ⟨(id, record), Table.get?_eq_some_iff.mp hget, ?_⟩
  have hexisting := hsame.2
  rw [hkey, Option.some.injEq] at hexisting
  simp [ofKey, hsame.1, hexisting]

theorem sameKey_of_found {records : Records} {key : String} (hkey : req₀.idempotencyKey = some key)
    {id : Nat} {record : IdempotencyRecord}
    (hfound : recordOfKey? req₀.clientId key records = some (id, record)) :
    records.get? id = some record ∧ SameKey req₀ record := by
  obtain ⟨hget, hclient, hexisting⟩ := recordOfKey?_eq_some hfound
  exact ⟨hget, hclient, by rw [hkey, hexisting]⟩

theorem deserializeResponse_of_latin (statusCode : Nat) {stored : List (String × String) × Bytes}
    (hlatin : LatinHeaders stored.1) :
    ∃ response, deserializeResponse statusCode stored = .replay response := by
  rw [LatinHeaders] at hlatin
  rw [deserializeResponse, mkResponse, if_pos hlatin]
  exact ⟨_, rfl⟩

/-- A record with the hash of the request replays or is in progress. -/
theorem answerOf_sameHash {hash : String} {record : IdempotencyRecord}
    (hhash : record.requestHash = hash)
    (hlatin : ∀ stored, record.responseBody = some stored → LatinHeaders stored.1) :
    (∃ response, answerOf hash record = .replay response) ∨
      answerOf hash record = .raised (.fcam idempotencyInProgress) := by
  rw [answerOf, if_neg (not_not.mpr hhash)]
  split
  · next stored _ _ hstored => exact .inl (deserializeResponse_of_latin _ (hlatin _ hstored))
  · exact .inr rfl

/-! ### The steps of a session -/

theorem draftOk_of_cleanup {records : Records} {req : IdempotentRequest} {now : Instant}
    {key : String} {fields : String × Instant}
    (hinput : StepInput req₀ start deadline records req now phase)
    (hkey : givenKey config req = .ok key)
    (hfields : recordFields config sha256 req now = .ok fields) :
    DraftOk sha256 start deadline req { key, now, hash := fields.1, expiresAt := fields.2 }
      (cleanupExpired req.clientId now records) where
  key := givenKey_eq_ok hkey
  hash := hashRequest_of_recordFields hfields
  begun := hinput.begun
  within := hinput.within
  cleaned id record hget hclient := by
    have hkept := (Table.get?_of_deleteWhere hget).2
    simpa [hclient] using hkept

/-- An insert that is refused has found the key held. -/
theorem held_of_refused {records : Records} {draft : Draft}
    (htable : TableOk sha256 req₀ start deadline records)
    (hdraft : DraftOk sha256 start deadline req₀ draft records)
    (hrefused : insertRecord (newRecord req₀ draft.key draft.hash draft.expiresAt) records = none) :
    Held req₀ deadline records := by
  rw [insertRecord] at hrefused
  split at hrefused
  · next hsome =>
    obtain ⟨⟨id, record⟩, hfound⟩ := Option.isSome_iff_exists.mp hsome
    obtain ⟨hget, hsame⟩ := sameKey_of_found hdraft.key hfound
    refine ⟨id, record, hget, hsame, ?_⟩
    refine (htable id record hget hsame).2.1.resolve_right fun hover => ?_
    have hlive := hdraft.cleaned id record hget hsame.1
    rw [expiredAt] at hover hlive
    cases hexpires : record.expiresAt with
    | none =>
      rw [hexpires] at hover
      cases hover
    | some expiresAt =>
      rw [hexpires, Option.any_some] at hover hlive
      have hstart := lt_of_lt_of_le (of_decide_eq_true hover) hdraft.begun
      exact of_decide_eq_false hlive hstart
  · cases hrefused

theorem reread_ok {records : Records} {draft : Draft} {ended : Begun}
    (htable : TableOk sha256 req₀ start deadline records)
    (hdraft : DraftOk sha256 start deadline req₀ draft records) (hheld : Held req₀ deadline records)
    (hreread : reread req₀.clientId draft.key draft.hash draft.now records = .answer ended) :
    (∃ response, ended = .replay response) ∨ ended = .raised (.fcam idempotencyInProgress) := by
  obtain ⟨_, _, hget, hsame, _⟩ := hheld
  obtain ⟨⟨id, record⟩, hfound⟩ := recordOfKey?_isSome_of_sameKey hdraft.key hget hsame
  obtain ⟨hget, hsame⟩ := sameKey_of_found hdraft.key hfound
  obtain ⟨hhash, _, hlatin⟩ := htable id record hget hsame
  have hsameHash : record.requestHash = draft.hash := Option.some.inj (hhash.symm.trans hdraft.hash)
  simp only [reread, hfound] at hreread
  split at hreread
  · cases hreread
  · rw [← Reread.answer.inj hreread]
    exact answerOf_sameHash hsameHash hlatin

/-- No request finds a record of its key that has expired since it cleaned up. -/
theorem reread_ne_expired {records : Records} {req : IdempotentRequest} {draft : Draft}
    (hdraft : DraftOk sha256 start deadline req draft records) (id : Nat) :
    reread req.clientId draft.key draft.hash draft.now records ≠ .expired id := by
  intro hexpired
  rw [reread] at hexpired
  split at hexpired
  · cases hexpired
  next other record hfound =>
  split at hexpired
  · next hover =>
    obtain ⟨hget, hclient, _⟩ := recordOfKey?_eq_some hfound
    rw [hdraft.cleaned other record hget hclient] at hover
    cases hover
  · cases hexpired

theorem step_ok {key : String} {records records' : Records} {req : IdempotentRequest}
    {now : Instant} {phase phase' : Phase} (hkey : givenKey config req₀ = .ok key)
    (hfields : ∃ fields, recordFields config sha256 req₀ now = .ok fields)
    (hinput : StepInput req₀ start deadline records req now phase)
    (htable : TableOk sha256 req₀ start deadline records)
    (hphase : PhaseOk sha256 req₀ start deadline records req phase)
    (hstep : phase.step config sha256 req now records = some (phase', records')) :
    Evolves deadline records records' ∧ TableOk sha256 req₀ start deadline records' ∧
      PhaseOk sha256 req₀ start deadline records' req phase' ∧
      (req = req₀ → phase'.won = true → phase.won = true ∨ ¬Held req₀ deadline records) := by
  cases phase with
  | starting =>
    have hcleanup : Evolves deadline records (cleanupExpired req.clientId now records) :=
      evolves_deleteWhere hinput.within fun id record hdeleted =>
        (Bool.and_eq_true _ _ ▸ hdeleted).2
    simp only [Phase.step] at hstep
    split at hstep
    · next ended hgiven =>
      cases hstep
      have hother : req ≠ req₀ := by
        rintro rfl
        rw [hkey] at hgiven
        cases hgiven
      exact ⟨evolves_refl _, htable, fun heq => absurd heq hother, fun heq => absurd heq hother⟩
    next key' hgiven =>
    split at hstep
    · next error hfailed =>
      cases hstep
      have hother : req ≠ req₀ := by
        rintro rfl
        obtain ⟨fields, hok⟩ := hfields
        rw [hok] at hfailed
        cases hfailed
      exact ⟨hcleanup, htable.deleteWhere _, fun heq => absurd heq hother,
        fun heq => absurd heq hother⟩
    · next hash expiresAt hcomputed =>
      cases hstep
      exact ⟨hcleanup, htable.deleteWhere _, draftOk_of_cleanup hinput hgiven hcomputed,
        fun _ hwon => absurd hwon Bool.false_ne_true⟩
  | inserting draft =>
    have hdraft : DraftOk sha256 start deadline req draft records := hphase
    simp only [Phase.step] at hstep
    split at hstep
    · next id records'' hinsert =>
      cases hstep
      have hlasts := hinput.lasts draft rfl (Option.isSome_of_eq_some hinsert)
      rw [insertRecord] at hinsert
      split at hinsert
      · cases hinsert
      next hfree =>
      cases hinsert
      have hlasting : Lasting deadline (newRecord req draft.key draft.hash draft.expiresAt) := by
        intro expiresAt hexpires
        rw [← Option.some.inj hexpires]
        exact hlasts
      refine ⟨evolves_insert hlasting, htable.inserted hinput.sameRequest hdraft hlasts, ?_, ?_⟩
      · rintro rfl
        exact ⟨_, Table.get?_insert_self _ _, ⟨rfl, hdraft.key⟩, hlasting⟩
      · rintro rfl _
        refine .inr fun hheld => hfree ?_
        obtain ⟨id, record, hget, hsame, _⟩ := hheld
        exact Option.isSome_iff_exists.mpr (recordOfKey?_isSome_of_sameKey hdraft.key hget hsame)
    · next hrefused =>
      cases hstep
      refine ⟨evolves_refl _, htable, ⟨hdraft, ?_⟩, fun _ hwon => absurd hwon Bool.false_ne_true⟩
      rintro rfl
      exact held_of_refused htable hdraft hrefused
  | refreshing id =>
    simp only [Phase.step] at hstep
    split at hstep
    · next record hget =>
      cases hstep
      refine ⟨evolves_refl _, htable, ?_, fun _ _ => .inl rfl⟩
      rintro rfl
      exact .inl ⟨⟨_, rfl⟩, hphase.held rfl⟩
    · next hgone =>
      cases hstep
      refine ⟨evolves_refl _, htable, fun hreq => ?_, fun _ _ => .inl rfl⟩
      obtain ⟨record, hget, _⟩ := hphase hreq
      rw [hgone] at hget
      cases hget
  | rereading draft =>
    obtain ⟨hdraft, hheld⟩ := hphase
    simp only [Phase.step] at hstep
    split at hstep
    · next id hexpired => exact absurd hexpired (reread_ne_expired hdraft id)
    · next ended hreread =>
      cases hstep
      refine ⟨evolves_refl _, htable, ?_, ?_⟩
      · rintro rfl
        exact .inr (reread_ok htable hdraft (hheld rfl) hreread)
      · rintro rfl hwon
        rcases reread_ok htable hdraft (hheld rfl) hreread with ⟨response, rfl⟩ | rfl <;> cases hwon
  | deleting id => exact hphase.elim
  | begun ended => cases hstep
  | answered ctx response =>
    simp only [Phase.step] at hstep
    split at hstep
    · cases hstep
      exact ⟨evolves_refl _, htable, hphase.2, fun _ _ => .inl rfl⟩
    split at hstep
    · cases hstep
      exact ⟨evolves_refl _, htable, hphase, fun _ _ => .inl rfl⟩
    · cases hstep
      exact ⟨evolves_refl _, htable, hphase.2, fun _ _ => .inl rfl⟩
  | storing id loaded response =>
    cases hstep
    have hevolves : Evolves deadline records _ := evolves_storeResponse id loaded response records
    exact ⟨hevolves, htable.stored hphase.1, fun hreq => (hphase.2 hreq).evolves hevolves,
      fun _ _ => .inl rfl⟩
  | finished => cases hstep

/-! ### Runs -/

/-- The clock stays between the start and the deadline, what is inserted does not expire before the
deadline, requests with the key are all the same one, and no client is purged. -/
def RunAction.WithinTtl (req₀ : IdempotentRequest) (start deadline : Instant)
    (st : RunState) : RunAction → Prop
  | .arrive _ req =>
    req.clientId = req₀.clientId → req.idempotencyKey = req₀.idempotencyKey → req = req₀
  | .advance s now =>
    start ≤ now ∧ now ≤ deadline ∧
      ∀ req draft, st.sessions s = some { req, phase := .inserting draft } →
        (insertRecord (newRecord req draft.key draft.hash draft.expiresAt) st.records).isSome →
          deadline ≤ draft.expiresAt
  | .answer _ _ => True
  | .fail _ => True
  | .cleanupRetention now => now ≤ deadline
  | .purgeClient _ => False

/-- The hash and the expiry of the request can be computed whenever a session reads the clock. -/
def RunAction.Fingerprinted (config : AppConfig) (sha256 : Bytes → String)
    (req₀ : IdempotentRequest) :
    RunAction → Prop
  | .advance _ now => ∃ fields, recordFields config sha256 req₀ now = .ok fields
  | _ => True

/-- What every step within the time to live keeps. -/
structure RunState.Once (sha256 : Bytes → String) (req₀ : IdempotentRequest)
    (start deadline : Instant) (st : RunState) : Prop where
  table : TableOk sha256 req₀ start deadline st.records
  sameRequest : ∀ s session, st.sessions s = some session → session.req.clientId = req₀.clientId →
    session.req.idempotencyKey = req₀.idempotencyKey → session.req = req₀
  phases : ∀ s session, st.sessions s = some session →
    PhaseOk sha256 req₀ start deadline st.records session.req session.phase
  unique : ∀ s s' phase phase', st.sessions s = some { req := req₀, phase } →
    st.sessions s' = some { req := req₀, phase := phase' } → phase.won = true →
      phase'.won = true → s = s'

theorem latinHeaders_of_wellFormed {response : Response} (h : response.WellFormed) :
    LatinHeaders response.headers := by
  rw [Response.WellFormed, mkResponse] at h
  split at h
  · next hlatin => exact hlatin
  · cases h

/-- One session moves, and if it is let through by that, nobody held the key. -/
theorem RunState.Once.move {st : RunState} (h : st.Once sha256 req₀ start deadline) {s : Nat}
    {req : IdempotentRequest} {phase : Phase} {records : Records}
    {answers : List (IdempotentRequest × Response)} (hevolves : Evolves deadline st.records records)
    (htable : TableOk sha256 req₀ start deadline records)
    (hreq : req.clientId = req₀.clientId → req.idempotencyKey = req₀.idempotencyKey → req = req₀)
    (hphase : PhaseOk sha256 req₀ start deadline records req phase)
    (hwon : req = req₀ → phase.won = true →
      (∃ before, st.sessions s = some { req := req₀, phase := before } ∧ before.won = true) ∨
        ¬Held req₀ deadline st.records) :
    RunState.Once sha256 req₀ start deadline
      { records, sessions := Function.update st.sessions s (some { req, phase }), answers } where
  table := htable
  sameRequest s' session hsession := by
    rcases session_of_update hsession with ⟨_, rfl⟩ | ⟨_, hsession⟩
    · exact hreq
    · exact h.sameRequest s' session hsession
  phases s' session hsession := by
    rcases session_of_update hsession with ⟨_, rfl⟩ | ⟨_, hsession⟩
    · exact hphase
    · exact (h.phases s' session hsession).evolves hevolves
  unique := by
    -- A session let through before holds the key, so the one that moves was let through before as
    -- well.
    have hother : ∀ s' phase', s' ≠ s → st.sessions s' = some { req := req₀, phase := phase' } →
        phase'.won = true → req = req₀ → phase.won = true → False := by
      intro s' phase' hne hsession hwon' hreq₀ hwonNow
      rcases hwon hreq₀ hwonNow with ⟨before, hbefore, hwonBefore⟩ | hfree
      · exact hne (h.unique s' s phase' before hsession hbefore hwon' hwonBefore)
      · exact hfree ((h.phases s' _ hsession).held hwon')
    intro s₁ s₂ phase₁ phase₂ hsession₁ hsession₂ hwon₁ hwon₂
    rcases session_of_update hsession₁ with ⟨rfl, heq₁⟩ | ⟨hne₁, hbefore₁⟩
    · rcases session_of_update hsession₂ with ⟨rfl, _⟩ | ⟨hne₂, hbefore₂⟩
      · rfl
      · cases heq₁
        exact (hother s₂ phase₂ hne₂ hbefore₂ hwon₂ rfl hwon₁).elim
    · rcases session_of_update hsession₂ with ⟨rfl, heq₂⟩ | ⟨_, hbefore₂⟩
      · cases heq₂
        exact (hother s₁ phase₁ hne₁ hbefore₁ hwon₁ rfl hwon₂).elim
      · exact h.unique s₁ s₂ phase₁ phase₂ hbefore₁ hbefore₂ hwon₁ hwon₂

theorem waiting?_eq_some {st : RunState} {s : Nat} {req : IdempotentRequest} {ctx : Option Nat}
    (h : st.waiting? s = some (req, ctx)) :
    st.sessions s = some { req, phase := .begun (.letThrough ctx) } := by
  rw [RunState.waiting?] at h
  split at h
  · next hsession =>
    cases h
    exact hsession
  · cases h

/-- A session that was waiting for its forward goes on. -/
theorem RunState.Once.resume {st : RunState} (h : st.Once sha256 req₀ start deadline) {s : Nat}
    {req : IdempotentRequest} {ctx : Option Nat} (hwaiting : st.waiting? s = some (req, ctx))
    {phase : Phase} {answers : List (IdempotentRequest × Response)}
    (hphase : (req = req₀ → Held req₀ deadline st.records) →
      PhaseOk sha256 req₀ start deadline st.records req phase) :
    RunState.Once sha256 req₀ start deadline
      { records := st.records, sessions := Function.update st.sessions s (some { req, phase }),
        answers } := by
  have hsession := waiting?_eq_some hwaiting
  have hheld : req = req₀ → Held req₀ deadline st.records := by
    rintro rfl
    exact (h.phases s _ hsession).held rfl
  refine h.move (evolves_refl _) h.table (h.sameRequest s _ hsession) (hphase hheld) ?_
  rintro rfl _
  exact .inl ⟨_, hsession, rfl⟩

theorem next_once {key : String} (hkey : givenKey config req₀ = .ok key) (st : RunState)
    (a : RunAction) (st' : RunState) (h : st.Once sha256 req₀ start deadline)
    (hok : a.WithinTtl req₀ start deadline st ∧ a.Fingerprinted config sha256 req₀)
    (hnext : a.next config sha256 st = some st') : st'.Once sha256 req₀ start deadline := by
  obtain ⟨hwithin, hfields⟩ := hok
  cases a with
  | arrive s req =>
    simp only [RunAction.next] at hnext
    split at hnext
    · cases hnext
      exact h.move (evolves_refl _) h.table hwithin trivial fun _ hwon =>
        absurd hwon Bool.false_ne_true
    · cases hnext
  | advance s now =>
    simp only [RunAction.next] at hnext
    split at hnext
    · cases hnext
    next session hsession =>
    obtain ⟨⟨phase, records⟩, hstep, rfl⟩ := Option.map_eq_some_iff.mp hnext
    obtain ⟨req, phase₀⟩ := session
    have hinput : StepInput req₀ start deadline st.records req now phase₀ := by
      refine ⟨h.sameRequest s _ hsession, hwithin.1, hwithin.2.1, ?_⟩
      rintro draft rfl
      exact hwithin.2.2 req draft hsession
    obtain ⟨hevolves, htable, hphase, hwon⟩ :=
      step_ok hkey hfields hinput h.table (h.phases s _ hsession) hstep
    refine h.move hevolves htable hinput.sameRequest hphase ?_
    rintro rfl hwonNow
    exact (hwon rfl hwonNow).imp_left fun hbefore => ⟨phase₀, hsession, hbefore⟩
  | answer s r =>
    simp only [RunAction.next] at hnext
    split at hnext
    · cases hnext
    next req ctx hwaiting =>
    split at hnext
    · cases hnext
      exact h.resume hwaiting id
    · next response hresponse =>
      cases hnext
      have hlatin := latinHeaders_of_wellFormed (wellFormed_of_mkResponse hresponse)
      exact h.resume hwaiting fun hheld => ⟨hlatin, hheld⟩
  | fail s =>
    obtain ⟨⟨req, ctx⟩, hwaiting, rfl⟩ := Option.map_eq_some_iff.mp hnext
    exact h.resume hwaiting id
  | cleanupRetention now =>
    cases hnext
    have hevolves : Evolves deadline st.records (Fcam.cleanupRetention now st.records) :=
      evolves_deleteWhere hwithin fun _ _ hdeleted => hdeleted
    exact ⟨h.table.deleteWhere _, h.sameRequest,
      fun s session hsession => (h.phases s session hsession).evolves hevolves, h.unique⟩
  | purgeClient clientId => exact hwithin.elim

/-- At most one session with the request is let through, and every other one that is past
`start_or_replay` got a stored response or was refused as in progress. -/
def RunState.AtMostOnce (req₀ : IdempotentRequest) (st : RunState) : Prop :=
  (∀ s s' phase phase', st.sessions s = some { req := req₀, phase } →
      st.sessions s' = some { req := req₀, phase := phase' } → phase.won = true →
        phase'.won = true → s = s') ∧
    ∀ s ended, st.sessions s = some { req := req₀, phase := .begun ended } →
      (∃ ctx, ended = .letThrough ctx) ∨ (∃ response, ended = .replay response) ∨
        ended = .raised (.fcam idempotencyInProgress)

theorem RunState.Once.atMostOnce {st : RunState} (h : st.Once sha256 req₀ start deadline) :
    st.AtMostOnce req₀ :=
  ⟨h.unique, fun s _ hsession => (h.phases s _ hsession rfl).imp_left And.left⟩

theorem once_start {records : Records} (htable : TableOk sha256 req₀ start deadline records) :
    RunState.Once sha256 req₀ start deadline { records } where
  table := htable
  sameRequest s session hsession := by cases hsession
  phases s session hsession := by cases hsession
  unique s s' phase phase' hsession := by cases hsession

/-- In every run within the time to live, of a request whose hash and expiry can be computed, at
most one session is let through in every state reached. -/
theorem run_atMostOnce {key : String} {records : Records} {last : RunState} {trace : List RunAction}
    (henabled : config.idempotency.enabled = true) (hkey : req₀.idempotencyKey = some key)
    (hne : key ≠ "") (htable : TableOk sha256 req₀ start deadline records)
    (hmeets : Meets (RunAction.next config sha256)
      (fun st a => a.WithinTtl req₀ start deadline st ∧ a.Fingerprinted config sha256 req₀)
      { records } trace)
    (hexec : exec (RunAction.next config sha256) { records } trace = some last) :
    last.AtMostOnce req₀ := by
  have hgiven := givenKey_of_some henabled hkey hne
  have hlast : last.Once sha256 req₀ start deadline :=
    exec_invariant_of_meets (next_once hgiven) hmeets hexec (once_start htable)
  exact hlast.atMostOnce

end

theorem withinTtl_advance {req₀ : IdempotentRequest} {start deadline now : Instant} {st : RunState}
    {s : Nat} {session : Session} (hsession : st.sessions s = some session) (hbegun : start ≤ now)
    (hwithin : now ≤ deadline)
    (hlasts : ∀ draft, session.phase = .inserting draft → deadline ≤ draft.expiresAt) :
    RunAction.WithinTtl req₀ start deadline st (.advance s now) := by
  refine ⟨hbegun, hwithin, fun req draft hinserting _ => hlasts draft ?_⟩
  rw [hsession, Option.some.injEq] at hinserting
  rw [hinserting]

theorem tableOk_empty (sha256 : Bytes → String) (req₀ : IdempotentRequest)
    (start deadline : Instant) :
    TableOk sha256 req₀ start deadline .empty := by
  intro id record hget
  rw [Table.get?_empty] at hget
  cases hget

/-- Two sessions with the same request in turns: both clean up before either inserts its record. -/
def sideBySide : List RunAction :=
  [.arrive 1 (crawlOf 1), .arrive 2 (crawlOf 1), .advance 1 0, .advance 2 0, .advance 1 0,
    .advance 2 0, .advance 1 0, .advance 2 0]

theorem run_atMostOnce_sideBySide :
    ∃ last, exec (RunAction.next {} plainHash) {} sideBySide = some last ∧
      last.AtMostOnce (crawlOf 1) := by
  have hmeets : Meets (RunAction.next {} plainHash)
      (fun st a => a.WithinTtl (crawlOf 1) 0 86400000000 st ∧
       a.Fingerprinted {} plainHash (crawlOf 1)) {}
      sideBySide := by
    refine meets_cons rfl ⟨fun _ _ => rfl, trivial⟩ ?_
    refine meets_cons rfl ⟨fun _ _ => rfl, trivial⟩ ?_
    refine meets_cons rfl ⟨withinTtl_advance rfl (by decide) (by decide) nofun, _, rfl⟩ ?_
    refine meets_cons rfl ⟨withinTtl_advance rfl (by decide) (by decide) nofun, _, rfl⟩ ?_
    refine meets_cons rfl ⟨withinTtl_advance rfl (by decide) (by decide) ?_, _, rfl⟩ ?_
    · rintro draft hdraft
      cases hdraft
      decide
    refine meets_cons rfl ⟨withinTtl_advance rfl (by decide) (by decide) ?_, _, rfl⟩ ?_
    · rintro draft hdraft
      cases hdraft
      decide
    refine meets_cons rfl ⟨withinTtl_advance rfl (by decide) (by decide) nofun, _, rfl⟩ ?_
    refine meets_cons rfl ⟨withinTtl_advance rfl (by decide) (by decide) nofun, _, rfl⟩ ?_
    trivial
  have henabled : ({} : AppConfig).idempotency.enabled = true := rfl
  exact ⟨_, rfl, run_atMostOnce henabled rfl (by decide) (tableOk_empty _ _ _ _) hmeets rfl⟩

/-- A payload that has half of a surrogate pair in it. -/
def unencodableCrawl : IdempotentRequest :=
  { crawlOf 1 with payload := .obj [(PyStr.ofString "url", .str [0xd800])] }

/-- The text of the request cannot be encoded to be hashed, and the exception is not one of
`start_or_replay`. -/
theorem unencodable_not_answered :
    ¬∀ (config : AppConfig) (sha256 : Bytes → String) (req₀ : IdempotentRequest) (key : String)
        (start deadline : Instant) (records : Records) (last : RunState) (trace : List RunAction),
      config.idempotency.enabled = true → req₀.idempotencyKey = some key → key ≠ "" →
      TableOk sha256 req₀ start deadline records →
      Meets (RunAction.next config sha256) (fun st a => a.WithinTtl req₀ start deadline st)
        { records } trace →
      exec (RunAction.next config sha256) { records } trace = some last → last.AtMostOnce req₀ := by
  intro h
  have hmeets : Meets (RunAction.next {} plainHash)
      (fun st a => a.WithinTtl unencodableCrawl 0 86400000000 st) {} [.arrive 1 unencodableCrawl,
        .advance 1 0] := by
    refine meets_cons rfl (fun _ _ => rfl) ?_
    refine meets_cons rfl (withinTtl_advance rfl (by decide) (by decide) nofun) ?_
    trivial
  have honce := h {} plainHash unencodableCrawl "k" 0 86400000000 .empty _ _ rfl rfl (by decide)
    (tableOk_empty _ _ _ _) hmeets rfl
  rcases honce.2 1 _ rfl with ⟨ctx, hthrough⟩ | ⟨response, hreplay⟩ | hrefused
  · cases hthrough
  · cases hreplay
  · cases hrefused

end Fcam
