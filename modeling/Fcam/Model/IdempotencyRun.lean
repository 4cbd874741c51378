import Fcam.Base.Run
import Fcam.Model.Idempotency

/-!
# Idempotent requests side by side

Every request runs `start_or_replay`, its forward and `complete` in a session of its own. Each
statement of `start_or_replay` and `complete` is a step; between two steps of a session any other
session may move, the retention clean-up may run, and an administrator may purge a client.
-/

namespace Fcam

/-- The local variables of a call of `start_or_replay` once it has cleaned up. -/
structure Draft where
  key : String
  now : Instant
  hash : String
  expiresAt : Instant
deriving DecidableEq

/-- Where a session is: in `start_or_replay` about to clean up, to insert its record, to refresh it,
to read the record that was in the way, or to delete an expired one; past `start_or_replay`; past
its forward; in `complete` with the record loaded; or at its end. -/
inductive Phase where
  | starting
  | inserting (draft : Draft)
  | refreshing (id : Nat)
  | rereading (draft : Draft)
  | deleting (id : Nat)
  | begun (begun : Begun)
  | answered (ctx : Option Nat) (response : Response)
  | storing (id : Nat) (loaded : IdempotencyRecord) (response : Response)
  | finished

structure Session where
  req : IdempotentRequest
  phase : Phase

/-- The records, the sessions, and what the upstream has answered to which request so far. -/
structure RunState where
  records : Records := .empty
  sessions : Nat → Option Session := fun _ => none
  answers : List (IdempotentRequest × Response) := []

/-- `cleanup_retention`, as far as it concerns these records. -/
def cleanupRetention (now : Instant) (records : Records) : Records :=
  records.deleteWhere fun _ record => expiredAt now record

/-- `purge_client`, as far as it concerns these records. -/
def purgeClient (clientId : Nat) (records : Records) : Records :=
  records.deleteWhere fun _ record => record.clientId == clientId

inductive RunAction where
  | arrive (s : Nat) (req : IdempotentRequest)
  | advance (s : Nat) (now : Instant)
  | answer (s : Nat) (r : UpstreamResponse)
  | fail (s : Nat)
  | cleanupRetention (now : Instant)
  | purgeClient (clientId : Nat)

section

variable (config : AppConfig) (sha256 : Bytes → String)

/-- The next statement of a session, where it is not waiting for its forward. -/
def Phase.step (req : IdempotentRequest) (now : Instant) (records : Records) :
    Phase → Option (Phase × Records)
  | starting =>
    match givenKey config req with
    | .error ended => some (begun ended, records)
    | .ok key =>
      let records := cleanupExpired req.clientId now records
      match recordFields config sha256 req now with
      | .error error => some (begun (.raised error), records)
      | .ok (hash, expiresAt) => some (inserting { key, now, hash, expiresAt }, records)
  | inserting draft =>
    match insertRecord (newRecord req draft.key draft.hash draft.expiresAt) records with
    | some (id, records) => some (refreshing id, records)
    | none => some (rereading draft, records)
  | refreshing id =>
    match records.get? id with
    | some _ => some (begun (.letThrough (some id)), records)
    | none => some (begun (.raised (.fcam (dbUnavailable "Database unavailable"))), records)
  | rereading draft =>
    match reread req.clientId draft.key draft.hash draft.now records with
    | .expired id => some (deleting id, records)
    | .answer ended => some (begun ended, records)
  | deleting id => some (starting, deleteRecord id records)
  | begun _ => none
  | answered ctx response =>
    match ctx.filter fun _ => config.idempotency.enabled with
    | none => some (finished, records)
    | some id =>
      match records.get? id, serializeResponse response (maxResponseBytes config) with
      | some loaded, .ok _ => some (storing id loaded response, records)
      | _, _ => some (finished, records)
  | storing id loaded response => some (finished, storeResponse id loaded response records)
  | finished => none

namespace RunState

def setPhase (st : RunState) (s : Nat) (req : IdempotentRequest) (phase : Phase) : RunState :=
  { st with sessions := Function.update st.sessions s (some { req, phase }) }

/-- The session waits for its forward, with the id of its record if it has one. -/
def waiting? (st : RunState) (s : Nat) : Option (IdempotentRequest × Option Nat) :=
  match st.sessions s with
  | some { req, phase := .begun (.letThrough ctx) } => some (req, ctx)
  | _ => none

end RunState

/-- One step of a run. -/
def RunAction.next (st : RunState) : RunAction → Option RunState
  | arrive s req =>
    match st.sessions s with
    | none => some (st.setPhase s req .starting)
    | some _ => none
  | advance s now =>
    match st.sessions s with
    | none => none
    | some session =>
      (session.phase.step config sha256 session.req now st.records).map fun (phase, records) =>
        { st.setPhase s session.req phase with records }
  | answer s r =>
    match st.waiting? s with
    | none => none
    | some (req, ctx) =>
      match toFastapiResponse r with
      | .error _ => some (st.setPhase s req .finished)
      | .ok response =>
        some
          { st.setPhase s req (.answered ctx response) with
            answers := st.answers ++ [(req, response)] }
  | fail s => (st.waiting? s).map fun (req, _) => st.setPhase s req .finished
  | .cleanupRetention now => some { st with records := Fcam.cleanupRetention now st.records }
  | .purgeClient clientId => some { st with records := Fcam.purgeClient clientId st.records }

end

end Fcam
