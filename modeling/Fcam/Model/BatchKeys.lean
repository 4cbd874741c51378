import Fcam.Model.AdminSession

/-!
# What a batch of keys reports

`batch_keys` with the entries it answers with, and what the database may let fail around each id:
the reading of the key, the commit of its edit, the reading of the edited row, and the commit of the
audit row of its test.
-/

namespace Fcam

/-- What fails around one id. -/
structure BatchFaults where
  query : Bool := false
  commit : Bool := false
  refresh : Bool := false
  testCommit : Bool := false

/-- An id of a batch, with what fails around it and what its test meets. -/
structure BatchItem where
  id : Nat
  faults : BatchFaults := {}
  env : TestEnv

/-- An entry of the results: the row of the key, or the code and the message of an error. -/
structure BatchEntry where
  id : Nat
  result : Except (ErrorCode × String) ApiKey
  test : Option KeyTestResult := none

/-- `r.get("ok") is True`. -/
def BatchEntry.ok (entry : BatchEntry) : Bool :=
  match entry.result with
  | .ok _ => true
  | .error _ => false

def BatchEntry.failed (id : Nat) (code : ErrorCode) (message : String) : BatchEntry :=
  { id, result := .error (code, message) }

/-- The entry of an exception that is no `FcamError`. -/
def internalErrorEntry (id : Nat) : BatchEntry := .failed id .internalError "Internal error"

structure BatchReport where
  requested : Nat
  succeeded : Nat
  failed : Nat
  results : List BatchEntry

/-- The edit of one id. -/
def editItem (req : BatchKeysRequest) (item : BatchItem) (w : World) : BatchEntry × World :=
  if item.faults.query then (internalErrorEntry item.id, w)
  else
    match w.key? item.id with
    | none => (.failed item.id .notFound "Not found", w)
    | some key =>
      if !req.changes then ({ id := item.id, result := .ok key }, w)
      else if item.faults.commit then (internalErrorEntry item.id, w)
      else
        let w := w.modifyKey item.id (batchRow req)
        if item.faults.refresh then (internalErrorEntry item.id, w)
        else ({ id := item.id, result := .ok (batchRow req key) }, w)

/-- The loop over the ids, each with its entry. -/
def editItems (req : BatchKeysRequest) : List BatchItem → World →
    List (BatchItem × BatchEntry) × World
  | [], w => ([], w)
  | item :: rest, w =>
    let (entry, w) := editItem req item w
    let (entries, w) := editItems req rest w
    ((item, entry) :: entries, w)

section

variable (fwd : Forwarder) (requestId mode : String) (testUrl : PyStr)

/-- `_test_one`, and what becomes of the entry: an id whose edit failed is not tested. -/
def testItem (item : BatchItem) (entry : BatchEntry) (w : World) : BatchEntry × World :=
  match entry.result with
  | .error _ => (entry, w)
  | .ok _ =>
    match w.key? item.id with
    | none => (.failed item.id .notFound "Not found", w)
    | some key =>
      let tested := testKey fwd item.env requestId item.id w mode testUrl key
      match tested.result with
      | .error (.fcam error) => (.failed item.id error.code error.message, tested.world)
      | .error _ => (internalErrorEntry item.id, tested.world)
      | .ok result =>
        if item.faults.testCommit then (internalErrorEntry item.id, tested.world)
        else
          ({ id := item.id, result := .ok ((tested.world.key? item.id).getD key),
             test := some result }, tested.world)

/-- The tests, one after the other. A batch runs them side by side, each in its own session. -/
def testItems : List (BatchItem × BatchEntry) → World → List (BatchItem × BatchEntry) × World
  | [], w => ([], w)
  | (item, entry) :: rest, w =>
    let (entry, w) := testItem fwd requestId mode testUrl item entry w
    let (entries, w) := testItems rest w
    ((item, entry) :: entries, w)

end

/-- The answer, from the entries. -/
def batchReport (entries : List (BatchItem × BatchEntry)) : BatchReport :=
  let results := entries.map Prod.snd
  let succeeded := (results.filter BatchEntry.ok).length
  { requested := entries.length, succeeded, failed := results.length - succeeded, results }

/-- `batch_keys`, for ids of which the items tell. -/
def batchKeysReport (fwd : Forwarder) (requestId : String) (req : BatchKeysRequest)
    (items : List BatchItem) (w : World) :
    Except FcamError BatchReport × World :=
  match req.test with
  | none =>
    let (entries, w) := editItems req items w
    (.ok (batchReport entries), w)
  | some (mode, testUrl) =>
    if mode ≠ "scrape" then
      (.error { statusCode := 400, code := .validationError, message := "Unsupported test mode" },
       w)
    else if 1 < items.length && mixedProviders (items.map BatchItem.id) w then
      (.error
        { statusCode := 400
          code := .mixedProviderBatch
          message := "Batch test does not support mixed providers: exa, firecrawl" }, w)
    else
      let (entries, w) := editItems req items w
      let (entries, w) := testItems fwd requestId mode testUrl entries w
      (.ok (batchReport entries), w)

end Fcam
