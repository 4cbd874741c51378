import Fcam.Model.Purge
import Fcam.Proof.ImportColumns

/-!
# Importing keys

An import completes the keys it finds and never changes what they have. Every line it gets through
is settled: its key is there and takes nothing more from it, which stays so, and so the same import
does nothing the second time. The counters go up inside the savepoint of a line: a line that breaks
at the exit of it is rolled back, and counted as failed once more.
-/

namespace Fcam

/-- What an import may do to a row: give it the client, the user, the password and the date it
lacks. -/
structure Kept (row row' : ApiKey) : Prop where
  rest : row' = { row with
    clientId := row'.clientId
    accountUsername := row'.accountUsername
    accountPasswordCiphertext := row'.accountPasswordCiphertext
    accountVerifiedAt := row'.accountVerifiedAt }
  client : row.clientId ≠ none → row'.clientId = row.clientId
  username : nonempty row.accountUsername ≠ none → row'.accountUsername = row.accountUsername
  password : row.accountPasswordCiphertext ≠ none →
    row'.accountPasswordCiphertext = row.accountPasswordCiphertext
  verified : row.accountVerifiedAt ≠ none → row'.accountVerifiedAt = row.accountVerifiedAt

namespace Kept

variable {row row' row'' : ApiKey}

theorem refl (row : ApiKey) : Kept row row :=
  ⟨rfl, fun _ => rfl, fun _ => rfl, fun _ => rfl, fun _ => rfl⟩

theorem hash (h : Kept row row') : row'.apiKeyHash = row.apiKeyHash := by
  rw [h.rest]

theorem trans (h : Kept row row') (h' : Kept row' row'') : Kept row row'' where
  rest := by
    rw [h'.rest, h.rest]
  client hsome := (h'.client (by rwa [h.client hsome])).trans (h.client hsome)
  username hsome := (h'.username (by rwa [h.username hsome])).trans (h.username hsome)
  password hsome := (h'.password (by rwa [h.password hsome])).trans (h.password hsome)
  verified hsome := (h'.verified (by rwa [h.verified hsome])).trans (h.verified hsome)

end Kept

theorem or_of_ne_none {α : Type} {field given : Option α} (hsome : field ≠ none) :
    field.or given = field := by
  cases field with
  | none => exact absurd rfl hsome
  | some value => rfl

theorem nonempty_idem (text : Option String) : nonempty (nonempty text) = nonempty text := by
  rcases text with _ | text
  · rfl
  · by_cases hempty : text = "" <;> simp [nonempty, hempty]

theorem eq_of_nonempty {text : Option String} (hsome : nonempty text ≠ none) :
    nonempty text = text := by
  rcases text with _ | text
  · exact absurd rfl hsome
  · by_cases hempty : text = ""
    · exact absurd (by simp [nonempty, hempty]) hsome
    · simp [nonempty, hempty]

section

variable {clientId : Option Nat} {item : ParsedKeyLine} {password : Option Bytes} {key : ApiKey}

theorem kept_mergeImported (clientId : Option Nat) (item : ParsedKeyLine) (password : Option Bytes)
    (key : ApiKey) :
    Kept key (mergeImported clientId item password key) where
  rest := rfl
  client hsome := or_of_ne_none hsome
  username hsome := by
    rw [mergeImported, or_of_ne_none hsome, eq_of_nonempty hsome]
  password hsome := or_of_ne_none hsome
  verified hsome := or_of_ne_none hsome

/-- The row has all that an item could give it. -/
structure Completed (clientId : Option Nat) (item : ParsedKeyLine) (key : ApiKey) : Prop where
  client : key.clientId = none → clientId = none
  username : nonempty key.accountUsername = none → nonempty item.accountUsername = none
  password : key.accountPasswordCiphertext = none → nonempty item.accountPassword = none
  verified : key.accountVerifiedAt = none → item.accountVerifiedAt = none

theorem Completed.kept {row row' : ApiKey} (h : Completed clientId item row)
    (hkept : Kept row row') :
    Completed clientId item row' where
  client hnone :=
    h.client (Classical.byContradiction fun hsome => hsome (hkept.client hsome ▸ hnone))
  username hnone :=
    h.username (Classical.byContradiction fun hsome => hsome (hkept.username hsome ▸ hnone))
  password hnone :=
    h.password (Classical.byContradiction fun hsome => hsome (hkept.password hsome ▸ hnone))
  verified hnone :=
    h.verified (Classical.byContradiction fun hsome => hsome (hkept.verified hsome ▸ hnone))

theorem mergeImported_of_completed (h : Completed clientId item key)
    (hpassword : nonempty item.accountPassword = none → password = none) :
    mergeImported clientId item password key = key := by
  have hclient : key.clientId.or clientId = key.clientId := by
    by_cases hnone : key.clientId = none
    · rw [hnone, h.client hnone, Option.none_or]
    · exact or_of_ne_none hnone
  have husername :
      (nonempty key.accountUsername).or ((nonempty item.accountUsername).or key.accountUsername) =
      key.accountUsername := by
    by_cases hnone : nonempty key.accountUsername = none
    · rw [hnone, h.username hnone, Option.none_or, Option.none_or]
    · rw [or_of_ne_none hnone, eq_of_nonempty hnone]
  have hpassworded : key.accountPasswordCiphertext.or password = key.accountPasswordCiphertext := by
    by_cases hnone : key.accountPasswordCiphertext = none
    · rw [hnone, hpassword (h.password hnone), Option.none_or]
    · exact or_of_ne_none hnone
  have hverified : key.accountVerifiedAt.or item.accountVerifiedAt = key.accountVerifiedAt := by
    by_cases hnone : key.accountVerifiedAt = none
    · rw [hnone, h.verified hnone, Option.none_or]
    · exact or_of_ne_none hnone
  rw [mergeImported, hclient, husername, hpassworded, hverified]

theorem completed_mergeImported (hpassword : password = none → nonempty item.accountPassword = none)
    (key : ApiKey) :
    Completed clientId item (mergeImported clientId item password key) where
  client hnone := (Option.or_eq_none_iff.mp hnone).2
  username hnone := by
    by_contra hsome
    have hgiven : nonempty item.accountUsername = item.accountUsername := eq_of_nonempty hsome
    by_cases hempty : nonempty key.accountUsername = none
    · rw [mergeImported, hempty, Option.none_or, or_of_ne_none hsome, nonempty_idem] at hnone
      exact hsome hnone
    · rw [mergeImported, or_of_ne_none hempty, nonempty_idem] at hnone
      exact hempty hnone
  password hnone := hpassword (Option.or_eq_none_iff.mp hnone).2
  verified hnone := (Option.or_eq_none_iff.mp hnone).2

end

/-! ### One item -/

/-- The row an import finds for a key. -/
def hashRow? (hash : String) (w : World) : Option (Nat × ApiKey) :=
  w.db.keys.rows.find? fun row => row.2.apiKeyHash == hash

theorem hashRow?_modify {w : World} {hash : String} (id : Nat) {f : ApiKey → ApiKey}
    (hf : ∀ row, (f row).apiKeyHash = row.apiKeyHash) :
    hashRow? hash (w.modifyKey id f) = (hashRow? hash w).map fun row =>
      (row.1, if row.1 = id then f row.2 else row.2) :=
  Table.find?_modify w.db.keys id (p := fun row : ApiKey => row.apiKeyHash == hash)
    fun row => by rw [hf]

/-- The keys of a state are there in another, at most completed. -/
structure Extends (w w' : World) : Prop where
  clients : w'.db.clients = w.db.clients
  keys : ∀ id row, w.key? id = some row → ∃ row', w'.key? id = some row' ∧ Kept row row'
  found : ∀ hash id row, hashRow? hash w = some (id, row) →
    ∃ row', hashRow? hash w' = some (id, row') ∧ Kept row row'

namespace Extends

theorem refl (w : World) : Extends w w where
  clients := rfl
  keys _ row hrow := ⟨row, hrow, .refl row⟩
  found _ _ row hrow := ⟨row, hrow, .refl row⟩

theorem trans {w w' w'' : World} (h : Extends w w') (h' : Extends w' w'') : Extends w w'' where
  clients := h'.clients.trans h.clients
  keys id row hrow := by
    obtain ⟨row', hrow', hkept⟩ := h.keys id row hrow
    obtain ⟨row'', hrow'', hkept'⟩ := h'.keys id row' hrow'
    exact ⟨row'', hrow'', hkept.trans hkept'⟩
  found hash id row hrow := by
    obtain ⟨row', hrow', hkept⟩ := h.found hash id row hrow
    obtain ⟨row'', hrow'', hkept'⟩ := h'.found hash id row' hrow'
    exact ⟨row'', hrow'', hkept.trans hkept'⟩

theorem insert {w : World} {key : ApiKey} : Extends w (w.withKeys (w.db.keys.insert key)) where
  clients := rfl
  keys id row hrow := by
    have hne : id ≠ w.db.keys.nextId := Nat.ne_of_lt (Table.lt_nextId hrow)
    refine ⟨row, ?_, .refl row⟩
    rw [World.key?_withKeys, Table.get?_insert, if_neg hne]
    exact hrow
  found hash id row hrow := by
    refine ⟨row, ?_, .refl row⟩
    rw [hashRow?] at hrow
    show (w.db.keys.insert key).rows.find? (fun row => row.2.apiKeyHash == hash) = some (id, row)
    rw [Table.find?_insert (p := fun row : ApiKey => row.apiKeyHash == hash), hrow, Option.some_or]

theorem modify {w : World} {id : Nat} {f : ApiKey → ApiKey} (hf : ∀ row, Kept row (f row)) :
    Extends w (w.modifyKey id f) where
  clients := rfl
  keys other row hrow := by
    rw [World.key?_modifyKey, hrow]
    split
    · exact ⟨f row, rfl, hf row⟩
    · exact ⟨row, rfl, .refl row⟩
  found hash other row hrow := by
    have hsame :
        hashRow? hash (w.modifyKey id f) = some (other, if other = id then f row else row) := by
      rw [hashRow?_modify id fun row => (hf row).hash, hrow, Option.map_some]
    refine ⟨_, hsame, ?_⟩
    split
    · exact hf row
    · exact .refl row

end Extends

/-- The number of lines a result accounts for. -/
def ImportResult.total (result : ImportResult) : Nat :=
  result.created + result.updated + result.skipped + result.failures.length

section

variable {security : Security} {today : Day} {masterKey : Bytes} {clientId : Option Nat}
  {req : ImportRequest} {nonces : Bytes × Bytes} {item : ParsedKeyLine} {result : ImportResult}
  {w w' : World}

/-- A row of another client, which an import leaves as it is. -/
def conflicts (clientId : Option Nat) (key : ApiKey) : Bool :=
  clientId.isSome && key.clientId.isSome && key.clientId != clientId

/-- The key of the item is there, and the item changes nothing of it. -/
def Imported (security : Security) (masterKey : Bytes) (clientId : Option Nat)
    (item : ParsedKeyLine) (w : World) : Prop :=
  ∃ id row, hashRow? (security.hmacSha256Hex masterKey item.apiKey) w = some (id, row) ∧
    (conflicts clientId row = true ∨ Completed clientId item row)

theorem Imported.extends (h : Imported security masterKey clientId item w)
    (hextends : Extends w w') :
    Imported security masterKey clientId item w' := by
  obtain ⟨id, row, hrow, himported⟩ := h
  obtain ⟨row', hrow', hkept⟩ := hextends.found _ id row hrow
  refine ⟨id, row', hrow', himported.imp (fun hconflict => ?_) fun hcompleted =>
    hcompleted.kept hkept⟩
  have hclient : row.clientId ≠ none := by
    intro hnone
    rw [conflicts, hnone, Option.isSome_none, Bool.and_false, Bool.false_and] at hconflict
    cases hconflict
  rwa [conflicts, hkept.client hclient]

theorem hashRow?_insert {hash : String} {key : ApiKey} (hkey : key.apiKeyHash = hash)
    (hnone : hashRow? hash w = none) :
    hashRow? hash (w.withKeys (w.db.keys.insert key)) = some (w.db.keys.nextId, key) := by
  rw [hashRow?] at hnone
  show (w.db.keys.insert key).rows.find? (fun row => row.2.apiKeyHash == hash) =
    some (w.db.keys.nextId, key)
  rw [Table.find?_insert (p := fun row : ApiKey => row.apiKeyHash == hash), hnone, Option.none_or,
    hkey, if_pos (beq_self_eq_true _)]

/-- The password an item stores is there if and only if the item has one. -/
theorem storedPassword_eq_none (security : Security) (masterKey nonce : Bytes)
    (item : ParsedKeyLine) :
    (nonempty item.accountPassword).map (security.encryptAccountPassword masterKey nonce) = none ↔
      nonempty item.accountPassword = none := Option.map_eq_none_iff

/-- An item completes the rows, its key is there afterwards and takes nothing more from it, and it
is accounted for. -/
theorem importItem_spec :
    Extends w (importItem security today masterKey clientId req nonces item result w).2 ∧
      Imported security masterKey clientId item
        (importItem security today masterKey clientId req nonces item result w).2 ∧
      (importItem security today masterKey clientId req nonces item result w).1.total =
        result.total + 1 := by
  have hpassword := storedPassword_eq_none security masterKey nonces.2 item
  rw [importItem]
  dsimp only
  split
  · next hfind =>
    refine ⟨.insert, ⟨_, _, hashRow?_insert rfl hfind, .inr ?_⟩, ?_⟩
    · exact ⟨id, id, hpassword.mp, id⟩
    · simp only [ImportResult.total]
      omega
  · next id existing hfind =>
    split
    · next hconflict =>
      refine ⟨.refl w, ⟨id, existing, hfind, .inl hconflict⟩, ?_⟩
      simp only [ImportResult.total, List.length_append, List.length_singleton]
      omega
    · have hcompleted := @completed_mergeImported clientId item _ hpassword.mp existing
      split
      · next hsame =>
        refine ⟨.refl w, ⟨id, existing, hfind, .inr (hsame ▸ hcompleted)⟩, ?_⟩
        simp only [ImportResult.total]
        omega
      · refine ⟨.modify (kept_mergeImported clientId item _), ⟨id, _, ?_, .inr hcompleted⟩, ?_⟩
        · have hmerged :
              hashRow? (security.hmacSha256Hex masterKey item.apiKey) w = some (id, existing) :=
                hfind
          refine (hashRow?_modify id fun key => (kept_mergeImported clientId item _ key).hash).trans
            ?_
          rw [hmerged, Option.map_some, if_pos rfl]
        · simp only [ImportResult.total]
          omega

/-- An item that was imported does nothing. -/
theorem importItem_of_imported (h : Imported security masterKey clientId item w) :
    (importItem security today masterKey clientId req nonces item result w).2 = w ∧
      (importItem security today masterKey clientId req nonces item result w).1.created =
        result.created ∧
      (importItem security today masterKey clientId req nonces item result w).1.updated =
        result.updated := by
  obtain ⟨id, row, hrow, himported⟩ := h
  rw [hashRow?] at hrow
  rw [importItem]
  simp only [hrow]
  rcases himported with hconflict | hcompleted
  · rw [conflicts] at hconflict
    rw [if_pos hconflict]
    exact ⟨rfl, rfl, rfl⟩
  · have hsame :=
      mergeImported_of_completed hcompleted
        (storedPassword_eq_none security masterKey nonces.2 item).mpr
    rw [if_pos hsame]
    split
    · exact ⟨rfl, rfl, rfl⟩
    · exact ⟨rfl, rfl, rfl⟩

end

/-! ### All lines -/

section

variable {security : Security} {masterKey : Bytes} {clientId : Option Nat} {req : ImportRequest}
  {env env' : ImportEnv} {lines : List ParsedLine} {result after : ImportResult} {w w' : World}

theorem ImportResult.total_fail (item : ParsedKeyLine) (text : String) (result : ImportResult) :
    (result.fail item text).total = result.total + 1 := by
  simp only [total, fail, List.length_append, List.length_singleton]
  omega

/-- The line is counted, and then its savepoint fails at the exit. -/
def ImportEnv.breaksAtExit (env : ImportEnv) (line : ParsedLine) : Bool :=
  (env.flush line).isNone && (env.exit line).isSome

/-- The items of the lines whose savepoints do not fail are imported. -/
def AllImported (security : Security) (masterKey : Bytes) (clientId : Option Nat) (env : ImportEnv)
    (lines : List ParsedLine) (w : World) : Prop :=
  ∀ line ∈ lines, env.flush line = none → env.exit line = none →
    ∃ item, line.stored = some item ∧ Imported security masterKey clientId item w

theorem AllImported.cons {line : ParsedLine}
    (h : AllImported security masterKey clientId env lines w)
    (hline : env.flush line = none → env.exit line = none →
      ∃ item, line.stored = some item ∧ Imported security masterKey clientId item w) :
    AllImported security masterKey clientId env (line :: lines) w := by
  intro other hmem hflush hexit
  rcases List.mem_cons.mp hmem with heq | hrest
  · rw [heq] at hflush hexit ⊢
    exact hline hflush hexit
  · exact h other hrest hflush hexit

/-- The loop completes the rows, imports every line whose savepoint does not fail, and counts all of
them, those that break at the exit twice. -/
theorem importLines_spec (hlines :
    importLines security masterKey clientId req env lines result w = some (after, w')) :
    Extends w w' ∧ AllImported security masterKey clientId env lines w' ∧
      after.total = result.total + lines.length + lines.countP env.breaksAtExit := by
  induction lines generalizing result w with
  | nil =>
    obtain ⟨rfl, rfl⟩ := Prod.mk.inj (Option.some.inj hlines)
    exact ⟨.refl w, fun _ hmem => absurd hmem List.not_mem_nil, rfl⟩
  | cons line rest ih =>
    rw [importLines] at hlines
    rw [List.countP_cons, ImportEnv.breaksAtExit, List.length_cons]
    cases hstored : line.stored with
    | none =>
      rw [hstored] at hlines
      cases hlines
    | some item =>
      rw [hstored] at hlines
      cases hflush : env.flush line with
      | some text =>
        rw [hflush] at hlines
        obtain ⟨hextends, himported, htotal⟩ := ih hlines
        refine ⟨hextends, himported.cons fun hnone _ => ?_, ?_⟩
        · rw [hflush] at hnone
          cases hnone
        · rw [htotal, ImportResult.total_fail, Option.isNone_some, Bool.false_and,
            if_neg Bool.false_ne_true]
          omega
      | none =>
        rw [hflush] at hlines
        have hspec :=
          @importItem_spec security env.today masterKey clientId req (env.nonces item.lineNo) item
            result w
        obtain ⟨hitem, hitemImported, hcount⟩ := hspec
        rw [Option.isNone_none, Bool.true_and]
        cases hexit : env.exit line with
        | some text =>
          simp only [hexit] at hlines
          obtain ⟨hextends, himported, htotal⟩ := ih hlines
          refine ⟨hextends, himported.cons fun _ hnone => ?_, ?_⟩
          · rw [hexit] at hnone
            cases hnone
          · rw [htotal, ImportResult.total_fail, hcount, Option.isSome_some, if_pos rfl]
            omega
        | none =>
          simp only [hexit] at hlines
          obtain ⟨hextends, himported, htotal⟩ := ih hlines
          refine ⟨hitem.trans hextends, himported.cons fun _ _ => ?_, ?_⟩
          · exact ⟨item, hstored, hitemImported.extends hextends⟩
          · rw [htotal, hcount, Option.isSome_none, if_neg Bool.false_ne_true]
            omega

/-- Lines that are imported already do nothing, whatever is drawn for them and whatever fails
besides. -/
theorem importLines_of_imported (req : ImportRequest) (env' : ImportEnv)
    (himported : AllImported security masterKey clientId env lines w)
    (hfails : ∀ line ∈ lines, env'.flush line = none → env.flush line = none ∧ env.exit line = none)
    (hstored : ∀ line ∈ lines, line.stored.isSome = true) :
    ∃ again, importLines security masterKey clientId req env' lines result w = some (again, w) ∧
      again.created = result.created ∧ again.updated = result.updated := by
  induction lines generalizing result with
  | nil => exact ⟨result, rfl, rfl, rfl⟩
  | cons line rest ih =>
    have hrest : AllImported security masterKey clientId env rest w := fun other hmem =>
      himported other (List.mem_cons_of_mem _ hmem)
    have hrestFails :
        ∀ other ∈ rest, env'.flush other = none → env.flush other = none ∧ env.exit other = none :=
      fun other hmem => hfails other (List.mem_cons_of_mem _ hmem)
    have hrestStored : ∀ other ∈ rest, other.stored.isSome = true := fun other hmem =>
      hstored other (List.mem_cons_of_mem _ hmem)
    obtain ⟨item, hitem⟩ := Option.isSome_iff_exists.mp (hstored line List.mem_cons_self)
    rw [importLines, hitem]
    cases hflush : env'.flush line with
    | some text => exact ih hrest hrestFails hrestStored
    | none =>
      obtain ⟨hheld, hleft⟩ := hfails line List.mem_cons_self hflush
      obtain ⟨same, hsame, hitemImported⟩ := himported line List.mem_cons_self hheld hleft
      obtain rfl : item = same := Option.some.inj (hitem.symm.trans hsame)
      have hnothing := @importItem_of_imported security env'.today masterKey clientId req
        (env'.nonces item.lineNo) item result w hitemImported
      obtain ⟨hworld, hcreated, hupdated⟩ := hnothing
      dsimp only
      cases env'.exit line with
      | some text =>
        obtain ⟨again, hagain, hcreated', hupdated'⟩ := ih hrest hrestFails hrestStored
        exact ⟨again, hagain, hcreated'.trans hcreated, hupdated'.trans hupdated⟩
      | none =>
        rw [hworld]
        obtain ⟨again, hagain, hcreated', hupdated'⟩ := ih hrest hrestFails hrestStored
        exact ⟨again, hagain, hcreated'.trans hcreated, hupdated'.trans hupdated⟩

end

/-! ### The handler -/

section

variable {security : Security} {masterKey : Option Bytes}
  {fromIsoformat : PyStr → Except PyStr Instant} {text : PyStr} {req : ImportRequest}
  {env : ImportEnv} {w : World}

/-- The import gets through: it has a secret, a client that is there, if any, lines to import that
can be encoded, and its commit. -/
structure GetsThrough (masterKey : Option Bytes) (fromIsoformat : PyStr → Except PyStr Instant)
    (env : ImportEnv) (text : PyStr) (req : ImportRequest) (w : World) : Prop where
  secret : masterKey.isSome = true
  client : ∃ clientId, requestedClient w req.clientId = .ok clientId
  lines : ((parseKeysText fromIsoformat text).1.isEmpty &&
    !(parseKeysText fromIsoformat text).2.isEmpty) = false
  stored : ∀ line ∈ (parseKeysText fromIsoformat text).1, line.stored.isSome = true
  commits : env.commits = true

/-- An import that returns has gone through the lines of the text. -/
structure Went (security : Security) (masterKey : Option Bytes)
    (fromIsoformat : PyStr → Except PyStr Instant) (env : ImportEnv) (text : PyStr)
    (req : ImportRequest) (w : World) (key : Bytes) (clientId : Option Nat) (result : ImportResult)
    (after : World) : Prop where
  through : GetsThrough masterKey fromIsoformat env text req w
  secret : masterKey = some key
  client : requestedClient w req.clientId = .ok clientId
  lines : importLines security key clientId req env (parseKeysText fromIsoformat text).1
    { failures := (parseKeysText fromIsoformat text).2.map fun failure =>
        (failure.lineNo, failure.raw.text, failure.message.text) } w = some (result, after)

/-- An import that has gone through the lines of the text returns if it commits. -/
theorem importKeysText_eq {key : Bytes} {clientId : Option Nat} {result : ImportResult}
    {after : World} (hkey : masterKey = some key)
    (hclient : requestedClient w req.clientId = .ok clientId)
    (hvalid : ((parseKeysText fromIsoformat text).1.isEmpty &&
      !(parseKeysText fromIsoformat text).2.isEmpty) = false)
    (hlines : importLines security key clientId req env (parseKeysText fromIsoformat text).1
      { failures := (parseKeysText fromIsoformat text).2.map fun failure =>
          (failure.lineNo, failure.raw.text, failure.message.text) } w = some (result, after))
    (hcommits : env.commits = true) :
    importKeysText security masterKey fromIsoformat env text req w = (.ok result, after) := by
  unfold importKeysText
  rw [hkey, hclient]
  simp only [hvalid, hlines, hcommits, if_true, Bool.false_eq_true, if_false]

/-- The counts are those of the lines, and one more for each line that breaks at the exit. -/
theorem Went.total {key : Bytes} {clientId : Option Nat} {result : ImportResult} {after : World}
    (h : Went security masterKey fromIsoformat env text req w key clientId result after) :
    result.total = (parseKeysText fromIsoformat text).1.length +
      (parseKeysText fromIsoformat text).2.length +
      (parseKeysText fromIsoformat text).1.countP env.breaksAtExit := by
  obtain ⟨-, -, htotal⟩ := importLines_spec h.lines
  rw [htotal]
  simp only [ImportResult.total, List.length_map]
  omega

/-- Where no line breaks at the exit, the same import does nothing after the first. -/
theorem Went.again {key : Bytes} {clientId : Option Nat} {result : ImportResult} {after : World}
    {env' : ImportEnv}
    (h : Went security masterKey fromIsoformat env text req w key clientId result after)
    (hexit : ∀ line ∈ (parseKeysText fromIsoformat text).1, env.flush line = none →
      env.exit line = none) (hflush : ∀ line, env'.flush line = none → env.flush line = none)
        (hcommits : env'.commits = true) :
    ∃ second, importKeysText security masterKey fromIsoformat env' text req after =
      (.ok second, after) ∧
      second.created = 0 ∧ second.updated = 0 := by
  obtain ⟨hextends, hall, -⟩ := importLines_spec h.lines
  have hclient : requestedClient after req.clientId = .ok clientId := by
    rw [← h.client]
    unfold requestedClient
    rw [hextends.clients]
  have hfails : ∀ line ∈ (parseKeysText fromIsoformat text).1, env'.flush line = none →
      env.flush line = none ∧ env.exit line = none :=
    fun line hmem hnone => ⟨hflush line hnone, hexit line hmem (hflush line hnone)⟩
  obtain ⟨second, hsecond, hcreated, hupdated⟩ :=
    importLines_of_imported req env' hall hfails h.through.stored
  exact ⟨second, importKeysText_eq h.secret hclient h.through.lines hsecond hcommits, hcreated,
    hupdated⟩

end

end Fcam
