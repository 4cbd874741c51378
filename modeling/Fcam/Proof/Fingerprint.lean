import Fcam.Proof.JsonParsed
import Fcam.Proof.MemberOrder
import Fcam.Proof.Replay

/-!
# Fingerprints

The fingerprint of a request exists where its text can be encoded, that is where no string of the
payload holds a lone surrogate, and then it tells the method, the endpoint and the payload apart,
the payload up to the order of members. An error of the encoder is not caught by `start_or_replay`,
and neither is an overflow of the expiry.
-/

namespace Fcam

namespace Json

/-! ### The characters of a text -/

section

variable {q : Nat → Bool} {text pad : PyStr}

theorem all_of_ascii (hascii : ∀ c < 128, q c = true) (htext : ∀ c ∈ text, c < 128) :
    text.all q = true := by
  rw [List.all_eq_true]
  exact fun c hc => hascii c (htext c hc)

theorem digit_ascii {c : Nat} (hc : isDigit c = true) : c < 128 := by
  simp only [isDigit, Bool.and_eq_true, decide_eq_true_eq] at hc
  omega

theorem takeWhile_ascii (text : PyStr) : ∀ c ∈ text.takeWhile isDigit, c < 128 := fun _ hc =>
  digit_ascii (List.mem_takeWhile_imp hc)

theorem scanUnsigned_ascii {read : PyStr × PyStr} (h : scanUnsigned text = some read) :
    ∀ c ∈ read.1, c < 128 := by
  cases text with
  | nil => cases h
  | cons c text =>
    rw [scanUnsigned] at h
    split_ifs at h with hzero hdigit
    · obtain rfl := Option.some.inj h
      exact List.forall_mem_singleton.mpr (by decide)
    · obtain rfl := Option.some.inj h
      exact List.forall_mem_cons.mpr ⟨digit_ascii hdigit, takeWhile_ascii text⟩

theorem scanInteger_ascii {read : PyStr × PyStr} (h : scanInteger text = some read) :
    ∀ c ∈ read.1, c < 128 := by
  cases text with
  | nil => cases h
  | cons c text =>
    rw [scanInteger] at h
    split_ifs at h with hsign
    · obtain ⟨unsigned, hunsigned, rfl⟩ := Option.map_eq_some_iff.mp h
      exact List.forall_mem_cons.mpr ⟨by decide, scanUnsigned_ascii hunsigned⟩
    · exact scanUnsigned_ascii h

theorem scanFraction_ascii (text : PyStr) : ∀ c ∈ (scanFraction text).1, c < 128 := by
  cases text with
  | nil => exact List.forall_mem_nil _
  | cons c text =>
    rw [scanFraction]
    split_ifs with hpoint
    · exact List.forall_mem_cons.mpr ⟨by omega, takeWhile_ascii text⟩
    · exact List.forall_mem_nil _

theorem scanSign_ascii (text : PyStr) : ∀ c ∈ (scanSign text).1, c < 128 := by
  cases text with
  | nil => exact List.forall_mem_nil _
  | cons c text =>
    rw [scanSign]
    split_ifs with hsign
    · exact List.forall_mem_singleton.mpr (by omega)
    · exact List.forall_mem_nil _

theorem scanExponent_ascii (text : PyStr) : ∀ c ∈ (scanExponent text).1, c < 128 := by
  cases text with
  | nil => exact List.forall_mem_nil _
  | cons c text =>
    rw [scanExponent]
    split_ifs with hexponent
    · exact List.forall_mem_cons.mpr
        ⟨by omega, List.forall_mem_append.mpr ⟨scanSign_ascii text, takeWhile_ascii _⟩⟩
    · exact List.forall_mem_nil _

theorem floatText_ascii (hfloat : (isFloatText text || isConstant text) = true) :
    ∀ c ∈ text, c < 128 := by
  rcases (Bool.or_eq_true _ _).mp hfloat with hnumber | hconstant
  · obtain ⟨number, hmatch, hparts⟩ := (Option.any_eq_true _ _).mp hnumber
    rw [Bool.and_eq_true, beq_iff_eq] at hparts
    obtain ⟨heq, -⟩ := matchNumber_eq hmatch
    obtain ⟨read, hread, rfl⟩ := Option.map_eq_some_iff.mp hmatch
    rw [hparts.1, List.append_nil] at heq
    rw [← heq]
    exact List.forall_mem_append.mpr ⟨scanInteger_ascii hread,
      List.forall_mem_append.mpr ⟨scanFraction_ascii _, scanExponent_ascii _⟩⟩
  · have hmem : text ∈ ["NaN", "Infinity", "-Infinity"].map PyStr.ofString :=
      List.contains_iff_mem.mp hconstant
    have hascii :
        ∀ text ∈ ["NaN", "Infinity", "-Infinity"].map PyStr.ofString, ∀ c ∈ text,
          c < 128 := by decide
    exact hascii text hmem

theorem intText_ascii (n : Int) : ∀ c ∈ intText n, c < 128 := by
  have hmatch := matchNumber_intText n
  obtain ⟨read, hread, heq⟩ := Option.map_eq_some_iff.mp hmatch
  have hascii := scanInteger_ascii hread
  rw [NumberMatch.mk.injEq] at heq
  rwa [heq.1] at hascii

theorem escape_all (hascii : ∀ c < 128, q c = true) (c : Nat) : (escape c).all q = q c := by
  by_cases hc : c ∈ escaped
  · have hescape : ∀ c ∈ escaped, c < 128 ∧ ∀ d ∈ escape c, d < 128 := by decide
    rw [all_of_ascii hascii (hescape c hc).2, hascii c (hescape c hc).1]
  · rw [escape_of_not_mem hc, List.all_cons, List.all_nil, Bool.and_true]

theorem quote_all (hascii : ∀ c < 128, q c = true) (s : PyStr) : (quote s).all q = s.all q := by
  have hquote : [34].all q = true := all_of_ascii hascii (by decide)
  rw [quote, List.all_append, List.all_append, hquote, Bool.true_and, Bool.and_true]
  induction s with
  | nil => rfl
  | cons c s ih => rw [List.flatMap_cons, List.all_append, List.all_cons, escape_all hascii, ih]

theorem separated_all (hascii : ∀ c < 128, q c = true) (hpad : ∀ c ∈ pad, c < 128)
    (texts : List PyStr) :
    (separated pad texts).all q = texts.all fun text => text.all q := by
  cases texts with
  | nil => rfl
  | cons text rest =>
    rw [separated, List.all_append, List.all_cons]
    congr 1
    induction rest with
    | nil => rfl
    | cons next rest ih =>
      rw [List.flatMap_cons, List.all_append, List.all_cons, List.all_cons, List.all_append,
        hascii 44 (by omega), all_of_ascii hascii hpad, ih, Bool.true_and, Bool.true_and]

mutual

theorem write_all (hascii : ∀ c < 128, q c = true) (hpad : ∀ c ∈ pad, c < 128) :
    ∀ {value : Json}, value.printable = true → (write pad value).all q = value.textsAll q
  | null, _ => by
    rw [write]
    exact all_of_ascii hascii (by decide)
  | bool value, _ => by
    rw [write]
    split_ifs <;> exact all_of_ascii hascii (by decide)
  | int value, _ => all_of_ascii hascii (intText_ascii value)
  | float _ _, hprinted => all_of_ascii hascii (floatText_ascii hprinted)
  | str value, _ => quote_all hascii value
  | arr items, hprinted => by
    have hbracket : q 91 = true ∧ [93].all q = true :=
      ⟨hascii 91 (by omega), all_of_ascii hascii (by decide)⟩
    rw [write, List.all_cons, List.all_append, hbracket.1, hbracket.2, Bool.true_and, Bool.and_true,
      separated_all hascii hpad, writeItems_all hascii hpad hprinted]
    rfl
  | obj members, hprinted => by
    have hbracket : q 123 = true ∧ [125].all q = true :=
      ⟨hascii 123 (by omega), all_of_ascii hascii (by decide)⟩
    rw [write, List.all_cons, List.all_append, hbracket.1, hbracket.2, Bool.true_and, Bool.and_true,
      separated_all hascii hpad, writeMembers_all hascii hpad hprinted]
    rfl

theorem writeItems_all (hascii : ∀ c < 128, q c = true) (hpad : ∀ c ∈ pad, c < 128) :
    ∀ {items : List Json},
    everyItem printableScalar (fun _ => true) items = true →
      ((writeItems pad items).all fun text => text.all q) =
        everyItem (textScalar q) (fun names => names.all fun name => name.all q) items
  | [], _ => rfl
  | item :: rest, hprinted => by
    obtain ⟨hitem, hrest⟩ := (Bool.and_eq_true _ _).mp hprinted
    rw [writeItems, List.all_cons, write_all hascii hpad hitem, writeItems_all hascii hpad hrest]
    rfl

theorem writeMembers_all (hascii : ∀ c < 128, q c = true) (hpad : ∀ c ∈ pad, c < 128) :
    ∀ {members : List (PyStr × Json)}, everyMember printableScalar (fun _ => true) members = true →
      ((writeMembers pad members).all fun text => text.all q) =
        (((members.map Prod.fst).all fun name => name.all q) &&
          everyMember (textScalar q) (fun names => names.all fun name => name.all q) members)
  | [], _ => rfl
  | (key, value) :: rest, hprinted => by
    obtain ⟨hvalue, hrest⟩ := (Bool.and_eq_true _ _).mp hprinted
    have hvalue' := write_all hascii hpad hvalue
    rw [textsAll] at hvalue'
    rw [writeMembers, List.all_cons, List.all_append, List.all_cons, List.all_append,
      quote_all hascii, hascii 58 (by omega), all_of_ascii hascii hpad, hvalue',
      writeMembers_all hascii hpad hrest, List.map_cons, List.all_cons, everyMember, Bool.true_and,
      Bool.true_and]
    ac_rfl

end

theorem dumps_all {float : PyStr → PyStr × Option Int} {value : Json}
    (hascii : ∀ c < 128, q c = true) (hparsed : value.parsed float = true) :
    value.dumps.all q = value.textsAll q := by
  rw [dumps_eq_write,
    write_all hascii (List.forall_mem_nil _) (printable_of_parsed (parsed_sorted hparsed)),
    textsAll, every_sorted, textsAll]
  intro ks ls hperm
  exact hperm.all_eq

end

end Json

/-! ### Encoding -/

/-- A code point of Unicode. -/
abbrev CodePoint : Type := { c : Nat // c < 0x110000 }

theorem toUInt8_eq_iff {a b : Nat} : a.toUInt8 = b.toUInt8 ↔ a % 256 = b % 256 := by
  rw [← UInt8.toNat_inj, Nat.toUInt8_eq, Nat.toUInt8_eq, UInt8.toNat_ofNat', UInt8.toNat_ofNat']

theorem utf8_prefixCode : PrefixCode fun c : CodePoint => utf8EncodeChar c.1 where
  nonempty c := by
    rw [utf8EncodeChar]
    split_ifs <;> exact List.cons_ne_nil _ _
  eq_of_append {c d x y} heq := by
    obtain ⟨c, hc⟩ := c
    obtain ⟨d, hd⟩ := d
    apply Subtype.ext
    dsimp only at heq ⊢
    rw [utf8EncodeChar, utf8EncodeChar] at heq
    -- The first byte tells how many there are.
    split_ifs at heq <;>
      simp only [List.cons_append, List.nil_append, List.cons.injEq, toUInt8_eq_iff] at heq <;>
      omega

theorem map_val_codePoints {s : PyStr} (hs : s.all (· < 0x110000) = true) :
    ∃ points : List CodePoint, points.map Subtype.val = s := by
  induction s with
  | nil => exact ⟨[], rfl⟩
  | cons c s ih =>
    obtain ⟨hc, hrest⟩ := (Bool.and_eq_true _ _).mp hs
    obtain ⟨points, hpoints⟩ := ih hrest
    exact ⟨⟨c, of_decide_eq_true hc⟩ :: points, by rw [List.map_cons, hpoints]⟩

theorem utf8Encode_injective {s t : PyStr} {bytes : Bytes} (hs : s.all (· < 0x110000) = true)
    (ht : t.all (· < 0x110000) = true) (hencoded : utf8Encode s = some bytes)
    (hencoded' : utf8Encode t = some bytes) :
    s = t := by
  obtain ⟨ps, rfl⟩ := map_val_codePoints hs
  obtain ⟨qs, rfl⟩ := map_val_codePoints ht
  rw [utf8Encode] at hencoded hencoded'
  split_ifs at hencoded hencoded'
  have heq := (Option.some.inj hencoded).trans (Option.some.inj hencoded').symm
  rw [List.flatMap_map, List.flatMap_map] at heq
  rw [utf8_prefixCode.flatMap_injective heq]

theorem utf8Encode_isSome (s : PyStr) : (utf8Encode s).isSome = s.all fun c => !isSurrogate c := by
  rw [utf8Encode, List.all_eq_not_any_not]
  simp only [Bool.not_not]
  split_ifs with hany
  · rw [hany]
    rfl
  · rw [Bool.eq_false_iff.mpr hany]
    rfl

/-! ### The text of a request -/

/-- The document `_hash_request` writes. -/
def requestDoc (req : IdempotentRequest) : Json :=
  .obj
    [(PyStr.ofString "method", .str ((upper req.method).map Char.toNat)),
      (PyStr.ofString "endpoint", .str (PyStr.ofString req.endpoint)),
      (PyStr.ofString "payload", req.payload)]

/-- The payload can be parsed from a body: the strings in it are of Unicode code points. -/
structure IdempotentRequest.Parsed (float : PyStr → PyStr × Option Int)
    (req : IdempotentRequest) : Prop where
  parsed : req.payload.parsed float = true
  codePoints : req.payload.textsAll (· < 0x110000) = true

theorem IdempotentRequest.parsed_of_loads {float : PyStr → PyStr × Option Int}
    (hfloat : Json.ReadsFloats float) {req : IdempotentRequest} {text : PyStr}
    (htext : text.all (· < 0x110000) = true)
    (h : Json.loads (Json.Hooks.default float) text = some req.payload) : req.Parsed float where
  parsed := (Json.parsed_of_loads hfloat htext h).1
  codePoints := (Json.parsed_of_loads hfloat htext h).2

section

variable {float : PyStr → PyStr × Option Int} {req req' : IdempotentRequest} {q : Nat → Bool}

theorem requestText_eq (req : IdempotentRequest) : requestText req = (requestDoc req).dumps := rfl

theorem parsed_requestDoc (hparsed : req.payload.parsed float = true) :
    (requestDoc req).parsed float = true := by
  show (decide [PyStr.ofString "method", PyStr.ofString "endpoint",
    PyStr.ofString "payload"].Nodup && (true && (true && (req.payload.parsed float && true)))) =
      true
  rw [hparsed]
  decide

theorem requestText_all (hascii : ∀ c < 128, q c = true) (hchar : ∀ c : Char, q c.toNat = true)
    (hparsed : req.payload.parsed float = true) :
    (requestText req).all q = req.payload.textsAll q := by
  have hchars : ∀ cs : List Char, (cs.map Char.toNat).all q = true := by
    intro cs
    rw [List.all_map, List.all_eq_true]
    exact fun c _ => hchar c
  have hnames : ([PyStr.ofString "method", PyStr.ofString "endpoint", PyStr.ofString "payload"].all
      fun name => name.all q) = true := by
    rw [List.all_eq_true]
    exact fun name hname => Json.all_of_ascii hascii (by revert name; decide)
  rw [requestText_eq, Json.dumps_all hascii (parsed_requestDoc hparsed)]
  show (([PyStr.ofString "method", PyStr.ofString "endpoint", PyStr.ofString "payload"].all
    fun name => name.all q) && (((upper req.method).map Char.toNat).all q &&
      ((PyStr.ofString req.endpoint).all q && (req.payload.textsAll q && true)))) =
        req.payload.textsAll q
  rw [hnames, hchars, PyStr.ofString, hchars, Bool.true_and, Bool.true_and, Bool.true_and,
    Bool.and_true]

theorem sorted_requestDoc (req : IdempotentRequest) :
    (requestDoc req).sorted =
      .obj
        [(PyStr.ofString "endpoint", .str (PyStr.ofString req.endpoint)),
          (PyStr.ofString "method", .str ((upper req.method).map Char.toNat)),
          (PyStr.ofString "payload", req.payload.sorted)] := by
  rfl

/-- Two requests have the same text exactly where their methods agree up to case, their endpoints
agree, and their payloads agree up to the order of members. -/
theorem requestText_eq_iff (hparsed : req.payload.parsed float = true)
    (hparsed' : req'.payload.parsed float = true) :
    requestText req = requestText req' ↔
      upper req.method = upper req'.method ∧ req.endpoint = req'.endpoint ∧
        Json.EqualJson req.payload req'.payload := by
  rw [requestText_eq, requestText_eq,
    Json.dumps_eq_iff (parsed_requestDoc hparsed) (parsed_requestDoc hparsed'), sorted_requestDoc,
    sorted_requestDoc, ← Json.dumps_eq_iff_equalJson hparsed hparsed',
    Json.dumps_eq_iff hparsed hparsed']
  simp only [Json.obj.injEq, List.cons.injEq, Prod.mk.injEq, Json.str.injEq, true_and, and_true]
  constructor
  · rintro ⟨hendpoint, hmethod, hpayload⟩
    exact ⟨List.map_injective_iff.mpr (fun c d hcd => Char.toNat_inj.mp hcd) hmethod,
      PyStr.ofString_injective hendpoint, hpayload⟩
  · rintro ⟨hmethod, hendpoint, hpayload⟩
    exact ⟨by rw [hendpoint], by rw [hmethod], hpayload⟩

theorem char_codePoint (c : Char) : c.toNat < 0x110000 ∧ isSurrogate c.toNat = false := by
  have hvalid : c.toNat < 0xd800 ∨ 0xdfff < c.toNat ∧ c.toNat < 0x110000 := c.valid
  refine ⟨by omega, ?_⟩
  rw [isSurrogate, ← Bool.decide_and]
  exact decide_eq_false (by omega)

/-- With a hash that tells texts apart, so do fingerprints. -/
theorem hashRequest_eq_iff {sha256 : Bytes → String} (hinjective : Function.Injective sha256)
    (hreq : req.Parsed float) (hreq' : req'.Parsed float) {hash hash' : String}
    (hhash : hashRequest sha256 req = some hash) (hhash' : hashRequest sha256 req' = some hash') :
    hash = hash' ↔
      upper req.method = upper req'.method ∧ req.endpoint = req'.endpoint ∧
        Json.EqualJson req.payload req'.payload := by
  rw [← requestText_eq_iff hreq.parsed hreq'.parsed]
  obtain ⟨bytes, hbytes, rfl⟩ := Option.map_eq_some_iff.mp hhash
  obtain ⟨bytes', hbytes', rfl⟩ := Option.map_eq_some_iff.mp hhash'
  have hpoints :
      ∀ {req : IdempotentRequest}, req.Parsed float →
        (requestText req).all (· < 0x110000) = true := by
    intro req hreq
    rw [requestText_all (fun c hc => decide_eq_true (by omega))
      (fun c => decide_eq_true (char_codePoint c).1) hreq.parsed, hreq.codePoints]
  constructor
  · intro heq
    rw [← hinjective heq] at hbytes'
    exact utf8Encode_injective (hpoints hreq) (hpoints hreq') hbytes hbytes'
  · intro heq
    rw [heq] at hbytes
    rw [Option.some.inj (hbytes.symm.trans hbytes')]

theorem hashRequest_isSome {sha256 : Bytes → String} (hreq : req.Parsed float) :
    (hashRequest sha256 req).isSome = req.payload.textsAll fun c => !isSurrogate c := by
  rw [hashRequest, Option.isSome_map, utf8Encode_isSome, requestText_all _ _ hreq.parsed]
  · intro c hc
    rw [isSurrogate, decide_eq_false (by omega)]
    rfl
  · intro c
    rw [(char_codePoint c).2]
    rfl

end

/-! ### What `start_or_replay` raises -/

/-- Nothing is raised but the error of the gateway. -/
def Begun.orderly : Begun → Bool
  | .raised (.fcam _) => true
  | .raised _ => false
  | _ => true

section

variable {config : AppConfig} {sha256 : Bytes → String} {req : IdempotentRequest}
  {clock : Nat → Instant} {records : Records} {key hash : String} {now : Instant}

theorem deserializeResponse_orderly (statusCode : Nat) (stored : List (String × String) × Bytes) :
    (deserializeResponse statusCode stored).orderly = true := by
  rw [deserializeResponse]
  split <;> rfl

theorem answerOf_orderly (record : IdempotencyRecord) : (answerOf hash record).orderly = true := by
  rw [answerOf]
  split_ifs
  · rfl
  · split
    · exact deserializeResponse_orderly _ _
    · rfl

theorem expiredAt_of_cleaned {id : Nat} {existing : IdempotencyRecord}
    (hfound : recordOfKey? req.clientId key (cleanupExpired req.clientId now records) =
      some (id, existing)) :
    expiredAt now existing = false := by
  have hkey := List.find?_some hfound
  have hkept := (List.mem_filter.mp (List.mem_of_find?_eq_some hfound)).2
  dsimp only at hkey hkept
  rw [ofKey, Bool.and_eq_true] at hkey
  rwa [hkey.1, Bool.true_and, Bool.not_eq_true'] at hkept

/-- A call ends without calling itself, in order unless the hash or the expiry raises. -/
theorem startOnce_done (config : AppConfig) (sha256 : Bytes → String) (req : IdempotentRequest)
    (key : String) (now : Instant) (records : Records) :
    ∃ ended, startOnce config sha256 req key now records = .done ended ∧
      ended.1.orderly = ((hashRequest sha256 req).isSome && (expiry config now).isSome) := by
  rw [startOnce, recordFields]
  cases hashRequest sha256 req with
  | none => exact ⟨_, rfl, rfl⟩
  | some hash =>
    cases expiry config now with
    | none => exact ⟨_, rfl, rfl⟩
    | some expiresAt =>
      dsimp only
      cases insertRecord (newRecord req key hash expiresAt)
        (cleanupExpired req.clientId now records) with
      | some inserted => exact ⟨_, rfl, rfl⟩
      | none =>
        dsimp only
        rw [reread]
        cases hfound : recordOfKey? req.clientId key (cleanupExpired req.clientId now records) with
        | none => exact ⟨_, rfl, rfl⟩
        | some found =>
          dsimp only
          rw [expiredAt_of_cleaned hfound]
          exact ⟨_, rfl, answerOf_orderly _⟩

theorem expiry_isSome : (expiry config now).isSome = true ↔
    datetimeMin ≤ now + max config.idempotency.ttlSeconds 1 * 1000000 ∧
      now + max config.idempotency.ttlSeconds 1 * 1000000 ≤ datetimeMax := by
  rw [expiry, plusSeconds]
  split_ifs with hfits
  · exact ⟨fun _ => hfits, fun _ => rfl⟩
  · exact ⟨fun hsome => absurd hsome Bool.false_ne_true, fun hboth => absurd hboth hfits⟩

/-- With a key, `start_or_replay` raises nothing but the error of the gateway exactly where
idempotency is off or no string of the payload holds a lone surrogate and the expiry is a date; and
two requests that have a fingerprint have the same one exactly where they agree in method up to
case, in endpoint, and in payload up to the order of members. -/
theorem fingerprint_total_iff {float : PyStr → PyStr × Option Int}
    (hinjective : Function.Injective sha256) (hreq : req.Parsed float)
    (hkey : req.idempotencyKey = some key) (hne : key ≠ "") :
    ((startOrReplay config sha256 req clock records).1.orderly = true ↔
        config.idempotency.enabled = false ∨
          (req.payload.textsAll fun c => !isSurrogate c) = true ∧
            datetimeMin ≤ clock 0 + max config.idempotency.ttlSeconds 1 * 1000000 ∧
              clock 0 + max config.idempotency.ttlSeconds 1 * 1000000 ≤ datetimeMax) ∧
      ∀ {req' : IdempotentRequest} {hash hash' : String}, req'.Parsed float →
        hashRequest sha256 req = some hash →
        hashRequest sha256 req' = some hash' →
          (hash = hash' ↔
            upper req.method = upper req'.method ∧ req.endpoint = req'.endpoint ∧
              Json.EqualJson req.payload req'.payload) := by
  refine ⟨?_, fun hreq' hhash hhash' => hashRequest_eq_iff hinjective hreq hreq' hhash hhash'⟩
  cases henabled : config.idempotency.enabled with
  | false =>
    have hgiven : givenKey config req = .error (.letThrough none) := by
      rw [givenKey, henabled]
      rfl
    rw [startOrReplay, hgiven]
    exact ⟨fun _ => .inl rfl, fun _ => rfl⟩
  | true =>
    obtain ⟨ended, hdone, horderly⟩ := startOnce_done config sha256 req key (clock 0) records
    rw [startOrReplay_of_startOnce (givenKey_of_some henabled hkey hne) hdone, horderly,
      hashRequest_isSome hreq, Bool.and_eq_true, expiry_isSome]
    constructor
    · exact .inr
    · rintro (hdisabled | hboth)
      · cases hdisabled
      · exact hboth

end

/-! ### Requests with a payload -/

theorem plainHash_injective : Function.Injective plainHash := by
  intro bytes bytes' heq
  have hlist := String.ofList_injective heq
  refine List.map_injective_iff.mpr ?_ hlist
  intro b c hbc
  have hsmall : ∀ b : UInt8, (Char.ofNat b.toNat).toNat = b.toNat := by
    intro b
    have hlt := b.toNat_lt
    rw [Char.ofNat, dif_pos (.inl (by omega))]
    rfl
  have hnat := congrArg Char.toNat hbc
  rw [hsmall, hsmall] at hnat
  exact UInt8.toNat_inj.mp hnat

/-- A crawl under a key. -/
def keyedCrawl (payload : Json) : IdempotentRequest :=
  { clientId := 1, idempotencyKey := some "k", endpoint := "crawl", method := "POST", payload }

def pageThenLimit : Json :=
  .obj [(PyStr.ofString "url", .str (PyStr.ofString "u")), (PyStr.ofString "limit", .int 1)]

def limitThenPage : Json :=
  .obj [(PyStr.ofString "limit", .int 1), (PyStr.ofString "url", .str (PyStr.ofString "u"))]

theorem pageThenLimit_equal : Json.EqualJson pageThenLimit limitThenPage :=
  .obj (@Json.EqualMembers.cons _ _ _ _ [(PyStr.ofString "limit", .int 1)] [] (.str _)
    (@Json.EqualMembers.cons _ _ _ _ [] [] (.int _) .nil))

/-- The bodies these are read from. -/
def pageText : String := "\x7b\"url\":\"u\",\"limit\":1\x7d"

def limitText : String := "\x7b\"limit\":1,\"url\":\"u\"\x7d"

theorem codes_pageText : PyStr.ofString pageText =
    [123, 34, 117, 114, 108, 34, 58, 34, 117, 34, 44, 34, 108, 105, 109, 105, 116, 34, 58, 49,
      125] := by
  decide +kernel

theorem codes_limitText : PyStr.ofString limitText =
    [123, 34, 108, 105, 109, 105, 116, 34, 58, 49, 44, 34, 117, 114, 108, 34, 58, 34, 117, 34,
      125] := by
  decide +kernel

/-- A reader of floats that knows one of them. -/
def zeroFloat (_ : PyStr) : PyStr × Option Int := (PyStr.ofString "0.0", some 0)

theorem zeroFloat_readsFloats : Json.ReadsFloats zeroFloat := by
  intro text number _ _
  show Json.parsedScalar zeroFloat (.float (PyStr.ofString "0.0") (some 0)) = true
  decide

theorem parsed_pageThenLimit : (keyedCrawl pageThenLimit).Parsed zeroFloat := by
  have hvalid : (PyStr.ofString pageText).all (· < 0x110000) = true := by
    rw [codes_pageText]
    decide
  refine IdempotentRequest.parsed_of_loads zeroFloat_readsFloats hvalid ?_
  rw [codes_pageText]
  rfl

theorem parsed_limitThenPage : (keyedCrawl limitThenPage).Parsed zeroFloat := by
  have hvalid : (PyStr.ofString limitText).all (· < 0x110000) = true := by
    rw [codes_limitText]
    decide
  refine IdempotentRequest.parsed_of_loads zeroFloat_readsFloats hvalid ?_
  rw [codes_limitText]
  rfl

/-- A request is let through, and with its members in another order it has the same fingerprint. -/
theorem page_fingerprint :
    (startOrReplay {} plainHash (keyedCrawl pageThenLimit) (fun _ => 0) Table.empty).1.orderly =
      true ∧
      hashRequest plainHash (keyedCrawl pageThenLimit) =
        hashRequest plainHash (keyedCrawl limitThenPage) := by
  have hhash : (hashRequest plainHash (keyedCrawl pageThenLimit)).isSome = true := by decide +kernel
  have hhash' : (hashRequest plainHash (keyedCrawl limitThenPage)).isSome = true := by
    decide +kernel
  obtain ⟨hash, hhash⟩ := Option.isSome_iff_exists.mp hhash
  obtain ⟨hash', hhash'⟩ := Option.isSome_iff_exists.mp hhash'
  obtain ⟨htotal, hsame⟩ :=
    @fingerprint_total_iff {} plainHash (keyedCrawl pageThenLimit) (fun _ => 0) Table.empty "k"
      zeroFloat plainHash_injective parsed_pageThenLimit rfl (by decide)
  refine ⟨htotal.mpr (.inr (by decide +kernel)), ?_⟩
  rw [hhash, hhash', (hsame parsed_limitThenPage hhash hhash').mpr ⟨rfl, rfl, pageThenLimit_equal⟩]

/-- The body of a request in which a string holds an escaped lone surrogate. -/
def surrogateText : String := "\x7b\"url\":\"\\ud800\"\x7d"

/-- `json.loads` of this body. -/
def surrogatePayload : Option Json :=
  Json.loads (.default fun text => (text, none)) (PyStr.ofString surrogateText)

/-- `json.loads` takes a lone surrogate, and the encoder does not. -/
theorem surrogate_raises :
    surrogatePayload.isSome = true ∧
      (startOrReplay {} plainHash (keyedCrawl (surrogatePayload.getD .null)) (fun _ => 0)
        Table.empty).1 =
        .raised .unicodeEncodeError := by
  constructor
  · decide +kernel
  · decide +kernel

end Fcam
