import Mathlib.Algebra.Order.Ring.Nat
import Fcam.Model.LogLine
import Fcam.Proof.Redaction

/-!
# The log can be read back

A text of `json.dumps` has no control character: strings are escaped, and numbers and words have
none. So a record of the JSON formatter is one line, whatever its message and its fields are, and
the lines of the stream are read back as the payloads. A record of the plain formatter is one line
exactly where none of its own texts breaks it.
-/

namespace Fcam

/-! ### No control characters -/

/-- No character is a control character. -/
def Graphic (text : PyStr) : Prop := ∀ c ∈ text, 32 ≤ c

instance (text : PyStr) : Decidable (Graphic text) :=
  inferInstanceAs (Decidable (∀ c ∈ text, 32 ≤ c))

namespace Graphic

variable {x y : PyStr}

theorem append (hx : Graphic x) (hy : Graphic y) : Graphic (x ++ y) := by
  intro c hc
  obtain hc | hc := List.mem_append.mp hc
  · exact hx c hc
  · exact hy c hc

theorem of_append (h : Graphic (x ++ y)) : Graphic x := fun c hc => h c (List.mem_append_left y hc)

theorem not_mem (h : Graphic x) : 10 ∉ x := by
  intro hmem
  have hle := h 10 hmem
  omega

end Graphic

theorem graphic_takeWhile_isDigit (text : PyStr) : Graphic (text.takeWhile Json.isDigit) := by
  intro c hc
  have hdigit := List.mem_takeWhile_imp hc
  simp only [Json.isDigit, Bool.and_eq_true, decide_eq_true_eq] at hdigit
  omega

namespace Json

theorem graphic_scanUnsigned {text : PyStr} {read : PyStr × PyStr}
    (h : scanUnsigned text = some read) : Graphic read.1 := by
  cases text with
  | nil => cases h
  | cons c text =>
    rw [scanUnsigned] at h
    split_ifs at h with hzero hdigit
    · obtain rfl := Option.some.inj h
      exact fun d hd => by simp at hd; omega
    · obtain rfl := Option.some.inj h
      rw [← List.takeWhile_cons_of_pos hdigit]
      exact graphic_takeWhile_isDigit _

theorem graphic_scanInteger {text : PyStr} {read : PyStr × PyStr}
    (h : scanInteger text = some read) : Graphic read.1 := by
  cases text with
  | nil => cases h
  | cons c text =>
    rw [scanInteger] at h
    split_ifs at h with hsign
    · obtain ⟨unsigned, hunsigned, rfl⟩ := Option.map_eq_some_iff.mp h
      intro d hd
      obtain rfl | hd := List.mem_cons.mp hd
      · omega
      · exact graphic_scanUnsigned hunsigned d hd
    · exact graphic_scanUnsigned h

theorem graphic_scanFraction (text : PyStr) : Graphic (scanFraction text).1 := by
  cases text with
  | nil => exact List.forall_mem_nil _
  | cons c text =>
    rw [scanFraction]
    split_ifs with hpoint
    · intro d hd
      obtain rfl | hd := List.mem_cons.mp hd
      · omega
      · exact graphic_takeWhile_isDigit text d hd
    · exact List.forall_mem_nil _

theorem graphic_scanExponent (text : PyStr) : Graphic (scanExponent text).1 := by
  have hsigned : ∀ text, Graphic (scanSign text).1 := by
    intro text
    cases text with
    | nil => exact List.forall_mem_nil _
    | cons c text =>
      rw [scanSign]
      split_ifs with hsign
      · intro d hd
        obtain rfl := List.mem_singleton.mp hd
        omega
      · exact List.forall_mem_nil _
  cases text with
  | nil => exact List.forall_mem_nil _
  | cons c text =>
    rw [scanExponent]
    split_ifs with hletter
    · intro d hd
      obtain rfl | hd := List.mem_cons.mp hd
      · omega
      · exact (hsigned text).append (graphic_takeWhile_isDigit _) d hd
    · exact List.forall_mem_nil _

theorem graphic_of_isFloatText {text : PyStr} (h : isFloatText text = true) : Graphic text := by
  cases hmatch : matchNumber text with
  | none =>
    rw [isFloatText, hmatch] at h
    cases h
  | some number =>
    rw [isFloatText, hmatch, Option.any_some, Bool.and_eq_true, beq_iff_eq] at h
    obtain ⟨read, hread, rfl⟩ := Option.map_eq_some_iff.mp hmatch
    have htext := (matchNumber_eq hmatch).1
    rw [h.1, List.append_nil] at htext
    rw [← htext]
    exact (graphic_scanInteger hread).append
      ((graphic_scanFraction _).append (graphic_scanExponent _))

theorem graphic_escape (c : Nat) : Graphic (escape c) := by
  have hcontrols : ∀ c < 32, Graphic (escape c) := by decide
  by_cases hcontrol : c < 32
  · exact hcontrols c hcontrol
  rw [escape]
  split_ifs
  all_goals
    intro d hd
    simp only [List.mem_cons, List.not_mem_nil, or_false] at hd
    omega

theorem graphic_quote (s : PyStr) : Graphic (quote s) := by
  have hbody : Graphic (s.flatMap escape) := by
    intro d hd
    obtain ⟨c, _, hc⟩ := List.mem_flatMap.mp hd
    exact graphic_escape c d hc
  exact (Graphic.append (by decide) hbody).append (by decide)

theorem graphic_intText (n : Int) : Graphic (intText n) := by
  have hdigits : Graphic ((Nat.toDigits 10 n.natAbs).map Char.toNat) := by
    intro c hc
    obtain ⟨d, hd, rfl⟩ := List.mem_map.mp hc
    have hdigit := isDigit_toNat (Nat.isDigit_of_mem_toDigits (by omega) (by omega) hd)
    simp only [isDigit, Bool.and_eq_true, decide_eq_true_eq] at hdigit
    omega
  rw [intText]
  split
  · exact Graphic.append (by decide) hdigits
  · exact hdigits

theorem graphic_separated {pad : PyStr} (hpad : Graphic pad) {texts : List PyStr}
    (htexts : ∀ text ∈ texts, Graphic text) :
    Graphic (separated pad texts) := by
  cases texts with
  | nil => exact List.forall_mem_nil _
  | cons text rest =>
    apply (htexts text List.mem_cons_self).append
    intro c hc
    obtain ⟨next, hnext, hmem⟩ := List.mem_flatMap.mp hc
    obtain rfl | hmem := List.mem_cons.mp hmem
    · omega
    · exact hpad.append (htexts next (List.mem_cons_of_mem _ hnext)) c hmem

theorem graphic_words :
    ∀ word ∈ ["null", "true", "false", "NaN", "Infinity", "-Infinity"],
      Graphic (PyStr.ofString word) := by
  decide

mutual

theorem graphic_write {pad : PyStr} (hpad : Graphic pad) :
    ∀ {value : Json}, value.printable = true → Graphic (write pad value)
  | null, _ => graphic_words "null" (by decide)
  | bool true, _ => graphic_words "true" (by decide)
  | bool false, _ => graphic_words "false" (by decide)
  | int n, _ => graphic_intText n
  | Json.float repr _, hprinted => by
    have hscalar : (isFloatText repr || isConstant repr) = true := hprinted
    rw [Bool.or_eq_true] at hscalar
    obtain hnumber | hconstant := hscalar
    · exact graphic_of_isFloatText hnumber
    · obtain ⟨word, hword, rfl⟩ := List.mem_map.mp (List.contains_iff_mem.mp hconstant)
      exact graphic_words word (List.mem_of_mem_drop (i := 3) hword)
  | str s, _ => graphic_quote s
  | arr items, hprinted => by
    rw [write]
    have hitems := graphic_separated hpad (graphic_writeItems hpad hprinted)
    exact Graphic.append (x := [91]) (by decide) (hitems.append (by decide))
  | obj members, hprinted => by
    rw [write]
    have hmembers := graphic_separated hpad (graphic_writeMembers hpad hprinted)
    exact Graphic.append (x := [123]) (by decide) (hmembers.append (by decide))

theorem graphic_writeItems {pad : PyStr} (hpad : Graphic pad) :
    ∀ {items : List Json}, everyItem printableScalar (fun _ => true) items = true →
    ∀ text ∈ writeItems pad items, Graphic text
  | [], _ => List.forall_mem_nil _
  | item :: rest, hprinted => by
    obtain ⟨hitem, hrest⟩ := (Bool.and_eq_true _ _).mp hprinted
    exact List.forall_mem_cons.mpr ⟨graphic_write hpad hitem, graphic_writeItems hpad hrest⟩

theorem graphic_writeMembers {pad : PyStr} (hpad : Graphic pad) : ∀ {members : List (PyStr × Json)},
    everyMember printableScalar (fun _ => true) members = true →
      ∀ text ∈ writeMembers pad members, Graphic text
  | [], _ => List.forall_mem_nil _
  | (key, value) :: rest, hprinted => by
    obtain ⟨hvalue, hrest⟩ := (Bool.and_eq_true _ _).mp hprinted
    refine List.forall_mem_cons.mpr ⟨?_, graphic_writeMembers hpad hrest⟩
    have hafter : Graphic ([58] ++ (pad ++ write pad value)) :=
      Graphic.append (by decide) (hpad.append (graphic_write hpad hvalue))
    exact (graphic_quote key).append hafter

end

theorem graphic_dumpsSpaced {value : Json} (hprinted : value.printable = true) :
    Graphic value.dumpsSpaced := by
  rw [dumpsSpaced]
  exact graphic_write (by decide) hprinted

end Json

/-! ### Redaction -/

section Redaction

variable {unicodeWord : Nat → Bool} {sensitive : PyStr → Bool}

/-! ### Secrets -/

section

variable (sensitive) (secret : PyStr → Json → Json)

mutual

/-- The value with others stored under the sensitive keys. -/
def withSecrets : Json → Json
  | .arr items => .arr (withSecretsItems items)
  | .obj members => .obj (withSecretsMembers members)
  | value => value

def withSecretsItems : List Json → List Json
  | [] => []
  | item :: rest => withSecrets item :: withSecretsItems rest

def withSecretsMembers : List (PyStr × Json) → List (PyStr × Json)
  | [] => []
  | (key, value) :: rest =>
    (key, if sensitive key then secret key value else withSecrets value) :: withSecretsMembers rest

end

end

variable {secret : PyStr → Json → Json}

mutual

theorem redactWith_withSecrets : ∀ value : Json,
    redactWith unicodeWord sensitive (withSecrets sensitive secret value) =
      redactWith unicodeWord sensitive value
  | .null => rfl
  | .bool _ => rfl
  | .int _ => rfl
  | .float _ _ => rfl
  | .str _ => rfl
  | .arr items => by rw [withSecrets, redactWith, redactWith, redactItemsWith_withSecrets items]
  | .obj members =>
    by rw [withSecrets, redactWith, redactWith, redactMembersWith_withSecrets members]

theorem redactItemsWith_withSecrets : ∀ items : List Json,
    redactItemsWith unicodeWord sensitive (withSecretsItems sensitive secret items) =
      redactItemsWith unicodeWord sensitive items
  | [] => rfl
  | item :: rest => by
    rw [withSecretsItems, redactItemsWith, redactItemsWith, redactWith_withSecrets item,
      redactItemsWith_withSecrets rest]

theorem redactMembersWith_withSecrets : ∀ members : List (PyStr × Json),
    redactMembersWith unicodeWord sensitive (withSecretsMembers sensitive secret members) =
      redactMembersWith unicodeWord sensitive members
  | [] => rfl
  | (key, value) :: rest => by
    rw [withSecretsMembers, redactMembersWith, redactMembersWith,
      redactMembersWith_withSecrets rest]
    split
    · rfl
    · rw [redactWith_withSecrets value]

end

end Redaction

/-! ### Streams -/

section Streams

variable {formatter : LogFormatter} {records : List LogRecord} {format : LogRecord → PyStr}

theorem linesOf_logStream (hlines : ∀ record ∈ records, 10 ∉ format record) :
    linesOf (logStream format records) = records.map format := by
  have hsplit : (logStream format records).splitOn 10 = records.map format ++ [[]] := by
    induction records with
    | nil => rfl
    | cons record rest ih =>
      rw [logStream, List.flatMap_cons, List.append_assoc, List.singleton_append,
        List.splitOn_append_cons_self, List.splitOn_eq_singleton (hlines record List.mem_cons_self),
        List.map_cons, List.cons_append]
      exact congrArg _ (ih fun record hrecord => hlines record (List.mem_cons_of_mem _ hrecord))
  rw [linesOf, hsplit, List.dropLast_concat]

theorem length_linesOf (stream : PyStr) : (linesOf stream).length = stream.count 10 := by
  have hsplit : (stream.splitOn 10).length = stream.count 10 + 1 := by
    induction stream with
    | nil => rfl
    | cons c rest ih =>
      rw [List.splitOn_cons_eq_if_modifyHead, List.count_cons]
      split
      · rw [List.length_cons, ih]
      · rw [List.length_modifyHead, ih]
  rw [linesOf, List.length_dropLast, hsplit, Nat.add_sub_cancel]

theorem count_logStream (format : LogRecord → PyStr) (records : List LogRecord) :
    (logStream format records).count 10 = records.length +
      ((records.map fun record => (format record).count 10).sum) := by
  induction records with
  | nil => rfl
  | cons record rest ih =>
    rw [logStream] at ih
    rw [logStream, List.flatMap_cons, List.count_append, List.count_append, ih, List.length_cons,
      List.map_cons, List.sum_cons, List.count_singleton_self]
    omega

theorem length_linesOf_logStream (format : LogRecord → PyStr) (records : List LogRecord) :
    (linesOf (logStream format records)).length = records.length ↔
      ∀ record ∈ records, 10 ∉ format record := by
  rw [length_linesOf, count_logStream, Nat.add_eq_left, List.sum_eq_zero_iff_forall_eq_nat]
  simp only [List.mem_map, forall_exists_index, and_imp, forall_apply_eq_imp_iff₂,
    List.count_eq_zero]

end Streams

/-! ### The JSON log -/

section JsonLog

variable {formatter : LogFormatter} {records : List LogRecord} {float : PyStr → PyStr × Option Int}

/-- The fields of the record are as `json.loads` could give them. -/
def LogRecord.Parsed (float : PyStr → PyStr × Option Int) (record : LogRecord) : Prop :=
  ∀ fields, record.fields = some fields → (Json.obj fields).parsed float = true

/-- The record with other values stored under the sensitive keys of its fields. -/
def LogRecord.withSecrets (sensitive : PyStr → Bool) (secret : PyStr → Json → Json)
    (record : LogRecord) : LogRecord :=
  { record with fields := record.fields.map (withSecretsMembers sensitive secret) }

theorem LogFormatter.payload_parsed {record : LogRecord} (hfields : record.Parsed float) :
    (formatter.payload record).parsed float = true := by
  rw [payload]
  cases hrecord : record.fields with
  | none => rfl
  | some fields =>
    have hredacted :
        (redactWith formatter.unicodeWord formatter.sensitive (.obj fields)).parsed float = true :=
      every_redactWith (fun _ => rfl) (hfields fields hrecord)
    simp only [Json.parsed] at hredacted ⊢
    simp only [Option.map_some, Option.toList_some, List.cons_append, List.nil_append, Json.every,
      Json.everyMember, Json.parsedScalar, hredacted, Bool.and_true, List.map_cons, List.map_nil]
    decide

theorem LogFormatter.jsonLine_withSecrets (secret : PyStr → Json → Json) (record : LogRecord) :
    formatter.jsonLine (record.withSecrets formatter.sensitive secret) =
      formatter.jsonLine record := by
  rw [jsonLine, jsonLine, payload, payload]
  cases hrecord : record.fields with
  | none =>
    rw [LogRecord.withSecrets, hrecord]
    rfl
  | some fields =>
    rw [LogRecord.withSecrets, hrecord]
    simp only [Option.map_some]
    rw [redactWith, redactWith, redactMembersWith_withSecrets]
    rfl

/-- The lines of a log in JSON are read back as the payloads of the records, one line a record,
whatever their messages and fields are; and they do not depend on what is stored under the
configured fields. -/
theorem json_log_reads_back (hfields : ∀ record ∈ records, record.Parsed float)
    (secret : PyStr → Json → Json) :
    (linesOf (logStream formatter.jsonLine records)).map (Json.loads (.default float)) =
        records.map (fun record => some (formatter.payload record)) ∧
      logStream formatter.jsonLine
        (records.map (LogRecord.withSecrets formatter.sensitive secret)) =
        logStream formatter.jsonLine records := by
  have hparsed : ∀ record ∈ records, (formatter.payload record).parsed float = true :=
    fun record hrecord =>
    formatter.payload_parsed (hfields record hrecord)
  have hlines : ∀ record ∈ records, 10 ∉ formatter.jsonLine record := fun record hrecord =>
    (Json.graphic_dumpsSpaced (Json.printable_of_parsed (hparsed record hrecord))).not_mem
  constructor
  · rw [linesOf_logStream hlines, List.map_map]
    apply List.map_congr_left
    intro record hrecord
    rw [Function.comp_apply, LogFormatter.jsonLine, Json.dumpsSpaced]
    exact Json.loads_write_of_parsed (by decide) (hparsed record hrecord)
  · rw [logStream, List.flatMap_map, logStream]
    simp only [LogFormatter.jsonLine_withSecrets]

/-- A formatter with one configured field. -/
def tokenFormatter : LogFormatter :=
  { unicodeWord := fun _ => false, lower := id, redactFields := [PyStr.ofString "token"] }

/-- A record whose message has two lines. -/
def twoLineRecord : LogRecord :=
  { timestamp := PyStr.ofString "2026-01-01T00:00:00Z"
    levelName := PyStr.ofString "INFO"
    name := PyStr.ofString "app"
    message := [97, 10, 98]
    requestId := none
    fields := some [(PyStr.ofString "token", .str (PyStr.ofString "t")),
      (PyStr.ofString "n", .int 1)] }

theorem twoLineRecord_parsed (float : PyStr → PyStr × Option Int) :
    ∀ record ∈ [twoLineRecord], record.Parsed float := by
  intro record hrecord fields hfields
  obtain rfl := List.mem_singleton.mp hrecord
  obtain rfl := Option.some.inj hfields
  rfl

theorem two_line_record_read_back :
    (linesOf (logStream tokenFormatter.jsonLine [twoLineRecord])).map
      (Json.loads (.default fun text => (text, none))) =
        [some (tokenFormatter.payload twoLineRecord)] ∧
      logStream tokenFormatter.jsonLine
        [twoLineRecord.withSecrets tokenFormatter.sensitive fun _ _ => .null] =
        logStream tokenFormatter.jsonLine [twoLineRecord] :=
  json_log_reads_back (twoLineRecord_parsed fun text => (text, none)) fun _ _ => .null

end JsonLog

/-! ### The plain log -/

section PlainLog

variable {formatter : LogFormatter} {records : List LogRecord}

/-- A text of the record breaks its line. -/
def LogRecord.Breaks (formatter : LogFormatter) (record : LogRecord) : Prop :=
  10 ∈ record.levelName ∨ 10 ∈ record.name ∨ 10 ∈ record.shownRequestId ∨
    10 ∈ redactText formatter.unicodeWord record.message

theorem LogFormatter.mem_plainLine {record : LogRecord}
    (hfields : ∀ fields, record.fields = some fields → (Json.obj fields).printable = true) :
    10 ∈ formatter.plainLine record ↔ record.Breaks formatter := by
  have hlabel : ¬10 ∈ PyStr.ofString " request_id=" := by decide
  have hhead :
      10 ∈ record.levelName ++ [32] ++ record.name ++ PyStr.ofString " request_id=" ++
        record.shownRequestId ++ [32] ++ redactText formatter.unicodeWord record.message ↔
          record.Breaks formatter := by
    simp only [List.mem_append, List.mem_singleton, LogRecord.Breaks]
    tauto
  rw [plainLine]
  split
  · exact hhead
  · exact hhead
  · next first rest hrecord =>
    have hredacted :
        10 ∉ (redactWith formatter.unicodeWord formatter.sensitive
          (.obj (first :: rest))).dumpsSpaced :=
      (Json.graphic_dumpsSpaced (every_redactWith (fun _ => rfl) (hfields _ hrecord))).not_mem
    rw [List.mem_append, List.mem_append, hhead]
    simp [hredacted]

/-- A plain log has one line a record exactly when no text of a record breaks its line; the fields
never do. -/
theorem plain_log_lines_iff (hfields : ∀ record ∈ records, ∀ fields, record.fields = some fields →
    (Json.obj fields).printable = true) :
    (linesOf (logStream formatter.plainLine records)).length = records.length ↔
      ∀ record ∈ records, ¬record.Breaks formatter := by
  rw [length_linesOf_logStream]
  constructor
  · exact fun h record hrecord hbreaks =>
      h record hrecord ((formatter.mem_plainLine (hfields record hrecord)).mpr hbreaks)
  · exact fun h record hrecord hmem =>
      h record hrecord ((formatter.mem_plainLine (hfields record hrecord)).mp hmem)

/-- The plain line of a record whose message has two lines is not one line. -/
theorem two_line_record_breaks :
    (linesOf (logStream tokenFormatter.plainLine [twoLineRecord])).length ≠
      [twoLineRecord].length := by
  have hprinted : ∀ record ∈ [twoLineRecord], ∀ fields, record.fields = some fields →
      (Json.obj fields).printable = true := by
    intro record hrecord fields hfields
    exact Json.printable_of_parsed
      (twoLineRecord_parsed (fun text => (text, none)) record hrecord fields hfields)
  intro hlength
  apply (plain_log_lines_iff hprinted).mp hlength twoLineRecord List.mem_cons_self
  exact .inr (.inr (.inr (by decide)))

end PlainLog

end Fcam
