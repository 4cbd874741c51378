import Fcam.Model.KeyImport

/-!
# The columns of a line of a key import

A line has a column for the user, for the password, for the key and for the date. The empty ones are
left out before their number tells which is which, so that they are read at their places exactly
where nothing but empty columns and the key follows an empty one.
-/

namespace Fcam

/-- The delimiters, those looked for first before the others. -/
inductive Delimiter where
  | bar
  | tab
  | comma
deriving DecidableEq, Repr

def Delimiter.char : Delimiter → Nat
  | bar => 124
  | tab => 9
  | comma => 44

/-- The delimiter and those looked for before it. -/
def Delimiter.excluded : Delimiter → List Nat
  | bar => [124]
  | tab => [124, 9]
  | comma => [124, 9, 44]

/-- The columns of a line. -/
structure Columns where
  user : PyStr
  password : PyStr
  key : PyStr
  date : PyStr

namespace Columns

/-- The line with these columns. -/
def line (c : Columns) (δ : Delimiter) : PyStr :=
  c.user ++ δ.char :: (c.password ++ δ.char :: (c.key ++ δ.char :: c.date))

def all (c : Columns) : List PyStr := [c.user, c.password, c.key, c.date]

/-- A field without delimiters, line breaks and blanks around it. -/
structure Plain (δ : Delimiter) (field : PyStr) : Prop where
  whole : ∀ x ∈ field, x ∉ δ.excluded
  oneLine : ∀ x ∈ field, isLineBreak x = false
  trimmed : strip field = field

variable (fromIsoformat : PyStr → Except PyStr Instant)

/-- The columns can be written in a line: each is plain, the key is long enough, neither the user
nor the password looks like a comment, and the date is one or empty. -/
structure WellFormed (c : Columns) (δ : Delimiter) : Prop where
  plain : ∀ field ∈ c.all, Plain δ field
  long : 8 ≤ c.key.length
  userNoComment : c.user.head? ≠ some 35
  passwordNoComment : c.password.head? ≠ some 35
  dated : c.date ≠ [] → ∃ at', parseDatetimeUtc fromIsoformat c.date = .ok at'

/-- The item the columns stand for. -/
def item (c : Columns) (δ : Delimiter) : ParsedLine :=
  { lineNo := 1
    raw := c.line δ
    apiKey := c.key
    accountUsername := if c.user = [] then none else some c.user
    accountPassword := if c.password = [] then none else some c.password
    accountVerifiedAt := if c.date = [] then none
      else (parseDatetimeUtc fromIsoformat c.date).toOption }

/-- An empty column is followed by empty ones and the key only; and where the key stands alone
between tabs, which are blanks, it has no other delimiter and does not look like a comment. -/
structure Positional (c : Columns) (δ : Delimiter) : Prop where
  password : c.user = [] → c.password = []
  date : c.password = [] → c.date = []
  alone : δ = .tab → c.user = [] → 44 ∉ c.key ∧ (∀ x ∈ c.key, isSpace x = false) ∧
    c.key.head? ≠ some 35

end Columns

/-! ### The line -/

theorem strip_eq_trim (s : PyStr) : strip s = trim isSpace s := rfl

section

variable {c : Columns} {δ : Delimiter} {fromIsoformat : PyStr → Except PyStr Instant}

theorem linesFrom_of_oneLine {begun line : PyStr} (hline : ∀ x ∈ line, isLineBreak x = false)
    (hne : begun ++ line ≠ []) :
    linesFrom begun line = [begun ++ line] := by
  induction line generalizing begun with
  | nil =>
    rw [List.append_nil] at hne ⊢
    exact if_neg hne
  | cons x rest ih =>
    have hx : isLineBreak x = false := hline x List.mem_cons_self
    have hcr : x ≠ 13 := by
      rintro rfl
      cases hx
    have hrest : ∀ y ∈ rest, isLineBreak y = false :=
      fun y hy => hline y (List.mem_cons_of_mem _ hy)
    rw [linesFrom, hx, if_neg Bool.false_ne_true, ih hrest (by simp), List.append_assoc,
      List.singleton_append]
    intro tail heq
    exact absurd heq hcr

/-- The columns that are not empty. -/
def Columns.given (c : Columns) : List PyStr := c.all.filter (· ≠ [])

variable (h : c.WellFormed fromIsoformat δ)

include h

theorem user_plain : Columns.Plain δ c.user := h.plain c.user (by simp [Columns.all])

theorem password_plain : Columns.Plain δ c.password := h.plain c.password (by simp [Columns.all])

theorem key_plain : Columns.Plain δ c.key := h.plain c.key (by simp [Columns.all])

theorem date_plain : Columns.Plain δ c.date := h.plain c.date (by simp [Columns.all])

theorem key_ne_nil : c.key ≠ [] := by
  intro hnil
  have hlong := h.long
  rw [hnil, List.length_nil] at hlong
  omega

omit h in
theorem Columns.Plain.fields {field : PyStr} (hplain : Columns.Plain δ field) :
    fields isSpace δ.char field = [field].filter (· ≠ []) := by
  have hwhole : δ.char ∉ field := by
    intro hmem
    have hnot := hplain.whole _ hmem
    cases δ <;> exact absurd hnot (by decide)
  rw [fields_of_not_mem hwhole, ← strip_eq_trim, hplain.trimmed]

theorem fields_line : fields isSpace δ.char (c.line δ) = c.given := by
  rw [Columns.line, fields_append, fields_append, fields_append, (user_plain h).fields,
    (password_plain h).fields, (key_plain h).fields, (date_plain h).fields, ← List.filter_append,
    ← List.filter_append, ← List.filter_append]
  rfl

theorem oneLine_line : ∀ x ∈ c.line δ, isLineBreak x = false := by
  have hdelimiter : isLineBreak δ.char = false := by cases δ <;> rfl
  intro x hx
  simp only [Columns.line, List.mem_append, List.mem_cons] at hx
  rcases hx with hx | rfl | hx | rfl | hx | rfl | hx
  · exact (user_plain h).oneLine x hx
  · exact hdelimiter
  · exact (password_plain h).oneLine x hx
  · exact hdelimiter
  · exact (key_plain h).oneLine x hx
  · exact hdelimiter
  · exact (date_plain h).oneLine x hx

theorem parsedLines_line :
    parsedLines fromIsoformat (c.line δ) = (parseLine fromIsoformat 1 (c.line δ)).toList := by
  have hne : c.line δ ≠ [] := by
    rw [Columns.line]
    simp
  rw [parsedLines, splitlines, linesFrom_of_oneLine (oneLine_line h) hne, List.nil_append]
  cases hline : parseLine fromIsoformat 1 (c.line δ) with
  | none => simp [hline]
  | some result => simp [hline]

theorem parseKeysText_iff {item : ParsedLine} :
    parseKeysText fromIsoformat (c.line δ) = ([item], []) ↔
      parseLine fromIsoformat 1 (c.line δ) = some (.ok item) := by
  rw [parseKeysText, parsedLines_line h]
  cases parseLine fromIsoformat 1 (c.line δ) with
  | none => simp
  | some result =>
    cases result with
    | error failure => simp [Except.toOption]
    | ok other => simp [Except.toOption]

/-! ### The fields -/

theorem excluded_not_mem {x : Nat} (hx : x ∈ δ.excluded) (hne : x ≠ δ.char) : x ∉ c.line δ := by
  intro hmem
  simp only [Columns.line, List.mem_append, List.mem_cons] at hmem
  rcases hmem with hmem | heq | hmem | heq | hmem | heq | hmem
  · exact (user_plain h).whole x hmem hx
  · exact hne heq
  · exact (password_plain h).whole x hmem hx
  · exact hne heq
  · exact (key_plain h).whole x hmem hx
  · exact hne heq
  · exact (date_plain h).whole x hmem hx

theorem excluded_not_mem_strip {x : Nat} (hx : x ∈ δ.excluded) (hne : x ≠ δ.char) :
    x ∉ strip (c.line δ) := fun hmem =>
  excluded_not_mem h hx hne ((trim_sublist isSpace _).subset hmem)

theorem delimiter_mem (hmany : δ = .tab → 2 ≤ c.given.length) : δ.char ∈ strip (c.line δ) := by
  have hline : δ.char ∈ c.line δ := by
    rw [Columns.line]
    simp
  cases δ with
  | bar => exact (mem_trim rfl).mpr hline
  | comma => exact (mem_trim rfl).mpr hline
  | tab =>
    by_contra hnot
    have hfew : (fields isSpace Delimiter.tab.char (trim isSpace (c.line .tab))).length ≤ 1 := by
      rw [strip_eq_trim] at hnot
      rw [fields_of_not_mem hnot]
      exact List.length_filter_le _ _
    rw [fields_trim, fields_line h] at hfew
    have := hmany rfl
    omega

theorem splitFields_line (hmany : δ = .tab → 2 ≤ c.given.length) :
    (splitFields (strip (c.line δ))).filter (· ≠ []) = c.given := by
  have hmem := delimiter_mem h hmany
  rw [← fields_line h, ← fields_trim]
  cases δ with
  | bar =>
    have hbar : 124 ∈ strip (c.line .bar) := hmem
    rw [splitFields, if_pos hbar]
    rfl
  | tab =>
    have htab : 9 ∈ strip (c.line .tab) := hmem
    rw [splitFields, if_neg (excluded_not_mem_strip h (by decide) (by decide)), if_pos htab]
    rfl
  | comma =>
    have hcomma : 44 ∈ strip (c.line .comma) := hmem
    rw [splitFields, if_neg (excluded_not_mem_strip h (by decide) (by decide)),
      if_neg (excluded_not_mem_strip h (by decide) (by decide)), if_pos hcomma]
    rfl

theorem strip_line_ne_nil : strip (c.line δ) ≠ [] := by
  have hfields := fields_line h
  intro hnil
  rw [← fields_trim, ← strip_eq_trim, hnil, fields_of_not_mem List.not_mem_nil] at hfields
  have hkey : c.key ∈ c.given :=
    List.mem_filter.mpr ⟨by simp [Columns.all], decide_eq_true (key_ne_nil h)⟩
  rw [← hfields] at hkey
  simp at hkey

theorem parseLine_line (hmany : δ = .tab → 2 ≤ c.given.length) :
    parseLine fromIsoformat 1 (c.line δ) =
      if (strip (c.line δ)).head? = some 35 then none
        else some (readLine fromIsoformat 1 (c.line δ) c.given) := by
  rw [parseLine]
  simp only [strip_line_ne_nil h, false_or, splitFields_line h hmany]

theorem head_line (hfirst : c.user ≠ [] ∨ δ ≠ .tab) : (strip (c.line δ)).head? ≠ some 35 := by
  cases huser : c.user with
  | nil =>
    have htab : δ ≠ .tab := hfirst.resolve_left fun hne => hne huser
    have hhead : (c.line δ).head? = some δ.char := by rw [Columns.line, huser]; rfl
    have hblank : ∀ y ∈ (c.line δ).head?, isSpace y = false := by
      intro y hy
      rw [hhead] at hy
      obtain rfl := Option.some.inj hy
      cases δ with
      | bar => rfl
      | comma => rfl
      | tab => exact absurd rfl htab
    rw [strip_eq_trim, head?_trim hblank, hhead]
    cases δ <;> decide
  | cons first rest =>
    have hhead : (c.line δ).head? = c.user.head? := by rw [Columns.line, huser]; rfl
    have hblank : ∀ y ∈ (c.line δ).head?, isSpace y = false := by
      rw [hhead]
      exact head_of_trimmed (user_plain h).trimmed
    rw [strip_eq_trim, head?_trim hblank, hhead]
    exact h.userNoComment

/-! ### Reading the columns -/

omit h in
/-- A line gives an item for what its columns are read as, if the key is long enough. -/
theorem readLine_eq_ok {lineNo : Nat} {raw : PyStr} {parts : List PyStr} {item : ParsedLine} :
    readLine fromIsoformat lineNo raw parts = .ok item ↔
      ∃ read, readColumns fromIsoformat parts = .ok read ∧ 8 ≤ (strip read.1).length ∧
        item =
          { lineNo
            raw
            apiKey := strip read.1
            accountUsername := strippedOrNone read.2.1
            accountPassword := strippedOrNone read.2.2.1
            accountVerifiedAt := read.2.2.2 } := by
  rw [readLine]
  cases readColumns fromIsoformat parts with
  | error message => simp
  | ok read =>
    by_cases hshort : (strip read.1).length < 8
    · simp [hshort, Nat.not_le.mpr hshort]
    · simp [hshort, Nat.not_lt.mp hshort, eq_comm]

omit h in
theorem strippedOrNone_plain {field : PyStr} (hplain : Columns.Plain δ field) (hne : field ≠ []) :
    strippedOrNone (some field) = some field := by
  rw [strippedOrNone, Option.map_some, hplain.trimmed, Option.filter_some,
    if_pos (decide_eq_true hne)]

theorem readLine_given (hpassword : c.user = [] → c.password = [])
    (hdate : c.password = [] → c.date = []) :
    readLine fromIsoformat 1 (c.line δ) c.given = .ok (c.item fromIsoformat δ) := by
  have hkey := key_ne_nil h
  have hlong : 8 ≤ (strip c.key).length := (key_plain h).trimmed.symm ▸ h.long
  rw [readLine_eq_ok]
  by_cases huser : c.user = []
  · have hgiven : c.given = [c.key] := by
      simp [Columns.given, Columns.all, huser, hpassword huser, hdate (hpassword huser), hkey]
    refine ⟨(c.key, none, none, none), by rw [hgiven]; rfl, hlong, ?_⟩
    rw [Columns.item, if_pos huser, if_pos (hpassword huser), if_pos (hdate (hpassword huser)),
      (key_plain h).trimmed]
    rfl
  have husername := strippedOrNone_plain (user_plain h) huser
  by_cases hpass : c.password = []
  · have hgiven : c.given = [c.user, c.key] := by
      simp [Columns.given, Columns.all, huser, hpass, hdate hpass, hkey]
    refine ⟨(c.key, some c.user, none, none), by rw [hgiven]; rfl, hlong, ?_⟩
    rw [Columns.item, if_neg huser, if_pos hpass, if_pos (hdate hpass), (key_plain h).trimmed,
      husername]
    rfl
  have hpassed := strippedOrNone_plain (password_plain h) hpass
  by_cases hdated : c.date = []
  · have hgiven : c.given = [c.user, c.password, c.key] := by
      simp [Columns.given, Columns.all, huser, hpass, hdated, hkey]
    refine ⟨(c.key, some c.user, some c.password, none), by rw [hgiven]; rfl, hlong, ?_⟩
    rw [Columns.item, if_neg huser, if_neg hpass, if_pos hdated, (key_plain h).trimmed, husername,
      hpassed]
  · obtain ⟨at', hat⟩ := h.dated hdated
    have hgiven : c.given = [c.user, c.password, c.key, c.date] := by
      simp [Columns.given, Columns.all, huser, hpass, hdated, hkey]
    refine ⟨(c.key, some c.user, some c.password, some at'), ?_, hlong, ?_⟩
    · rw [hgiven, readColumns, if_neg hdated, hat]
      rfl
    · rw [Columns.item, if_neg huser, if_neg hpass, if_neg hdated, (key_plain h).trimmed, husername,
        hpassed, hat]
      rfl

theorem positional_of_readLine (hread :
    readLine fromIsoformat 1 (c.line δ) c.given = .ok (c.item fromIsoformat δ)) :
    (c.user = [] → c.password = []) ∧ (c.password = [] → c.date = []) := by
  have hkey := key_ne_nil h
  obtain ⟨read, hcolumns, -, hitem⟩ := readLine_eq_ok.mp hread
  have husername : strippedOrNone read.2.1 = if c.user = [] then none else some c.user :=
    (congrArg ParsedLine.accountUsername hitem).symm
  have hpassed : strippedOrNone read.2.2.1 = if c.password = [] then none else some c.password :=
    (congrArg ParsedLine.accountPassword hitem).symm
  have huser : c.user = [] → c.password = [] := by
    intro huser
    by_contra hpass
    -- The password is read as the user.
    have hfirst : read.2.1 = some c.password := by
      by_cases hdated : c.date = []
      · rw [show c.given = [c.password,
          c.key] by simp [Columns.given, Columns.all, huser, hpass, hdated, hkey]] at hcolumns
        rw [← Except.ok.inj hcolumns]
      · rw [show c.given = [c.password, c.key, c.date] by
          simp [Columns.given, Columns.all, huser, hpass, hdated, hkey]] at hcolumns
        rw [← Except.ok.inj hcolumns]
    rw [hfirst, strippedOrNone_plain (password_plain h) hpass, if_pos huser] at husername
    cases husername
  refine ⟨huser, fun hpass => ?_⟩
  by_contra hdated
  by_cases hnone : c.user = []
  · -- The key is read as the user.
    rw [show c.given = [c.key,
      c.date] by simp [Columns.given, Columns.all, hnone, hpass, hdated, hkey]] at hcolumns
    rw [← Except.ok.inj hcolumns, strippedOrNone_plain (key_plain h) hkey,
      if_pos hnone] at husername
    cases husername
  · -- The key is read as the password.
    rw [show c.given = [c.user, c.key,
      c.date] by simp [Columns.given, Columns.all, hnone, hpass, hdated, hkey]] at hcolumns
    rw [← Except.ok.inj hcolumns, strippedOrNone_plain (key_plain h) hkey, if_pos hpass] at hpassed
    cases hpassed

/-! ### The key alone -/

omit h in
theorem mem_of_readColumns {parts : List PyStr}
    {read : PyStr × Option PyStr × Option PyStr × Option Instant}
    (hread : readColumns fromIsoformat parts = .ok read) : read.1 ∈ parts := by
  unfold readColumns at hread
  split at hread
  · rw [← Except.ok.inj hread]
    simp
  · rw [← Except.ok.inj hread]
    simp
  · rw [← Except.ok.inj hread]
    simp
  · next username password apiKey verifiedRaw =>
    split at hread
    · rw [← Except.ok.inj hread]
      simp
    · cases hparse : parseDatetimeUtc fromIsoformat verifiedRaw with
      | error message =>
        rw [hparse] at hread
        cases hread
      | ok at' =>
        rw [hparse] at hread
        rw [← Except.ok.inj hread]
        simp
  · cases hread

theorem strip_line_alone (htab : δ = .tab) (huser : c.user = []) (hpassword : c.password = [])
    (hdate : c.date = []) :
    strip (c.line δ) = c.key := by
  have hline : c.line δ = [9, 9] ++ c.key ++ [9] := by
    rw [Columns.line, huser, hpassword, hdate, htab]
    rfl
  rw [hline]
  exact trim_padded (by decide) (by decide) (key_plain h).trimmed

/-- The key alone is read as such if it is no line of other fields. -/
theorem readLine_alone (htab : δ = .tab) (huser : c.user = []) (hpassword : c.password = [])
    (hdate : c.date = []) :
    readLine fromIsoformat 1 (c.line δ)
      ((splitFields c.key).filter (· ≠ [])) = .ok (c.item fromIsoformat δ) ↔
      44 ∉ c.key ∧ ∀ x ∈ c.key, isSpace x = false := by
  have hbar : 124 ∉ c.key := fun hmem => (key_plain h).whole 124 hmem (by rw [htab]; decide)
  have hnotab : 9 ∉ c.key := fun hmem => (key_plain h).whole 9 hmem (by rw [htab]; decide)
  constructor
  · intro hread
    obtain ⟨read, hcolumns, -, hitem⟩ := readLine_eq_ok.mp hread
    have hkey : c.key = strip read.1 := congrArg ParsedLine.apiKey hitem
    have hpart := (List.mem_filter.mp (mem_of_readColumns hcolumns)).1
    rw [splitFields, if_neg hbar, if_neg hnotab] at hpart
    split at hpart
    · next hcomma =>
      -- No field between commas has a comma.
      obtain ⟨part, hpart, hstrip⟩ := List.mem_map.mp hpart
      rw [hkey, ← hstrip] at hcomma
      have hmem := (trim_sublist isSpace part).subset ((trim_sublist isSpace _).subset hcomma)
      rw [List.splitOn_eq_splitOnP] at hpart
      exact absurd (not_mem_of_mem_splitOnP hpart 44 hmem) (by decide)
    · next hcomma =>
      refine ⟨hcomma, fun x hx => ?_⟩
      obtain ⟨part, hpart, hstrip⟩ := List.mem_map.mp hpart
      rw [hkey, ← hstrip] at hx
      have hmem := (trim_sublist isSpace part).subset ((trim_sublist isSpace _).subset hx)
      exact not_mem_of_mem_splitOnP (List.mem_filter.mp hpart).1 x hmem
  · rintro ⟨hcomma, hblank⟩
    have hgiven : (splitFields c.key).filter (· ≠ []) = c.given := by
      rw [splitFields, if_neg hbar, if_neg hnotab, if_neg hcomma, List.splitOnP_eq_singleton hblank]
      simp [Columns.given, Columns.all, huser, hpassword, hdate, key_ne_nil h,
        (key_plain h).trimmed]
    rw [hgiven]
    exact readLine_given h (fun _ => hpassword) fun _ => hdate

theorem alone_of_length (hfew : c.given.length < 2) :
    c.user = [] ∧ c.password = [] ∧ c.date = [] := by
  have hkey := key_ne_nil h
  by_cases huser : c.user = [] <;> by_cases hpassword : c.password = [] <;> by_cases hdate :
    c.date = [] <;>
    simp [Columns.given, Columns.all, huser, hpassword, hdate, hkey] at hfew ⊢

/-- A line is read as its columns if and only if they are positional. -/
theorem columns_read_iff :
    parseKeysText fromIsoformat (c.line δ) = ([c.item fromIsoformat δ], []) ↔ c.Positional δ := by
  rw [parseKeysText_iff h]
  by_cases halone : δ = .tab ∧ c.given.length < 2
  · obtain ⟨htab, hfew⟩ := halone
    obtain ⟨huser, hpassword, hdate⟩ := alone_of_length h hfew
    have hstrip := strip_line_alone h htab huser hpassword hdate
    rw [parseLine]
    simp only [hstrip, key_ne_nil h, false_or]
    constructor
    · intro hread
      split at hread
      · cases hread
      · next hcomment =>
        obtain ⟨hcomma, hblank⟩ :=
          (readLine_alone h htab huser hpassword hdate).mp (Option.some.inj hread)
        exact ⟨fun _ => hpassword, fun _ => hdate, fun _ _ => ⟨hcomma, hblank, hcomment⟩⟩
    · intro hpositional
      obtain ⟨hcomma, hblank, hcomment⟩ := hpositional.alone htab huser
      rw [if_neg hcomment]
      exact congrArg some ((readLine_alone h htab huser hpassword hdate).mpr ⟨hcomma, hblank⟩)
  · have hmany : δ = .tab → 2 ≤ c.given.length :=
      fun htab => Nat.le_of_not_lt fun hfew => halone ⟨htab, hfew⟩
    have hnotAlone : c.user = [] → c.password = [] → c.date = [] → δ ≠ .tab := by
      intro huser hpassword hdate htab
      have hlength := hmany htab
      simp [Columns.given, Columns.all, huser, hpassword, hdate, key_ne_nil h] at hlength
    rw [parseLine_line h hmany]
    constructor
    · intro hread
      split at hread
      · cases hread
      · obtain ⟨hpassword, hdate⟩ := positional_of_readLine h (Option.some.inj hread)
        exact ⟨hpassword, hdate, fun htab huser =>
          absurd htab (hnotAlone huser (hpassword huser) (hdate (hpassword huser)))⟩
    · intro hpositional
      have hfirst : c.user ≠ [] ∨ δ ≠ .tab := by
        by_cases huser : c.user = []
        · have hpassword := hpositional.password huser
          exact .inr (hnotAlone huser hpassword (hpositional.date hpassword))
        · exact .inl huser
      rw [if_neg (head_line h hfirst), readLine_given h hpositional.password hpositional.date]

end

/-! ### Lines -/

/-- Reads midnight of a day, in UTC. -/
def isoMidnight (s : PyStr) : Except PyStr Instant :=
  if s = PyStr.ofString "2024-01-01T00:00:00+00:00" then .ok 1704067200000000
  else .error (PyStr.ofString "Invalid isoformat string")

/-- A user with a password, a key and a date. -/
def fullColumns : Columns :=
  { user := PyStr.ofString "alice"
    password := PyStr.ofString "secret"
    key := PyStr.ofString "fc-12345678"
    date := PyStr.ofString "2024-01-01" }

theorem plain_of_decide {field : PyStr} (hfield : (∀ x ∈ field, x ∉ Delimiter.bar.excluded) ∧
    (∀ x ∈ field, isLineBreak x = false) ∧ strip field = field) : Columns.Plain .bar field :=
  ⟨hfield.1, hfield.2.1, hfield.2.2⟩

theorem fullColumns_wellFormed : fullColumns.WellFormed isoMidnight .bar where
  plain := by
    intro field hfield
    simp only [Columns.all, List.mem_cons, List.not_mem_nil, or_false] at hfield
    rcases hfield with rfl | rfl | rfl | rfl <;> exact plain_of_decide (by decide)
  long := by decide
  userNoComment := by decide
  passwordNoComment := by decide
  dated _ := ⟨1704067200000000, by decide⟩

/-- The line is read as its columns. -/
theorem fullColumns_read :
    parseKeysText isoMidnight (fullColumns.line .bar) =
      ([fullColumns.item isoMidnight .bar], []) := by
  apply (columns_read_iff fullColumns_wellFormed).mpr
  exact ⟨by decide, by decide, fun htab => by cases htab⟩

/-- Without the password the date is read as the key, and the key as the password. -/
theorem date_read_as_key :
    parseKeysText isoMidnight (PyStr.ofString "alice||fc-12345678|2024-01-01") =
      ([{ lineNo := 1
          raw := PyStr.ofString "alice||fc-12345678|2024-01-01"
          apiKey := PyStr.ofString "2024-01-01"
          accountUsername := some (PyStr.ofString "alice")
          accountPassword := some (PyStr.ofString "fc-12345678") }], []) := by
  decide

end Fcam
