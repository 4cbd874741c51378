import Fcam.Base.PrefixCode
import Fcam.Model.RequestLog

/-!
# What persisted error details show of a body

The parsed body is redacted key by key, the preview of the raw body only where a text looks like a
secret. So two bodies that differ in secrets leave the same details exactly where the redacted
previews are the same as far as they are kept.
-/

namespace Fcam

open Json (escape quote intText dumpsSpaced separated write writeMembers)

/-! ### Bodies that differ in secrets -/

mutual

/-- The values are the same but for texts under sensitive keys. -/
inductive SameButSecrets : Json → Json → Prop where
  | same (value : Json) : SameButSecrets value value
  | arr {items items' : List Json} : SameItems items items' →
      SameButSecrets (.arr items) (.arr items')
  | obj {members members' : List (PyStr × Json)} :
      SameMembers members members' → SameButSecrets (.obj members) (.obj members')

inductive SameItems : List Json → List Json → Prop where
  | nil : SameItems [] []
  | cons {item item' : Json} {rest rest' : List Json} :
      SameButSecrets item item' → SameItems rest rest' → SameItems (item :: rest) (item' :: rest')

inductive SameMembers : List (PyStr × Json) → List (PyStr × Json) → Prop where
  | nil : SameMembers [] []
  | secret {key text text' : PyStr} {rest rest' : List (PyStr × Json)} :
      isSensitive key = true → SameMembers rest rest' →
        SameMembers ((key, .str text) :: rest) ((key, .str text') :: rest')
  | cons {key : PyStr} {value value' : Json} {rest rest' : List (PyStr × Json)} :
      SameButSecrets value value' → SameMembers rest rest' →
        SameMembers ((key, value) :: rest) ((key, value') :: rest')

end

section

variable {loads : Bytes → Option Json} {unicodeWord : Nat → Bool}

mutual

theorem SameButSecrets.redactData_eq {value value' : Json} :
    SameButSecrets value value' → redactData unicodeWord value = redactData unicodeWord value'
  | .same _ => rfl
  | .arr hitems => congrArg Json.arr hitems.redactItems_eq
  | .obj hmembers => congrArg Json.obj hmembers.redactMembers_eq

theorem SameItems.redactItems_eq {items items' : List Json} : SameItems items items' →
    redactItemsWith unicodeWord isSensitive items = redactItemsWith unicodeWord isSensitive items'
  | .nil => rfl
  | .cons hitem hrest => congrArg₂ List.cons hitem.redactData_eq hrest.redactItems_eq

theorem SameMembers.redactMembers_eq {members members' : List (PyStr × Json)} :
    SameMembers members members' →
    redactMembersWith unicodeWord isSensitive members = redactMembersWith unicodeWord isSensitive
      members'
  | .nil => rfl
  | .secret hkey hrest => by
    rw [redactMembersWith, redactMembersWith, if_pos hkey, if_pos hkey, hrest.redactMembers_eq]
  | .cons hvalue hrest => by
    have heq := hvalue.redactData_eq
    rw [redactData, redactData] at heq
    rw [redactMembersWith, redactMembersWith, heq, hrest.redactMembers_eq]

end

/-! ### Escapes -/

/-- The characters with an escape of their own. -/
def escaped : List Nat := 34 :: 92 :: List.range 32

theorem mem_escaped {c : Nat} : c ∈ escaped ↔ c = 34 ∨ c = 92 ∨ c < 32 := by
  simp [escaped]

theorem escape_of_not_mem {c : Nat} (hc : c ∉ escaped) : escape c = [c] := by
  rw [mem_escaped, not_or, not_or] at hc
  obtain ⟨hquote, hslash, hcontrol⟩ := hc
  rw [escape, if_neg hquote, if_neg hslash]
  repeat rw [if_neg (by omega)]

theorem escape_of_mem : ∀ c ∈ escaped, (escape c).head? = some 92 := by
  decide

theorem escape_prefix_eq : ∀ c ∈ escaped, ∀ d ∈ escaped, escape c <+: escape d → c = d := by
  decide

theorem head?_escape (c : Nat) : (escape c).head? = some 92 ∧ c ∈ escaped ∨ escape c = [c] ∧
    c ∉ escaped := by
  by_cases hc : c ∈ escaped
  · exact .inl ⟨escape_of_mem c hc, hc⟩
  · exact .inr ⟨escape_of_not_mem hc, hc⟩

theorem escape_prefixCode : PrefixCode escape where
  nonempty := by
    intro c hnil
    rcases head?_escape c with ⟨hhead, -⟩ | ⟨hself, -⟩
    · rw [hnil] at hhead
      cases hhead
    · rw [hnil] at hself
      cases hself
  eq_of_append := by
    intro c d x y heq
    have hslash : 92 ∈ escaped := by decide
    have hhead :
        ∀ {c : Nat} {x : PyStr}, (escape c).head? = some 92 → (escape c ++ x).head? = some 92 := by
      intro c x hhead
      rw [List.head?_append, hhead, Option.some_or]
    rcases head?_escape c with ⟨hc, hcmem⟩ | ⟨hc, hcmem⟩ <;> rcases head?_escape d with
      ⟨hd, hdmem⟩ | ⟨hd, hdmem⟩
    · have hprefix : escape c <+: escape d ++ y := heq ▸ List.prefix_append _ x
      rcases List.prefix_or_prefix_of_prefix hprefix (List.prefix_append _ y) with hle | hle
      · exact escape_prefix_eq c hcmem d hdmem hle
      · exact (escape_prefix_eq d hdmem c hcmem hle).symm
    · have hsome := hhead (x := x) hc
      rw [heq, hd, List.singleton_append, List.head?_cons, Option.some.injEq] at hsome
      exact absurd (hsome ▸ hslash) hdmem
    · have hsome := hhead (x := y) hd
      rw [← heq, hc, List.singleton_append, List.head?_cons, Option.some.injEq] at hsome
      exact absurd (hsome ▸ hslash) hcmem
    · rw [hc, hd] at heq
      exact (List.cons.inj heq).1

theorem escape_head?_ne (c : Nat) : (escape c).head? ≠ some 34 := by
  rcases head?_escape c with ⟨hhead, -⟩ | ⟨hself, hmem⟩
  · rw [hhead]
    decide
  · rw [hself, List.head?_cons]
    rintro hquote
    rw [Option.some.inj hquote] at hmem
    exact hmem (by decide)

/-! ### The text of an error -/

/-- The text of an error, redacted but not yet cut. -/
def errorText (loads : Bytes → Option Json) (unicodeWord : Nat → Bool) (r : Response) : PyStr :=
  (redactData unicodeWord (responseError loads r)).dumpsSpaced

/-- The preview of a body, redacted. -/
def bodyPreview (unicodeWord : Nat → Bool) (body : Bytes) : PyStr :=
  redactText unicodeWord (utf8Replace none (body.take maxErrorBodyPreviewBytes))

/-- What the text says of the body as it came: its length and its preview. -/
def bodyShown (unicodeWord : Nat → Bool) (body : Bytes) : PyStr :=
  intText body.length ++ [44, 32] ++ quote (PyStr.ofString "body_preview") ++ [58, 32, 34] ++
    (bodyPreview unicodeWord body).flatMap escape

/-- One member of an object, its value rendered. -/
def renderedMember (m : PyStr × PyStr) : PyStr := quote m.1 ++ [58, 32] ++ m.2

/-- The text up to what the members after the message are named. -/
def errorStem : PyStr :=
  [123] ++ renderedMember (PyStr.ofString "code", quote (PyStr.ofString "UPSTREAM_HTTP_ERROR")) ++
    [44, 32] ++ renderedMember
      (PyStr.ofString "message", quote (PyStr.ofString "Upstream returned error response")) ++
    [44, 32, 34]

/-- The text from there to the length of the body. -/
def detailsHead (unicodeWord : Nat → Bool) (r : Response) : PyStr :=
  (PyStr.ofString "details").flatMap escape ++ [34, 58, 32, 123] ++
    renderedMember (PyStr.ofString "status_code", intText r.statusCode) ++ [44, 32] ++
    renderedMember (PyStr.ofString "content_type",
      quote (redactText unicodeWord (contentType r))) ++ [44, 32] ++
    quote (PyStr.ofString "body_bytes") ++ [58, 32]

/-- The text after the preview and its closing quote. -/
def errorTail (truncated : Bool) (parsed : Option Json) : PyStr :=
  [44, 32] ++
    separated [32]
      (renderedMember (PyStr.ofString "body_truncated", (Json.bool truncated).dumpsSpaced) ::
        (parsed.map fun value =>
         renderedMember (PyStr.ofString "body_json", value.dumpsSpaced)).toList) ++
    [125, 125]

/-- The parsed body that the details hold, redacted. -/
def parsedBody (loads : Bytes → Option Json) (unicodeWord : Nat → Bool)
    (r : Response) : Option Json :=
  if decide (PyStr.ofString "application/json" <:+: asciiLower (contentType r)) &&
      !decide (maxErrorBodyPreviewBytes < r.body.length) then
    (loads r.body).map (redactData unicodeWord)
  else none

theorem redactText_code :
    redactText unicodeWord (PyStr.ofString "UPSTREAM_HTTP_ERROR") =
      PyStr.ofString "UPSTREAM_HTTP_ERROR" := by
  rfl

theorem redactText_message :
    redactText unicodeWord (PyStr.ofString "Upstream returned error response") =
      PyStr.ofString "Upstream returned error response" := by
  rfl

theorem isSensitive_detail :
    ∀ name ∈ ["code", "message", "details", "status_code", "content_type", "body_bytes",
    "body_preview", "body_truncated", "body_json"], isSensitive (PyStr.ofString name) = false := by
  decide

theorem redactData_obj (members : List (PyStr × Json)) :
    redactData unicodeWord (.obj members) =
      .obj (redactMembersWith unicodeWord isSensitive members) := by
  rw [redactData, redactWith]

theorem redactData_str (text : PyStr) :
    redactData unicodeWord (.str text) = .str (redactText unicodeWord text) := by
  rw [redactData, redactWith]

theorem redactData_int (n : Int) : redactData unicodeWord (.int n) = .int n := rfl

theorem redactData_bool (b : Bool) : redactData unicodeWord (.bool b) = .bool b := rfl

theorem redactMembers_nil : redactMembersWith unicodeWord isSensitive [] = [] := rfl

theorem redactMembers_cons {name : String} {value : Json} {rest : List (PyStr × Json)}
    (hname : isSensitive (PyStr.ofString name) = false) :
    redactMembersWith unicodeWord isSensitive ((PyStr.ofString name, value) :: rest) =
      (PyStr.ofString name, redactData unicodeWord value) ::
        redactMembersWith unicodeWord isSensitive rest := by
  rw [redactMembersWith, hname, if_neg Bool.false_ne_true, redactData]

theorem redactMembers_bodyDetails {r : Response} (hbody : r.body ≠ []) :
    redactMembersWith unicodeWord isSensitive (bodyDetails loads (contentType r) r.body) =
      [(PyStr.ofString "body_preview", .str (bodyPreview unicodeWord r.body)),
        (PyStr.ofString "body_truncated",
          .bool (decide (maxErrorBodyPreviewBytes < r.body.length)))] ++
        ((parsedBody loads unicodeWord r).map fun value =>
          (PyStr.ofString "body_json", value)).toList := by
  rw [bodyDetails, if_neg (by rwa [List.isEmpty_iff]), List.cons_append, List.cons_append,
    List.nil_append, redactMembers_cons (isSensitive_detail _ (by decide)),
    redactMembers_cons (isSensitive_detail _ (by decide)), redactData_str, redactData_bool,
    parsedBody]
  congr 2
  split
  · cases loads r.body with
    | none => rw [Option.map_none, Option.map_none, Option.toList_none, redactMembers_nil]; rfl
    | some value =>
      rw [Option.map_some, Option.toList_some,
        redactMembers_cons (isSensitive_detail _ (by decide)), redactMembers_nil]
      rfl
  · rw [Option.map_none, Option.toList_none, redactMembers_nil]
    rfl

theorem errorText_eq {r : Response} (hbody : r.body ≠ []) :
    errorText loads unicodeWord r =
      errorStem ++ detailsHead unicodeWord r ++ bodyShown unicodeWord r.body ++
        34 :: errorTail (decide (maxErrorBodyPreviewBytes < r.body.length))
          (parsedBody loads unicodeWord r) := by
  have hdata : redactData unicodeWord (responseError loads r) =
      .obj
        [(PyStr.ofString "code", .str (PyStr.ofString "UPSTREAM_HTTP_ERROR")),
          (PyStr.ofString "message", .str (PyStr.ofString "Upstream returned error response")),
          (PyStr.ofString "details",
            .obj
              ([(PyStr.ofString "status_code", .int r.statusCode),
                (PyStr.ofString "content_type", .str (redactText unicodeWord (contentType r))),
                (PyStr.ofString "body_bytes", .int r.body.length),
                (PyStr.ofString "body_preview", .str (bodyPreview unicodeWord r.body)),
                (PyStr.ofString "body_truncated",
                 .bool (decide (maxErrorBodyPreviewBytes < r.body.length)))] ++
                ((parsedBody loads unicodeWord r).map fun value =>
                  (PyStr.ofString "body_json", value)).toList))] := by
    rw [responseError, redactData_obj, redactMembers_cons (isSensitive_detail _ (by decide)),
      redactMembers_cons (isSensitive_detail _ (by decide)),
      redactMembers_cons (isSensitive_detail _ (by decide)), redactMembers_nil, redactData_str,
      redactData_str, redactData_obj, redactText_code, redactText_message, List.cons_append,
      List.cons_append, List.cons_append, List.nil_append,
      redactMembers_cons (isSensitive_detail _ (by decide)),
      redactMembers_cons (isSensitive_detail _ (by decide)),
      redactMembers_cons (isSensitive_detail _ (by decide)), redactMembers_bodyDetails hbody,
      redactData_int, redactData_str, redactData_int]
    rfl
  rw [errorText, hdata, errorStem, detailsHead, bodyShown, errorTail]
  cases parsedBody loads unicodeWord r with
  | none =>
    simp only [dumpsSpaced, write, writeMembers, separated, renderedMember, quote,
      List.flatMap_cons, List.flatMap_nil, List.append_nil, List.append_assoc, List.cons_append,
      List.nil_append, Option.map_none, Option.toList_none]
  | some value => 
    simp only [dumpsSpaced, write, writeMembers, separated, renderedMember, quote,
      List.flatMap_cons, List.flatMap_nil, List.append_nil, List.append_assoc, List.cons_append,
      List.nil_append, Option.map_some, Option.toList_some]

/-! ### Cutting a long text -/

/-- What is kept of a long error besides its preview. -/
def cutBase : List (PyStr × Json) :=
  [(PyStr.ofString "code", .str (PyStr.ofString "UPSTREAM_HTTP_ERROR")),
    (PyStr.ofString "message", .str (PyStr.ofString "Upstream returned error response")),
    (PyStr.ofString "truncated", .bool true)]

/-- A cut text after its stem, up to the preview. -/
def cutHead : PyStr :=
  (PyStr.ofString "truncated").flatMap escape ++ [34, 58, 32] ++ PyStr.ofString "true" ++
    [44, 32] ++ quote (PyStr.ofString "preview") ++ [58, 32, 34]

theorem truncatedBase_responseError (r : Response) :
    truncatedBase (redactData unicodeWord (responseError loads r)) = cutBase := by
  rfl

theorem previewCandidate_eq (text : PyStr) (n : Nat) :
    previewCandidate cutBase text n =
      errorStem ++ cutHead ++ (text.take n).flatMap escape ++ [34, 125] := by
  simp only [previewCandidate, cutBase, errorStem, cutHead, dumpsSpaced, write, writeMembers,
    separated, renderedMember, quote, List.flatMap_cons, List.flatMap_nil, List.append_nil,
    List.append_assoc, List.cons_append, List.nil_append, if_true]

theorem cutDown_long {text : PyStr} (hlong : maxErrorDetailsChars < text.length) :
    ∃ rest, cutDown cutBase text = errorStem ++ 116 :: rest := by
  rw [cutDown, if_neg (Nat.not_le.mpr hlong)]
  cases keptLength cutBase text with
  | none => exact ⟨_, rfl⟩
  | some n =>
    have hcandidate := previewCandidate_eq text n
    rw [List.append_assoc, List.append_assoc] at hcandidate
    exact ⟨_, hcandidate⟩

theorem keptLength_mem {text : PyStr} {n : Nat} (hkept : keptLength cutBase text = some n) :
    n ≤ maxErrorDetailsChars := by
  have hle : ∀ m ∈ previewLengths, m ≤ maxErrorDetailsChars := by decide
  exact hle n (List.mem_of_find?_eq_some hkept)

theorem previewCandidate_inj {text text' : PyStr} {n m : Nat}
    (heq : previewCandidate cutBase text n = previewCandidate cutBase text' m) :
    text.take n = text'.take m := by
  rw [previewCandidate_eq, previewCandidate_eq] at heq
  rw [List.append_left_inj, List.append_right_inj] at heq
  exact escape_prefixCode.flatMap_injective heq

theorem cutDown_none {text : PyStr} (hlong : maxErrorDetailsChars < text.length)
    (hkept : keptLength cutBase text = none) :
    cutDown cutBase text = (Json.obj cutBase).dumpsSpaced := by
  rw [cutDown, if_neg (Nat.not_le.mpr hlong), hkept]
  rfl

theorem cutDown_some {text : PyStr} {n : Nat} (hlong : maxErrorDetailsChars < text.length)
    (hkept : keptLength cutBase text = some n) :
    cutDown cutBase text = previewCandidate cutBase text n := by
  rw [cutDown, if_neg (Nat.not_le.mpr hlong), hkept]

theorem dumpsSpaced_cutBase_ne (text : PyStr) (n : Nat) :
    (Json.obj cutBase).dumpsSpaced ≠ previewCandidate cutBase text n := by
  intro heq
  have hplace := congrArg (·[errorStem.length + 16]?) heq
  rw [previewCandidate_eq, List.append_assoc, List.append_assoc,
    List.getElem?_append_right (Nat.le_add_right _ _)] at hplace
  cases hplace

/-- Long texts are cut down to the same text exactly where they are cut at the same place, before
they differ. -/
theorem cutDown_long_iff {text text' : PyStr} (hlong : maxErrorDetailsChars < text.length)
    (hlong' : maxErrorDetailsChars < text'.length) :
    cutDown cutBase text = cutDown cutBase text' ↔
      keptLength cutBase text = keptLength cutBase text' ∧
        ∀ n ∈ keptLength cutBase text, text.take n = text'.take n := by
  cases hkept : keptLength cutBase text with
  | none =>
    cases hkept' : keptLength cutBase text' with
    | none => 
      rw [cutDown_none hlong hkept, cutDown_none hlong' hkept']
      simp
    | some m =>
      rw [cutDown_none hlong hkept, cutDown_some hlong' hkept']
      simp [dumpsSpaced_cutBase_ne]
  | some n =>
    cases hkept' : keptLength cutBase text' with
    | none =>
      rw [cutDown_some hlong hkept, cutDown_none hlong' hkept']
      simp [(dumpsSpaced_cutBase_ne _ _).symm]
    | some m =>
      rw [cutDown_some hlong hkept, cutDown_some hlong' hkept']
      constructor
      · intro heq
        have htake := previewCandidate_inj heq
        have hlength := congrArg List.length htake
        rw [List.length_take, List.length_take] at hlength
        have hn := keptLength_mem hkept
        have hm := keptLength_mem hkept'
        obtain rfl : n = m := by omega
        refine ⟨rfl, ?_⟩
        intro k hk
        rwa [← Option.some.inj hk]
      · rintro ⟨hnm, htake⟩
        obtain rfl := Option.some.inj hnm
        rw [previewCandidate_eq, previewCandidate_eq, htake n rfl]

/-- A short text is never what a long one is cut down to. -/
theorem cutDown_ne {text text' rest : PyStr} (hstem : text = errorStem ++ 100 :: rest)
    (hshort : text.length ≤ maxErrorDetailsChars) (hlong : maxErrorDetailsChars < text'.length) :
    cutDown cutBase text ≠ cutDown cutBase text' := by
  intro heq
  obtain ⟨cut, hcut⟩ := cutDown_long hlong
  rw [cutDown, if_pos hshort, hcut, hstem, List.append_right_inj] at heq
  cases heq

theorem cutDown_eq_iff {text text' rest rest' : PyStr} (hstem : text = errorStem ++ 100 :: rest)
    (hstem' : text' = errorStem ++ 100 :: rest') :
    cutDown cutBase text = cutDown cutBase text' ↔
      text = text' ∨ maxErrorDetailsChars < text.length ∧ maxErrorDetailsChars < text'.length ∧
        keptLength cutBase text = keptLength cutBase text' ∧
          ∀ n ∈ keptLength cutBase text, text.take n = text'.take n := by
  by_cases hlong : maxErrorDetailsChars < text.length
  · by_cases hlong' : maxErrorDetailsChars < text'.length
    · rw [cutDown_long_iff hlong hlong']
      constructor
      · intro hcut
        exact .inr ⟨hlong, hlong', hcut⟩
      · rintro (rfl | ⟨-, -, hcut⟩)
        · exact ⟨rfl, fun _ _ => rfl⟩
        · exact hcut
    · constructor
      · intro heq
        exact absurd heq.symm (cutDown_ne hstem' (Nat.le_of_not_lt hlong') hlong)
      · rintro (rfl | ⟨-, hcut, -⟩)
        · rfl
        · exact absurd hcut hlong'
  · by_cases hlong' : maxErrorDetailsChars < text'.length
    · constructor
      · intro heq
        exact absurd heq (cutDown_ne hstem (Nat.le_of_not_lt hlong) hlong')
      · rintro (rfl | ⟨hcut, -⟩)
        · rfl
        · exact absurd hcut hlong
    · rw [cutDown, cutDown, if_pos (Nat.le_of_not_lt hlong), if_pos (Nat.le_of_not_lt hlong')]
      constructor
      · exact .inl
      · rintro (rfl | ⟨hcut, -⟩)
        · rfl
        · exact absurd hcut hlong

/-! ### What the text says of the body -/

theorem intText_natCast (n : Nat) : intText (n : Int) = (Nat.toDigits 10 n).map Char.toNat := by
  rw [intText, if_neg (by omega), List.nil_append, Int.natAbs_natCast]

theorem intText_natCast_inj {n m : Nat} (heq : intText (n : Int) = intText (m : Int)) : n = m := by
  rw [intText_natCast, intText_natCast] at heq
  have hdigits := List.map_injective_iff.mpr (fun c d hcd => Char.toNat_inj.mp hcd) heq
  calc n = Nat.ofDigitChars 10 (Nat.toDigits 10 n) 0 := Nat.ofDigitChars_ten_toDigits.symm
    _ = Nat.ofDigitChars 10 (Nat.toDigits 10 m) 0 := by rw [hdigits]
    _ = m := Nat.ofDigitChars_ten_toDigits

theorem intText_comma {n m : Nat} {x y : PyStr}
    (heq : intText (n : Int) ++ 44 :: x = intText (m : Int) ++ 44 :: y) : n = m ∧ x = y := by
  have hdigit : ∀ k : Nat, ∀ c ∈ intText (k : Int), (c != 44) = true := by
    intro k c hc
    rw [intText_natCast] at hc
    obtain ⟨d, hd, rfl⟩ := List.mem_map.mp hc
    have hisDigit := Nat.isDigit_of_mem_toDigits (by omega) (by omega) hd
    rw [bne_iff_ne]
    intro hcomma
    obtain rfl : d = ',' := Char.toNat_inj.mp hcomma
    revert hisDigit
    decide
  have htext : intText (n : Int) = intText (m : Int) := by
    have hwhile := congrArg (List.takeWhile (· != 44)) heq
    rw [List.takeWhile_append_of_pos (hdigit n), List.takeWhile_append_of_pos (hdigit m)] at hwhile
    rwa [List.takeWhile_cons_of_neg (by decide), List.takeWhile_cons_of_neg (by decide),
      List.append_nil, List.append_nil] at hwhile
  rw [htext, List.append_right_inj, List.cons.injEq] at heq
  exact ⟨intText_natCast_inj htext, heq.2⟩

/-- From what the text says of the body, up to the quote that closes the preview, length and preview
can be read off. -/
theorem bodyShown_closed {body body' : Bytes} {x y : PyStr}
    (heq : bodyShown unicodeWord body ++ 34 :: x = bodyShown unicodeWord body' ++ 34 :: y) :
    body.length = body'.length ∧ bodyPreview unicodeWord body = bodyPreview unicodeWord body' := by
  simp only [bodyShown, List.append_assoc, List.cons_append, List.nil_append] at heq
  obtain ⟨hlength, hrest⟩ := intText_comma heq
  rw [List.cons.injEq, List.append_right_inj] at hrest
  simp only [List.cons.injEq, true_and] at hrest
  exact ⟨hlength, escape_prefixCode.flatMap_stop escape_head?_ne hrest⟩

theorem bodyShown_eq_iff {body body' : Bytes} :
    bodyShown unicodeWord body = bodyShown unicodeWord body' ↔
      body.length = body'.length ∧ bodyPreview unicodeWord body =
        bodyPreview unicodeWord body' := by
  constructor
  · intro heq
    exact bodyShown_closed (x := []) (y := []) (by rw [heq])
  · rintro ⟨hlength, hpreview⟩
    rw [bodyShown, bodyShown, hlength, hpreview]

/-! ### Two bodies -/

/-- Both errors are long and cut at one place, before what they say of the bodies differs. -/
structure CutAlike (loads : Bytes → Option Json) (unicodeWord : Nat → Bool)
    (r r' : Response) : Prop where
  long : maxErrorDetailsChars < (errorText loads unicodeWord r).length
  long' : maxErrorDetailsChars < (errorText loads unicodeWord r').length
  kept : keptLength cutBase (errorText loads unicodeWord r) =
    keptLength cutBase (errorText loads unicodeWord r')
  shown : ∀ n ∈ keptLength cutBase (errorText loads unicodeWord r),
    (bodyShown unicodeWord r.body).take (n - (errorStem ++ detailsHead unicodeWord r).length) =
      (bodyShown unicodeWord r'.body).take (n - (errorStem ++ detailsHead unicodeWord r).length)

variable {r r' : Response} {value value' : Json}

theorem errorText_stem (hbody : r.body ≠ []) :
    ∃ rest, errorText loads unicodeWord r = errorStem ++ 100 :: rest := by
  have htext := @errorText_eq loads unicodeWord r hbody
  rw [List.append_assoc, List.append_assoc] at htext
  exact ⟨_, htext⟩

theorem errorText_take (hbody : r.body ≠ []) (n : Nat) :
    (errorText loads unicodeWord r).take n =
      (errorStem ++ detailsHead unicodeWord r).take n ++
        (bodyShown unicodeWord r.body ++ 34 ::
          errorTail (decide (maxErrorBodyPreviewBytes < r.body.length))
          (parsedBody loads unicodeWord r)).take
            (n - (errorStem ++ detailsHead unicodeWord r).length) := by
  rw [errorText_eq hbody, List.append_assoc, List.take_append]

theorem detailsHead_congr (hcode : r.statusCode = r'.statusCode)
    (hheaders : r.headers = r'.headers) :
    detailsHead unicodeWord r = detailsHead unicodeWord r' := by
  rw [detailsHead, detailsHead, hcode, contentType, contentType, hheaders]

theorem errorTail_congr (hheaders : r.headers = r'.headers) (hvalue : loads r.body = some value)
    (hvalue' : loads r'.body = some value') (hsame : SameButSecrets value value')
    (hshown : bodyShown unicodeWord r.body = bodyShown unicodeWord r'.body) :
    errorTail (decide (maxErrorBodyPreviewBytes < r.body.length)) (parsedBody loads unicodeWord r) =
      errorTail (decide (maxErrorBodyPreviewBytes < r'.body.length))
        (parsedBody loads unicodeWord r') := by
  rw [parsedBody, parsedBody, contentType, contentType, hheaders, (bodyShown_eq_iff.mp hshown).1,
    hvalue, hvalue', Option.map_some, Option.map_some, hsame.redactData_eq]

theorem errorText_eq_iff (hbody : r.body ≠ []) (hbody' : r'.body ≠ [])
    (hcode : r.statusCode = r'.statusCode) (hheaders : r.headers = r'.headers)
    (hvalue : loads r.body = some value) (hvalue' : loads r'.body = some value')
    (hsame : SameButSecrets value value') :
    errorText loads unicodeWord r = errorText loads unicodeWord r' ↔
      bodyShown unicodeWord r.body = bodyShown unicodeWord r'.body := by
  rw [errorText_eq hbody, errorText_eq hbody', detailsHead_congr hcode hheaders, List.append_assoc,
    List.append_assoc _ _ (34 :: _), List.append_right_inj]
  constructor
  · intro heq
    exact bodyShown_eq_iff.mpr (bodyShown_closed heq)
  · intro hshown
    rw [errorTail_congr hheaders hvalue hvalue' hsame hshown, hshown]

theorem errorText_take_iff (hbody : r.body ≠ []) (hbody' : r'.body ≠ [])
    (hcode : r.statusCode = r'.statusCode) (hheaders : r.headers = r'.headers)
    (hvalue : loads r.body = some value) (hvalue' : loads r'.body = some value')
    (hsame : SameButSecrets value value') (n : Nat) :
    (errorText loads unicodeWord r).take n = (errorText loads unicodeWord r').take n ↔
      (bodyShown unicodeWord r.body).take (n - (errorStem ++ detailsHead unicodeWord r).length) =
        (bodyShown unicodeWord r'.body).take
          (n - (errorStem ++ detailsHead unicodeWord r).length) := by
  rw [errorText_take hbody, errorText_take hbody', detailsHead_congr hcode hheaders,
    List.append_right_inj]
  exact take_closed_iff (fun heq => bodyShown_eq_iff.mpr (bodyShown_closed heq))
    (errorTail_congr hheaders hvalue hvalue' hsame)

theorem persistedErrorDetails_of_isSome {state : ErrorState}
    (herror : state.errorCode.isSome = true) :
    persistedErrorDetails loads unicodeWord r state = dumpErrorDetails unicodeWord
      state.errorDetails := by
  rw [persistedErrorDetails, maybeCaptureErrorFromResponse, if_pos (by rw [herror, Bool.true_or])]

theorem persistedErrorDetails_captured {state : ErrorState}
    (herror : state.errorCode.isSome = false) (hstatus : 400 ≤ r.statusCode) :
    persistedErrorDetails loads unicodeWord r state =
      some (cutDown cutBase (errorText loads unicodeWord r)) := by
  have hcapture : ¬(state.errorCode.isSome || decide (r.statusCode < 400)) = true := by
    rw [herror, Bool.false_or, decide_eq_true_eq]
    omega
  rw [persistedErrorDetails, maybeCaptureErrorFromResponse, if_neg hcapture,
    ← @truncatedBase_responseError loads unicodeWord r]
  rfl

/-- Of two error responses with the same headers whose bodies differ in secrets, the details kept
are the same exactly where the request had an error before, where the bodies are as long as each
other and their redacted previews are the same, or where both errors are cut before any difference
shows. -/
theorem details_same_iff {state : ErrorState} (hempty : loads [] = none)
    (hstatus : 400 ≤ r.statusCode) (hcode : r.statusCode = r'.statusCode)
    (hheaders : r.headers = r'.headers) (hvalue : loads r.body = some value)
    (hvalue' : loads r'.body = some value') (hsame : SameButSecrets value value') :
    persistedErrorDetails loads unicodeWord r state = persistedErrorDetails loads unicodeWord r'
      state ↔
      state.errorCode.isSome = true ∨
        (r.body.length = r'.body.length ∧ bodyPreview unicodeWord r.body =
          bodyPreview unicodeWord r'.body) ∨
          CutAlike loads unicodeWord r r' := by
  have hbody : r.body ≠ [] := by
    rintro hnil
    rw [hnil, hempty] at hvalue
    cases hvalue
  have hbody' : r'.body ≠ [] := by
    rintro hnil
    rw [hnil, hempty] at hvalue'
    cases hvalue'
  cases herror : state.errorCode.isSome with
  | true => 
    rw [persistedErrorDetails_of_isSome herror, persistedErrorDetails_of_isSome herror]
    simp
  | false =>
    rw [persistedErrorDetails_captured herror hstatus,
      persistedErrorDetails_captured herror (hcode ▸ hstatus), Option.some.injEq]
    obtain ⟨rest, hstem⟩ := @errorText_stem loads unicodeWord r hbody
    obtain ⟨rest', hstem'⟩ := @errorText_stem loads unicodeWord r' hbody'
    rw [cutDown_eq_iff hstem hstem',
      errorText_eq_iff hbody hbody' hcode hheaders hvalue hvalue' hsame, bodyShown_eq_iff]
    have htake := fun n =>
      @errorText_take_iff loads unicodeWord r r' value value' hbody hbody' hcode hheaders hvalue
        hvalue' hsame n
    constructor
    · rintro (hequal | ⟨hlong, hlong', hkept, hshown⟩)
      · exact .inr (.inl hequal)
      · exact .inr (.inr ⟨hlong, hlong', hkept, fun n hn => (htake n).mp (hshown n hn)⟩)
    · rintro (hsome | hequal | hcut)
      · cases hsome
      · exact .inl hequal
      · exact .inr ⟨hcut.long, hcut.long', hcut.kept, fun n hn => (htake n).mpr (hcut.shown n hn)⟩

end

/-! ### Two bodies with a token -/

def tokenText (token : String) : String := "\x7b\"token\":\"" ++ token ++ "\"\x7d"

def tokenBody (token : String) : Bytes := (PyStr.ofString (tokenText token)).map UInt8.ofNat

def tokenValue (token : String) : Json :=
  .obj [(PyStr.ofString "token", .str (PyStr.ofString token))]

/-- `json.loads` on these bodies. -/
def tokenLoads (tokens : List String) (body : Bytes) : Option Json :=
  (tokens.find? fun token => tokenBody token == body).map tokenValue

def tokenResponse (token : String) : Response :=
  { statusCode := 502, headers := [("content-type", "application/json")], body := tokenBody token }

theorem tokenValue_same (token token' : String) : SameButSecrets (tokenValue token)
    (tokenValue token') :=
  .obj (.secret (by decide) .nil)

theorem tokenLoads_of_find {tokens : List String} {token : String}
    (hfind : tokens.find? (fun token' => tokenBody token' == (tokenResponse token).body) =
      some token) :
    tokenLoads tokens (tokenResponse token).body = some (tokenValue token) := by
  rw [tokenLoads, hfind, Option.map_some]

/-- Tokens that look like keys are masked in the preview too. -/
theorem masked_details_same :
    persistedErrorDetails (tokenLoads ["fc-aaaaaaaa", "fc-bbbbbbbb"]) (fun _ => false)
      (tokenResponse "fc-aaaaaaaa")
        {} =
      persistedErrorDetails (tokenLoads ["fc-aaaaaaaa", "fc-bbbbbbbb"]) (fun _ => false)
        (tokenResponse "fc-bbbbbbbb")
        {} := by
  have hvalue : tokenLoads ["fc-aaaaaaaa", "fc-bbbbbbbb"] (tokenResponse "fc-aaaaaaaa").body =
      some (tokenValue "fc-aaaaaaaa") := tokenLoads_of_find (by decide)
  have hvalue' : tokenLoads ["fc-aaaaaaaa", "fc-bbbbbbbb"] (tokenResponse "fc-bbbbbbbb").body =
      some (tokenValue "fc-bbbbbbbb") := tokenLoads_of_find (by decide)
  refine Iff.mpr (details_same_iff ?_ ?_ rfl rfl hvalue hvalue' (tokenValue_same _ _))
    (.inr (.inl ⟨?_, ?_⟩))
  · rfl
  · decide
  · decide
  · decide

/-- Tokens that do not are shown in it. -/
theorem tokens_shown :
    tokenLoads ["abc", "xyz"] (tokenResponse "abc").body = some (tokenValue "abc") ∧
      tokenLoads ["abc", "xyz"] (tokenResponse "xyz").body = some (tokenValue "xyz") ∧
      SameButSecrets (tokenValue "abc") (tokenValue "xyz") ∧
      persistedErrorDetails (tokenLoads ["abc", "xyz"]) (fun _ => false) (tokenResponse "abc") {} ≠
        persistedErrorDetails (tokenLoads ["abc", "xyz"]) (fun _ => false) (tokenResponse "xyz")
          {} := by
  refine ⟨?_, ?_, tokenValue_same _ _, ?_⟩
  · exact tokenLoads_of_find (by decide)
  · exact tokenLoads_of_find (by decide)
  · decide +kernel

end Fcam
