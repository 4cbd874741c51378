import Fcam.Proof.JsonRoundTrip

/-!
# What redaction and truncation keep

Redaction makes one value of all that differ only under sensitive keys, and changes neither the keys
nor the lengths of lists elsewhere. What is dumped of a redacted value is never too long, and it is
JSON unless `NaN` or an infinity stands in the part of it that is kept.
-/

namespace Fcam

open Json (every everyItem everyMember printable printableScalar finite finiteScalar isValid
  isValid_dumpsSpaced dumpsSpaced separated write writeMembers)

/-! ### Values that differ under sensitive keys -/

mutual

/-- Outside what is stored under sensitive keys the values are the same, but for texts, which are as
`text` says. -/
inductive AlikeOutsideSecrets (text : PyStr → PyStr → Prop) : Json → Json → Prop where
  | same (value : Json) : AlikeOutsideSecrets text value value
  | str {s t : PyStr} : text s t → AlikeOutsideSecrets text (.str s) (.str t)
  | arr {items items' : List Json} : AlikeItems text items items' →
      AlikeOutsideSecrets text (.arr items) (.arr items')
  | obj {members members' : List (PyStr × Json)} :
      AlikeMembers text members members' → AlikeOutsideSecrets text (.obj members) (.obj members')

inductive AlikeItems (text : PyStr → PyStr → Prop) : List Json → List Json → Prop where
  | nil : AlikeItems text [] []
  | cons {item item' : Json} {rest rest' : List Json} :
      AlikeOutsideSecrets text item item' → AlikeItems text rest rest' →
        AlikeItems text (item :: rest) (item' :: rest')

inductive AlikeMembers (text : PyStr → PyStr → Prop) : List (PyStr × Json) → List (PyStr × Json) →
    Prop where
  | nil : AlikeMembers text [] []
  | secret {key : PyStr} {value value' : Json} {rest rest' : List (PyStr × Json)} :
      isSensitive key = true → AlikeMembers text rest rest' →
        AlikeMembers text ((key, value) :: rest) ((key, value') :: rest')
  | cons {key : PyStr} {value value' : Json} {rest rest' : List (PyStr × Json)} :
      AlikeOutsideSecrets text value value' → AlikeMembers text rest rest' →
        AlikeMembers text ((key, value) :: rest) ((key, value') :: rest')

end

/-- The values differ only in what is stored under sensitive keys. -/
abbrev DifferInSecrets : Json → Json → Prop := AlikeOutsideSecrets Eq

/-- The values have the same keys and lists of the same lengths outside what is stored under
sensitive keys. -/
abbrev SameShape : Json → Json → Prop := AlikeOutsideSecrets fun _ _ => True

section

variable {unicodeWord : Nat → Bool}

mutual

theorem AlikeOutsideSecrets.redact_eq {value value' : Json} :
    DifferInSecrets value value' → redactData unicodeWord value = redactData unicodeWord value'
  | .same _ => rfl
  | .str htext => by rw [htext]
  | .arr hitems => congrArg Json.arr hitems.redact_eq
  | .obj hmembers => congrArg Json.obj hmembers.redact_eq

theorem AlikeItems.redact_eq {items items' : List Json} : AlikeItems Eq items items' →
    redactItemsWith unicodeWord isSensitive items = redactItemsWith unicodeWord isSensitive items'
  | .nil => rfl
  | .cons hitem hrest => congrArg₂ List.cons hitem.redact_eq hrest.redact_eq

theorem AlikeMembers.redact_eq {members members' : List (PyStr × Json)} :
    AlikeMembers Eq members members' →
    redactMembersWith unicodeWord isSensitive members = redactMembersWith unicodeWord isSensitive
      members'
  | .nil => rfl
  | .secret hkey hrest =>
    by rw [redactMembersWith, redactMembersWith, if_pos hkey, if_pos hkey, hrest.redact_eq]
  | .cons hvalue hrest => by
    have heq := hvalue.redact_eq
    rw [redactData, redactData] at heq
    rw [redactMembersWith, redactMembersWith, heq, hrest.redact_eq]

end

mutual

theorem sameShape_redactData : ∀ value : Json, SameShape value (redactData unicodeWord value)
  | .null => .same _
  | .bool _ => .same _
  | .int _ => .same _
  | .float _ _ => .same _
  | .str _ => .str trivial
  | .arr items => .arr (alikeItems_redactItems items)
  | .obj members => .obj (alikeMembers_redactMembers members)

theorem alikeItems_redactItems : ∀ items : List Json,
    AlikeItems (fun _ _ => True) items (redactItemsWith unicodeWord isSensitive items)
  | [] => .nil
  | item :: rest => .cons (sameShape_redactData item) (alikeItems_redactItems rest)

theorem alikeMembers_redactMembers : ∀ members : List (PyStr × Json),
    AlikeMembers (fun _ _ => True) members (redactMembersWith unicodeWord isSensitive members)
  | [] => .nil
  | (key, value) :: rest => by
    rw [redactMembersWith]
    split_ifs with hkey
    · exact .secret hkey (alikeMembers_redactMembers rest)
    · exact .cons (sameShape_redactData value) (alikeMembers_redactMembers rest)

end

end

section

variable {unicodeWord : Nat → Bool} {sensitive : PyStr → Bool}

theorem map_fst_redactMembersWith (members : List (PyStr × Json)) :
    (redactMembersWith unicodeWord sensitive members).map Prod.fst = members.map Prod.fst := by
  induction members with
  | nil => rfl
  | cons m rest ih =>
    obtain ⟨key, value⟩ := m
    rw [redactMembersWith, List.map_cons, List.map_cons, ih]

mutual

/-- What scalars and keys are like is kept, if any text will do. -/
theorem every_redactWith {scalar : Json → Bool} {names : List PyStr → Bool}
    (htext : ∀ text, scalar (.str text) = true) :
    ∀ {value : Json}, value.every scalar names = true →
      (redactWith unicodeWord sensitive value).every scalar names = true
  | .null, hevery => hevery
  | .bool _, hevery => hevery
  | .int _, hevery => hevery
  | .float _ _, hevery => hevery
  | .str _, _ => htext _
  | .arr _, hevery => everyItem_redactItemsWith htext hevery
  | .obj members, hevery => by
    rw [Json.every, Bool.and_eq_true] at hevery
    rw [redactWith, Json.every, map_fst_redactMembersWith, hevery.1, Bool.true_and]
    exact everyMember_redactMembersWith htext hevery.2

theorem everyItem_redactItemsWith {scalar : Json → Bool} {names : List PyStr → Bool}
    (htext : ∀ text, scalar (.str text) = true) :
    ∀ {items : List Json}, Json.everyItem scalar names items = true →
      Json.everyItem scalar names (redactItemsWith unicodeWord sensitive items) = true
  | [], _ => rfl
  | _ :: _, hevery => by
    obtain ⟨hitem, hrest⟩ := (Bool.and_eq_true _ _).mp hevery
    exact (Bool.and_eq_true _ _).mpr ⟨every_redactWith htext hitem,
      everyItem_redactItemsWith htext hrest⟩

theorem everyMember_redactMembersWith {scalar : Json → Bool} {names : List PyStr → Bool}
    (htext : ∀ text, scalar (.str text) = true) :
    ∀ {members : List (PyStr × Json)}, Json.everyMember scalar names members = true →
      Json.everyMember scalar names (redactMembersWith unicodeWord sensitive members) = true
  | [], _ => rfl
  | (key, value) :: rest, hevery => by
    obtain ⟨hvalue, hrest⟩ := (Bool.and_eq_true _ _).mp hevery
    refine (Bool.and_eq_true _ _).mpr ⟨?_, everyMember_redactMembersWith htext hrest⟩
    split
    · exact htext _
    · exact every_redactWith htext hvalue

end

theorem printable_redactData {value : Json} (hprinted : value.printable = true) :
    (redactData unicodeWord value).printable = true := every_redactWith (fun _ => rfl) hprinted

end

/-! ### What is kept of a long value -/

section

variable {base : List (PyStr × Json)} {safe : Json} {scalar : Json → Bool}
  {names : List PyStr → Bool} {pad : PyStr}

theorem keptLength_fits {text : PyStr} {n : Nat} (hkept : keptLength base text = some n) :
    (previewCandidate base text n).length ≤ maxErrorDetailsChars := by
  have hfits := List.find?_some hkept
  exact of_decide_eq_true hfits

theorem length_cutDown (base : List (PyStr × Json)) (text : PyStr) :
    (cutDown base text).length ≤ maxErrorDetailsChars := by
  rw [cutDown]
  split_ifs with hshort
  · exact hshort
  · split
    · next n hkept => exact keptLength_fits hkept
    · dsimp only
      split_ifs with hbase
      · exact hbase
      · decide

theorem everyMember_append (members members' : List (PyStr × Json)) :
    everyMember scalar names (members ++ members') =
      (everyMember scalar names members && everyMember scalar names members') := by
  induction members with
  | nil => rfl
  | cons m members ih =>
    obtain ⟨key, value⟩ := m
    rw [List.cons_append, everyMember, everyMember, ih, Bool.and_assoc]

theorem every_of_lookup {members : List (PyStr × Json)} {key : PyStr} {value : Json}
    (hevery : everyMember scalar names members = true) (hfound : members.lookup key = some value) :
    every scalar names value = true := by
  induction members with
  | nil => cases hfound
  | cons m members ih =>
    obtain ⟨key', value'⟩ := m
    rw [everyMember, Bool.and_eq_true] at hevery
    rw [List.lookup_cons] at hfound
    split at hfound
    · rw [← Option.some.inj hfound]
      exact hevery.1
    · exact ih hevery.2 hfound

/-- The value under `code` is all that is kept of the value besides texts. -/
theorem truncatedBase_eq (htext : ∀ text, scalar (.str text) = true) (hnull : scalar .null = true)
    (htrue : scalar (.bool true) = true) :
    ∃ rest, everyMember scalar names rest = true ∧
      truncatedBase safe =
        (((membersOf safe).lookup (PyStr.ofString "code")).map fun value =>
          (PyStr.ofString "code", value)).toList ++
          rest := by
  rw [truncatedBase]
  dsimp only
  split
  · refine ⟨_, ?_, rfl⟩
    simp only [everyMember, every, htrue, Bool.and_true]
  · refine ⟨_, ?_, rfl⟩
    simp only [everyMember, every, hnull, htrue, Bool.and_true]
  · split_ifs
    · refine ⟨_, ?_, rfl⟩
      simp only [everyMember, every, htext, htrue, Bool.and_true]
    · refine ⟨_, ?_, rfl⟩
      simp only [everyMember, every, htext, htrue, Bool.and_true]

theorem everyMember_truncatedBase (htext : ∀ text, scalar (.str text) = true)
    (hnull : scalar .null = true) (htrue : scalar (.bool true) = true) :
    everyMember scalar names (truncatedBase safe) =
      ((membersOf safe).lookup (PyStr.ofString "code")).all (every scalar names) := by
  obtain ⟨rest, hrest, heq⟩ := @truncatedBase_eq safe scalar names htext hnull htrue
  rw [heq, everyMember_append, hrest, Bool.and_true]
  cases (membersOf safe).lookup (PyStr.ofString "code") with
  | none => rfl
  | some code => exact Bool.and_true _

theorem finite_truncatedBase :
    (Json.obj (truncatedBase safe)).finite = ((membersOf safe).lookup (PyStr.ofString "code")).all
      finite := by
  have hmembers :=
    @everyMember_truncatedBase safe finiteScalar (fun _ => true) (fun _ => rfl) rfl rfl
  rw [finite, every, hmembers, Bool.true_and]
  rfl

theorem printable_truncatedBase (hprinted : safe.printable = true) :
    (Json.obj (truncatedBase safe)).printable = true := by
  have hmembers :=
    @everyMember_truncatedBase safe printableScalar (fun _ => true) (fun _ => rfl) rfl rfl
  rw [printable, every, hmembers, Bool.true_and]
  cases hcode : (membersOf safe).lookup (PyStr.ofString "code") with
  | none => rfl
  | some code =>
    cases safe with
    | obj members => exact every_of_lookup hprinted hcode
    | _ => cases hcode

theorem writeMembers_append (members members' : List (PyStr × Json)) :
    writeMembers pad (members ++ members') = writeMembers pad members ++ writeMembers pad
      members' := by
  induction members with
  | nil => rfl
  | cons m members ih =>
    obtain ⟨key, value⟩ := m
    rw [List.cons_append, writeMembers, writeMembers, ih, List.cons_append]

theorem length_separated_le (texts texts' : List PyStr) :
    (separated pad texts).length ≤ (separated pad (texts ++ texts')).length := by
  cases texts with
  | nil => exact Nat.zero_le _
  | cons text texts =>
    rw [List.cons_append, separated, separated, List.flatMap_append, ← List.append_assoc]
    exact (List.prefix_append _ _).length_le

theorem length_le_previewCandidate (base : List (PyStr × Json)) (text : PyStr) (n : Nat) :
    (Json.obj base).dumpsSpaced.length ≤ (previewCandidate base text n).length := by
  have hle := @length_separated_le [32] (writeMembers [32] base)
    (writeMembers [32] [(PyStr.ofString "preview", .str (text.take n))])
  rw [← writeMembers_append] at hle
  rw [previewCandidate, dumpsSpaced, write, write]
  simp only [List.length_cons, List.length_append]
  omega

theorem isValid_previewCandidate (hprinted : (Json.obj base).printable = true) (text : PyStr)
    (n : Nat) :
    isValid (previewCandidate base text n) = (Json.obj base).finite := by
  have hpreview : ∀ scalar, (∀ text, scalar (.str text) = true) →
      every scalar (fun _ => true)
        (.obj (base ++ [(PyStr.ofString "preview", .str (text.take n))])) =
          every scalar (fun _ => true) (.obj base) := by
    intro scalar htext
    simp only [every, everyMember_append, everyMember, htext, Bool.and_true]
  rw [previewCandidate, isValid_dumpsSpaced (by rwa [printable, hpreview _ fun _ => rfl]), finite,
    hpreview _ fun _ => rfl]
  rfl

/-- Whether the text of a redacted value is JSON once it is cut down. -/
theorem isValid_cutDown (hprinted : safe.printable = true)
    (hbase : (Json.obj base).printable = true) :
    isValid (cutDown base safe.dumpsSpaced) =
      if safe.dumpsSpaced.length ≤ maxErrorDetailsChars then safe.finite
      else (Json.obj base).finite ||
        decide (maxErrorDetailsChars < (Json.obj base).dumpsSpaced.length) := by
  rw [cutDown]
  split_ifs with hshort
  · exact isValid_dumpsSpaced hprinted
  · cases hkept : keptLength base safe.dumpsSpaced with
    | some n =>
      have hfits := keptLength_fits hkept
      have hle := length_le_previewCandidate base safe.dumpsSpaced n
      rw [decide_eq_false (by omega), Bool.or_false, isValid_previewCandidate hbase]
    | none =>
      dsimp only
      split_ifs with hbaseFits
      · rw [decide_eq_false (by omega), Bool.or_false, isValid_dumpsSpaced hbase]
      · rw [decide_eq_true (by omega), Bool.or_true]
        decide

end

/-! ### The details of an error -/

/-- No `NaN` and no infinity stands in the part of a redacted value that is kept: in all of it if
its text is short, and else under `code`, if the text is short that is left without a preview. -/
def finiteWhereKept (safe : Json) : Bool :=
  if safe.dumpsSpaced.length ≤ maxErrorDetailsChars then safe.finite
  else
    ((membersOf safe).lookup (PyStr.ofString "code")).all finite ||
      decide (maxErrorDetailsChars < (Json.obj (truncatedBase safe)).dumpsSpaced.length)

section

variable {unicodeWord : Nat → Bool} {value value' : Json}

theorem dumpErrorDetails_cases (value : Json) :
    value = .null ∧ dumpErrorDetails unicodeWord (some value) = none ∨
      dumpErrorDetails unicodeWord (some value) =
        some (cutDown (truncatedBase (redactData unicodeWord value))
          (redactData unicodeWord value).dumpsSpaced) := by
  cases value with
  | null => exact .inl ⟨rfl, rfl⟩
  | _ => exact .inr rfl

theorem dumpErrorDetails_congr (heq :
    redactData unicodeWord value = redactData unicodeWord value') :
    dumpErrorDetails unicodeWord (some value) = dumpErrorDetails unicodeWord (some value') := by
  have hnull : ∀ {value : Json}, redactData unicodeWord value = .null → value = .null := by
    intro value hnull
    cases value <;> first | rfl | cases hnull
  rcases @dumpErrorDetails_cases unicodeWord value with ⟨rfl, -⟩ | hdumped
  · rw [hnull heq.symm]
  · rcases @dumpErrorDetails_cases unicodeWord value' with ⟨rfl, -⟩ | hdumped'
    · rw [hnull heq]
    · rw [hdumped, hdumped', heq]

/-- Values that differ only under sensitive keys are redacted to one value with the keys and the
list lengths of both, and leave the same details, which are never too long. They are JSON exactly
where the part that is kept holds no `NaN` and no infinity. -/
theorem details_safe_iff (hprinted : value.printable = true)
    (hdiffer : DifferInSecrets value value') :
    (redactData unicodeWord value = redactData unicodeWord value' ∧
      SameShape value (redactData unicodeWord value) ∧
        dumpErrorDetails unicodeWord (some value) = dumpErrorDetails unicodeWord (some value') ∧
          ∀ text ∈ dumpErrorDetails unicodeWord (some value), text.length ≤ maxErrorDetailsChars) ∧
      ((∀ text ∈ dumpErrorDetails unicodeWord (some value), isValid text = true) ↔
        finiteWhereKept (redactData unicodeWord value) = true) := by
  have heq := @AlikeOutsideSecrets.redact_eq unicodeWord value value' hdiffer
  refine ⟨⟨heq, sameShape_redactData value, dumpErrorDetails_congr heq, ?_⟩, ?_⟩
  · intro text htext
    rcases @dumpErrorDetails_cases unicodeWord value with ⟨rfl, hnone⟩ | hdumped
    · rw [hnone] at htext
      cases htext
    · rw [hdumped] at htext
      rw [← Option.some.inj htext]
      exact length_cutDown _ _
  · rcases @dumpErrorDetails_cases unicodeWord value with ⟨rfl, hnone⟩ | hdumped
    · constructor
      · intro _
        rfl
      · intro _ text htext
        rw [hnone] at htext
        cases htext
    · have hsafe := @printable_redactData unicodeWord value hprinted
      have hvalid := isValid_cutDown hsafe (printable_truncatedBase hsafe)
      rw [finite_truncatedBase, ← finiteWhereKept] at hvalid
      rw [hdumped, ← hvalid]
      constructor
      · intro htexts
        exact htexts _ rfl
      · intro htrue text htext
        rwa [← Option.some.inj htext]

end

/-! ### Two values and a body -/

def storedUnder (secret : Json) : Json :=
  .obj [(PyStr.ofString "Token", secret),
    (PyStr.ofString "score", .float (PyStr.ofString "1.5") (some 1))]

/-- A text and a list under a sensitive key leave the same details, which are JSON. -/
theorem text_and_list_alike :
    dumpErrorDetails (fun _ => false) (some (storedUnder (.str (PyStr.ofString "abc")))) =
        dumpErrorDetails (fun _ => false) (some (storedUnder (.arr [.null]))) ∧
      ∀ text ∈ dumpErrorDetails (fun _ => false) (some (storedUnder (.str (PyStr.ofString "abc")))),
        isValid text = true := by
  have hdiffer :
      DifferInSecrets (storedUnder (.str (PyStr.ofString "abc"))) (storedUnder (.arr [.null])) :=
    .obj (.secret (by decide) (.cons (.same _) .nil))
  have hprinted : (storedUnder (.str (PyStr.ofString "abc"))).printable = true := by decide
  have hsafe := @details_safe_iff (fun _ => false) _ _ hprinted hdiffer
  exact ⟨hsafe.1.2.2.1, hsafe.2.mpr (by decide)⟩

def nanText : String := "\x7b\"score\":NaN\x7d"

def nanResponse : Response :=
  { statusCode := 502
    headers := [("content-type", "application/json")]
    body := (PyStr.ofString nanText).map UInt8.ofNat }

/-- `json.loads` on an ASCII body. -/
def asciiLoads (body : Bytes) : Option Json :=
  Json.loads (.default fun text => (text, none)) (body.map UInt8.toNat)

/-- `json.loads` takes the `NaN` of a body, and the details show it. -/
theorem nan_kept_in_details :
    ∃ text, persistedErrorDetails asciiLoads (fun _ => false) nanResponse {} = some text ∧
      isValid text = false :=
  ⟨_, rfl, by decide +kernel⟩

end Fcam
