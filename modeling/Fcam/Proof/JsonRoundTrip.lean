import Fcam.Base.Fields
import Fcam.Model.Redact
import Fcam.Proof.JsonScan

/-!
# What is written is read back

A value that is rendered with one of the two pairs of separators is read as that value, with the
numbers in it as the hooks of the reader have it. So a rendered value is JSON unless a constant is
in it, and `json.loads` gives back a value that it can give at all.
-/

namespace Fcam

namespace Json

/-! ### What values hold -/

mutual

/-- The scalars in a value are as `scalar` says and the keys of each object as `names` says. -/
def every (scalar : Json → Bool) (names : List PyStr → Bool) : Json → Bool
  | arr items => everyItem scalar names items
  | obj members => names (members.map Prod.fst) && everyMember scalar names members
  | value => scalar value

def everyItem (scalar : Json → Bool) (names : List PyStr → Bool) : List Json → Bool
  | [] => true
  | item :: rest => every scalar names item && everyItem scalar names rest

def everyMember (scalar : Json → Bool) (names : List PyStr → Bool) : List (PyStr × Json) → Bool
  | [] => true
  | (_, value) :: rest => every scalar names value && everyMember scalar names rest

end

/-- The name of a float that no number is. -/
def isConstant (text : PyStr) : Bool :=
  (["NaN", "Infinity", "-Infinity"].map PyStr.ofString).contains text

/-- The text of a number that is not an integer. -/
def isFloatText (text : PyStr) : Bool :=
  (matchNumber text).any fun number => number.rest == [] && number.fraction != []

def printableScalar : Json → Bool
  | float repr _ => isFloatText repr || isConstant repr
  | _ => true

def finiteScalar : Json → Bool
  | float repr _ => !isConstant repr
  | _ => true

/-- The floats in a value are known by what `repr` can give, or are one of the constants. -/
def printable (value : Json) : Bool := value.every printableScalar fun _ => true

/-- No float in a value is one of the constants. -/
def finite (value : Json) : Bool := value.every finiteScalar fun _ => true

/-! ### Writing and reading -/

section

variable (hooks : Hooks)

mutual

/-- What a value is read as once it is written. -/
def reread : Json → Option Json
  | null => some null
  | bool value => some (bool value)
  | int value => hooks.parseInt (intText value)
  | float repr _ => if isConstant repr then hooks.parseConstant repr else hooks.parseFloat repr
  | str value => some (str value)
  | arr items => (rereadItems items).map arr
  | obj members => (rereadMembers members).map fun members => obj (dict members)

def rereadItems : List Json → Option (List Json)
  | [] => some []
  | item :: rest => (reread item).bind fun item => (rereadItems rest).map (item :: ·)

def rereadMembers : List (PyStr × Json) → Option (List (PyStr × Json))
  | [] => some []
  | (key, value) :: rest =>
    (reread value).bind fun value => (rereadMembers rest).map ((key, value) :: ·)

end

end

section

variable {hooks : Hooks} {pad x : PyStr} {fuel : Nat}

theorem separated_cons_cons (text next : PyStr) (rest : List PyStr) :
    separated pad (text :: next :: rest) = text ++ 44 :: (pad ++ separated pad (next :: rest)) := by
  simp only [separated, List.flatMap_cons, List.append_assoc, List.cons_append]

theorem closed_cons {c : Nat} (hc : c = 44 ∨ c = 93 ∨ c = 125) : Closed (c :: x) := by
  intro d hd
  obtain rfl := Option.some.inj hd
  exact hc

theorem scanOnce_number {text : PyStr} {number : NumberMatch} (hx : Closed x)
    (hmatch : matchNumber text = some number) (hrest : number.rest = []) :
    scanOnce hooks (fuel + 1) (text ++ x) = scanNumber hooks { number with rest := x } := by
  obtain ⟨-, c, rest, rfl, hc⟩ := matchNumber_eq hmatch
  have hmatch' := @matchNumber_append (c :: rest) x hx
  rw [hmatch, Option.map_some, hrest, List.nil_append, List.cons_append] at hmatch'
  have hne : c ≠ 34 ∧ c ≠ 123 ∧ c ≠ 91 := by
    rcases hc with rfl | hc
    · decide
    · refine ⟨?_, ?_, ?_⟩ <;> rintro rfl <;> exact absurd hc (by decide)
  rw [List.cons_append, scanOnce, if_neg hne.1, if_neg hne.2.1, if_neg hne.2.2, hmatch']

theorem scanOnce_constant {text : PyStr} (hconstant : isConstant text = true) :
    scanOnce hooks (fuel + 1) (text ++ x) = (hooks.parseConstant text).map fun value =>
      (value, x) := by
  have hmem : text ∈ ["NaN", "Infinity", "-Infinity"].map PyStr.ofString :=
    List.contains_iff_mem.mp hconstant
  simp only [List.map_cons, List.map_nil, List.mem_cons, List.not_mem_nil, or_false] at hmem
  rcases hmem with rfl | rfl | rfl <;> rfl

theorem scanOnce_float {text : PyStr} (hx : Closed x) (hfloat : isFloatText text = true) :
    scanOnce hooks (fuel + 1) (text ++ x) = (hooks.parseFloat text).map fun value =>
      (value, x) := by
  obtain ⟨number, hmatch, hparts⟩ := (Option.any_eq_true _ _).mp hfloat
  rw [Bool.and_eq_true, beq_iff_eq, bne_iff_ne] at hparts
  have heq := (matchNumber_eq hmatch).1
  rw [hparts.1, List.append_nil] at heq
  rw [scanOnce_number hx hmatch hparts.1, scanNumber]
  dsimp only
  rw [if_neg hparts.2, heq]

theorem scanOnce_int (hx : Closed x) (n : Int) :
    scanOnce hooks (fuel + 1) (intText n ++ x) = (hooks.parseInt (intText n)).map fun value =>
      (value, x) := by
  rw [scanOnce_number hx (matchNumber_intText n) rfl, scanNumber]
  rfl

theorem scanOnce_quote (s : PyStr) :
    scanOnce hooks (fuel + 1) (quote s ++ x) = some (.str s, x) := by
  have hread := @scanString_escape x s (s.flatMap escape ++ 34 :: x).length (by
    have hle := length_le_escape s
    rw [List.length_append, List.length_cons]
    omega)
  rw [quote, List.append_assoc, List.append_assoc, List.singleton_append, List.singleton_append,
    scanOnce, if_pos rfl, hread, Option.map_some]

theorem write_head {value : Json} (hprinted : value.printable = true) :
    ∃ c rest, write pad value = c :: rest ∧ isBlank c = false ∧ c ≠ 93 := by
  have hnumber : ∀ {text : PyStr} {number : NumberMatch}, matchNumber text = some number →
      ∃ c rest, text = c :: rest ∧ isBlank c = false ∧ c ≠ 93 := by
    intro text number hmatch
    obtain ⟨-, c, rest, rfl, hc⟩ := matchNumber_eq hmatch
    refine ⟨c, rest, rfl, ?_⟩
    rcases hc with rfl | hc
    · decide
    · simp only [isDigit, Bool.and_eq_true, decide_eq_true_eq] at hc
      simp only [isBlank, Bool.or_eq_false_iff, beq_eq_false_iff_ne]
      omega
  cases value with
  | null => exact ⟨_, _, rfl, rfl, by decide⟩
  | bool value => cases value <;> exact ⟨_, _, rfl, rfl, by decide⟩
  | int value => exact hnumber (matchNumber_intText value)
  | float repr truncated =>
    rcases (Bool.or_eq_true _ _).mp hprinted with hfloat | hconstant
    · obtain ⟨number, hmatch, -⟩ := (Option.any_eq_true _ _).mp hfloat
      exact hnumber hmatch
    · have hmem : repr ∈ ["NaN", "Infinity", "-Infinity"].map PyStr.ofString :=
        List.contains_iff_mem.mp hconstant
      simp only [List.map_cons, List.map_nil, List.mem_cons, List.not_mem_nil, or_false] at hmem
      rcases hmem with rfl | rfl | rfl <;> exact ⟨_, _, rfl, rfl, by decide⟩
  | str value => exact ⟨_, _, rfl, rfl, by decide⟩
  | arr items => exact ⟨_, _, rfl, rfl, by decide⟩
  | obj members => exact ⟨_, _, rfl, rfl, by decide⟩

theorem separated_head {item : Json} {rest : List Json} (hprinted : item.printable = true) :
    ∃ c tail, separated pad (writeItems pad (item :: rest)) = c :: tail ∧
      isBlank c = false ∧ c ≠ 93 := by
  obtain ⟨c, tail, hwrite, hc⟩ := @write_head pad item hprinted
  rw [writeItems, separated, hwrite, List.cons_append]
  exact ⟨_, _, rfl, hc⟩

theorem skipBlanks_separated {item : Json} {rest : List Json} (hprinted : item.printable = true) :
    skipBlanks (separated pad (writeItems pad (item :: rest)) ++ x) =
      separated pad (writeItems pad (item :: rest)) ++ x := by
  obtain ⟨c, tail, htext, hblank, -⟩ := @separated_head pad item rest hprinted
  rw [htext, List.cons_append, skipBlanks_cons hblank]

theorem separated_members (key : PyStr) (value : Json) (rest : List (PyStr × Json)) :
    separated pad (writeMembers pad ((key, value) :: rest)) =
      34 :: (separated pad (writeMembers pad ((key, value) :: rest))).tail := by
  rfl

/-- The key of a member is read, then its value. -/
theorem jsonObject_key (hpad : ∀ c ∈ pad, isBlank c = true) {key : PyStr} {value : Json}
    (hprinted : value.printable = true) :
    jsonObject hooks (fuel + 1)
      (key.flatMap escape ++ 34 :: 58 :: (pad ++ (write pad value ++ x))) =
      (scanOnce hooks fuel (write pad value ++ x)).bind fun read =>
        match expect 125 read.2 with
        | some rest => some ([(key, read.1)], rest)
        | none =>
          ((expect 44 read.2).bind (expect 34)).bind fun rest =>
            (jsonObject hooks fuel rest).map fun more => ((key, read.1) :: more.1, more.2) := by
  obtain ⟨c, rest, hwrite, hblank, -⟩ := @write_head pad value hprinted
  have hskip : skipBlanks (pad ++ (write pad value ++ x)) = write pad value ++ x := by
    rw [skipBlanks_pad hpad, hwrite, List.cons_append, skipBlanks_cons hblank]
  have hkey := @scanString_escape (58 :: (pad ++ (write pad value ++ x))) key
    (key.flatMap escape ++ 34 :: 58 :: (pad ++ (write pad value ++ x))).length (by
      have hle := length_le_escape key
      rw [List.length_append, List.length_cons]
      omega)
  rw [jsonObject, hkey]
  simp only [Option.bind_eq_bind, Option.bind_some, expect_cons (show isBlank 58 = false from rfl),
    hskip]
  cases scanOnce hooks fuel (write pad value ++ x) with
  | none => rfl
  | some read =>
    simp only [Option.bind_some]
    cases expect 125 read.2 with
    | some rest => rfl
    | none =>
      dsimp only
      cases expect 44 read.2 with
      | none => rfl
      | some rest =>
        simp only [Option.bind_some]
        cases expect 34 rest with
        | none => rfl
        | some rest =>
          simp only [Option.bind_some]
          cases jsonObject hooks fuel rest <;> rfl

mutual

/-- A value that is written is read up to where it ends. -/
theorem scanOnce_write (hpad : ∀ c ∈ pad, isBlank c = true) :
    ∀ (value : Json) {x : PyStr} {fuel : Nat},
    value.printable = true → Closed x → (write pad value).length ≤ fuel →
      scanOnce hooks fuel (write pad value ++ x) = (reread hooks value).map fun value => (value, x)
  | value, x, 0, hprinted, hx, hfuel => by
    obtain ⟨c, rest, hwrite, -⟩ := @write_head pad value hprinted
    rw [hwrite, List.length_cons] at hfuel
    omega
  | null, x, fuel + 1, hprinted, hx, hfuel => rfl
  | bool value, x, fuel + 1, hprinted, hx, hfuel => by cases value <;> rfl
  | int value, x, fuel + 1, hprinted, hx, hfuel => by rw [write, scanOnce_int hx, reread]
  | float repr truncated, x, fuel + 1, hprinted, hx, hfuel => by
    rw [write, reread]
    by_cases hconstant : isConstant repr = true
    · rw [scanOnce_constant hconstant, if_pos hconstant]
    · have hfloat := ((Bool.or_eq_true _ _).mp hprinted).resolve_right hconstant
      rw [scanOnce_float hx hfloat, if_neg hconstant]
  | str value, x, fuel + 1, hprinted, hx, hfuel =>
    by rw [write, scanOnce_quote, reread, Option.map_some]
  | arr [], x, fuel + 1, hprinted, hx, hfuel => rfl
  | arr (item :: rest), x, fuel + 1, hprinted, hx, hfuel => by
    have hitems : everyItem _ _ (item :: rest) = true := hprinted
    have hitem : item.printable = true := (Bool.and_eq_true _ _ ▸ hitems).1
    obtain ⟨c, tail, htext, hblank, hne⟩ := @separated_head pad item rest hitem
    have harray := @jsonArray_write hpad (item :: rest) x fuel (List.cons_ne_nil _ _) hitems (by
      rw [write, List.length_cons, List.length_append, List.length_singleton] at hfuel
      omega)
    rw [write, List.cons_append, List.append_assoc, List.singleton_append, scanOnce,
      if_neg (by decide), if_neg (by decide), if_pos rfl, skipBlanks_separated hitem, harray, htext,
      List.cons_append, expect_cons_ne hblank hne, reread, Option.map_map, Option.map_map]
    rfl
  | obj [], x, fuel + 1, hprinted, hx, hfuel => rfl
  | obj ((key, value) :: rest), x, fuel + 1, hprinted, hx, hfuel => by
    have hmembers : everyMember _ _ ((key, value) :: rest) = true := hprinted
    have hobject :=
      @jsonObject_write hpad ((key, value) :: rest) x fuel (List.cons_ne_nil _ _) hmembers (by
      rw [write, List.length_cons, List.length_append, List.length_singleton] at hfuel
      omega)
    rw [write, List.cons_append, List.append_assoc, List.singleton_append, separated_members,
      List.cons_append, scanOnce, if_neg (by decide), if_pos rfl, expect_cons_ne rfl (by decide),
      expect_cons rfl]
    simp only [Option.bind_eq_bind, Option.bind_some, hobject, reread]
    cases rereadMembers hooks ((key, value) :: rest) <;> rfl

/-- Items that are written are read up to the bracket that closes them. -/
theorem jsonArray_write (hpad : ∀ c ∈ pad, isBlank c = true) :
    ∀ (items : List Json) {x : PyStr} {fuel : Nat},
    items ≠ [] → everyItem printableScalar (fun _ => true) items = true →
      (separated pad (writeItems pad items)).length < fuel →
        jsonArray hooks fuel (separated pad (writeItems pad items) ++ 93 :: x) =
          (rereadItems hooks items).map fun items => (items, x)
  | [], x, fuel, hne, hprinted, hfuel => absurd rfl hne
  | item :: rest, x, 0, hne, hprinted, hfuel => absurd hfuel (Nat.not_lt_zero _)
  | [item], x, fuel + 1, hne, hprinted, hfuel => by
    have hitem : item.printable = true := ((Bool.and_eq_true _ _).mp hprinted).1
    have htext : separated pad (writeItems pad [item]) = write pad item := List.append_nil _
    rw [htext] at hfuel ⊢
    have hread :=
      @scanOnce_write hpad item (93 :: x) fuel hitem (closed_cons (by decide)) (by omega)
    rw [jsonArray, hread, rereadItems, rereadItems]
    cases reread hooks item with
    | none => rfl
    | some value =>
      simp only [Option.map_some, Option.bind_eq_bind, Option.bind_some,
        expect_cons (show isBlank 93 = false from rfl)]
  | item :: next :: rest, x, fuel + 1, hne, hprinted, hfuel => by
    obtain ⟨hitem, hrest⟩ := (Bool.and_eq_true _ _).mp hprinted
    have hnext : next.printable = true := ((Bool.and_eq_true _ _).mp hrest).1
    rw [writeItems, writeItems, separated_cons_cons, ← writeItems] at hfuel ⊢
    rw [List.length_append, List.length_cons, List.length_append] at hfuel
    have hread :=
      @scanOnce_write hpad item
        (44 :: (pad ++ separated pad (writeItems pad (next :: rest)) ++ 93 :: x)) fuel
      hitem (closed_cons (by decide)) (by omega)
    have hmore :=
      @jsonArray_write hpad (next :: rest) x fuel (List.cons_ne_nil _ _) hrest (by omega)
    rw [List.append_assoc, List.cons_append, jsonArray, hread, rereadItems]
    cases reread hooks item with
    | none => rfl
    | some value =>
      simp only [Option.map_some, Option.bind_eq_bind, Option.bind_some,
        expect_cons_ne (show isBlank 44 = false from rfl) (show 44 ≠ 93 by decide),
        expect_cons (show isBlank 44 = false from rfl), List.append_assoc, skipBlanks_pad hpad,
        skipBlanks_separated hnext, hmore]
      cases rereadItems hooks (next :: rest) <;> rfl

/-- Members that are written are read up to the bracket that closes them. -/
theorem jsonObject_write (hpad : ∀ c ∈ pad, isBlank c = true) :
    ∀ (members : List (PyStr × Json)) {x : PyStr} {fuel : Nat},
      members ≠ [] → everyMember printableScalar (fun _ => true) members = true →
        (separated pad (writeMembers pad members)).length < fuel →
          jsonObject hooks fuel ((separated pad (writeMembers pad members)).tail ++ 125 :: x) =
            (rereadMembers hooks members).map fun members => (members, x)
  | [], x, fuel, hne, hprinted, hfuel => absurd rfl hne
  | (key, value) :: rest, x, 0, hne, hprinted, hfuel => absurd hfuel (Nat.not_lt_zero _)
  | [(key, value)], x, fuel + 1, hne, hprinted, hfuel => by
    have hvalue : value.printable = true := ((Bool.and_eq_true _ _).mp hprinted).1
    have htext : (separated pad (writeMembers pad [(key, value)])).tail =
        key.flatMap escape ++ 34 :: 58 :: (pad ++ write pad value) := by
      simp only [writeMembers, separated, quote, List.flatMap_nil, List.append_nil,
        List.append_assoc, List.cons_append, List.nil_append, List.tail_cons]
    have hread := @scanOnce_write hpad value (125 :: x) fuel hvalue (closed_cons (by decide)) (by
      rw [separated_members, htext] at hfuel
      simp only [List.length_append, List.length_cons] at hfuel
      omega)
    rw [htext, List.append_assoc, List.cons_append, List.cons_append, List.append_assoc,
      jsonObject_key hpad hvalue, hread, rereadMembers, rereadMembers]
    cases reread hooks value with
    | none => rfl
    | some value =>
      simp only [Option.map_some, Option.bind_some, expect_cons (show isBlank 125 = false from rfl)]
  | (key, value) :: (key', value') :: rest, x, fuel + 1, hne, hprinted, hfuel => by
    obtain ⟨hvalue, hrest⟩ := (Bool.and_eq_true _ _).mp hprinted
    have htext : (separated pad (writeMembers pad ((key, value) :: (key', value') :: rest))).tail =
        key.flatMap escape ++ 34 :: 58 :: (pad ++ (write pad value ++
          44 :: (pad ++ separated pad (writeMembers pad ((key', value') :: rest))))) := by
      simp only [writeMembers, separated, quote, List.flatMap_cons, List.append_assoc,
        List.cons_append, List.nil_append, List.tail_cons]
    rw [separated_members, htext] at hfuel
    simp only [List.length_append, List.length_cons] at hfuel
    have hread := @scanOnce_write hpad value
      (44 :: (pad ++ separated pad (writeMembers pad ((key', value') :: rest)) ++ 125 :: x)) fuel
        hvalue
      (closed_cons (by decide)) (by omega)
    have hmore :=
      @jsonObject_write hpad ((key', value') :: rest) x fuel (List.cons_ne_nil _ _) hrest (by omega)
    rw [htext, List.append_assoc, List.cons_append, List.cons_append, List.append_assoc,
      List.append_assoc, List.cons_append, jsonObject_key hpad hvalue, hread, rereadMembers]
    cases reread hooks value with
    | none => rfl
    | some value =>
      simp only [Option.map_some, Option.bind_some,
        expect_cons_ne (show isBlank 44 = false from rfl) (show 44 ≠ 125 by decide),
        expect_cons (show isBlank 44 = false from rfl), List.append_assoc, expect_pad hpad]
      rw [separated_members, List.cons_append, expect_cons rfl]
      simp only [Option.bind_some, hmore]
      cases rereadMembers hooks ((key', value') :: rest) <;> rfl

end

theorem loads_write (hpad : ∀ c ∈ pad, isBlank c = true) {value : Json}
    (hprinted : value.printable = true) :
    loads hooks (write pad value) = reread hooks value := by
  obtain ⟨c, rest, hwrite, hblank, -⟩ := @write_head pad value hprinted
  have hread := @scanOnce_write hooks pad hpad value [] (write pad value).length hprinted
    (fun d hd => absurd hd (Option.not_mem_none d)) (Nat.le_refl _)
  rw [List.append_nil] at hread
  have hskip : skipBlanks (write pad value) = write pad value := by
    rw [hwrite, skipBlanks_cons hblank]
  rw [loads, hskip, hread]
  cases reread hooks value <;> rfl

end

/-! ### Validity -/

mutual

theorem isSome_reread : ∀ value : Json, (reread Hooks.grammar value).isSome = value.finite
  | null => rfl
  | bool value => rfl
  | int value => rfl
  | float repr truncated => by
    rw [reread]
    by_cases hconstant : isConstant repr = true
    · rw [if_pos hconstant]
      exact (congrArg Bool.not hconstant).symm
    · rw [if_neg hconstant]
      exact (congrArg Bool.not (Bool.eq_false_iff.mpr hconstant)).symm
  | str value => rfl
  | arr items => by
    rw [reread, Option.isSome_map, isSome_rereadItems]
    rfl
  | obj members => by
    rw [reread, Option.isSome_map, isSome_rereadMembers]
    rfl

theorem isSome_rereadItems :
    ∀ items : List Json, (rereadItems Hooks.grammar items).isSome = everyItem finiteScalar (fun _ =>
      true) items
  | [] => rfl
  | item :: rest => by
    have hitem := isSome_reread item
    have hrest := isSome_rereadItems rest
    rw [rereadItems, everyItem, ← hrest, ← finite, ← hitem]
    cases reread Hooks.grammar item with
    | none => rfl
    | some item => cases rereadItems Hooks.grammar rest <;> rfl

theorem isSome_rereadMembers : ∀ members : List (PyStr × Json),
    (rereadMembers Hooks.grammar members).isSome = everyMember finiteScalar (fun _ => true) members
  | [] => rfl
  | (key, value) :: rest => by
    have hvalue := isSome_reread value
    have hrest := isSome_rereadMembers rest
    rw [rereadMembers, everyMember, ← hrest, ← finite, ← hvalue]
    cases reread Hooks.grammar value with
    | none => rfl
    | some value => cases rereadMembers Hooks.grammar rest <;> rfl

end

theorem isValid_dumpsSpaced {value : Json} (hprinted : value.printable = true) :
    isValid value.dumpsSpaced = value.finite := by
  rw [isValid, dumpsSpaced, loads_write (by decide) hprinted, isSome_reread]

/-! ### The hooks of `json.loads` -/

theorem strip_intText (n : Int) : strip (intText n) = intText n := by
  have hspace : ∀ c ∈ intText n, isSpace c = false := by
    intro c hc
    have hascii : ∀ c < 58, 48 ≤ c ∨ c = 45 → isSpace c = false := by decide
    rw [intText, List.mem_append] at hc
    rcases hc with hsign | hdigit
    · split_ifs at hsign
      · exact hascii c (by rw [List.mem_singleton] at hsign; omega)
          (.inr (List.mem_singleton.mp hsign))
      · cases hsign
    · obtain ⟨d, hd, rfl⟩ := List.mem_map.mp hdigit
      have hdigit' := isDigit_toNat (Nat.isDigit_of_mem_toDigits (by omega) (by omega) hd)
      simp only [isDigit, Bool.and_eq_true, decide_eq_true_eq] at hdigit'
      exact hascii _ (by omega) (.inl hdigit'.1)
  exact trim_eq_self (fun c hc => hspace c (List.mem_of_mem_head? hc)) fun c hc =>
    hspace c (List.mem_of_getLast? hc)

theorem digitsAfter_map {cs : List Char} (hdigits : ∀ c ∈ cs, c.isDigit = true) :
    digitsAfter (cs.map Char.toNat) = some (cs.map fun c => c.toNat - 48) := by
  induction cs with
  | nil => rfl
  | cons c cs ih =>
    rw [List.map_cons]
    unfold digitsAfter
    rw [digitValue?_toNat (hdigits c List.mem_cons_self),
      ih fun d hd => hdigits d (List.mem_cons_of_mem _ hd)]
    rfl

theorem natOfText_toDigits {n : Nat} (hlimit : (Nat.toDigits 10 n).length ≤ intMaxStrDigits) :
    natOfText ((Nat.toDigits 10 n).map Char.toNat) = some n := by
  have hdigits : ∀ c ∈ Nat.toDigits 10 n, c.isDigit = true := by
    intro c hc
    exact Nat.isDigit_of_mem_toDigits (by omega) (by omega) hc
  have hvalue : natOfDigits ((Nat.toDigits 10 n).map fun c => c.toNat - 48) = n := by
    rw [natOfDigits, List.foldl_map]
    exact Nat.ofDigitChars_ten_toDigits
  have hread :
      digits? ((Nat.toDigits 10 n).map Char.toNat) =
        some ((Nat.toDigits 10 n).map fun c => c.toNat - 48) := by
    cases htext : Nat.toDigits 10 n with
    | nil => exact absurd htext Nat.toDigits_ne_nil
    | cons c cs =>
      rw [htext] at hdigits
      rw [List.map_cons, digits?, digitValue?_toNat (hdigits c List.mem_cons_self),
        Option.bind_some, digitsAfter_map fun d hd => hdigits d (List.mem_cons_of_mem _ hd)]
      rfl
  rw [natOfText, hread, Option.bind_some, List.length_map, if_pos hlimit, hvalue]

theorem intOfText_intText {n : Int} (hlimit : (Nat.toDigits 10 n.natAbs).length ≤ intMaxStrDigits) :
    intOfText (intText n) = some n := by
  have hnat := natOfText_toDigits hlimit
  rw [intOfText, strip_intText, intText]
  split_ifs with hsign
  · rw [List.singleton_append]
    change Option.map (fun m : Int => -m) ((natOfText _).bind fun m => some (m : Int)) = some n
    rw [hnat]
    show some (-(n.natAbs : Int)) = some n
    rw [Option.some.injEq]
    omega
  · rw [List.nil_append]
    obtain ⟨-, c, rest, hcons, hdigit⟩ := scanUnsigned_eq (scanUnsigned_toDigits n.natAbs)
    rw [hcons] at hnat ⊢
    have hne : c ≠ 45 ∧ c ≠ 43 := by
      constructor <;> rintro rfl <;> exact absurd hdigit (by decide)
    split
    · next heq => exact absurd (List.cons.inj heq).1 hne.1
    · next heq => exact absurd (List.cons.inj heq).1 hne.2
    · rw [hnat]
      show some (n.natAbs : Int) = some n
      rw [Option.some.injEq]
      omega

theorem lookup_eq_none_of_not_mem {key : PyStr} {members : List (PyStr × Json)}
    (hkey : key ∉ members.map Prod.fst) :
    members.lookup key = none := by
  induction members with
  | nil => rfl
  | cons m members ih =>
    rw [List.map_cons, List.mem_cons, not_or] at hkey
    rw [List.lookup_cons, beq_eq_false_iff_ne.mpr hkey.1]
    exact ih hkey.2

theorem dict_of_nodup {members : List (PyStr × Json)} (hkeys : (members.map Prod.fst).Nodup) :
    dict members = members := by
  induction members with
  | nil => rfl
  | cons m members ih =>
    obtain ⟨key, value⟩ := m
    rw [List.map_cons, List.nodup_cons] at hkeys
    have hothers : members.filter (fun m => m.1 != key) = members := by
      rw [List.filter_eq_self]
      intro m hm
      rw [bne_iff_ne]
      rintro rfl
      exact hkeys.1 (List.mem_map.mpr ⟨m, hm, rfl⟩)
    rw [dict, ih hkeys.2, lookup_eq_none_of_not_mem hkeys.1, hothers]
    rfl

section

variable (float : PyStr → PyStr × Option Int)

/-- A scalar that `json.loads` can give: an integer within the limit on digits, a float that its
`repr` is read as. -/
def parsedScalar : Json → Bool
  | int value => (Nat.toDigits 10 value.natAbs).length ≤ intMaxStrDigits
  | Json.float repr truncated =>
    if isConstant repr then truncated == none
    else isFloatText repr && float repr == (repr, truncated)
  | _ => true

/-- A value that `json.loads` can give, and whatever it gives is one (`parsed_of_loads`). -/
def parsed (value : Json) : Bool := value.every (parsedScalar float) fun names => decide names.Nodup

end

section

variable {float : PyStr → PyStr × Option Int} {pad : PyStr}

mutual

theorem printable_of_parsed : ∀ {value : Json}, value.parsed float = true → value.printable = true
  | null, _ => rfl
  | bool _, _ => rfl
  | int _, _ => rfl
  | Json.float repr truncated, hparsed => by
    have hscalar : parsedScalar float (Json.float repr truncated) = true := hparsed
    rw [parsedScalar] at hscalar
    split_ifs at hscalar with hconstant
    · exact (Bool.or_eq_true _ _).mpr (.inr hconstant)
    · exact (Bool.or_eq_true _ _).mpr (.inl ((Bool.and_eq_true _ _).mp hscalar).1)
  | str _, _ => rfl
  | arr _, hparsed => printableItems_of_parsed hparsed
  | obj _, hparsed => printableMembers_of_parsed ((Bool.and_eq_true _ _).mp hparsed).2

theorem printableItems_of_parsed : ∀ {items : List Json},
    everyItem (parsedScalar float) (fun names => decide names.Nodup) items = true →
      everyItem printableScalar (fun _ => true) items = true
  | [], _ => rfl
  | _ :: _, hparsed => by
    obtain ⟨hitem, hrest⟩ := (Bool.and_eq_true _ _).mp hparsed
    exact (Bool.and_eq_true _ _).mpr ⟨printable_of_parsed hitem, printableItems_of_parsed hrest⟩

theorem printableMembers_of_parsed : ∀ {members : List (PyStr × Json)},
    everyMember (parsedScalar float) (fun names => decide names.Nodup) members = true →
      everyMember printableScalar (fun _ => true) members = true
  | [], _ => rfl
  | (_, _) :: _, hparsed => by
    obtain ⟨hvalue, hrest⟩ := (Bool.and_eq_true _ _).mp hparsed
    exact (Bool.and_eq_true _ _).mpr ⟨printable_of_parsed hvalue, printableMembers_of_parsed hrest⟩

end

mutual

theorem reread_of_parsed :
    ∀ {value : Json}, value.parsed float = true → reread (.default float) value = some value
  | null, _ => rfl
  | bool _, _ => rfl
  | int _, hparsed => by
    rw [reread, Hooks.default]
    dsimp only
    rw [intOfText_intText (of_decide_eq_true hparsed), Option.map_some]
  | Json.float repr truncated, hparsed => by
    have hscalar : parsedScalar float (Json.float repr truncated) = true := hparsed
    rw [parsedScalar] at hscalar
    rw [reread]
    split_ifs at hscalar ⊢ with hconstant
    · rw [beq_iff_eq.mp hscalar]
      rfl
    · have hread := beq_iff_eq.mp ((Bool.and_eq_true _ _).mp hscalar).2
      rw [Hooks.default]
      dsimp only
      rw [hread]
  | str _, _ => rfl
  | arr items, hparsed => by
    rw [reread, show rereadItems (.default float) items = some items from rereadItems_of_parsed
      hparsed]
    rfl
  | obj members, hparsed => by
    obtain ⟨hkeys, hmembers⟩ := (Bool.and_eq_true _ _).mp hparsed
    rw [reread, rereadMembers_of_parsed hmembers, Option.map_some,
      dict_of_nodup (of_decide_eq_true hkeys)]

theorem rereadItems_of_parsed : ∀ {items : List Json},
    everyItem (parsedScalar float) (fun names => decide names.Nodup) items = true →
      rereadItems (.default float) items = some items
  | [], _ => rfl
  | _ :: _, hparsed => by
    obtain ⟨hitem, hrest⟩ := (Bool.and_eq_true _ _).mp hparsed
    rw [rereadItems, reread_of_parsed hitem, rereadItems_of_parsed hrest]
    rfl

theorem rereadMembers_of_parsed : ∀ {members : List (PyStr × Json)},
    everyMember (parsedScalar float) (fun names => decide names.Nodup) members = true →
      rereadMembers (.default float) members = some members
  | [], _ => rfl
  | (_, _) :: _, hparsed => by
    obtain ⟨hvalue, hrest⟩ := (Bool.and_eq_true _ _).mp hparsed
    rw [rereadMembers, reread_of_parsed hvalue, rereadMembers_of_parsed hrest]
    rfl

end

theorem loads_write_of_parsed (hpad : ∀ c ∈ pad, isBlank c = true) {value : Json}
    (hparsed : value.parsed float = true) :
    loads (.default float) (write pad value) = some value := by
  rw [loads_write hpad (printable_of_parsed hparsed), reread_of_parsed hparsed]

end

end Json

end Fcam
