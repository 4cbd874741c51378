import Mathlib.Algebra.Group.Nat.Defs
import Mathlib.Data.List.Infix
import Fcam.Proof.JsonRoundTrip

/-!
# What is read is well formed

A value that `json.loads` gives has distinct keys, integers within the limit on digits, floats known
by their `repr`, and strings of code points. Every scanner gives a character, a string or a number
of the text it reads, and what follows it.
-/

namespace Fcam

namespace Json

variable {text rest : PyStr}

/-! ### Strings -/

theorem all_of_suffix {q : Nat → Bool} (hsuffix : rest <:+ text) (htext : text.all q = true) :
    rest.all q = true := by
  rw [List.all_eq_true] at htext ⊢
  exact fun c hc => htext c (hsuffix.subset hc)

theorem skipBlanks_suffix (text : PyStr) : skipBlanks text <:+ text := List.dropWhile_suffix _

theorem expect_suffix {c : Nat} (h : expect c text = some rest) : rest <:+ text := by
  rw [expect] at h
  split at h
  · cases h
  · next d after hskip =>
    split_ifs at h
    rw [← Option.some.inj h]
    exact ((List.suffix_cons d after).trans (hskip ▸ List.suffix_rfl)).trans
      (skipBlanks_suffix text)

theorem hexValue?_lt {c d : Nat} (h : hexValue? c = some d) : d < 16 := by
  rw [hexValue?] at h
  split_ifs at h <;> (have hd := Option.some.inj h; omega)

theorem decodeUXXXX_suffix {read : Nat × PyStr} (h : decodeUXXXX text = some read) :
    read.1 < 0x10000 ∧ read.2 <:+ text := by
  rw [decodeUXXXX.eq_def] at h
  split at h
  · next a b c d after =>
    simp only [Option.bind_eq_bind, Option.bind_eq_some_iff, Option.some.injEq] at h
    obtain ⟨a', ha, b', hb, c', hc, d', hd, rfl⟩ := h
    have ha := hexValue?_lt ha
    have hb := hexValue?_lt hb
    have hc := hexValue?_lt hc
    have hd := hexValue?_lt hd
    exact ⟨by dsimp only; omega, [a, b, c, d], rfl⟩
  · cases h

theorem lowSurrogate?_suffix {read : Nat × PyStr} (h : lowSurrogate? text = some read) :
    0xdc00 ≤ read.1 ∧ read.1 ≤ 0xdfff ∧ read.2 <:+ text := by
  rw [lowSurrogate?.eq_def] at h
  split at h
  · next after =>
    obtain ⟨hread, hlow⟩ := Option.filter_eq_some_iff.mp h
    rw [Bool.and_eq_true, decide_eq_true_eq, decide_eq_true_eq] at hlow
    exact ⟨hlow.1, hlow.2, (decodeUXXXX_suffix hread).2.trans ⟨[92, 117], rfl⟩⟩
  · cases h

theorem scanEscape_suffix {read : Nat × PyStr} (h : scanEscape text = some read) :
    read.1 < 0x110000 ∧ read.2 <:+ text := by
  cases text with
  | nil => cases h
  | cons c after =>
    rw [scanEscape] at h
    split_ifs at h with hunicode
    · obtain ⟨unit, hunit, rfl⟩ := Option.map_eq_some_iff.mp h
      obtain ⟨hlt, hsuffix⟩ := decodeUXXXX_suffix hunit
      split
      · next low hlow =>
        split_ifs at hlow with hhigh
        obtain ⟨hleast, hmost, hafter⟩ := lowSurrogate?_suffix hlow
        exact ⟨by dsimp only; omega, (hafter.trans hsuffix).trans (List.suffix_cons c after)⟩
      · exact ⟨by omega, hsuffix.trans (List.suffix_cons c after)⟩
    · obtain ⟨d, hd, rfl⟩ := Option.map_eq_some_iff.mp h
      have hsmall : ∀ e ∈ backslash, e.2 < 0x110000 := by decide
      obtain ⟨before, others, heq, -⟩ := List.lookup_eq_some_iff.mp hd
      have hmem : (c, d) ∈ backslash := heq ▸ List.mem_append_right _ List.mem_cons_self
      exact ⟨hsmall _ hmem, List.suffix_cons c after⟩

theorem scanString_suffix {fuel : Nat} {read : PyStr × PyStr} (h : scanString fuel text = some read)
    (htext : text.all (· < 0x110000) = true) :
    read.1.all (· < 0x110000) = true ∧ read.2 <:+ text := by
  induction fuel generalizing text read with
  | zero => cases h
  | succ fuel ih =>
    cases text with
    | nil => cases h
    | cons c after =>
      obtain ⟨hc, hafter⟩ := (Bool.and_eq_true _ _).mp htext
      rw [scanString] at h
      split_ifs at h with hquote hcontrol hslash
      · rw [← Option.some.inj h]
        exact ⟨rfl, List.suffix_cons c after⟩
      · simp only [Option.bind_eq_bind, Option.bind_eq_some_iff] at h
        obtain ⟨first, hfirst, others, hothers, hread⟩ := h
        obtain rfl := Option.some.inj hread
        obtain ⟨hlt, hsuffix⟩ := scanEscape_suffix hfirst
        obtain ⟨hall, hrest⟩ := ih hothers (all_of_suffix hsuffix hafter)
        exact ⟨(Bool.and_eq_true _ _).mpr ⟨decide_eq_true hlt, hall⟩,
          (hrest.trans hsuffix).trans (List.suffix_cons c after)⟩
      · simp only [Option.bind_eq_bind, Option.bind_some, Option.bind_eq_some_iff] at h
        obtain ⟨others, hothers, hread⟩ := h
        obtain rfl := Option.some.inj hread
        obtain ⟨hall, hrest⟩ := ih hothers hafter
        exact ⟨(Bool.and_eq_true _ _).mpr ⟨hc, hall⟩, hrest.trans (List.suffix_cons c after)⟩

/-! ### Numbers -/

theorem matchNumber_suffix {number : NumberMatch} (h : matchNumber text = some number) :
    number.rest <:+ text := by
  rw [← (matchNumber_eq h).1]
  exact List.suffix_append _ _

theorem digitValue?_lt {c d : Nat} (h : digitValue? c = some d) : d < 10 := by
  rw [digitValue?] at h
  obtain ⟨first, -, hfirst⟩ := List.exists_of_findSome?_eq_some h
  split_ifs at hfirst
  have hd := Option.some.inj hfirst
  omega

theorem digitsAfter_lt {text digits : List Nat} (h : digitsAfter text = some digits) :
    ∀ d ∈ digits, d < 10 := by
  induction text using digitsAfter.induct generalizing digits with
  | case1 =>
    obtain rfl := Option.some.inj h
    exact List.forall_mem_nil _
  | case2 c rest d hd ih =>
    unfold digitsAfter at h
    rw [hd] at h
    obtain ⟨others, hothers, rfl⟩ := Option.map_eq_some_iff.mp h
    exact List.forall_mem_cons.mpr ⟨digitValue?_lt hd, ih hothers⟩
  | case3 hd => cases h
  | case4 next rest hd ih =>
    unfold digitsAfter at h
    rw [hd] at h
    obtain ⟨d, hnext, hmap⟩ := Option.bind_eq_some_iff.mp h
    obtain ⟨others, hothers, rfl⟩ := Option.map_eq_some_iff.mp hmap
    exact List.forall_mem_cons.mpr ⟨digitValue?_lt hnext, ih hothers⟩
  | case5 c rest hd hc =>
    unfold digitsAfter at h
    rw [hd] at h
    exact absurd h (by rw [if_neg hc]; exact Option.some_ne_none _ ∘ Eq.symm)

theorem digits?_lt {digits : List Nat} (h : digits? text = some digits) :
    0 < digits.length ∧ ∀ d ∈ digits, d < 10 := by
  cases text with
  | nil => cases h
  | cons c rest =>
    obtain ⟨d, hd, hmap⟩ := Option.bind_eq_some_iff.mp h
    obtain ⟨others, hothers, rfl⟩ := Option.map_eq_some_iff.mp hmap
    exact ⟨Nat.succ_pos _, List.forall_mem_cons.mpr ⟨digitValue?_lt hd, digitsAfter_lt hothers⟩⟩

theorem natOfDigits_lt {digits : List Nat} (hdigits : ∀ d ∈ digits, d < 10) :
    natOfDigits digits < 10 ^ digits.length := by
  induction digits using List.reverseRecOn with
  | nil => exact Nat.one_pos
  | append_singleton digits d ih =>
    have hlast := hdigits d (List.mem_append_right _ (List.mem_singleton_self d))
    have hfirst := ih fun d hd => hdigits d (List.mem_append_left _ hd)
    rw [natOfDigits, List.foldl_append, ← natOfDigits, List.foldl_cons, List.foldl_nil,
      List.length_append, List.length_singleton, Nat.pow_succ]
    omega

theorem length_of_natOfText {n : Nat} (h : natOfText text = some n) :
    (Nat.toDigits 10 n).length ≤ intMaxStrDigits := by
  obtain ⟨digits, hread, hvalue⟩ := Option.bind_eq_some_iff.mp h
  obtain ⟨hpos, hdigits⟩ := digits?_lt hread
  split_ifs at hvalue with hlimit
  rw [← Option.some.inj hvalue]
  exact ((Nat.length_toDigits_le_iff (by omega) hpos).mpr (natOfDigits_lt hdigits)).trans hlimit

theorem length_of_intOfText {n : Int} (h : intOfText text = some n) :
    (Nat.toDigits 10 n.natAbs).length ≤ intMaxStrDigits := by
  have hcast : ∀ {s : PyStr} {m : Int}, ((natOfText s).bind fun a => some (a : Int)) = some m →
      (Nat.toDigits 10 m.natAbs).length ≤ intMaxStrDigits := by
    intro s m hm
    obtain ⟨a, ha, heq⟩ := Option.bind_eq_some_iff.mp hm
    rw [← Option.some.inj heq, Int.natAbs_natCast]
    exact length_of_natOfText ha
  rw [intOfText] at h
  split at h <;> obtain ⟨m, hm, rfl⟩ := Option.map_eq_some_iff.mp h
  · rw [Int.natAbs_neg]
    exact hcast hm
  · exact hcast hm
  · exact hcast hm

/-! ### Dictionaries -/

theorem mem_of_mem_dict {m : PyStr × Json} {pairs : List (PyStr × Json)}
    (hm : m ∈ dict pairs) : m ∈ pairs := by
  induction pairs generalizing m with
  | nil => cases hm
  | cons pair rest ih =>
    obtain ⟨key, value⟩ := pair
    rw [dict, List.mem_cons] at hm
    rcases hm with rfl | hm
    · cases hlookup : (dict rest).lookup key with
      | none => exact List.mem_cons_self
      | some last =>
        obtain ⟨before, others, heq, -⟩ := List.lookup_eq_some_iff.mp hlookup
        have hlast : (key, last) ∈ dict rest := heq ▸ List.mem_append_right _ List.mem_cons_self
        exact List.mem_cons_of_mem _ (ih hlast)
    · exact List.mem_cons_of_mem _ (ih (List.mem_filter.mp hm).1)

theorem nodup_dict (pairs : List (PyStr × Json)) : ((dict pairs).map Prod.fst).Nodup := by
  induction pairs with
  | nil => exact List.nodup_nil
  | cons pair rest ih =>
    obtain ⟨key, value⟩ := pair
    rw [dict, List.map_cons, List.nodup_cons]
    constructor
    · intro hkey
      obtain ⟨m, hm, heq⟩ := List.mem_map.mp hkey
      exact bne_iff_ne.mp (List.mem_filter.mp hm).2 heq
    · exact ih.sublist (List.filter_sublist.map Prod.fst)

theorem everyMember_iff {scalar : Json → Bool} {names : List PyStr → Bool}
    {members : List (PyStr × Json)} :
    everyMember scalar names members = true ↔ ∀ m ∈ members, m.2.every scalar names = true := by
  induction members with
  | nil => exact ⟨fun _ => List.forall_mem_nil _, fun _ => rfl⟩
  | cons m members ih => rw [everyMember, Bool.and_eq_true, ih, List.forall_mem_cons]

/-! ### Values -/

/-- The hooks, and the strings and the keys of objects, keep what is asked of scalars and of
keys. -/
structure Hooks.Gives (hooks : Hooks) (scalar : Json → Bool)
    (names : List PyStr → Bool) : Prop where
  word : scalar null = true ∧ ∀ value, scalar (bool value) = true
  string : ∀ {s : PyStr}, s.all (· < 0x110000) = true → scalar (str s) = true
  keys : ∀ {keys : List PyStr}, keys.Nodup → (∀ key ∈ keys, key.all (· < 0x110000) = true) →
    names keys = true
  number : ∀ {text : PyStr} {number : NumberMatch} {read : Json × PyStr},
    matchNumber text = some number → scanNumber hooks number = some read →
      read.1.every scalar names = true
  constant : ∀ {name : PyStr} {value : Json},
    isConstant name = true → hooks.parseConstant name = some value → value.every scalar names = true

section

variable {hooks : Hooks} {scalar : Json → Bool} {names : List PyStr → Bool}

theorem scanNumber_rest {number : NumberMatch} {read : Json × PyStr}
    (h : scanNumber hooks number = some read) :
    read.2 = number.rest := by
  obtain ⟨value, -, rfl⟩ := Option.map_eq_some_iff.mp h
  rfl

theorem scanWord_gives (hgives : hooks.Gives scalar names) {read : Json × PyStr}
    (h : scanWord hooks text = some read) :
    read.1.every scalar names = true ∧ read.2 <:+ text := by
  obtain ⟨word, hword, hmap⟩ := Option.bind_eq_some_iff.mp h
  obtain ⟨value, hvalue, rfl⟩ := Option.map_eq_some_iff.mp hmap
  refine ⟨?_, List.drop_suffix _ _⟩
  rcases List.mem_append.mp (List.mem_of_find?_eq_some hword) with hplain | hconstant
  · simp only [List.mem_cons, List.not_mem_nil, or_false] at hplain
    rcases hplain with rfl | rfl | rfl <;> obtain rfl := Option.some.inj hvalue
    · exact hgives.word.1
    · exact hgives.word.2 true
    · exact hgives.word.2 false
  · obtain ⟨name, hname, rfl⟩ := List.mem_map.mp hconstant
    exact hgives.constant (List.contains_iff_mem.mpr (List.mem_map_of_mem hname)) hvalue

theorem obj_gives (hgives : hooks.Gives scalar names) {pairs : List (PyStr × Json)}
    (hkeys : ∀ m ∈ pairs, m.1.all (· < 0x110000) = true)
    (hvalues : everyMember scalar names pairs = true) :
    (obj (dict pairs)).every scalar names = true := by
  rw [every, Bool.and_eq_true]
  constructor
  · refine hgives.keys (nodup_dict pairs) fun key hkey => ?_
    obtain ⟨m, hm, rfl⟩ := List.mem_map.mp hkey
    exact hkeys m (mem_of_mem_dict hm)
  · exact everyMember_iff.mpr fun m hm => everyMember_iff.mp hvalues m (mem_of_mem_dict hm)

mutual

/-- What is read is as the hooks give it, and what follows it is the end of the text. -/
theorem scanOnce_gives (hgives : hooks.Gives scalar names) :
    ∀ {fuel : Nat} {text : PyStr} {read : Json × PyStr},
    text.all (· < 0x110000) = true → scanOnce hooks fuel text = some read →
      read.1.every scalar names = true ∧ read.2 <:+ text
  | 0, _, _, _, h => by cases h
  | _ + 1, [], _, _, h => by cases h
  | fuel + 1, c :: rest, read, htext, h => by
    have hrest : rest.all (· < 0x110000) = true := ((Bool.and_eq_true _ _).mp htext).2
    rw [scanOnce] at h
    split_ifs at h with hquote hbrace hbracket
    · obtain ⟨string, hstring, rfl⟩ := Option.map_eq_some_iff.mp h
      obtain ⟨hall, hsuffix⟩ := scanString_suffix hstring hrest
      exact ⟨hgives.string hall, hsuffix.trans (List.suffix_cons c rest)⟩
    · split at h
      · next after hafter =>
        obtain rfl := Option.some.inj h
        exact ⟨obj_gives hgives (List.forall_mem_nil _) rfl,
          (expect_suffix hafter).trans (List.suffix_cons c rest)⟩
      · simp only [Option.bind_eq_bind, Option.bind_eq_some_iff] at h
        obtain ⟨first, hfirst, members, hmembers, hread⟩ := h
        obtain rfl := Option.some.inj hread
        have hsuffix := expect_suffix hfirst
        obtain ⟨hkeys, hvalues, hafter⟩ :=
          jsonObject_gives hgives (all_of_suffix hsuffix hrest) hmembers
        exact ⟨obj_gives hgives hkeys hvalues,
          (hafter.trans hsuffix).trans (List.suffix_cons c rest)⟩
    · split at h
      · next after hafter =>
        obtain rfl := Option.some.inj h
        exact ⟨rfl, (expect_suffix hafter).trans (List.suffix_cons c rest)⟩
      · obtain ⟨items, hitems, rfl⟩ := Option.map_eq_some_iff.mp h
        have hsuffix := skipBlanks_suffix rest
        obtain ⟨hall, hafter⟩ := jsonArray_gives hgives (all_of_suffix hsuffix hrest) hitems
        exact ⟨hall, (hafter.trans hsuffix).trans (List.suffix_cons c rest)⟩
    · split at h
      · next number hnumber =>
        refine ⟨hgives.number hnumber h, ?_⟩
        rw [scanNumber_rest h]
        exact matchNumber_suffix hnumber
      · exact scanWord_gives hgives h

theorem jsonArray_gives (hgives : hooks.Gives scalar names) :
    ∀ {fuel : Nat} {text : PyStr} {read : List Json × PyStr},
      text.all (· < 0x110000) = true → jsonArray hooks fuel text = some read →
        everyItem scalar names read.1 = true ∧ read.2 <:+ text
  | 0, _, _, _, h => by cases h
  | fuel + 1, text, read, htext, h => by
    rw [jsonArray] at h
    simp only [Option.bind_eq_bind, Option.bind_eq_some_iff] at h
    obtain ⟨item, hitem, h⟩ := h
    obtain ⟨hvalue, hafter⟩ := scanOnce_gives hgives htext hitem
    split at h
    · next rest hrest =>
      obtain rfl := Option.some.inj h
      exact ⟨(Bool.and_eq_true _ _).mpr ⟨hvalue, rfl⟩, (expect_suffix hrest).trans hafter⟩
    · simp only [Option.bind_eq_some_iff] at h
      obtain ⟨rest, hrest, items, hitems, hread⟩ := h
      obtain rfl := Option.some.inj hread
      have hsuffix := ((skipBlanks_suffix rest).trans (expect_suffix hrest)).trans hafter
      obtain ⟨hall, hend⟩ := jsonArray_gives hgives (all_of_suffix hsuffix htext) hitems
      exact ⟨(Bool.and_eq_true _ _).mpr ⟨hvalue, hall⟩, hend.trans hsuffix⟩

theorem jsonObject_gives (hgives : hooks.Gives scalar names) :
    ∀ {fuel : Nat} {text : PyStr} {read : List (PyStr × Json) × PyStr},
      text.all (· < 0x110000) = true → jsonObject hooks fuel text = some read →
        (∀ m ∈ read.1, m.1.all (· < 0x110000) = true) ∧
          everyMember scalar names read.1 = true ∧ read.2 <:+ text
  | 0, _, _, _, h => by cases h
  | fuel + 1, text, read, htext, h => by
    rw [jsonObject] at h
    simp only [Option.bind_eq_bind, Option.bind_eq_some_iff] at h
    obtain ⟨key, hkey, colon, hcolon, value, hvalue, h⟩ := h
    obtain ⟨hname, hkeyRest⟩ := scanString_suffix hkey htext
    have hcolonRest := ((skipBlanks_suffix colon).trans (expect_suffix hcolon)).trans hkeyRest
    obtain ⟨hgiven, hvalueRest⟩ := scanOnce_gives hgives (all_of_suffix hcolonRest htext) hvalue
    have hafter := hvalueRest.trans hcolonRest
    split at h
    · next rest hrest =>
      obtain rfl := Option.some.inj h
      exact ⟨List.forall_mem_singleton.mpr hname, (Bool.and_eq_true _ _).mpr ⟨hgiven, rfl⟩,
        (expect_suffix hrest).trans hafter⟩
    · simp only [Option.bind_eq_some_iff] at h
      obtain ⟨comma, hcomma, rest, hrest, pairs, hpairs, hread⟩ := h
      obtain rfl := Option.some.inj hread
      have hsuffix := ((expect_suffix hrest).trans (expect_suffix hcomma)).trans hafter
      obtain ⟨hkeys, hvalues, hend⟩ := jsonObject_gives hgives (all_of_suffix hsuffix htext) hpairs
      exact ⟨List.forall_mem_cons.mpr ⟨hname, hkeys⟩, (Bool.and_eq_true _ _).mpr ⟨hgiven, hvalues⟩,
        hend.trans hsuffix⟩

end

theorem loads_gives (hgives : hooks.Gives scalar names) {value : Json}
    (htext : text.all (· < 0x110000) = true) (h : loads hooks text = some value) :
    value.every scalar names = true := by
  obtain ⟨read, hread, hend⟩ := Option.bind_eq_some_iff.mp h
  split_ifs at hend
  obtain rfl := Option.some.inj hend
  exact (scanOnce_gives hgives (all_of_suffix (skipBlanks_suffix text) htext) hread).1

end

section

variable {float : PyStr → PyStr × Option Int}

/-- The characters of a text are as `q` says. -/
def textScalar (q : Nat → Bool) : Json → Bool
  | str value => value.all q
  | _ => true

/-- The characters of every string in a value, keys included, are as `q` says. -/
def textsAll (q : Nat → Bool) (value : Json) : Bool :=
  value.every (textScalar q) fun names => names.all fun name => name.all q

/-- What `float` makes of the text of a number is known by its `repr`. -/
def ReadsFloats (float : PyStr → PyStr × Option Int) : Prop :=
  ∀ {text : PyStr} {number : NumberMatch}, matchNumber text = some number → number.fraction ≠ [] →
    parsedScalar float
      (.float (float (number.integer ++ number.fraction)).1
       (float (number.integer ++ number.fraction)).2) = true

theorem default_gives_parsed (hfloat : ReadsFloats float) :
    (Hooks.default float).Gives (parsedScalar float) fun names => decide names.Nodup where
  word := ⟨rfl, fun _ => rfl⟩
  string _ := rfl
  keys hnodup _ := decide_eq_true hnodup
  number {text number read} hmatch h := by
    rw [scanNumber] at h
    obtain ⟨value, hvalue, rfl⟩ := Option.map_eq_some_iff.mp h
    split_ifs at hvalue with hinteger
    · obtain ⟨n, hn, rfl⟩ := Option.map_eq_some_iff.mp hvalue
      exact decide_eq_true (length_of_intOfText hn)
    · obtain rfl := Option.some.inj hvalue
      exact hfloat hmatch hinteger
  constant {name value} hconstant h := by
    obtain rfl := Option.some.inj h
    show parsedScalar float (.float name none) = true
    rw [parsedScalar, if_pos hconstant]
    rfl

theorem default_gives_codePoints :
    (Hooks.default float).Gives (textScalar (· < 0x110000)) fun names => names.all fun name =>
      name.all (· < 0x110000) where
  word := ⟨rfl, fun _ => rfl⟩
  string hs := hs
  keys _ hkeys := List.all_eq_true.mpr hkeys
  number {text number read} hmatch h := by
    rw [scanNumber] at h
    obtain ⟨value, hvalue, rfl⟩ := Option.map_eq_some_iff.mp h
    split_ifs at hvalue
    · obtain ⟨n, hn, rfl⟩ := Option.map_eq_some_iff.mp hvalue
      rfl
    · obtain rfl := Option.some.inj hvalue
      rfl
  constant {name value} hconstant h := by
    obtain rfl := Option.some.inj h
    rfl

/-- Whatever `json.loads` gives is read back once it is written. -/
theorem parsed_of_loads (hfloat : ReadsFloats float) {value : Json}
    (htext : text.all (· < 0x110000) = true) (h : loads (Hooks.default float) text = some value) :
    value.parsed float = true ∧ value.textsAll (· < 0x110000) = true :=
  ⟨loads_gives (default_gives_parsed hfloat) htext h, loads_gives default_gives_codePoints htext h⟩

end

end Json

end Fcam
