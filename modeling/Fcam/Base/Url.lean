import Mathlib.Data.List.TakeWhile
import Mathlib.Tactic.Common

/-!
# The text of a URL

A URL is read as octets, one character for each. `RFC 3986` gives what is used here: the path and
the query of a reference, the segments of a path, percent-escapes, and the removal of dot segments.
-/

namespace Fcam

/-! ### Percent-escapes -/

def hexValue? (c : Char) : Option Nat :=
  if '0' ≤ c ∧ c ≤ '9' then some (c.toNat - 48)
  else if 'a' ≤ c ∧ c ≤ 'f' then some (c.toNat - 87)
  else if 'A' ≤ c ∧ c ≤ 'F' then some (c.toNat - 55)
  else none

/-- The octet an escape with two digits stands for. -/
def escaped? (high low : Char) : Option Char :=
  (hexValue? high).bind fun h => (hexValue? low).map fun l => Char.ofNat (16 * h + l)

/-- The text with every escape replaced by its octet; a `%` that begins none stays. -/
def unquote : List Char → List Char
  | '%' :: high :: low :: rest =>
    match escaped? high low with
    | some c => c :: unquote rest
    | none => '%' :: unquote (high :: low :: rest)
  | c :: rest => c :: unquote rest
  | [] => []

/-- Some escape stands in the text. -/
def hasEscape : List Char → Bool
  | '%' :: high :: low :: rest => (escaped? high low).isSome || hasEscape (high :: low :: rest)
  | _ :: rest => hasEscape rest
  | [] => false

theorem unquote_cons_of_ne {c : Char} (h : c ≠ '%') (rest : List Char) :
    unquote (c :: rest) = c :: unquote rest := by
  rw [unquote]
  intro high low tail hc
  exact absurd hc h

theorem hexValue?_slash : hexValue? '/' = none := by decide

theorem escaped?_slash (high : Char) : escaped? high '/' = none := by
  rw [escaped?, hexValue?_slash]
  cases hexValue? high <;> rfl

theorem unquote_length_le (text : List Char) : (unquote text).length ≤ text.length := by
  fun_induction unquote text with
  | case1 high low rest c hc ih => simp only [List.length_cons]; omega
  | case2 high low rest hc ih => simpa only [List.length_cons, Nat.add_le_add_iff_right] using ih
  | case3 c rest hne ih => simpa only [List.length_cons, Nat.add_le_add_iff_right] using ih
  | case4 => exact Nat.le_refl 0

theorem unquote_length_lt {text : List Char} (h : hasEscape text = true) :
    (unquote text).length < text.length := by
  fun_induction unquote text with
  | case1 high low rest c hc ih =>
    have hle := unquote_length_le rest
    simp only [List.length_cons]
    omega
  | case2 high low rest hc ih =>
    rw [hasEscape, hc] at h
    simpa only [List.length_cons, Nat.add_lt_add_iff_right] using ih h
  | case3 c rest hne ih =>
    rw [hasEscape] at h
    · simpa only [List.length_cons, Nat.add_lt_add_iff_right] using ih h
    · exact hne
  | case4 => exact absurd h (by decide)

theorem unquote_of_not_hasEscape {text : List Char} (h : hasEscape text = false) :
    unquote text = text := by
  fun_induction unquote text with
  | case1 high low rest c hc ih =>
    rw [hasEscape, hc] at h
    exact absurd h (by simp)
  | case2 high low rest hc ih =>
    rw [hasEscape, hc] at h
    rw [ih h]
  | case3 c rest hne ih =>
    rw [hasEscape] at h
    · rw [ih h]
    · exact hne
  | case4 => rfl

theorem unquote_eq_self_iff {text : List Char} : unquote text = text ↔ hasEscape text = false := by
  refine ⟨fun heq => ?_, unquote_of_not_hasEscape⟩
  by_contra hescape
  have hlt := unquote_length_lt (by simpa using hescape)
  rw [heq] at hlt
  exact Nat.lt_irrefl _ hlt

theorem unquote_percent {rest : List Char}
    (h : ∀ high low tail, rest = high :: low :: tail → escaped? high low = none) :
    unquote ('%' :: rest) = '%' :: unquote rest := by
  match rest with
  | [] => rfl
  | [high] => rfl
  | high :: low :: tail => simp only [unquote, h high low tail rfl]

theorem unquote_append_slash (first rest : List Char) :
    unquote (first ++ '/' :: rest) = unquote first ++ '/' :: unquote rest := by
  fun_induction unquote first with
  | case1 high low tail c hc ih => simp only [List.cons_append, unquote, hc, ih]
  | case2 high low tail hc ih =>
    simp only [List.cons_append, unquote, hc] at ih ⊢
    rw [ih]
  | case3 c tail hne ih =>
    rw [List.cons_append, List.cons_append, ← ih]
    by_cases hpercent : c = '%'
    · subst hpercent
      refine unquote_percent fun high low after heq => ?_
      match tail, hne with
      | [], _ =>
        obtain ⟨rfl, _⟩ := List.cons.inj heq
        rw [escaped?, hexValue?_slash, Option.bind_none]
      | [digit], _ =>
        obtain ⟨_, heq⟩ := List.cons.inj heq
        obtain ⟨rfl, _⟩ := List.cons.inj heq
        exact escaped?_slash high
      | high :: low :: tail, hne => exact absurd rfl (hne high low tail rfl)
    · exact unquote_cons_of_ne hpercent _
  | case4 => exact unquote_cons_of_ne (by decide) rest

/-! ### References -/

/-- The delimiters that end the path of a reference. -/
def endsPath (c : Char) : Bool := c == '?' || c == '#'

/-- The path of a reference. -/
def pathOf (text : List Char) : List Char := text.takeWhile fun c => !endsPath c

/-- The query of a reference, empty where there is none. -/
def queryOf (text : List Char) : List Char :=
  match text.dropWhile fun c => !endsPath c with
  | '?' :: rest => rest.takeWhile (· ≠ '#')
  | _ => []

theorem pathOf_eq_self {text : List Char} (h : ∀ c ∈ text, endsPath c = false) :
    pathOf text = text :=
  List.takeWhile_eq_self_iff.mpr fun c hc => by simp [h c hc]

theorem pathOf_append {first : List Char} (h : ∀ c ∈ first, endsPath c = false) (rest : List Char) :
    pathOf (first ++ rest) = first ++ pathOf rest :=
  List.takeWhile_append_of_pos fun c hc => by simp [h c hc]

theorem pathOf_append_ends (text : List Char) {c : Char} (h : endsPath c = true)
    (rest : List Char) :
    pathOf (text ++ c :: rest) = pathOf text := by
  induction text with
  | nil => simp [pathOf, h]
  | cons head tail ih =>
    rw [pathOf, pathOf] at ih ⊢
    rw [List.cons_append, List.takeWhile_cons, List.takeWhile_cons, ih]

theorem endsPath_of_mem_pathOf {text : List Char} {c : Char} (h : c ∈ pathOf text) :
    endsPath c = false := by
  simpa using List.mem_takeWhile_imp h

theorem pathOf_length_lt {text : List Char} (h : ∃ c ∈ text, endsPath c = true) :
    (pathOf text).length < text.length := by
  refine Nat.lt_of_le_of_ne (List.takeWhile_sublist _).length_le fun heq => ?_
  obtain ⟨c, hc, hends⟩ := h
  have hself : pathOf text = text := (List.takeWhile_prefix _).eq_of_length heq
  rw [← hself] at hc
  rw [endsPath_of_mem_pathOf hc] at hends
  cases hends

theorem pathOf_append_of_ends {first : List Char} (h : ∃ c ∈ first, endsPath c = true)
    (rest : List Char) :
    pathOf (first ++ rest) = pathOf first := by
  have hshort : (first.takeWhile fun c => !endsPath c).length ≠ first.length :=
    Nat.ne_of_lt (pathOf_length_lt h)
  rw [pathOf, List.takeWhile_append, if_neg hshort, pathOf]

theorem queryOf_path {path : List Char} (h : ∀ c ∈ path, endsPath c = false) :
    queryOf path = [] := by
  have hrest : (path.dropWhile fun c => !endsPath c) = [] :=
    List.dropWhile_eq_nil_iff.mpr fun c hc => by simp [h c hc]
  rw [queryOf, hrest]

theorem queryOf_append {path query : List Char} (h : ∀ c ∈ path, endsPath c = false)
    (hquery : '#' ∉ query) :
    queryOf (path ++ '?' :: query) = query := by
  have hrest : ((path ++ '?' :: query).dropWhile fun c => !endsPath c) = '?' :: query := by
    rw [List.dropWhile_append_of_pos fun c hc => by simp [h c hc]]
    rfl
  rw [queryOf, hrest]
  exact List.takeWhile_eq_self_iff.mpr
    fun c hc => by simpa using fun heq : c = '#' => hquery (heq ▸ hc)

/-! ### Absolute references -/

/-- The parts of a URL that name its server, and its path. -/
structure Absolute where
  scheme : List Char
  authority : List Char
  path : List Char
deriving DecidableEq, Repr

/-- A URL, read as a scheme with `://`, an authority and a path. -/
def readAbsolute (url : List Char) : Absolute :=
  let scheme := url.takeWhile (· ≠ ':')
  let rest := url.drop (scheme.length + 3)
  let authority := rest.takeWhile fun c => c ≠ '/' && !endsPath c
  { scheme := scheme.map Char.toLower, authority, path := pathOf (rest.drop authority.length) }

theorem readAbsolute_append {scheme authority rest : List Char} (hscheme : ':' ∉ scheme)
    (hauthority : ∀ c ∈ authority, c ≠ '/' ∧ endsPath c = false)
    (hrest : rest.head?.all (· == '/') = true) :
    readAbsolute (scheme ++ "://".toList ++ authority ++ rest) =
      { scheme := scheme.map Char.toLower, authority, path := pathOf rest } := by
  have hurl :
      scheme ++ "://".toList ++ authority ++ rest = scheme ++ ':' :: '/' :: '/' ::
        (authority ++ rest) := by
    simp [List.append_assoc]
  have hbefore :
      (scheme ++ ':' :: '/' :: '/' :: (authority ++ rest)).takeWhile (· ≠ ':') = scheme := by
    rw [List.takeWhile_append_of_pos
      fun c hc => by simpa using fun heq : c = ':' => hscheme (heq ▸ hc)]
    simp
  have hafter : (scheme ++ ':' :: '/' :: '/' :: (authority ++ rest)).drop (scheme.length + 3) =
      authority ++ rest := by
    rw [← List.drop_drop, List.drop_left]
    rfl
  have hends : (authority ++ rest).takeWhile (fun c => c ≠ '/' && !endsPath c) = authority := by
    rw [List.takeWhile_append_of_pos fun c hc => by simpa using hauthority c hc]
    cases rest with
    | nil => simp
    | cons c rest =>
      obtain rfl : c = '/' := by simpa using hrest
      simp
  rw [readAbsolute, hurl]
  simp only [hbefore, hafter, hends, List.drop_left]

/-! ### Segments -/

/-- The segments of a path, the text between its slashes. -/
def segments (path : List Char) : List (List Char) := path.splitOn '/'

theorem segments_append_slash (first rest : List Char) :
    segments (first ++ '/' :: rest) = segments first ++ segments rest :=
  List.splitOn_append_cons_self first rest

theorem segments_of_not_mem {part : List Char} (h : '/' ∉ part) : segments part = [part] :=
  List.splitOn_eq_singleton h

theorem segments_cons_slash (rest : List Char) : segments ('/' :: rest) = [] :: segments rest :=
  List.splitOn_append_cons_self [] rest

theorem segments_cons {c : Char} (h : c ≠ '/') (rest : List Char) :
    segments (c :: rest) = (segments rest).modifyHead (c :: ·) := by
  rw [segments, List.splitOn_cons_eq_if_modifyHead, if_neg (by simpa using h), segments]

theorem segments_ne_nil (path : List Char) : segments path ≠ [] := List.splitOn_ne_nil '/' path

theorem eq_of_segments_eq_singleton {path part : List Char} (h : segments path = [part]) :
    path = part := by
  have hjoined : ['/'].intercalate (segments path) = path := List.intercalate_splitOn '/'
  rw [← hjoined, h]
  simp [List.intercalate]

theorem exists_of_segments_eq_cons {path first second : List Char} {rest : List (List Char)}
    (h : segments path = first :: second :: rest) :
    ∃ tail, path = first ++ '/' :: tail ∧ segments tail = second :: rest := by
  induction path generalizing first with
  | nil => cases h
  | cons c path ih =>
    by_cases hc : c = '/'
    · subst hc
      rw [segments_cons_slash] at h
      obtain ⟨rfl, hrest⟩ := List.cons.inj h
      exact ⟨path, rfl, hrest⟩
    · rw [segments_cons hc] at h
      cases hpath : segments path with
      | nil => exact absurd hpath (segments_ne_nil path)
      | cons head parts =>
        rw [hpath, List.modifyHead_cons] at h
        obtain ⟨rfl, rfl⟩ := List.cons.inj h
        obtain ⟨tail, htext, htail⟩ := ih hpath
        exact ⟨tail, by rw [htext, List.cons_append], htail⟩

theorem not_mem_of_mem_segments {path part : List Char}
    (h : part ∈ segments path) : '/' ∉ part := by
  induction path generalizing part with
  | nil =>
    obtain rfl := List.mem_singleton.mp h
    exact List.not_mem_nil
  | cons c rest ih =>
    by_cases hc : c = '/'
    · subst hc
      rw [segments_cons_slash, List.mem_cons] at h
      exact h.elim (fun hnil => hnil ▸ List.not_mem_nil) ih
    · rw [segments_cons hc] at h
      cases hrest : segments rest with
      | nil => exact absurd hrest (List.splitOn_ne_nil '/' rest)
      | cons head tail =>
        rw [hrest, List.modifyHead_cons, List.mem_cons] at h
        obtain rfl | hmem := h
        · rw [List.mem_cons, not_or]
          exact ⟨Ne.symm hc, ih (hrest ▸ List.mem_cons_self)⟩
        · exact ih (hrest ▸ List.mem_cons_of_mem _ hmem)

/-- The path with given segments. -/
def joined (parts : List (List Char)) : List Char := parts.flatMap ('/' :: ·)

theorem segments_joined {first : List Char} {parts : List (List Char)} (hfirst : '/' ∉ first)
    (hparts : ∀ part ∈ parts, '/' ∉ part) : segments (first ++ joined parts) = first :: parts := by
  induction parts generalizing first with
  | nil => rw [joined, List.flatMap_nil, List.append_nil, segments_of_not_mem hfirst]
  | cons part parts ih =>
    have hpart :=
      ih (hparts part List.mem_cons_self) fun other hother =>
        hparts other (List.mem_cons_of_mem _ hother)
    have htext : first ++ joined (part :: parts) = first ++ '/' :: (part ++ joined parts) := rfl
    rw [htext, segments_append_slash, segments_of_not_mem hfirst, hpart]
    rfl

theorem segments_append_joined {first : List Char} {parts : List (List Char)} (hfirst : '/' ∉ first)
    (hparts : ∀ part ∈ parts, '/' ∉ part) (rest : List Char) :
    segments (first ++ joined parts ++ '/' :: rest) = first :: parts ++ segments rest := by
  rw [segments_append_slash, segments_joined hfirst hparts]

theorem exists_segment_of_mem {path : List Char} {c : Char} (h : c ∈ path) (hc : c ≠ '/') :
    ∃ part ∈ segments path, c ∈ part := by
  induction path with
  | nil => exact absurd h List.not_mem_nil
  | cons head rest ih =>
    by_cases hhead : head = '/'
    · subst hhead
      obtain ⟨part, hpart, hmem⟩ := ih ((List.mem_cons.mp h).resolve_left hc)
      exact ⟨part, by rw [segments_cons_slash]; exact List.mem_cons_of_mem _ hpart, hmem⟩
    · rw [segments_cons hhead]
      cases hrest : segments rest with
      | nil => exact absurd hrest (segments_ne_nil rest)
      | cons first others =>
        rw [List.modifyHead_cons]
        obtain rfl | hmem := List.mem_cons.mp h
        · exact ⟨c :: first, List.mem_cons_self, List.mem_cons_self⟩
        · obtain ⟨part, hpart, hmem⟩ := ih hmem
          rw [hrest] at hpart
          obtain rfl | hpart := List.mem_cons.mp hpart
          · exact ⟨head :: part, List.mem_cons_self, List.mem_cons_of_mem _ hmem⟩
          · exact ⟨part, List.mem_cons_of_mem _ hpart, hmem⟩

theorem segments_unquote {path : List Char} (h : ∀ part ∈ segments path, '/' ∉ unquote part) :
    segments (unquote path) = (segments path).map unquote := by
  generalize hparts : segments path = parts at h ⊢
  induction parts generalizing path with
  | nil => exact absurd hparts (segments_ne_nil path)
  | cons first rest ih =>
    have hfirst : '/' ∉ unquote first := h first List.mem_cons_self
    cases rest with
    | nil =>
      obtain rfl := eq_of_segments_eq_singleton hparts
      exact segments_of_not_mem hfirst
    | cons second rest =>
      obtain ⟨tail, rfl, htail⟩ := exists_of_segments_eq_cons hparts
      rw [unquote_append_slash, segments_append_slash, segments_of_not_mem hfirst,
        ih htail fun part hpart => h part (List.mem_cons_of_mem _ hpart)]
      rfl

/-! ### Dot segments -/

/-- A segment that names something. -/
def isOrdinary (part : List Char) : Bool := part != ['.'] && part != ['.', '.']

/-- One segment read while dot segments are removed, with what has been kept so far, the last
first. -/
def stepInto (kept : List (List Char)) (part : List Char) : List (List Char) :=
  if part = ['.'] then kept else if part = ['.', '.'] then kept.tail else part :: kept

def walk (kept parts : List (List Char)) : List (List Char) := parts.foldl stepInto kept

/-- A path that ends in a dot segment ends as if a slash followed. -/
def asDirectory (parts : List (List Char)) : List (List Char) :=
  if parts.getLast?.all isOrdinary then parts else parts ++ [[]]

/-- The segments below a root once dot segments have been removed. -/
def removeDots (root parts : List (List Char)) : List (List Char) :=
  (walk root.reverse (asDirectory parts)).reverse

/-- Some `..` climbs above where the segments begin, which is so many segments below some place. -/
def climbs : Nat → List (List Char) → Bool
  | _, [] => false
  | depth, part :: rest =>
    if part = ['.'] then climbs depth rest
    else if part = ['.', '.'] then
      match depth with
      | 0 => true
      | depth + 1 => climbs depth rest
    else climbs (depth + 1) rest

theorem walk_cons (kept : List (List Char)) (part : List Char) (rest : List (List Char)) :
    walk kept (part :: rest) = walk (stepInto kept part) rest := rfl

theorem stepInto_ordinary {part : List Char} (h : isOrdinary part = true)
    (kept : List (List Char)) :
    stepInto kept part = part :: kept := by
  rw [isOrdinary, Bool.and_eq_true, bne_iff_ne, bne_iff_ne] at h
  rw [stepInto, if_neg h.1, if_neg h.2]

theorem climbs_ordinary {part : List Char} (h : isOrdinary part = true) (depth : Nat)
    (rest : List (List Char)) :
    climbs depth (part :: rest) = climbs (depth + 1) rest := by
  rw [isOrdinary, Bool.and_eq_true, bne_iff_ne, bne_iff_ne] at h
  cases depth with
  | zero => rw [climbs, if_neg h.1, if_neg h.2]
  | succ depth => rw [climbs, if_neg h.1, if_neg h.2]

theorem ordinary_cases (part : List Char) :
    part = ['.'] ∨ part = ['.', '.'] ∨ isOrdinary part = true := by
  by_cases hdot : part = ['.']
  · exact .inl hdot
  by_cases hdots : part = ['.', '.']
  · exact .inr (.inl hdots)
  · exact .inr (.inr (by simp [isOrdinary, hdot, hdots]))

theorem walk_append_of_not_climbs (above kept : List (List Char)) {parts : List (List Char)}
    (h : climbs above.length parts = false) :
    ∃ more, walk (above ++ kept) parts = more ++ kept := by
  induction parts generalizing above with
  | nil => exact ⟨above, rfl⟩
  | cons part rest ih =>
    rw [walk_cons]
    obtain rfl | rfl | hordinary := ordinary_cases part
    · exact ih above h
    · cases above with
      | nil => exact absurd h (by simp [climbs])
      | cons top below => exact ih below h
    · rw [stepInto_ordinary hordinary]
      rw [climbs_ordinary hordinary] at h
      exact ih (part :: above) h

/-- What is kept in the end was kept all along, or the segment on its top is one above which nothing
climbs later. -/
theorem kept_of_walk {kept parts more : List (List Char)} {top : List Char}
    {below : List (List Char)} (h : walk kept parts = more ++ top :: below) :
    (∃ above, kept = above ++ top :: below ∧ climbs above.length parts = false) ∨
      ∃ before after, parts = before ++ top :: after ∧ isOrdinary top = true ∧
        walk kept before = below ∧
        climbs 0 after = false := by
  induction parts generalizing kept with
  | nil => exact .inl ⟨more, h, rfl⟩
  | cons part rest ih =>
    rw [walk_cons] at h
    obtain ⟨above, hkept, hclimbs⟩ | ⟨before, after, hrest, hordinary, hbelow, hclimbs⟩ := ih h
    · obtain rfl | rfl | hordinary := ordinary_cases part
      · exact .inl ⟨above, hkept, hclimbs⟩
      · cases kept with
        | nil => exact absurd hkept (by simp [stepInto])
        | cons last kept => exact .inl ⟨last :: above, congrArg (last :: ·) hkept, hclimbs⟩
      · rw [stepInto_ordinary hordinary] at hkept
        cases above with
        | nil =>
          obtain ⟨rfl, rfl⟩ := List.cons.inj hkept
          exact .inr ⟨[], rest, rfl, hordinary, rfl, hclimbs⟩
        | cons last above =>
          obtain ⟨rfl, rfl⟩ := List.cons.inj hkept
          refine .inl ⟨above, rfl, ?_⟩
          rw [climbs_ordinary hordinary]
          exact hclimbs
    · exact .inr ⟨part :: before, after, by rw [hrest, List.cons_append], hordinary, hbelow,
        hclimbs⟩

/-- A segment stands in the end directly on what is below it if and only if it did so once and
nothing climbs above it later. -/
theorem walk_keeps_iff {kept parts : List (List Char)} {top : List Char} {below : List (List Char)}
    (hlonger : kept.length ≤ below.length) :
    (∃ more, walk kept parts = more ++ top :: below) ↔
      ∃ before after, parts = before ++ top :: after ∧ isOrdinary top = true ∧
        walk kept before = below ∧
        climbs 0 after = false := by
  constructor
  · rintro ⟨more, hwalk⟩
    obtain ⟨above, rfl, _⟩ | hfound := kept_of_walk hwalk
    · simp only [List.length_append, List.length_cons] at hlonger
      omega
    · exact hfound
  · rintro ⟨before, after, rfl, hordinary, hbelow, hclimbs⟩
    have hwalk : walk kept (before ++ top :: after) = walk (top :: below) after := by
      rw [walk, List.foldl_append, List.foldl_cons]
      show walk (stepInto (walk kept before) top) after = _
      rw [hbelow, stepInto_ordinary hordinary]
    rw [hwalk]
    exact walk_append_of_not_climbs [] (top :: below) hclimbs

end Fcam
