import Mathlib.Data.List.DropRight
import Fcam.Model.DatabaseUrl

/-!
# The application and the migration tool open one file

Both put a path behind `sqlite:///`, each in its own form, and SQLAlchemy opens the absolute path of
what stands there. The application takes all leading dots and slashes away from a relative path; the
tool's form is that of `pathlib`, which loses the `./` before what then is a drive. Either is read
as the path itself exactly where `PathKept` says so (`same_file_iff`).
-/

namespace Fcam

/-! ### Characters -/

section

variable {text path : PyStr} {windows : Bool}

theorem not_mem_forwardSlashes (text : PyStr) : 92 ∉ forwardSlashes text := by
  intro h
  obtain ⟨c, -, hc⟩ := List.mem_map.mp h
  split at hc
  · cases hc
  · next hne => exact hne hc

theorem forwardSlashes_of_not_mem (h : 92 ∉ text) : forwardSlashes text = text := by
  conv_rhs => rw [← List.map_id text]
  apply List.map_congr_left
  intro c hc
  have hne : c ≠ 92 := fun heq => h (heq ▸ hc)
  show (if c = 92 then 47 else c) = c
  rw [if_neg hne]

theorem mem_forwardSlashes {c : Nat} (hslash : c ≠ 47) (hback : c ≠ 92) :
    c ∈ forwardSlashes text ↔ c ∈ text := by
  rw [forwardSlashes, List.mem_map]
  refine ⟨?_, fun hmem => ⟨c, hmem, if_neg hback⟩⟩
  intro ⟨d, hmem, hd⟩
  split at hd
  · exact absurd hd.symm hslash
  · exact hd ▸ hmem

theorem nativePath_of_not_mem (h : 92 ∉ text) : nativePath windows text = text := by
  rw [nativePath]
  split
  · exact forwardSlashes_of_not_mem h
  · rfl

theorem nativePath_eq (h : windows = false → 92 ∉ path) :
    nativePath windows path = forwardSlashes path := by
  cases windows with
  | true => rfl
  | false => rw [nativePath_of_not_mem (h rfl), forwardSlashes_of_not_mem (h rfl)]

theorem takeWhile_of_not_mem (h : 63 ∉ text) : (text.takeWhile fun c => c ≠ 63) = text := by
  rw [List.takeWhile_eq_self_iff]
  intro c hc
  exact decide_eq_true fun heq => h (heq ▸ hc)

end

/-! ### How a path is read -/

section

variable {path : PyStr} {windows : Bool}

theorem hasDrive_eq_false (h : ∀ c ∈ path.head?, c < 65) : hasDrive path = false := by
  cases path with
  | nil => rfl
  | cons c rest =>
    have hc := h c rfl
    rw [hasDrive.eq_def]
    split
    · next heq =>
      obtain ⟨rfl, -⟩ := List.cons.inj heq
      simp only [Bool.or_eq_false_iff, Bool.and_eq_false_iff, decide_eq_false_iff_not]
      exact ⟨.inl (by omega), .inl (by omega)⟩
    · rfl

theorem exists_of_hasDrive (h : hasDrive path = true) :
    ∃ letter rest, path = letter :: 58 :: rest ∧ 65 ≤ letter := by
  rw [hasDrive.eq_def] at h
  split at h
  · next letter rest =>
    refine ⟨letter, rest, rfl, ?_⟩
    simp only [Bool.or_eq_true, Bool.and_eq_true, decide_eq_true_eq] at h
    omega
  · cases h

theorem take_two_ne (h : ¬Rooted 47 path) : path.take 2 ≠ [47, 47] := by
  intro htake
  cases path with
  | nil => cases htake
  | cons c rest => exact h (congrArg some (List.cons.inj htake).1)

theorem parsePath_of_rooted (h : Rooted 47 path)
    (hshare : windows = true → path.take 2 ≠ [47, 47]) :
    parsePath windows path = (.root, pathSegments 47 46 path) := by
  have hdrive : hasDrive path = false := by
    apply hasDrive_eq_false
    rw [h]
    intro c hc
    rw [← Option.some.inj hc]
    decide
  rw [parsePath, if_neg fun hboth => hshare hboth.1 hboth.2, hdrive,
    if_neg fun hboth => Bool.false_ne_true hboth.2, if_pos h]

theorem parsePath_of_relative (h : ¬Rooted 47 path)
    (hdrive : windows = true → hasDrive path = false) :
    parsePath windows path = (.cwd, pathSegments 47 46 path) := by
  rw [parsePath, if_neg fun hboth => take_two_ne h hboth.2, if_neg ?_, if_neg h]
  intro hboth
  rw [hdrive hboth.1] at hboth
  cases hboth.2

theorem parsePath_of_drive (h : hasDrive path = true) :
    parsePath true path =
      ((if Rooted 47 (path.drop 2) then PathStart.drive else PathStart.driveCwd) (path.headD 0),
        pathSegments 47 46 (path.drop 2)) := by
  have hrelative : ¬Rooted 47 path := by
    obtain ⟨letter, rest, rfl, hletter⟩ := exists_of_hasDrive h
    intro hrooted
    have hslash : letter = 47 := Option.some.inj hrooted
    omega
  rw [parsePath, if_neg fun hboth => take_two_ne hrelative hboth.2, if_pos ⟨rfl, h⟩]

theorem parsePath_posix (path : PyStr) :
    parsePath false path = (if Rooted 47 path then .root else .cwd, pathSegments 47 46 path) := by
  rw [parsePath, if_neg fun hboth => Bool.false_ne_true hboth.1,
    if_neg fun hboth => Bool.false_ne_true hboth.1]

theorem head?_of_hasDrive (h : hasDrive path = true) :
    ∃ first ∈ (pathSegments 47 46 path).head?, hasDrive first = true := by
  obtain ⟨letter, rest, rfl, hletter⟩ := exists_of_hasDrive h
  have hmark : (58 : Nat) ≠ 47 := by decide
  have hplain : letter ≠ 47 := by omega
  obtain ⟨name, others, -, hcolon⟩ := splitOn_cons_of_ne hmark rest
  obtain ⟨name', others', hsplit, hboth⟩ := splitOn_cons_of_ne hplain (58 :: rest)
  obtain ⟨rfl, rfl⟩ := List.cons.inj (hsplit.symm.trans hcolon)
  refine ⟨letter :: 58 :: name, ?_, h⟩
  rw [pathSegments, hboth, List.filter_cons_of_pos (by simp)]
  rfl

theorem hasDrive_eq_false_of_head
    (h : ∀ first ∈ (pathSegments 47 46 path).head?, hasDrive first = false) :
    hasDrive path = false := by
  by_contra hsome
  rw [Bool.not_eq_false] at hsome
  obtain ⟨first, hfirst, hdrive⟩ := head?_of_hasDrive hsome
  rw [h first hfirst] at hdrive
  cases hdrive

end

/-! ### What stands behind `sqlite:///` -/

/-- The application's form of a path with forward slashes. -/
def appForm (path : PyStr) : PyStr :=
  if Rooted 47 path then 47 :: lstripSlashes path
  else if isDrivePath path then path
  else [46, 47] ++ stripLeading 47 46 path

/-- The tool's form of a path as `pathlib` writes it. -/
def toolForm (path : PyStr) : PyStr := if Rooted 47 path then 47 :: lstripSlashes path else path

section

variable {path : PyStr} {windows : Bool}

theorem buildDatabaseUrl_eq (path : PyStr) :
    buildDatabaseUrl { path } = PyStr.ofString "sqlite:///" ++ appForm (forwardSlashes path) := by
  have hroot : PyStr.ofString "sqlite:////" = PyStr.ofString "sqlite:///" ++ [47] := by decide
  have hcwd : PyStr.ofString "sqlite:///./" = PyStr.ofString "sqlite:///" ++ [46, 47] := by decide
  rw [buildDatabaseUrl, appForm]
  show (if _ then _ else _) = _
  split
  · rw [hroot, List.append_assoc]
    rfl
  · split
    · rfl
    · rw [hcwd, List.append_assoc]

theorem sqliteUrlFromPath_eq (path : PyStr) :
    sqliteUrlFromPath path = PyStr.ofString "sqlite:///" ++ toolForm (forwardSlashes path) := by
  have hroot : PyStr.ofString "sqlite:////" = PyStr.ofString "sqlite:///" ++ [47] := by decide
  rw [sqliteUrlFromPath, toolForm]
  show (if _ then _ else _) = _
  split
  · rw [hroot, List.append_assoc]
    rfl
  · split
    · rfl
    · rfl

/-! ### The application's form -/

theorem mem_appForm {c : Nat} (h : c ∈ appForm path) : c ∈ path ∨ c = 46 ∨ c = 47 := by
  rw [appForm] at h
  split at h
  · obtain heq | hmem := List.mem_cons.mp h
    · exact .inr (.inr heq)
    · exact .inl ((List.dropWhile_sublist _).subset hmem)
  · split at h
    · exact .inl h
    · obtain hdot | hmem := List.mem_append.mp h
      · right
        simpa using hdot
      · exact .inl ((List.dropWhile_sublist _).subset hmem)

theorem take_two_slash_lstripSlashes (path : PyStr) :
    (47 :: lstripSlashes path).take 2 ≠ [47, 47] := by
  intro htake
  have hhead := List.head?_dropWhile_not (fun c => decide (c = 47)) path
  rw [← lstripSlashes] at hhead
  cases hstrip : lstripSlashes path with
  | nil =>
    rw [hstrip] at htake
    cases htake
  | cons c rest =>
    rw [hstrip] at htake hhead
    have hc : c = 47 := (List.cons.inj (List.cons.inj htake).2).1
    simp [hc] at hhead

/-- How it is read: the root and the names of a rooted path, and of a relative one the names that
are left in the working directory. -/
theorem parsePath_appForm (windows : Bool) (path : PyStr) :
    parsePath windows (appForm path) =
      if Rooted 47 path then (.root, pathSegments 47 46 path)
      else if isDrivePath path then parsePath windows path
      else (.cwd, pathSegments 47 46 (stripLeading 47 46 path)) := by
  rw [appForm]
  split
  · have hrooted : Rooted 47 (47 :: lstripSlashes path) := rfl
    rw [parsePath_of_rooted hrooted fun _ => take_two_slash_lstripSlashes path, pathSegments_slash,
      lstripSlashes, pathSegments_dropWhile_slash]
  · split
    · rfl
    · have hrelative : ¬Rooted 47 ([46, 47] ++ stripLeading 47 46 path) := fun h => by cases h
      rw [parsePath_of_relative hrelative fun _ => rfl]
      exact congrArg (Prod.mk _) (pathSegments_dot_slash (by decide) _)

theorem appForm_ne : appForm path ≠ [] ∧ appForm path ≠ PyStr.ofString ":memory:" := by
  have hmemory : PyStr.ofString ":memory:" = [58, 109, 101, 109, 111, 114, 121, 58] := by decide
  rw [appForm, hmemory]
  split
  · exact ⟨List.cons_ne_nil _ _, fun heq => absurd (List.cons.inj heq).1 (by decide)⟩
  · split
    · next hdrive =>
      refine ⟨?_, ?_⟩
      · intro heq
        rw [heq] at hdrive
        exact absurd hdrive (by decide)
      · intro heq
        rw [heq] at hdrive
        exact absurd hdrive (by decide)
    · exact ⟨List.cons_ne_nil _ _, fun heq => absurd (List.cons.inj heq).1 (by decide)⟩

/-! ### The tool's form -/

theorem pathSegments_parts (path : PyStr) :
    pathSegments 47 46 (parts path) = pathSegments 47 46 path :=
  pathSegments_intercalate fun _ hname =>
    ⟨(mem_of_mem_pathSegments hname).1, ne_of_mem_pathSegments hname⟩

theorem not_rooted_parts (path : PyStr) : ¬Rooted 47 (parts path) :=
  not_rooted_intercalate fun _ hname =>
    ⟨(mem_of_mem_pathSegments hname).1, (ne_of_mem_pathSegments hname).1⟩

theorem mem_parts {c : Nat} (h : c ∈ parts path) : c ∈ path ∨ c = 46 ∨ c = 47 := by
  obtain hslash | ⟨name, hname, hmem⟩ := mem_intercalate h
  · exact .inr (.inr hslash)
  · exact .inl ((mem_of_mem_pathSegments hname).2 c hmem)

theorem splitDrive_append (hshare : windows = true → path.take 2 ≠ [47, 47]) :
    (splitDrive windows path).1 ++ (splitDrive windows path).2 = path := by
  rw [splitDrive]
  split
  · next hwindows =>
    split
    · exact List.take_append_drop 2 path
    · rw [splitShare, if_neg fun h => hshare hwindows h.1]
      rfl
  · rfl

theorem splitDrive_of_not_hasDrive (hdrive : windows = true → hasDrive path = false)
    (hshare : windows = true → path.take 2 ≠ [47, 47]) : splitDrive windows path = ([], path) := by
  rw [splitDrive]
  split
  · next hwindows =>
    rw [hdrive hwindows, if_neg Bool.false_ne_true, splitShare,
      if_neg fun h => hshare hwindows h.1]
    rfl
  · rfl

theorem mem_posixForm {c : Nat} (hshare : windows = true → path.take 2 ≠ [47, 47])
    (h : c ∈ posixForm windows path) : c ∈ path ∨ c = 46 ∨ c = 47 := by
  have happend := splitDrive_append hshare
  have hrest : c ∈ parts (splitDrive windows path).2 → c ∈ path ∨ c = 46 ∨ c = 47 := fun hmem =>
    (mem_parts hmem).imp_left fun hmem => happend ▸ List.mem_append_right _ hmem
  have hdrive : c ∈ (splitDrive windows path).1 → c ∈ path ∨ c = 46 ∨ c = 47 := fun hmem =>
    .inl (happend ▸ List.mem_append_left _ hmem)
  have hroot : c ∈ posixRoot windows (splitDrive windows path).2 → c = 47 := by
    rw [posixRoot]
    split <;> simp
  rw [posixForm] at h
  split at h
  · obtain hmem | hmem := List.mem_append.mp h
    · exact (List.mem_append.mp hmem).elim hdrive fun hmem => .inr (.inr (hroot hmem))
    · exact hrest hmem
  · split at h
    · exact .inr (.inl (List.mem_singleton.mp h))
    · exact (List.mem_append.mp h).elim hdrive hrest

theorem lstripSlashes_parts (path : PyStr) : lstripSlashes (parts path) = parts path := by
  rw [lstripSlashes]
  cases hparts : parts path with
  | nil => rfl
  | cons c text =>
    have hc : c ≠ 47 := by
      have hrooted := not_rooted_parts path
      rw [hparts] at hrooted
      exact fun heq => hrooted (congrArg some heq)
    rw [List.dropWhile_cons_of_neg (by simpa using hc)]

theorem toolForm_rooted (h : Rooted 47 path) (hshare : windows = true → path.take 2 ≠ [47, 47]) :
    toolForm (posixForm windows path) = 47 :: parts path := by
  have hdrive : hasDrive path = false := by
    apply hasDrive_eq_false
    rw [h]
    intro c hc
    rw [← Option.some.inj hc]
    decide
  have hslash : ∀ text, lstripSlashes (47 :: text) = lstripSlashes text := fun text =>
    List.dropWhile_cons_of_pos (by decide)
  rw [posixForm, splitDrive_of_not_hasDrive (fun _ => hdrive) hshare]
  simp only [if_pos h, posixRoot]
  split
  · show 47 :: lstripSlashes (47 :: 47 :: parts path) = _
    rw [hslash, hslash, lstripSlashes_parts]
  · show 47 :: lstripSlashes (47 :: parts path) = _
    rw [hslash, lstripSlashes_parts]

theorem toolForm_relative (h : ¬Rooted 47 path) (hdrive : windows = true → hasDrive path = false) :
    toolForm (posixForm windows path) = if parts path = [] then [46] else parts path := by
  rw [posixForm, splitDrive_of_not_hasDrive hdrive fun _ => take_two_ne h]
  simp only [if_neg h, true_and, List.nil_append]
  split
  · rfl
  · rw [toolForm, if_neg (not_rooted_parts path)]

theorem toolForm_drive (h : hasDrive path = true) (hrooted : Rooted 47 (path.drop 2)) :
    toolForm (posixForm true path) = path.take 2 ++ 47 :: parts (path.drop 2) := by
  have hsplit : splitDrive true path = (path.take 2, path.drop 2) := by
    rw [splitDrive, if_pos rfl, if_pos h]
  rw [posixForm, hsplit]
  simp only [if_pos hrooted]
  obtain ⟨letter, rest, rfl, hletter⟩ := exists_of_hasDrive h
  have hnot : ¬Rooted 47 (letter :: 58 :: 47 :: parts rest) := by
    intro hslash
    have : letter = 47 := Option.some.inj hslash
    omega
  show toolForm (letter :: 58 :: 47 :: parts rest) = _
  rw [toolForm, if_neg hnot]
  rfl

end

/-! ### One file -/

/-- Whatever files there are, the application and the tool open the one the path denotes. -/
def SameFile (database : PyStr → PyStr) (windows : Bool) (path : PyStr) : Prop :=
  ∀ fs : Files, ∃ file, pathFile windows fs path = some file ∧
    urlFile database windows fs (buildDatabaseUrl { path }) = some file ∧
    (sourceUrl windows path).bind (urlFile database windows fs) = some file

/-- The paths `build_database_url` takes for relative, once their `\` are slashes. -/
def Relative (path : PyStr) : Prop := ¬Rooted 47 path ∧ isDrivePath path = false

instance (path : PyStr) : Decidable (Relative path) := inferInstanceAs (Decidable (_ ∧ _))

/-- The paths both leave as they are: with no query and no name for a database in memory; on POSIX
with no `\`, no `..` behind another name and no dot that begins the first name of a relative path;
and on Windows on no share, with no drive but before the root, and such that the dots taken away
from a relative path are struck out anyway. -/
structure PathKept (windows : Bool) (path : PyStr) : Prop where
  nonempty : path ≠ []
  query : 63 ∉ path
  memory : ¬Rooted 47 (forwardSlashes path) →
    pathSegments 47 46 (forwardSlashes path) ≠ [PyStr.ofString ":memory:"]
  backslash : windows = false → 92 ∉ path
  above : windows = false → UpsFirst upName (pathSegments 47 46 path)
  dots : windows = false → Relative path →
    ∀ first ∈ (pathSegments 47 46 path).head?, first.head? ≠ some 46
  share : windows = true → (forwardSlashes path).take 2 ≠ [47, 47]
  drive : windows = true → Relative (forwardSlashes path) →
    ∀ first ∈ (pathSegments 47 46 (forwardSlashes path)).head?, hasDrive first = false
  stripped : windows = true → Relative (forwardSlashes path) →
    collapse upName (pathSegments 47 46 (stripLeading 47 46 (forwardSlashes path))) =
      collapse upName (pathSegments 47 46 (forwardSlashes path))

section

variable {database : PyStr → PyStr} {windows : Bool} {path form : PyStr} {fs : Files}

theorem sourceUrl_eq (hne : path ≠ []) (hback : windows = false → 92 ∉ path)
    (hshare : windows = true → (forwardSlashes path).take 2 ≠ [47, 47]) :
    sourceUrl windows path =
      some (PyStr.ofString "sqlite:///" ++ toolForm (posixForm windows (forwardSlashes path))) := by
  have hnone : 92 ∉ posixForm windows (forwardSlashes path) := by
    intro hmem
    obtain hmem | hdot | hslash := mem_posixForm hshare hmem
    · exact not_mem_forwardSlashes path hmem
    · cases hdot
    · cases hslash
  rw [sourceUrl, if_neg hne, sqliteUrlFromPath_eq, asPosix, nativePath_eq hback,
    forwardSlashes_of_not_mem hnone]

theorem mem_toolForm {c : Nat} (h : c ∈ toolForm form) : c ∈ form ∨ c = 46 ∨ c = 47 := by
  rw [toolForm] at h
  split at h
  · obtain heq | hmem := List.mem_cons.mp h
    · exact .inr (.inr heq)
    · exact .inl ((List.dropWhile_sublist _).subset hmem)
  · exact .inl h

theorem not_mem_form (hquery : 63 ∉ path)
    (hform : ∀ c ∈ form, c ∈ forwardSlashes path ∨ c = 46 ∨ c = 47) : 63 ∉ form ∧ 92 ∉ form := by
  refine ⟨?_, ?_⟩
  · intro hmem
    obtain hmem | hdot | hslash := hform 63 hmem
    · exact hquery ((mem_forwardSlashes (by decide) (by decide)).mp hmem)
    · cases hdot
    · cases hslash
  · intro hmem
    obtain hmem | hdot | hslash := hform 92 hmem
    · exact not_mem_forwardSlashes path hmem
    · cases hdot
    · cases hslash

theorem mem_sourceForm (hshare : windows = true → (forwardSlashes path).take 2 ≠ [47, 47]) :
    ∀ c ∈ toolForm (posixForm windows (forwardSlashes path)),
      c ∈ forwardSlashes path ∨ c = 46 ∨ c = 47 := by
  intro c hc
  obtain hmem | hother := mem_toolForm hc
  · exact mem_posixForm hshare hmem
  · exact .inr hother

/-- Where the names lead that are read, once normalised. -/
def FileSystem.normal (fs : Files) (read : PathStart × List PyStr) : fs.Node :=
  fs.walk read.1 (normalNames upName read.1.top read.2)

theorem urlFile_eq
    (hdatabase : ∀ text,
      database (PyStr.ofString "sqlite:///" ++ text) = text.takeWhile fun c => c ≠ 63)
    (hquery : 63 ∉ form) (hback : 92 ∉ form) :
    urlFile database windows fs (PyStr.ofString "sqlite:///" ++ form) =
      if form = [] ∨ form = PyStr.ofString ":memory:" then none
      else some (fs.normal (parsePath windows form)) := by
  rw [urlFile, hdatabase, takeWhile_of_not_mem hquery, abspathFile, nativePath_of_not_mem hback]
  rfl

/-! ### Paths that are kept -/

theorem PathKept.rooted_drive (h : PathKept true path)
    (hdrive : hasDrive (forwardSlashes path) = true) :
    Rooted 47 ((forwardSlashes path).drop 2) := by
  by_contra hnot
  obtain ⟨first, hfirst, hname⟩ := head?_of_hasDrive hdrive
  obtain ⟨letter, rest, heq, hletter⟩ := exists_of_hasDrive hdrive
  have hrelative : Relative (forwardSlashes path) := by
    rw [heq] at hnot ⊢
    refine ⟨fun hrooted => ?_, ?_⟩
    · have hslash : letter = 47 := Option.some.inj hrooted
      omega
    · rw [isDrivePath, Bool.and_eq_false_iff]
      right
      rw [beq_eq_false_iff_ne]
      intro hcolon
      cases rest with
      | nil => exact List.cons_ne_nil _ _ (List.cons.inj hcolon).2.symm
      | cons c more =>
        have hc : c = 47 := (List.cons.inj (List.cons.inj hcolon).2).1
        exact hnot (congrArg some hc)
  rw [h.drive rfl hrelative first hfirst] at hname
  cases hname

theorem exists_of_isDrivePath (h : isDrivePath path = true) :
    ∃ c rest, path = c :: 58 :: 47 :: rest := by
  rw [isDrivePath, Bool.and_eq_true, beq_iff_eq, decide_eq_true_eq] at h
  obtain ⟨-, hcolon⟩ := h
  cases path with
  | nil => cases hcolon
  | cons c text =>
    have hsplit := List.take_append_drop 2 text
    have htake : text.take 2 = [58, 47] := hcolon
    rw [htake] at hsplit
    exact ⟨c, text.drop 2, by rw [← hsplit]; rfl⟩

/-- What `pathlib` writes of a path that is kept and has no drive begins with none. -/
theorem PathKept.hasDrive_parts (h : PathKept true path)
    (hrelative : ¬Rooted 47 (forwardSlashes path))
    (hdrive : hasDrive (forwardSlashes path) = false) :
    hasDrive (if parts (forwardSlashes path) = [] then [46]
      else parts (forwardSlashes path)) = false := by
  split
  · rfl
  · by_contra hsome
    rw [Bool.not_eq_false] at hsome
    obtain ⟨first, hfirst, hname⟩ := head?_of_hasDrive hsome
    rw [pathSegments_parts] at hfirst
    cases hkept : isDrivePath (forwardSlashes path) with
    | false =>
      rw [h.drive rfl ⟨hrelative, hkept⟩ first hfirst] at hname
      cases hname
    | true =>
      -- Its first name is that with the colon.
      obtain ⟨c, rest, heq⟩ := exists_of_isDrivePath hkept
      have hc : c ≠ 47 := by
        intro hslash
        rw [heq, hslash] at hrelative
        exact hrelative rfl
      have hnone : 47 ∉ [c, 58] := by simp [hc.symm]
      have hsplit : pathSegments 47 46 ([c, 58] ++ 47 :: rest) =
          pathSegments 47 46 [c, 58] ++ pathSegments 47 46 rest :=
        pathSegments_append_slash [c, 58] rest
      rw [pathSegments_of_not_mem hnone, List.filter_cons_of_pos (by simp)] at hsplit
      rw [heq] at hfirst hdrive
      change first ∈ (pathSegments 47 46 ([c, 58] ++ 47 :: rest)).head? at hfirst
      rw [hsplit] at hfirst
      rw [← Option.some.inj hfirst] at hname
      exact Bool.false_ne_true (hdrive.symm.trans hname)

theorem PathKept.normal_appForm (h : PathKept windows path) (fs : Files) :
    fs.normal (parsePath windows (appForm (forwardSlashes path))) =
      fs.normal (parsePath windows (forwardSlashes path)) := by
  rw [parsePath_appForm]
  split
  · next hrooted => rw [parsePath_of_rooted hrooted h.share]
  · next hrelative =>
    split
    · rfl
    · next hdrive =>
      have hboth : Relative (forwardSlashes path) := ⟨hrelative, Bool.not_eq_true _ ▸ hdrive⟩
      cases windows with
      | false =>
        have hsame := forwardSlashes_of_not_mem (h.backslash rfl)
        rw [hsame] at hrelative hboth ⊢
        have hread : parsePath false path = (.cwd, pathSegments 47 46 path) :=
          parsePath_of_relative hrelative fun hfalse => absurd hfalse Bool.false_ne_true
        rw [hread, pathSegments_stripLeading (by decide) (h.dots rfl hboth)]
      | true =>
        have hnone := hasDrive_eq_false_of_head (h.drive rfl hboth)
        rw [parsePath_of_relative hrelative fun _ => hnone, FileSystem.normal, FileSystem.normal,
          normalNames, normalNames, h.stripped rfl hboth]

theorem PathKept.parsePath_toolForm (h : PathKept windows path) :
    parsePath windows (toolForm (posixForm windows (forwardSlashes path))) =
      parsePath windows (forwardSlashes path) := by
  by_cases hrooted : Rooted 47 (forwardSlashes path)
  · have hform : Rooted 47 (47 :: parts (forwardSlashes path)) := rfl
    have hshare : (47 :: parts (forwardSlashes path)).take 2 ≠ [47, 47] := by
      rw [← lstripSlashes_parts]
      exact take_two_slash_lstripSlashes _
    rw [toolForm_rooted hrooted h.share, parsePath_of_rooted hform fun _ => hshare,
      parsePath_of_rooted hrooted h.share, pathSegments_slash, pathSegments_parts]
  by_cases hdrive : windows = true ∧ hasDrive (forwardSlashes path) = true
  · obtain ⟨rfl, hdrive⟩ := hdrive
    have hroot := h.rooted_drive hdrive
    obtain ⟨letter, rest, heq, -⟩ := exists_of_hasDrive hdrive
    rw [toolForm_drive hdrive hroot]
    rw [heq] at hdrive hroot ⊢
    have hform : hasDrive (letter :: 58 :: 47 :: parts rest) = true := hdrive
    rw [parsePath_of_drive hdrive, if_pos hroot]
    refine (parsePath_of_drive hform).trans ?_
    show (PathStart.drive letter, pathSegments 47 46 (47 :: parts rest)) = _
    rw [pathSegments_slash, pathSegments_parts]
    rfl
  · have hnone : windows = true → hasDrive (forwardSlashes path) = false := fun hwindows =>
      Bool.not_eq_true _ ▸ fun hsome => hdrive ⟨hwindows, hsome⟩
    have hform : windows = true →
        hasDrive (if parts (forwardSlashes path) = [] then [46] else parts (forwardSlashes path)) =
          false := by
      intro hwindows
      subst hwindows
      exact h.hasDrive_parts hrooted (hnone rfl)
    have hrelative : ¬Rooted 47
        (if parts (forwardSlashes path) = [] then [46] else parts (forwardSlashes path)) := by
      split
      · decide
      · exact not_rooted_parts _
    rw [toolForm_relative hrooted hnone, parsePath_of_relative hrelative hform,
      parsePath_of_relative hrooted hnone]
    split
    · next hempty =>
      rw [← pathSegments_parts (forwardSlashes path), hempty]
      rfl
    · rw [pathSegments_parts]

theorem PathKept.pathFile_eq (h : PathKept windows path) (fs : Files) :
    pathFile windows fs path = some (fs.normal (parsePath windows (forwardSlashes path))) := by
  rw [pathFile]
  cases windows with
  | true => rw [if_pos rfl, if_neg h.query]; rfl
  | false =>
    have hread : (parsePath false path).2 = pathSegments 47 46 path := by rw [parsePath_posix]
    rw [if_neg Bool.false_ne_true, forwardSlashes_of_not_mem (h.backslash rfl), FileSystem.normal,
      fs.walk_normalNames (hread ▸ h.above rfl)]

theorem PathKept.toolForm_ne (h : PathKept windows path) :
    ¬(toolForm (posixForm windows (forwardSlashes path)) = [] ∨
      toolForm (posixForm windows (forwardSlashes path)) = PyStr.ofString ":memory:") := by
  have hmemory : PyStr.ofString ":memory:" = [58, 109, 101, 109, 111, 114, 121, 58] := by decide
  by_cases hrooted : Rooted 47 (forwardSlashes path)
  · rw [toolForm_rooted hrooted h.share, hmemory]
    rintro (hempty | heq)
    · cases hempty
    · exact absurd (List.cons.inj heq).1 (by decide)
  by_cases hdrive : windows = true ∧ hasDrive (forwardSlashes path) = true
  · obtain ⟨rfl, hdrive⟩ := hdrive
    have hroot := h.rooted_drive hdrive
    obtain ⟨letter, rest, heq, hletter⟩ := exists_of_hasDrive hdrive
    rw [toolForm_drive hdrive hroot, heq, hmemory]
    rintro (hempty | heq)
    · cases hempty
    · have hcolon : letter = 58 := (List.cons.inj heq).1
      omega
  · have hnone : windows = true → hasDrive (forwardSlashes path) = false := fun hwindows =>
      Bool.not_eq_true _ ▸ fun hsome => hdrive ⟨hwindows, hsome⟩
    rw [toolForm_relative hrooted hnone]
    split
    · decide
    · next hsome =>
      rintro (hempty | heq)
      · exact hsome hempty
      · apply h.memory hrooted
        rw [← pathSegments_parts, heq]
        decide

theorem PathKept.sameFile
    (hdatabase : ∀ text,
      database (PyStr.ofString "sqlite:///" ++ text) = text.takeWhile fun c => c ≠ 63)
    (h : PathKept windows path) : SameFile database windows path := by
  intro fs
  refine ⟨_, h.pathFile_eq fs, ?_, ?_⟩
  · obtain ⟨hquery, hback⟩ := not_mem_form h.query fun c hc => mem_appForm hc
    rw [buildDatabaseUrl_eq, urlFile_eq hdatabase hquery hback, if_neg (not_or.mpr appForm_ne),
      h.normal_appForm]
  · obtain ⟨hquery, hback⟩ := not_mem_form h.query (mem_sourceForm h.share)
    rw [sourceUrl_eq h.nonempty h.backslash h.share, Option.bind_some,
      urlFile_eq hdatabase hquery hback, if_neg h.toolForm_ne, h.parsePath_toolForm]

/-! ### Paths whose file is opened -/

/-- Where different names lead to different places, a URL that is opened leads where its names
say. -/
theorem read_of_urlFile {url : PyStr} {node : PathStart × List PyStr}
    (h : urlFile database windows (freeFileSystem upName PathStart.top) url = some node) :
    database url ≠ [] ∧ database url ≠ PyStr.ofString ":memory:" ∧
      node.1 = (parsePath windows (nativePath windows (database url))).1 ∧
      node.2 = normalNames upName node.1.top
        (parsePath windows (nativePath windows (database url))).2 := by
  rw [urlFile] at h
  split at h
  · cases h
  · next hne =>
    obtain ⟨hempty, hmemory⟩ := not_or.mp hne
    rw [abspathFile] at h
    have hnode := (Option.some.inj h).symm.trans (free_walk_normalNames _ _)
    rw [hnode]
    exact ⟨hempty, hmemory, rfl, rfl⟩

/-- So does a path. -/
theorem read_of_pathFile {node : PathStart × List PyStr}
    (h : pathFile windows (freeFileSystem upName PathStart.top) path = some node) :
    node.1 = (parsePath windows (nativePath windows path)).1 ∧
      if windows = true then
        63 ∉ path ∧ node.2 = normalNames upName node.1.top
          (parsePath windows (nativePath windows path)).2
      else
        node.2 = if node.1.top = true then
          (parsePath windows path).2.dropWhile fun name => name = upName
            else (parsePath windows path).2 := by
  rw [pathFile] at h
  cases windows with
  | true =>
    rw [if_pos rfl] at h
    split at h
    · cases h
    · next hquery =>
      have hnode := (Option.some.inj h).symm.trans (free_walk_normalNames _ _)
      rw [hnode]
      exact ⟨rfl, hquery, rfl⟩
  | false =>
    rw [if_neg Bool.false_ne_true] at h
    have hnode := (Option.some.inj h).symm.trans (free_walk _ _)
    rw [hnode]
    exact ⟨rfl, rfl⟩

/-- Of a path that is opened on POSIX every character besides the dots and slashes is in the
name. -/
theorem mem_of_same_posix {url : PyStr} {node : PathStart × List PyStr} {c : Nat}
    (hpath : pathFile false (freeFileSystem upName PathStart.top) path = some node)
    (hurl : urlFile database false (freeFileSystem upName PathStart.top) url = some node)
    (hmem : c ∈ path) (hslash : c ≠ 47) (hdot : c ≠ 46) : c ∈ database url := by
  obtain ⟨-, -, -, hopened⟩ := read_of_urlFile hurl
  obtain ⟨-, hown⟩ := read_of_pathFile hpath
  rw [if_neg Bool.false_ne_true, parsePath_posix] at hown
  obtain ⟨name, hname, hin⟩ := exists_mem_pathSegments hmem hslash hdot
  have hup : name ≠ upName := by
    intro heq
    rw [heq] at hin
    simp [upName, hdot] at hin
  have hnode : name ∈ node.2 := by
    rw [hown]
    split
    · rw [← List.takeWhile_append_dropWhile (p := fun name => decide (name = upName))
        (l := pathSegments 47 46 path)] at hname
      refine (List.mem_append.mp hname).resolve_left fun hbefore => hup ?_
      exact of_decide_eq_true
        (List.mem_takeWhile_imp (p := fun name => decide (name = upName)) hbefore)
    · exact hname
  rw [hopened] at hnode
  have hread := (mem_of_mem_normalNames hnode).resolve_left hup
  rw [parsePath_posix] at hread
  exact (mem_of_mem_pathSegments hread).2 c hin

theorem hasDrive_parts_of_head {first : PyStr} (hfirst : first ∈ (pathSegments 47 46 path).head?)
    (hdrive : hasDrive first = true) : hasDrive (parts path) = true := by
  obtain ⟨letter, rest, rfl, -⟩ := exists_of_hasDrive hdrive
  obtain ⟨names, hnames⟩ : ∃ names, pathSegments 47 46 path = (letter :: 58 :: rest) :: names := by
    cases hsegments : pathSegments 47 46 path with
    | nil =>
      rw [hsegments] at hfirst
      cases hfirst
    | cons name names =>
      rw [hsegments] at hfirst
      exact ⟨names, by rw [Option.some.inj hfirst]⟩
  rw [parts, hnames]
  cases names with
  | nil =>
    rw [List.intercalate_singleton]
    exact hdrive
  | cons next others =>
    rw [List.intercalate_cons_cons]
    exact hdrive

/-- What the tool opens, as it is read. -/
theorem read_of_sourceUrl {node : PathStart × List PyStr}
    (hdatabase : ∀ text,
      database (PyStr.ofString "sqlite:///" ++ text) = text.takeWhile fun c => c ≠ 63)
    (hne : path ≠ []) (hquery : 63 ∉ path) (hback : windows = false → 92 ∉ path)
    (hshare : windows = true → (forwardSlashes path).take 2 ≠ [47, 47])
    (h : (sourceUrl windows path).bind
      (urlFile database windows (freeFileSystem upName PathStart.top)) = some node) :
    toolForm (posixForm windows (forwardSlashes path)) ≠ PyStr.ofString ":memory:" ∧
      node.1 = (parsePath windows (toolForm (posixForm windows (forwardSlashes path)))).1 := by
  obtain ⟨hformQuery, hformBack⟩ := not_mem_form hquery (mem_sourceForm hshare)
  rw [sourceUrl_eq hne hback hshare, Option.bind_some] at h
  obtain ⟨-, hmemory, hstart, -⟩ := read_of_urlFile h
  rw [hdatabase, takeWhile_of_not_mem hformQuery] at hmemory hstart
  rw [nativePath_of_not_mem hformBack] at hstart
  exact ⟨hmemory, hstart⟩

theorem parsePath_appForm_of_relative (h : Relative path) :
    parsePath windows (appForm path) = (.cwd, pathSegments 47 46 (stripLeading 47 46 path)) := by
  rw [parsePath_appForm, if_neg h.1, h.2, if_neg Bool.false_ne_true]

theorem hasDrive_of_memory (h : pathSegments 47 46 path = [PyStr.ofString ":memory:"]) :
    hasDrive path = false := by
  apply hasDrive_eq_false_of_head
  rw [h]
  intro first hfirst
  rw [← Option.some.inj hfirst]
  decide

/-- The first name of a relative path is no drive if the path and what `pathlib` writes of it start
in the working directory. -/
theorem drive_of_read (hrelative : Relative path) (hstart : (parsePath true path).1 = .cwd)
    (htool : (parsePath true (toolForm (posixForm true path))).1 = .cwd) :
    ∀ first ∈ (pathSegments 47 46 path).head?, hasDrive first = false := by
  intro first hfirst
  by_contra hsome
  rw [Bool.not_eq_false] at hsome
  cases hown : hasDrive path with
  | true =>
    rw [parsePath_of_drive hown] at hstart
    simp only at hstart
    split at hstart <;> cases hstart
  | false =>
    -- `pathlib` has lost what kept the name from being a drive.
    have hparts := hasDrive_parts_of_head hfirst hsome
    have hform : toolForm (posixForm true path) = parts path := by
      rw [toolForm_relative hrelative.1 fun _ => hown, if_neg]
      intro hempty
      rw [hempty] at hparts
      cases hparts
    rw [hform, parsePath_of_drive hparts] at htool
    simp only at htool
    split at htool <;> cases htool

theorem dots_of_read
    (hsame : normalNames upName false (pathSegments 47 46 (stripLeading 47 46 path)) =
      pathSegments 47 46 path) :
    ∀ first ∈ (pathSegments 47 46 path).head?, first.head? ≠ some 46 := by
  intro first hfirst hdot
  have hmark : (46 : Nat) ≠ 47 := by decide
  have hless := (length_stripLeading hmark path).2 ⟨first, hfirst, hdot⟩
  have hmost := length_normalNames upName (pathSegments 47 46 (stripLeading 47 46 path))
  rw [hsame] at hmost
  omega

/-- A path the application opens has no `?`, and on POSIX no backslash. -/
theorem not_mem_of_same {node : PathStart × List PyStr}
    (hdatabase : ∀ text,
      database (PyStr.ofString "sqlite:///" ++ text) = text.takeWhile fun c => c ≠ 63)
    (hpath : pathFile windows (freeFileSystem upName PathStart.top) path = some node)
    (happ : urlFile database windows (freeFileSystem upName PathStart.top)
      (buildDatabaseUrl { path }) = some node) :
    63 ∉ path ∧ (windows = false → 92 ∉ path) := by
  have hname : database (buildDatabaseUrl { path }) =
      (appForm (forwardSlashes path)).takeWhile fun c => c ≠ 63 := by
    rw [buildDatabaseUrl_eq, hdatabase]
  cases windows with
  | true => exact ⟨(read_of_pathFile hpath).2.1, fun hposix => absurd hposix (by decide)⟩
  | false =>
    have hquery : 63 ∉ path := by
      intro hmem
      have hin := mem_of_same_posix hpath happ hmem (by decide) (by decide)
      rw [hname] at hin
      exact absurd (List.mem_takeWhile_imp hin) (by decide)
    obtain ⟨hformQuery, hformBack⟩ := not_mem_form hquery fun c hc => mem_appForm hc
    rw [takeWhile_of_not_mem hformQuery] at hname
    refine ⟨hquery, fun _ hmem => hformBack ?_⟩
    have hin := mem_of_same_posix hpath happ hmem (by decide) (by decide)
    exact hname ▸ hin

/-- The tool writes `:memory:` for a relative path that names just this. -/
theorem segments_ne_memory (hrelative : ¬Rooted 47 path)
    (h : toolForm (posixForm windows path) ≠ PyStr.ofString ":memory:") :
    pathSegments 47 46 path ≠ [PyStr.ofString ":memory:"] := by
  intro hsingle
  have hparts : parts path = PyStr.ofString ":memory:" := by
    rw [parts, hsingle, List.intercalate_singleton]
  rw [toolForm_relative hrelative fun _ => hasDrive_of_memory hsingle, hparts,
    if_neg (by decide)] at h
  exact h rfl

theorem SameFile.pathKept
    (hdatabase : ∀ text,
      database (PyStr.ofString "sqlite:///" ++ text) = text.takeWhile fun c => c ≠ 63)
    (h : SameFile database windows path) : PathKept windows path := by
  obtain ⟨node, hpath, happ, htool⟩ := h (freeFileSystem upName PathStart.top)
  have hnonempty : path ≠ [] := by
    intro hempty
    rw [hempty] at htool
    cases htool
  obtain ⟨hquery, hback⟩ := not_mem_of_same hdatabase hpath happ
  obtain ⟨hformQuery, hformBack⟩ := not_mem_form hquery fun c hc => mem_appForm hc
  have happName : database (buildDatabaseUrl { path }) = appForm (forwardSlashes path) := by
    rw [buildDatabaseUrl_eq, hdatabase, takeWhile_of_not_mem hformQuery]
  -- What the application opens and what the path denotes, as they are read.
  obtain ⟨-, -, happStart, happNames⟩ := read_of_urlFile happ
  rw [happName, nativePath_of_not_mem hformBack] at happStart happNames
  obtain ⟨hstart, hnames⟩ := read_of_pathFile hpath
  rw [nativePath_eq hback] at hstart hnames
  have hshare : windows = true → (forwardSlashes path).take 2 ≠ [47, 47] := by
    intro hwindows htake
    have hrooted : Rooted 47 (forwardSlashes path) := by
      by_contra hnot
      exact take_two_ne hnot htake
    rw [parsePath, if_pos ⟨hwindows, htake⟩] at hstart
    rw [parsePath_appForm, if_pos hrooted, hstart] at happStart
    cases happStart
  obtain ⟨hmemory, htoolStart⟩ := read_of_sourceUrl hdatabase hnonempty hquery hback hshare htool
  have hcwd : Relative (forwardSlashes path) → node.1 = .cwd := by
    intro hrelative
    rw [parsePath_appForm_of_relative hrelative] at happStart
    exact happStart
  have hdrive : windows = true → Relative (forwardSlashes path) →
      ∀ first ∈ (pathSegments 47 46 (forwardSlashes path)).head?, hasDrive first = false := by
    intro hwindows hrelative first hfirst
    subst hwindows
    rw [hcwd hrelative] at hstart htoolStart
    exact drive_of_read hrelative hstart.symm htoolStart.symm first hfirst
  refine ⟨hnonempty, hquery, fun hrelative => segments_ne_memory hrelative hmemory, hback, ?_, ?_,
    hshare, hdrive, ?_⟩
  · intro hposix
    subst hposix
    rw [forwardSlashes_of_not_mem (hback rfl), if_neg Bool.false_ne_true, parsePath_posix] at hnames
    have hfirst : UpsFirst upName node.2 := happNames ▸ upsFirst_normalNames _ _
    rw [hnames] at hfirst
    split at hfirst
    · rw [UpsFirst, List.dropWhile_idempotent] at hfirst
      exact hfirst
    · exact hfirst
  · intro hposix hrelative first hfirst hdot
    subst hposix
    have hsame := forwardSlashes_of_not_mem (hback rfl)
    rw [hsame] at hcwd happNames hnames
    rw [parsePath_appForm_of_relative hrelative, hcwd hrelative] at happNames
    rw [if_neg Bool.false_ne_true, hcwd hrelative, parsePath_posix] at hnames
    exact dots_of_read (happNames.symm.trans hnames) first hfirst hdot
  · intro hwindows hrelative
    subst hwindows
    have hnone := hasDrive_eq_false_of_head (hdrive rfl hrelative)
    rw [parsePath_appForm_of_relative hrelative, hcwd hrelative] at happNames
    rw [if_pos rfl, hcwd hrelative, parsePath_of_relative hrelative.1 fun _ => hnone] at hnames
    have hopened : node.2 = normalNames upName false
        (pathSegments 47 46 (stripLeading 47 46 (forwardSlashes path))) := happNames
    have hnode : node.2 = normalNames upName false (pathSegments 47 46 (forwardSlashes path)) :=
      hnames.2
    rw [← collapse_normalNames, ← hopened, hnode, collapse_normalNames]

/-- The application and the tool open the file of a path exactly where both leave the path as it
is. -/
theorem same_file_iff
    (hdatabase : ∀ text,
      database (PyStr.ofString "sqlite:///" ++ text) = text.takeWhile fun c => c ≠ 63) :
    SameFile database windows path ↔ PathKept windows path :=
  ⟨SameFile.pathKept hdatabase, PathKept.sameFile hdatabase⟩

end

/-- The name SQLAlchemy reads in a URL that begins with `sqlite:///`. -/
def sqliteDatabase (url : PyStr) : PyStr := (url.drop 10).takeWhile fun c => c ≠ 63

theorem sqliteDatabase_append (text : PyStr) :
    sqliteDatabase (PyStr.ofString "sqlite:///" ++ text) = text.takeWhile fun c => c ≠ 63 := by
  have hlength : (PyStr.ofString "sqlite:///").length = 10 := by decide
  rw [sqliteDatabase, List.drop_append_of_le_length (by omega), List.drop_of_length_le (by omega),
    List.nil_append]

/-- The default path is kept, and one on a drive. -/
theorem default_path_kept :
    SameFile sqliteDatabase false (PyStr.ofString "./data/api_manager.db") ∧
      SameFile sqliteDatabase true (PyStr.ofString "C:\\data\\api_manager.db") := by
  refine ⟨(same_file_iff sqliteDatabase_append).mpr ?_,
    (same_file_iff sqliteDatabase_append).mpr ?_⟩
  · constructor <;> decide
  · constructor <;> decide

/-- A path to the parent directory: the tool opens its file, the application one below the working
directory. -/
theorem parent_path_lost :
    let path := PyStr.ofString "../data/api_manager.db"
    let fs := freeFileSystem upName PathStart.top
    urlFile sqliteDatabase false fs (buildDatabaseUrl { path }) =
        pathFile false fs (PyStr.ofString "data/api_manager.db") ∧
      (sourceUrl false path).bind (urlFile sqliteDatabase false fs) = pathFile false fs path ∧
      ¬SameFile sqliteDatabase false path := by
  refine ⟨rfl, rfl, ?_⟩
  intro h
  exact absurd (SameFile.pathKept sqliteDatabase_append h).dots (by decide)

-- A directory above one a link may lead to is not kept on POSIX, and is on Windows; no share is.
example : (¬PathKept false (PyStr.ofString "data/../api_manager.db")) ∧
    PathKept true (PyStr.ofString "data\\..\\api_manager.db") ∧
    ¬PathKept true (PyStr.ofString "\\\\host\\share\\api_manager.db") :=
  ⟨fun h => absurd h.above (by decide), by constructor <;> decide,
   fun h => absurd h.share (by decide)⟩

end Fcam
