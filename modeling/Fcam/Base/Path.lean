import Mathlib.Data.List.Flatten
import Mathlib.Data.List.Induction
import Mathlib.Data.List.TakeWhile
import Mathlib.Tactic.Common

/-!
# Paths and the files they lead to

A path is a text of names between slashes. A name that is empty or a single dot leads nowhere, so
what a path denotes is decided by where it starts, at the root or in the working directory, and by
the rest of its names, its `pathSegments`.
-/

namespace Fcam

variable {α : Type} [DecidableEq α]

section

variable (slash dot : α)

/-- The names of a path that lead somewhere. -/
def pathSegments (path : List α) : List (List α) :=
  (path.splitOn slash).filter fun name => name ≠ [] && name ≠ [dot]

/-- A path that starts at the root. -/
def Rooted (path : List α) : Prop := path.head? = some slash

instance (path : List α) : Decidable (Rooted slash path) := inferInstanceAs (Decidable (_ = _))

end

/-- Directories and files, where paths start, and where each name leads; from a start at the top
`up` leads back to it. -/
structure FileSystem (α σ : Type) (up : List α) (top : σ → Bool) where
  Node : Type
  start : σ → Node
  enter : Node → List α → Node
  enter_up : ∀ s, top s = true → enter (start s) up = start s

/-- Where the names of a path lead. -/
def FileSystem.walk {α σ : Type} {up : List α} {top : σ → Bool} (fs : FileSystem α σ up top) (s : σ)
    (names : List (List α)) : fs.Node :=
  names.foldl fs.enter (fs.start s)

/-! ### The directory above -/

section

variable (up : List α)

/-- A name behind those that are kept, so many `up`s and others: `up` takes the last of these off,
if there is one. -/
def collapseStep (kept : Nat × List (List α)) (name : List α) : Nat × List (List α) :=
  if name = up then
    if kept.2 = [] then (kept.1 + 1, []) else (kept.1, kept.2.dropLast)
  else (kept.1, kept.2 ++ [name])

def collapse (names : List (List α)) : Nat × List (List α) := names.foldl (collapseStep up) (0, [])

/-- The names that are left when each `up` is struck out with the name before it; at the top nothing
is above. -/
def normalNames (top : Bool) (names : List (List α)) : List (List α) :=
  if top then (collapse up names).2
  else List.replicate (collapse up names).1 up ++ (collapse up names).2

/-- No `up` stands behind another name. -/
def UpsFirst (names : List (List α)) : Prop := up ∉ names.dropWhile fun name => name = up

instance (names : List (List α)) : Decidable (UpsFirst up names) :=
  inferInstanceAs (Decidable (_ ∉ _))

/-- One more name, but for `up` at the top. -/
def freeEnter {σ : Type} (top : σ → Bool) (node : σ × List (List α)) (name : List α) :
    σ × List (List α) :=
  if top node.1 = true ∧ node.2 = [] ∧ name = up then node else (node.1, node.2 ++ [name])

/-- The file system in which different names lead to different places. -/
def freeFileSystem {σ : Type} (top : σ → Bool) : FileSystem α σ up top where
  Node := σ × List (List α)
  start s := (s, [])
  enter := freeEnter up top
  enter_up _ h := if_pos ⟨h, rfl, rfl⟩

end

section

variable {σ : Type} {top : σ → Bool} {up : List α} {names other : List (List α)} {s : σ}

theorem collapse_append (names more : List (List α)) :
    collapse up (names ++ more) = more.foldl (collapseStep up) (collapse up names) :=
  List.foldl_append

theorem not_mem_collapse (names : List (List α)) : up ∉ (collapse up names).2 := by
  induction names using List.reverseRecOn with
  | nil => exact List.not_mem_nil
  | append_singleton names name ih =>
    rw [collapse_append]
    show up ∉ (collapseStep up (collapse up names) name).2
    rw [collapseStep]
    split
    · split
      · exact List.not_mem_nil
      · exact fun hmem => ih ((List.dropLast_sublist _).subset hmem)
    · next hname =>
      rw [List.mem_append, List.mem_singleton]
      exact not_or.mpr ⟨ih, fun heq => hname heq.symm⟩

theorem mem_of_mem_collapse {name : List α} (hmem : name ∈ (collapse up names).2) :
    name ∈ names := by
  induction names using List.reverseRecOn with
  | nil => exact hmem
  | append_singleton names last ih =>
    rw [collapse_append] at hmem
    change name ∈ (collapseStep up (collapse up names) last).2 at hmem
    rw [List.mem_append, List.mem_singleton]
    rw [collapseStep] at hmem
    split at hmem
    · split at hmem
      · cases hmem
      · exact .inl (ih ((List.dropLast_sublist _).subset hmem))
    · exact (List.mem_append.mp hmem).imp ih List.mem_singleton.mp

theorem mem_of_mem_normalNames {top : Bool} {name : List α}
    (hmem : name ∈ normalNames up top names) :
    name = up ∨ name ∈ names := by
  rw [normalNames] at hmem
  split at hmem
  · exact .inr (mem_of_mem_collapse hmem)
  · obtain hups | hothers := List.mem_append.mp hmem
    · exact .inl (List.eq_of_mem_replicate hups)
    · exact .inr (mem_of_mem_collapse hothers)

theorem collapse_replicate_append (k : Nat) (h : up ∉ names) :
    collapse up (List.replicate k up ++ names) = (k, names) := by
  have hups : collapse up (List.replicate k up) = (k, []) := by
    induction k with
    | zero => rfl
    | succ k ih =>
      rw [List.replicate_succ', collapse_append, ih]
      show collapseStep up (k, []) up = _
      rw [collapseStep, if_pos rfl, if_pos rfl]
  rw [collapse_append, hups]
  induction names using List.reverseRecOn with
  | nil => rfl
  | append_singleton names name ih =>
    rw [List.mem_append, List.mem_singleton, not_or] at h
    rw [List.foldl_append, ih h.1]
    show collapseStep up (k, names) name = _
    rw [collapseStep, if_neg fun heq => h.2 heq.symm]

theorem collapse_normalNames (names : List (List α)) :
    collapse up (normalNames up false names) = collapse up names :=
  collapse_replicate_append _ (not_mem_collapse names)

theorem length_collapse (names : List (List α)) :
    (collapse up names).1 * up.length + (collapse up names).2.flatten.length ≤
      names.flatten.length := by
  induction names using List.reverseRecOn with
  | nil => simp [collapse]
  | append_singleton names name ih =>
    rw [collapse_append, List.foldl_cons, List.foldl_nil, collapseStep, List.flatten_append,
      List.length_append, List.flatten_singleton]
    split
    · next hname =>
      subst hname
      split
      · next hnone =>
        rw [hnone] at ih
        simp only [Nat.add_mul, Nat.one_mul, List.flatten_nil, List.length_nil] at ih ⊢
        omega
      · have hless := (List.dropLast_sublist (collapse name names).2).flatten.length_le
        simp only
        omega
    · rw [List.flatten_append, List.length_append, List.flatten_singleton]
      simp only
      omega

theorem length_normalNames (up : List α) (names : List (List α)) :
    (normalNames up false names).flatten.length ≤ names.flatten.length := by
  have hups : (List.replicate (collapse up names).1 up).flatten.length =
      (collapse up names).1 * up.length := by
    rw [List.length_flatten, List.map_replicate, List.sum_replicate_nat]
  rw [normalNames, if_neg Bool.false_ne_true, List.flatten_append, List.length_append, hups]
  exact length_collapse names

theorem UpsFirst.collapse_eq (h : UpsFirst up names) :
    List.replicate (collapse up names).1 up ++ (collapse up names).2 = names := by
  have hups : names.takeWhile (fun name => name = up) =
      List.replicate (names.takeWhile fun name => name = up).length up := by
    rw [List.eq_replicate_iff]
    refine ⟨rfl, fun name hname => ?_⟩
    exact of_decide_eq_true (List.mem_takeWhile_imp (p := fun name => decide (name = up)) hname)
  have hsplit := List.takeWhile_append_dropWhile (p := fun name => decide (name = up)) (l := names)
  rw [hups] at hsplit
  have hcollapse := collapse_replicate_append
    (names.takeWhile fun name => decide (name = up)).length h
  rw [hsplit] at hcollapse
  rw [hcollapse]
  exact hsplit

theorem upsFirst_normalNames (top : Bool) (names : List (List α)) :
    UpsFirst up (normalNames up top names) := by
  have hnone : up ∉ (collapse up names).2 := not_mem_collapse names
  have hothers : up ∉ (collapse up names).2.dropWhile fun name => name = up :=
    fun hmem => hnone ((List.dropWhile_sublist _).subset hmem)
  rw [UpsFirst, normalNames]
  split
  · exact hothers
  · rwa [List.dropWhile_append_of_pos]
    intro name hname
    exact decide_eq_true (List.eq_of_mem_replicate hname)

/-! ### Where names lead -/

omit [DecidableEq α] in
theorem FileSystem.walk_ups (fs : FileSystem α σ up top) (h : top s = true) (k : Nat)
    (names : List (List α)) : fs.walk s (List.replicate k up ++ names) = fs.walk s names := by
  induction k with
  | zero => rfl
  | succ k ih =>
    rw [← ih, List.replicate_succ, List.cons_append, walk, List.foldl_cons, fs.enter_up s h]
    rfl

theorem FileSystem.walk_normalNames (fs : FileSystem α σ up top) (h : UpsFirst up names) (s : σ) :
    fs.walk s (normalNames up (top s) names) = fs.walk s names := by
  conv_rhs => rw [← h.collapse_eq]
  rw [normalNames]
  split
  · next htop => exact (fs.walk_ups htop _ _).symm
  · rfl

theorem free_walk (s : σ) (names : List (List α)) :
    (freeFileSystem up top).walk s names =
      (s, if top s = true then names.dropWhile fun name => name = up else names) := by
  show names.foldl (freeEnter up top) (s, []) = _
  induction names using List.reverseRecOn with
  | nil => exact congrArg (Prod.mk s) (ite_self []).symm
  | append_singleton names name ih =>
    rw [List.foldl_append, ih, List.foldl_cons, List.foldl_nil, freeEnter]
    by_cases htop : top s = true
    · simp only [htop, true_and, if_true, List.dropWhile_append, List.isEmpty_iff]
      by_cases hnone : (names.dropWhile fun name => decide (name = up)) = []
      · by_cases hname : name = up <;> simp [hnone, hname]
      · simp [hnone]
    · simp [htop]

theorem free_walk_normalNames (s : σ) (names : List (List α)) :
    (freeFileSystem up top).walk s (normalNames up (top s) names) =
      (s, normalNames up (top s) names) := by
  rw [free_walk]
  split
  · next htop =>
    rw [htop, normalNames, if_pos rfl]
    congr 1
    exact List.dropWhile_eq_self_iff.mpr fun hlength hfirst =>
      not_mem_collapse names (of_decide_eq_true hfirst ▸ List.getElem_mem hlength)
  · rfl

end

/-! ### Segments -/

section

variable {slash dot c : α} {path name : List α}

theorem pathSegments_append_slash (first rest : List α) :
    pathSegments slash dot (first ++ slash :: rest) = pathSegments slash dot first ++
      pathSegments slash dot rest := by
  rw [pathSegments, List.splitOn_append_cons_self, List.filter_append]
  rfl

theorem pathSegments_of_not_mem (h : slash ∉ name) :
    pathSegments slash dot name = [name].filter fun name => name ≠ [] && name ≠ [dot] := by
  rw [pathSegments, List.splitOn_eq_singleton h]

theorem pathSegments_slash (rest : List α) :
    pathSegments slash dot (slash :: rest) = pathSegments slash dot rest := by
  have h := @pathSegments_append_slash α _ slash dot [] rest
  rwa [pathSegments_of_not_mem List.not_mem_nil] at h

theorem pathSegments_dot (hdot : dot ≠ slash) : pathSegments slash dot [dot] = [] := by
  have h : slash ∉ [dot] := by
    rw [List.mem_singleton]
    exact hdot.symm
  rw [pathSegments_of_not_mem h]
  simp

theorem pathSegments_dot_slash (hdot : dot ≠ slash) (rest : List α) :
    pathSegments slash dot (dot :: slash :: rest) = pathSegments slash dot rest := by
  have h := @pathSegments_append_slash α _ slash dot [dot] rest
  rwa [pathSegments_dot hdot] at h

theorem path_induction (slash : α) {motive : List α → Prop}
    (hname : ∀ name, slash ∉ name → motive name)
    (hslash : ∀ first rest, slash ∉ first → motive rest → motive (first ++ slash :: rest))
    (path : List α) :
    motive path := by
  by_cases hmem : slash ∈ path
  · obtain ⟨first, rest, hpath, hfirst⟩ := List.eq_append_cons_of_mem hmem
    rw [hpath]
    exact hslash first rest hfirst (path_induction slash hname hslash rest)
  · exact hname path hmem
termination_by path.length
decreasing_by
  rw [hpath, List.length_append, List.length_cons]
  omega

theorem mem_of_mem_pathSegments (hname : name ∈ pathSegments slash dot path) :
    slash ∉ name ∧ ∀ c ∈ name, c ∈ path := by
  induction path using path_induction slash with
  | hname only h =>
    rw [pathSegments_of_not_mem h] at hname
    rw [List.mem_singleton.mp (List.mem_filter.mp hname).1]
    exact ⟨h, fun c hc => hc⟩
  | hslash first rest h ih =>
    rw [pathSegments_append_slash] at hname
    obtain hname | hname := List.mem_append.mp hname
    · rw [pathSegments_of_not_mem h] at hname
      rw [List.mem_singleton.mp (List.mem_filter.mp hname).1]
      exact ⟨h, fun c hc => List.mem_append_left _ hc⟩
    · obtain ⟨hnone, hmem⟩ := ih hname
      exact ⟨hnone, fun c hc => List.mem_append_right _ (List.mem_cons_of_mem _ (hmem c hc))⟩

theorem exists_mem_pathSegments (hc : c ∈ path) (hslash : c ≠ slash) (hdot : c ≠ dot) :
    ∃ name ∈ pathSegments slash dot path, c ∈ name := by
  have hsingle : ∀ name :
      List α, slash ∉ name → c ∈ name → ∃ other ∈ pathSegments slash dot name, c ∈ other := by
    intro name h hmem
    refine ⟨name, ?_, hmem⟩
    rw [pathSegments_of_not_mem h, List.mem_filter]
    refine ⟨List.mem_singleton_self _, ?_⟩
    have hne : name ≠ [] := List.ne_nil_of_mem hmem
    have hdotted : name ≠ [dot] := by
      intro heq
      rw [heq] at hmem
      exact hdot (List.mem_singleton.mp hmem)
    simp [hne, hdotted]
  induction path using path_induction slash with
  | hname only h => exact hsingle only h hc
  | hslash first rest h ih =>
    rw [pathSegments_append_slash]
    obtain hfirst | hrest := List.mem_append.mp hc
    · obtain ⟨name, hname, hmem⟩ := hsingle first h hfirst
      exact ⟨name, List.mem_append_left _ hname, hmem⟩
    · obtain ⟨name, hname, hmem⟩ := ih ((List.mem_cons.mp hrest).resolve_left hslash)
      exact ⟨name, List.mem_append_right _ hname, hmem⟩

theorem ne_of_mem_pathSegments (hname : name ∈ pathSegments slash dot path) :
    name ≠ [] ∧ name ≠ [dot] := by
  have hkept := (List.mem_filter.mp hname).2
  simpa using hkept

theorem pathSegments_intercalate {names : List (List α)}
    (hnames : ∀ name ∈ names, slash ∉ name ∧ name ≠ [] ∧ name ≠ [dot]) :
    pathSegments slash dot ([slash].intercalate names) = names := by
  by_cases hnone : names = []
  · subst hnone
    exact pathSegments_of_not_mem List.not_mem_nil
  · rw [pathSegments,
      List.splitOn_intercalate slash (fun name hname => (hnames name hname).1) hnone,
      List.filter_eq_self]
    intro name hname
    simp [(hnames name hname).2]

omit [DecidableEq α] in
theorem mem_intercalate {names : List (List α)} (hc : c ∈ [slash].intercalate names) :
    c = slash ∨ ∃ name ∈ names, c ∈ name := by
  induction names with
  | nil => cases hc
  | cons name rest ih =>
    cases rest with
    | nil =>
      rw [List.intercalate_singleton] at hc
      exact .inr ⟨name, List.mem_cons_self, hc⟩
    | cons next others =>
      rw [List.intercalate_cons_cons, List.append_assoc, List.mem_append, List.mem_append] at hc
      obtain hname | hslash | hrest := hc
      · exact .inr ⟨name, List.mem_cons_self, hname⟩
      · exact .inl (List.mem_singleton.mp hslash)
      · obtain hslash | ⟨other, hother, hmem⟩ := ih hrest
        · exact .inl hslash
        · exact .inr ⟨other, List.mem_cons_of_mem _ hother, hmem⟩

omit [DecidableEq α] in
theorem not_rooted_intercalate {names : List (List α)}
    (hnames : ∀ name ∈ names, slash ∉ name ∧ name ≠ []) :
    ¬Rooted slash ([slash].intercalate names) := by
  intro hrooted
  cases names with
  | nil => cases hrooted
  | cons name rest =>
    obtain ⟨hslash, hne⟩ := hnames name List.mem_cons_self
    obtain ⟨c, text, htext⟩ := List.exists_cons_of_ne_nil hne
    rw [htext] at hslash hrooted
    have hhead : ∃ more, [slash].intercalate ((c :: text) :: rest) = c :: more := by
      cases rest with
      | nil => exact ⟨text, List.intercalate_singleton⟩
      | cons next others => exact ⟨_, List.intercalate_cons_cons⟩
    obtain ⟨more, hmore⟩ := hhead
    rw [hmore] at hrooted
    exact hslash (Option.some.inj hrooted ▸ List.mem_cons_self)

/-! ### Leading dots and slashes -/

theorem splitOn_cons_of_ne (hslash : c ≠ slash) (text : List α) :
    ∃ name rest, text.splitOn slash = name :: rest ∧
      (c :: text).splitOn slash = (c :: name) :: rest := by
  obtain ⟨name, rest, hsplit⟩ := List.exists_cons_of_ne_nil (List.splitOn_ne_nil slash text)
  refine ⟨name, rest, hsplit, ?_⟩
  have hbeq : ¬(c == slash) = true := by rwa [beq_iff_eq]
  rw [List.splitOn_cons_eq_if_modifyHead, if_neg hbeq, hsplit, List.modifyHead_cons]

theorem head?_pathSegments_cons (hslash : c ≠ slash) (hdot : c ≠ dot) (text : List α) :
    ∃ name rest, pathSegments slash dot (c :: text) = (c :: name) :: rest := by
  obtain ⟨name, rest, -, hsplit⟩ := splitOn_cons_of_ne hslash text
  have hne : c :: name ≠ [dot] := fun heq => hdot (List.cons.inj heq).1
  rw [pathSegments, hsplit, List.filter_cons_of_pos (by simp [hne])]
  exact ⟨_, _, rfl⟩

/-- A dot before a name is in the name. -/
theorem pathSegments_dot_cons (hslash : c ≠ slash) (hdot : dot ≠ slash) (text : List α) :
    ∃ name rest, pathSegments slash dot (dot :: c :: text) = (dot :: c :: name) :: rest ∧
      pathSegments slash dot (c :: text) = [c :: name].filter (· ≠ [dot]) ++ rest := by
  obtain ⟨name, rest, -, hsplit⟩ := splitOn_cons_of_ne hslash text
  obtain ⟨name', rest', hsplit', hboth⟩ := splitOn_cons_of_ne hdot (c :: text)
  obtain ⟨rfl, rfl⟩ := List.cons.inj (hsplit'.symm.trans hsplit)
  refine ⟨name, rest'.filter fun name => name ≠ [] && name ≠ [dot], ?_, ?_⟩
  · rw [pathSegments, hboth, List.filter_cons_of_pos (by simp)]
  · rw [pathSegments, hsplit, List.filter_cons]
    by_cases hname : c :: name = [dot] <;> simp [hname]

/-- A path without its leading dots and slashes. -/
def stripLeading (slash dot : α) (path : List α) : List α :=
  path.dropWhile fun c => c = dot ∨ c = slash

theorem pathSegments_stripLeading (hdot : dot ≠ slash)
    (hfirst : ∀ first ∈ (pathSegments slash dot path).head?, first.head? ≠ some dot) :
    pathSegments slash dot (stripLeading slash dot path) = pathSegments slash dot path := by
  induction path with
  | nil => rfl
  | cons c text ih =>
    by_cases hslash : c = slash
    · subst hslash
      rw [pathSegments_slash] at hfirst ⊢
      rw [stripLeading, List.dropWhile_cons_of_pos (by simp), ← stripLeading]
      exact ih hfirst
    by_cases hc : c = dot
    · subst hc
      rw [stripLeading, List.dropWhile_cons_of_pos (by simp), ← stripLeading]
      cases text with
      | nil =>
        rw [pathSegments_dot hdot]
        exact pathSegments_of_not_mem List.not_mem_nil
      | cons next rest =>
        by_cases hnext : next = slash
        · subst hnext
          rw [pathSegments_dot_slash hdot] at hfirst ⊢
          rw [pathSegments_slash] at ih
          exact ih hfirst
        · obtain ⟨name, others, hsegments, -⟩ := pathSegments_dot_cons hnext hslash rest
          rw [hsegments] at hfirst
          exact absurd rfl (hfirst _ rfl)
    · rw [stripLeading, List.dropWhile_cons_of_neg (by simp [hc, hslash])]

/-- A name is longer with a dot before it. -/
theorem length_pathSegments_dot_cons (hslash : c ≠ slash) (hdot : dot ≠ slash) (text : List α) :
    (pathSegments slash dot (c :: text)).flatten.length <
      (pathSegments slash dot (dot :: c :: text)).flatten.length := by
  obtain ⟨name, rest, hboth, hname⟩ := pathSegments_dot_cons hslash hdot text
  have hmost : ([c :: name].filter (· ≠ [dot])).flatten.length ≤ name.length + 1 := by
    by_cases hdots : c :: name = [dot] <;> simp [hdots]
  rw [hname, hboth, List.flatten_append, List.length_append, List.flatten_cons, List.length_append,
    List.length_cons, List.length_cons]
  omega

/-- The names it leaves hold no more characters, and fewer if the first name begins with a dot. -/
theorem length_stripLeading (hdot : dot ≠ slash) (path : List α) :
    (pathSegments slash dot (stripLeading slash dot path)).flatten.length ≤
        (pathSegments slash dot path).flatten.length ∧
      ((∃ first ∈ (pathSegments slash dot path).head?, first.head? = some dot) →
        (pathSegments slash dot (stripLeading slash dot path)).flatten.length <
          (pathSegments slash dot path).flatten.length) := by
  induction path with
  | nil =>
    refine ⟨Nat.le_refl _, fun h => ?_⟩
    obtain ⟨first, hsome, -⟩ := h
    cases hsome
  | cons c text ih =>
    by_cases hfirst : ∃ first ∈ (pathSegments slash dot (c :: text)).head?, first.head? = some dot
    · suffices hless :
          (pathSegments slash dot (stripLeading slash dot (c :: text))).flatten.length <
            (pathSegments slash dot (c :: text)).flatten.length from
        ⟨Nat.le_of_lt hless, fun _ => hless⟩
      by_cases hslash : c = slash
      · subst hslash
        rw [pathSegments_slash] at hfirst ⊢
        rw [stripLeading, List.dropWhile_cons_of_pos (by simp), ← stripLeading]
        exact ih.2 hfirst
      by_cases hc : c = dot
      · subst hc
        rw [stripLeading, List.dropWhile_cons_of_pos (by simp), ← stripLeading]
        cases text with
        | nil =>
          rw [pathSegments_dot hdot] at hfirst
          obtain ⟨first, hsome, -⟩ := hfirst
          cases hsome
        | cons next rest =>
          by_cases hnext : next = slash
          · subst hnext
            rw [pathSegments_dot_slash hdot] at hfirst ⊢
            rw [pathSegments_slash] at ih
            exact ih.2 hfirst
          · -- The dot belongs to the name behind it.
            exact Nat.lt_of_le_of_lt ih.1 (length_pathSegments_dot_cons hnext hslash rest)
      · obtain ⟨name, rest, hsegments⟩ := head?_pathSegments_cons hslash hc text
        obtain ⟨first, hsome, hhead⟩ := hfirst
        rw [hsegments, List.head?_cons, Option.mem_some] at hsome
        rw [← hsome, List.head?_cons] at hhead
        exact absurd (Option.some.inj hhead) hc
    · have hkept : ∀ first ∈ (pathSegments slash dot (c :: text)).head?, first.head? ≠ some dot :=
        fun first hsome heq => hfirst ⟨first, hsome, heq⟩
      rw [pathSegments_stripLeading hdot hkept]
      exact ⟨Nat.le_refl _, fun h => absurd h hfirst⟩

theorem pathSegments_dropWhile_slash (path : List α) :
    pathSegments slash dot (path.dropWhile fun c => c = slash) = pathSegments slash dot path := by
  induction path with
  | nil => rfl
  | cons c text ih =>
    rw [List.dropWhile_cons]
    split
    · next hc =>
      rw [ih, of_decide_eq_true hc, pathSegments_slash]
    · rfl

end

end Fcam
