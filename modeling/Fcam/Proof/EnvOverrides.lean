import Mathlib.Data.List.Perm.Basic
import Fcam.Proof.ConfigLayers

/-!
# The order of environment variables

Every variable that counts writes its value under its path, and the last write wins. So the mapping
does not depend on the order in which the variables are listed exactly where, of any two variables
of which one path leads into the other's value, that value already has what the other writes.
-/

namespace Fcam

variable {κ α : Type} [DecidableEq κ]

/-! ### One variable -/

theorem splitParts_ne_nil (part text : PyStr) : splitParts part text ≠ [] := by
  fun_induction splitParts part text with
  | case1 part rest ih => exact List.cons_ne_nil _ _
  | case2 part c rest hnot ih => exact ih
  | case3 part => exact List.cons_ne_nil _ _

theorem write_cons (key : κ) (path : List κ) (f g : View κ α) (r : List κ) :
    View.write (key :: path) f g (key :: r) = View.write path f (fun r => g (key :: r)) r := by
  simp only [View.write, List.cons_prefix_cons, true_and, List.length_cons, List.drop_succ_cons]

theorem write_cons_of_ne {key k : κ} (hne : k ≠ key) (path : List κ) (f g : View κ α) (r : List κ) :
    View.write (key :: path) f g (k :: r) = g (k :: r) := by
  rw [View.write, if_neg fun h => hne (List.cons_prefix_cons.mp h).1.symm,
    if_neg fun h => hne (List.cons_prefix_cons.mp h).1]

theorem view_setPath (value : Tree κ α) {path : List κ} (hne : path ≠ [])
    (members : List (κ × Tree κ α)) :
    (Tree.node (setPath value path members)).view =
      View.write path value.view (Tree.node members).view := by
  funext r
  induction path generalizing members r with
  | nil => exact absurd rfl hne
  | cons part rest ih =>
    have hput : ∃ put, setPath value (part :: rest) members = putMember part put members ∧
        ∀ r, put.view r = View.write rest value.view (fun r => (Tree.node members).view (part :: r))
          r := by
      cases rest with
      | nil => exact ⟨value, rfl, fun r => (if_pos List.nil_prefix).symm⟩
      | cons next rest =>
        refine ⟨_, rfl, fun r => ?_⟩
        rw [ih (List.cons_ne_nil _ _)]
        -- What is not on the way down is found where it was.
        rw [View.write, View.write, Tree.view_node_cons]
        split_ifs with hbelow habove
        · rfl
        · rfl
        · cases r with
          | nil => exact absurd List.nil_prefix habove
          | cons k r =>
            cases members.lookup part with
            | none => rfl
            | some found => cases found <;> rfl
    obtain ⟨put, hset, hview⟩ := hput
    rw [hset]
    cases r with
    | nil =>
      rw [Tree.view_nil_node, View.write,
        if_neg fun h => absurd (List.prefix_nil.mp h) (List.cons_ne_nil _ _),
        if_pos List.nil_prefix]
    | cons k r =>
      rw [Tree.view_node_cons, lookup_putMember]
      by_cases heq : k = part
      · subst heq
        rw [if_pos rfl, Option.bind_some, hview, write_cons]
      · rw [if_neg heq, write_cons_of_ne heq, Tree.view_node_cons]

/-! ### All variables -/

section

variable {reader : ConfigReader κ α} {environ environ' : Environ} {vars : List (PyStr × PyStr)}
  {result : List (κ × Tree κ α)}

omit [DecidableEq κ] in
theorem envPath_ne_nil {name : PyStr} {path : List κ}
    (h : envPath reader environ name = some path) : path ≠ [] := by
  obtain ⟨name', -, hpath⟩ := Option.bind_eq_some_iff.mp h
  dsimp only at hpath
  split_ifs at hpath
  rw [← Option.some.inj hpath]
  exact fun hnil => splitParts_ne_nil _ _ (List.map_eq_nil_iff.mp hnil)

omit [DecidableEq κ] in
theorem envPath_perm (hperm : environ'.vars.Perm environ.vars) (name : PyStr) :
    envPath reader environ' name = envPath reader environ name := by
  have hset : ∀ name, (environ'.get? name).isSome = (environ.get? name).isSome := by
    intro name
    rw [Bool.eq_iff_iff, Environ.get?, Environ.get?, List.lookup_isSome_iff, List.lookup_isSome_iff]
    simp only [hperm.mem_iff]
  rw [envPath, envPath, envName, envName, hset]

variable (reader environ) in
/-- What a variable that counts writes, and where. -/
def entryOf (var : PyStr × PyStr) : Option (List κ × Tree κ α) :=
  (envPath reader environ var.1).bind fun path => (reader.safeLoad var.2).map fun value =>
    (path, value)

variable (reader environ) in
/-- A variable counts whose value is not YAML. -/
def Unreadable (var : PyStr × PyStr) : Prop :=
  (envPath reader environ var.1).isSome = true ∧ reader.safeLoad var.2 = none

theorem applyVars_eq_none (h : ∃ var ∈ vars, Unreadable reader environ var) :
    applyVars reader environ vars result = none := by
  induction vars generalizing result with
  | nil =>
    obtain ⟨var, hmem, -⟩ := h
    cases hmem
  | cons var rest ih =>
    obtain ⟨name, raw⟩ := var
    rw [applyVars]
    cases hpath : envPath reader environ name with
    | none =>
      refine ih ?_
      obtain ⟨var, hmem, hread⟩ := h
      rcases List.mem_cons.mp hmem with rfl | hrest
      · rw [Unreadable, hpath] at hread
        cases hread.1
      · exact ⟨var, hrest, hread⟩
    | some path =>
      dsimp only
      cases hload : reader.safeLoad raw with
      | none => rfl
      | some value =>
        refine ih ?_
        obtain ⟨var, hmem, hread⟩ := h
        rcases List.mem_cons.mp hmem with rfl | hrest
        · rw [Unreadable, hload] at hread
          cases hread.2
        · exact ⟨var, hrest, hread⟩

theorem applyVars_eq_some (h : ¬∃ var ∈ vars, Unreadable reader environ var) :
    applyVars reader environ vars result =
      some ((vars.filterMap (entryOf reader environ)).foldl (fun result e => setPath e.2 e.1 result)
        result) := by
  induction vars generalizing result with
  | nil => rfl
  | cons var rest ih =>
    obtain ⟨name, raw⟩ := var
    have hrest : ¬∃ var ∈ rest, Unreadable reader environ var := by
      intro hread
      obtain ⟨var, hmem, hunreadable⟩ := hread
      exact h ⟨var, List.mem_cons_of_mem _ hmem, hunreadable⟩
    rw [applyVars]
    cases hpath : envPath reader environ name with
    | none =>
      have hentry : entryOf reader environ (name, raw) = none := by
        rw [entryOf, hpath]
        rfl
      rw [List.filterMap_cons_none hentry]
      exact ih hrest
    | some path =>
      dsimp only
      cases hload : reader.safeLoad raw with
      | none => exact absurd ⟨(name, raw), List.mem_cons_self, by rw [hpath]; rfl, hload⟩ h
      | some value =>
        have hentry : entryOf reader environ (name, raw) = some (path, value) := by
          rw [entryOf, hpath, Option.bind_some, hload]
          rfl
        rw [List.filterMap_cons_some hentry, List.foldl_cons]
        exact ih hrest

/-- The view of what a list of writes leaves. -/
theorem view_foldl {entries : List (List κ × Tree κ α)} (hne : ∀ e ∈ entries, e.1 ≠ [])
    (result : List (κ × Tree κ α)) :
    (Tree.node (entries.foldl (fun result e => setPath e.2 e.1 result) result)).view =
      entries.foldl (fun g e => View.write e.1 e.2.view g) (Tree.node result).view := by
  induction entries generalizing result with
  | nil => rfl
  | cons e rest ih =>
    obtain ⟨hfirst, hrest⟩ := List.forall_mem_cons.mp hne
    rw [List.foldl_cons, List.foldl_cons, ih hrest, view_setPath e.2 hfirst]

variable (reader environ) in
/-- The mapping of the overrides, as what is found at each path. -/
def overridesView : Option (View κ α) :=
  (envOverrides reader environ).map fun members => (Tree.node members).view

theorem overridesView_of_readable (h : ¬∃ var ∈ environ.vars, Unreadable reader environ var) :
    overridesView reader environ =
      some ((environ.vars.filterMap (entryOf reader environ)).foldl
        (fun g e => View.write e.1 e.2.view g)
        (Tree.node []).view) := by
  rw [overridesView, envOverrides, applyVars_eq_some h, Option.map_some, view_foldl]
  intro e he
  obtain ⟨var, -, hentry⟩ := List.mem_filterMap.mp he
  obtain ⟨path, hpath, hvalue⟩ := Option.bind_eq_some_iff.mp hentry
  obtain ⟨value, -, rfl⟩ := Option.map_eq_some_iff.mp hvalue
  exact envPath_ne_nil hpath

variable (reader environ) in
/-- Where the path of one variable leads into the value of another, that value has there what the
first writes. -/
def Compatible : Prop :=
  ∀ var ∈ environ.vars, ∀ var' ∈ environ.vars, var ≠ var' → ∀ e ∈ entryOf reader environ var,
    ∀ e' ∈ entryOf reader environ var', View.Agree e.1 e.2.view e'.1 e'.2.view

omit [DecidableEq κ] in
theorem unreadable_perm (hperm : environ'.vars.Perm environ.vars) :
    (∃ var ∈ environ'.vars, Unreadable reader environ' var) ↔
      ∃ var ∈ environ.vars, Unreadable reader environ var := by
  apply exists_congr
  intro var
  rw [hperm.mem_iff, Unreadable, Unreadable, envPath_perm hperm]

omit [DecidableEq κ] in
theorem filterMap_entryOf_perm (hperm : environ'.vars.Perm environ.vars) :
    (environ'.vars.filterMap (entryOf reader environ')).Perm
      (environ.vars.filterMap (entryOf reader environ)) := by
  have hentry : entryOf reader environ' = entryOf reader environ := by
    funext var
    rw [entryOf, entryOf, envPath_perm hperm]
  rw [hentry]
  exact hperm.filterMap _

/-- Writes that are compatible can be made in any order. -/
theorem overridesView_of_compatible (hreadable :
    ¬∃ var ∈ environ.vars, Unreadable reader environ var) (hcompatible : Compatible reader environ)
      (hperm : environ'.vars.Perm environ.vars) :
    overridesView reader environ' = overridesView reader environ := by
  rw [overridesView_of_readable fun h => hreadable ((unreadable_perm hperm).mp h),
    overridesView_of_readable hreadable]
  congr 1
  symm
  apply (filterMap_entryOf_perm hperm).symm.foldl_eq'
  intro e he e' he' z
  obtain ⟨var, hvar, hentry⟩ := List.mem_filterMap.mp he
  obtain ⟨var', hvar', hentry'⟩ := List.mem_filterMap.mp he'
  by_cases hsame : var = var'
  · rw [hsame, hentry'] at hentry
    rw [Option.some.inj hentry]
  · exact View.write_comm e'.2.wellFormed e.2.wellFormed
      (hcompatible var' hvar' var hvar (Ne.symm hsame) e' hentry' e hentry)
        (hcompatible var hvar var' hvar' hsame e hentry e' hentry')

theorem exists_swapped {x y : PyStr × PyStr} (hx : x ∈ vars) (hy : y ∈ vars) (hne : x ≠ y) :
    ∃ rest, (rest ++ [x, y]).Perm vars ∧ (rest ++ [y, x]).Perm vars := by
  have hy' : y ∈ vars.erase x := (List.mem_erase_of_ne hne.symm).mpr hy
  have hperm : (x :: y :: (vars.erase x).erase y).Perm vars :=
    ((List.perm_cons_erase hy').symm.cons x).trans (List.perm_cons_erase hx).symm
  refine ⟨(vars.erase x).erase y, List.perm_append_comm.trans hperm, ?_⟩
  exact List.perm_append_comm.trans ((List.Perm.swap x y _).trans hperm)

/-- Where the order does not matter, the writes are compatible. -/
theorem compatible_of_order (hreadable : ¬∃ var ∈ environ.vars, Unreadable reader environ var)
    (horder : ∀ environ' : Environ, environ'.vars.Perm environ.vars →
      overridesView reader environ' = overridesView reader environ) :
    Compatible reader environ := by
  intro var hvar var' hvar' hne e he e' he' hbegin r
  obtain ⟨rest, hfirst, hsecond⟩ := exists_swapped hvar hvar' hne
  -- The one that is written last is what is found.
  have hwritten :
      ∀ {x y : PyStr × PyStr} {a b : List κ × Tree κ α}, (rest ++ [x, y]).Perm environ.vars →
        entryOf reader environ x = some a → entryOf reader environ y = some b →
          ∃ z, overridesView reader environ =
            some (View.write b.1 b.2.view (View.write a.1 a.2.view z)) := by
    intro x y a b hperm ha hb
    have hdistinct : ((rest ++ [x, y]).map Prod.fst).Nodup :=
      (hperm.map Prod.fst).nodup_iff.mpr environ.distinct
    have hsame := horder ⟨rest ++ [x, y], hdistinct⟩ hperm
    have hentry :
        ∀ var, entryOf reader ⟨rest ++ [x, y], hdistinct⟩ var = entryOf reader environ var := by
      intro var
      rw [entryOf, entryOf, @envPath_perm _ _ reader environ ⟨rest ++ [x, y], hdistinct⟩ hperm]
    rw [← hsame, overridesView_of_readable fun h =>
      hreadable ((@unreadable_perm _ _ reader environ ⟨rest ++ [x, y], hdistinct⟩ hperm).mp h)]
    refine ⟨((rest.filterMap (entryOf reader environ)).foldl (fun g e => View.write e.1 e.2.view g)
      (Tree.node []).view), ?_⟩
    rw [List.filterMap_congr fun var _ => hentry var, List.filterMap_append, List.foldl_append,
      List.filterMap_cons_some ha, List.filterMap_cons_some hb, List.filterMap_nil, List.foldl_cons,
      List.foldl_cons, List.foldl_nil]
  obtain ⟨z, hz⟩ := hwritten hfirst he he'
  obtain ⟨z', hz'⟩ := hwritten hsecond he' he
  have hpoint := congrFun (Option.some.inj (hz.symm.trans hz')) (e'.1 ++ r)
  rw [View.write, if_pos (List.prefix_append _ _), List.drop_left, View.write,
    if_pos (hbegin.trans (List.prefix_append _ _)),
    List.drop_append_of_le_length hbegin.length_le] at hpoint
  exact hpoint.symm

/-- The mapping is the same for every order of the variables exactly where a value is not YAML, so
that none is computed, or where the path of a variable leads into the value of another only to what
that has there already. -/
theorem env_order_irrelevant_iff (reader : ConfigReader κ α) (environ : Environ) :
    (∀ environ' : Environ, environ'.vars.Perm environ.vars →
        overridesView reader environ' = overridesView reader environ) ↔
      (∃ var ∈ environ.vars, Unreadable reader environ var) ∨ Compatible reader environ := by
  constructor
  · intro horder
    by_cases hread : ∃ var ∈ environ.vars, Unreadable reader environ var
    · exact .inl hread
    · exact .inr (compatible_of_order hread horder)
  · intro h environ' hperm
    by_cases hread : ∃ var ∈ environ.vars, Unreadable reader environ var
    · rw [overridesView, overridesView, envOverrides, envOverrides, applyVars_eq_none hread,
        applyVars_eq_none ((unreadable_perm hperm).mpr hread)]
    · exact overridesView_of_compatible hread (h.resolve_left hread) hperm

end

/-- YAML as far as one flow mapping and plain scalars go, and the letters of ASCII. -/
def plainReader : ConfigReader PyStr PyStr where
  lower text := text.map fun c => if 65 ≤ c ∧ c ≤ 90 then c + 32 else c
  key := id
  safeLoad raw :=
    if raw = PyStr.ofString "{timezone: UTC}" then
      some (.node [(PyStr.ofString "timezone", .leaf (PyStr.ofString "UTC"))])
    else some (.leaf raw)
  truthy value := value != []
  readFile _ := none

/-- A mapping for a section and a variable for one of its fields: the field is kept only if it is
listed last. -/
theorem section_replaces_field :
    let whole := (PyStr.ofString "FCAM_QUOTA", PyStr.ofString "{timezone: UTC}")
    let field := (PyStr.ofString "FCAM_QUOTA__COUNT_MODE", PyStr.ofString "attempt")
    let path := ["quota", "count_mode"].map PyStr.ofString
    ∃ environ environ' : Environ, environ.vars = [whole, field] ∧ environ'.vars.Perm environ.vars ∧
      (overridesView plainReader environ).map (fun view => view path) =
        some (some (some (PyStr.ofString "attempt"))) ∧
      (overridesView plainReader environ').map (fun view => view path) = some none := by
  refine ⟨⟨_, by decide⟩, ⟨_, by decide⟩, rfl, List.Perm.swap _ _ _, ?_, ?_⟩ <;> decide

end Fcam
