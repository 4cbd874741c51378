import Fcam.Model.LoadConfig

/-!
# The layers of the configuration

A merge lays the view of the override over that of the base. So each leaf comes from the
environment, else from the file, else from the defaults, unless a layer above has a leaf on the way
to it or a mapping in its place.
-/

namespace Fcam

variable {κ α : Type} [DecidableEq κ]

/-! ### One merge -/

section

variable {base override : List (κ × Tree κ α)} {key : κ} {old value : Tree κ α}

theorem lookup_eq_none_of_keys {members : List (κ × Tree κ α)} (hkey : key ∉ members.map Prod.fst) :
    members.lookup key = none := by
  cases hlookup : members.lookup key with
  | none => rfl
  | some value => exact absurd (List.mem_map_of_mem (mem_of_lookup hlookup)) hkey

theorem lookup_deepMerge (hkeys : (override.map Prod.fst).Nodup) (base : List (κ × Tree κ α))
    (key : κ) :
    (deepMerge base override).lookup key =
      ((override.lookup key).map (mergeValue (base.lookup key))).or (base.lookup key) := by
  induction override generalizing base with
  | nil => rfl
  | cons m rest ih =>
    obtain ⟨first, value⟩ := m
    obtain ⟨hfirst, hrest⟩ := List.nodup_cons.mp hkeys
    rw [deepMerge, ih hrest, lookup_putMember, List.lookup_cons]
    by_cases heq : key = first
    · subst heq
      rw [lookup_eq_none_of_keys hfirst, if_pos rfl, beq_self_eq_true]
      rfl
    · rw [if_neg heq, beq_eq_false_iff_ne.mpr heq]

omit [DecidableEq κ] in
theorem leafAbove_none (path : List κ) :
    View.leafAbove (fun _ => none : View κ α) path = false := by
  induction path with
  | nil => rfl
  | cons key path ih => exact ih

theorem view_deepMerge (hover : (Tree.node override).Distinct) :
    (Tree.node (deepMerge base override)).view = View.overlay (Tree.node base).view
      (Tree.node override).view := by
  funext path
  induction path generalizing base override with
  | nil => rfl
  | cons key path ih =>
    obtain ⟨hkeys, hvalues⟩ := hover
    rw [Tree.view_node_cons, lookup_deepMerge hkeys, View.overlay, View.leafAbove,
      Tree.view_nil_node, Tree.view_node_cons]
    simp only [Tree.view_node_cons, Option.join_some, Option.isSome_none, Bool.false_or]
    cases hlookup : override.lookup key with
    | none =>
      rw [Option.map_none, Option.none_or, Option.bind_none, Option.none_or]
      simp only [Option.bind_none, leafAbove_none, Bool.false_eq_true, if_false]
    | some value =>
      have hdistinct := distinctMembers_iff.mp hvalues _ (mem_of_lookup hlookup)
      rw [Option.map_some, Option.some_or, Option.bind_some, Option.bind_some]
      simp only [Option.bind_some]
      cases base.lookup key with
      | none => rw [mergeValue, Option.bind_none, ite_self, Option.or_none]
      | some old =>
        rw [Option.bind_some]
        cases old with
        | leaf bottom =>
          rw [mergeValue]
          cases path with
          | nil =>
            obtain ⟨found, hfound⟩ := Option.isSome_iff_exists.mp value.view_nil
            rw [hfound, Option.some_or]
          | cons next path =>
            have hnone : (Tree.leaf bottom : Tree κ α).view (next :: path) = none := rfl
            rw [hnone, ite_self, Option.or_none]
        | node bottom =>
          cases value with
          | leaf top =>
            rw [mergeValue]
            cases path <;> rfl
          | node top => exact ih hdistinct

end

/-! ### Distinct keys -/

mutual

theorem distinct_mergeValue {old : Option (Tree κ α)} :
    ∀ {value : Tree κ α}, (∀ tree ∈ old, tree.Distinct) → value.Distinct →
      (mergeValue old value).Distinct
  | .leaf value, hold, hvalue => by
    cases old with
    | none => exact hvalue
    | some tree => cases tree <;> exact hvalue
  | .node override, hold, hvalue => by
    cases old with
    | none => exact hvalue
    | some tree =>
      cases tree with
      | leaf bottom => exact hvalue
      | node merged => exact distinct_deepMerge (hold _ rfl) hvalue.2

theorem distinct_deepMerge {merged : List (κ × Tree κ α)} :
    ∀ {override : List (κ × Tree κ α)}, (Tree.node merged).Distinct → DistinctMembers override →
      (Tree.node (deepMerge merged override)).Distinct
  | [], hmerged, _ => hmerged
  | (key, value) :: rest, hmerged, hover => by
    rw [deepMerge]
    apply distinct_deepMerge _ hover.2
    apply distinct_putMember hmerged
    apply distinct_mergeValue _ hover.1
    intro tree htree
    exact distinctMembers_iff.mp hmerged.2 _ (mem_of_lookup htree)

end

/-! ### Leaves -/

namespace Mapping

/-- `_deep_merge` of dictionaries. -/
def deepMerge (base override : Mapping κ α) : Mapping κ α where
  members := Fcam.deepMerge base.members override.members
  distinct := distinct_deepMerge base.distinct override.distinct.2

/-- What is found at each path. -/
def view (m : Mapping κ α) : View κ α := (Tree.node m.members).view

/-- The leaf at a path. -/
def leafAt (m : Mapping κ α) (path : List κ) : Option α := (m.view path).join

/-- A leaf at a proper prefix of the path, or a mapping at the path. -/
def Shadows (m : Mapping κ α) (path : List κ) : Prop :=
  (∃ above, above <+: path ∧ above ≠ path ∧ (m.leafAt above).isSome = true) ∨
  (m.view path).any Option.isNone = true

instance (m : Mapping κ α) (path : List κ) : Decidable (m.Shadows path) :=
  have : Decidable (∃ above, above <+: path ∧ above ≠ path ∧ (m.leafAt above).isSome = true) :=
    decidable_of_iff _ View.leafAbove_iff
  inferInstanceAs (Decidable (_ ∨ _))

variable {base override : Mapping κ α} {path : List κ}

theorem leafAt_deepMerge :
    (base.deepMerge override).leafAt path =
      (override.leafAt path).or (if override.Shadows path then none else base.leafAt path) := by
  have hview : (base.deepMerge override).view = View.overlay base.view override.view :=
    view_deepMerge override.distinct
  have habove : View.leafAbove override.view path = true ↔
      ∃ above, above <+: path ∧ above ≠ path ∧ (override.leafAt above).isSome = true :=
        View.leafAbove_iff
  rw [leafAt, hview, View.overlay, leafAt]
  cases hover : override.view path with
  | none =>
    by_cases hleaf : View.leafAbove override.view path = true
    · rw [if_pos hleaf, if_pos (.inl (habove.mp hleaf))]
      rfl
    · have hshown : ¬override.Shadows path := by
        intro hshadows
        rcases hshadows with hsome | hmapping
        · exact hleaf (habove.mpr hsome)
        · rw [hover] at hmapping
          cases hmapping
      rw [if_neg hleaf, if_neg hshown]
      rfl
  | some found =>
    cases found with
    | some value => rfl
    | none =>
      have hshadows : override.Shadows path := by
        right
        rw [hover]
        rfl
      rw [if_pos hshadows]
      rfl

end Mapping

/-- A merge has the leaves of the override, and those of the base that these do not shadow; merged
twice, the leaves come from the environment, else from the file, else from the defaults; and to
merge the same override again changes nothing. -/
theorem deep_merge_layers (base override defaults yaml env : Mapping κ α) :
    (∀ path,
        (base.deepMerge override).leafAt path =
          (override.leafAt path).or (if override.Shadows path then none else base.leafAt path)) ∧
      (∀ path,
        ((defaults.deepMerge yaml).deepMerge env).leafAt path =
          (env.leafAt path).or
            (if env.Shadows path then none
            else (yaml.leafAt path).or (if yaml.Shadows path then none
              else defaults.leafAt path))) ∧
      ((base.deepMerge override).deepMerge override).view = (base.deepMerge override).view := by
  refine ⟨fun path => Mapping.leafAt_deepMerge, fun path => ?_, ?_⟩
  · rw [Mapping.leafAt_deepMerge, Mapping.leafAt_deepMerge]
  · have hview :
        ∀ base : Mapping κ α,
          (base.deepMerge override).view = View.overlay base.view override.view := fun base =>
      view_deepMerge override.distinct
    rw [hview, hview, View.overlay_overlay]

/-! ### The layers of `load_config` -/

section

variable {reader : ConfigReader κ α} {environ : Environ}

omit [DecidableEq κ] in
theorem distinct_empty : (Tree.node [] : Tree κ α).Distinct := ⟨List.nodup_nil, trivial⟩

theorem distinct_setPath {value : Tree κ α} (hvalue : value.Distinct) {path : List κ}
    {members : List (κ × Tree κ α)} (hmembers : (Tree.node members).Distinct) :
    (Tree.node (setPath value path members)).Distinct := by
  fun_induction setPath value path members with
  | case1 members => exact hmembers
  | case2 part members => exact distinct_putMember hmembers hvalue
  | case3 part next rest members cursor ih =>
    refine distinct_putMember hmembers (ih ?_)
    -- the walk goes on in the mapping that is there, or in an empty one
    dsimp only [cursor]
    split
    · next cursor hlookup => exact distinctMembers_iff.mp hmembers.2 _ (mem_of_lookup hlookup)
    · exact distinct_empty

/-- What `yaml.safe_load` gives is made of dictionaries. -/
def ConfigReader.LoadsDicts (reader : ConfigReader κ α) : Prop :=
  ∀ raw value, reader.safeLoad raw = some value → value.Distinct

theorem distinct_applyVars (hreader : reader.LoadsDicts) {vars : List (PyStr × PyStr)}
    {result env : List (κ × Tree κ α)} (hresult : (Tree.node result).Distinct)
    (henv : applyVars reader environ vars result = some env) : (Tree.node env).Distinct := by
  induction vars generalizing result with
  | nil =>
    obtain rfl := Option.some.inj henv
    exact hresult
  | cons var rest ih =>
    obtain ⟨name, raw⟩ := var
    rw [applyVars] at henv
    split at henv
    · exact ih hresult henv
    · obtain ⟨value, hvalue, hrest⟩ := Option.bind_eq_some_iff.mp henv
      exact ih (distinct_setPath (hreader raw value hvalue) hresult) hrest

omit [DecidableEq κ] in
theorem distinct_loadYamlFile (hreader : reader.LoadsDicts) {path : PyStr}
    {yaml : List (κ × Tree κ α)} (hyaml : loadYamlFile reader path = .ok yaml) :
    (Tree.node yaml).Distinct := by
  rw [loadYamlFile] at hyaml
  split at hyaml
  · cases hyaml
    exact distinct_empty
  split at hyaml
  · cases hyaml
  · next hload =>
    cases hyaml
    exact hreader _ _ hload
  split at hyaml
  · cases hyaml
  · cases hyaml
    exact distinct_empty

/-- The configuration that is validated is the defaults, merged with the file and then with the
environment. -/
theorem mergedConfig_layers (hreader : reader.LoadsDicts) {defaults : Mapping κ α}
    {merged : List (κ × Tree κ α)} (h : mergedConfig reader defaults.members environ = .ok merged) :
    ∃ yaml env : Mapping κ α, envOverrides reader environ = some env.members ∧
      merged = ((defaults.deepMerge yaml).deepMerge env).members := by
  rw [mergedConfig] at h
  split at h
  · cases h
  cases hyaml :
    loadYamlFile reader ((environ.get? "FCAM_CONFIG").getD (PyStr.ofString "config.yaml")) with
  | error error =>
    rw [hyaml] at h
    cases h
  | ok yaml =>
    rw [hyaml] at h
    cases henv : envOverrides reader environ with
    | none =>
      simp only [henv] at h
      cases h
    | some env =>
      simp only [henv] at h
      cases h
      have hdistinct : (Tree.node env).Distinct := distinct_applyVars hreader distinct_empty henv
      exact ⟨⟨yaml, distinct_loadYamlFile hreader hyaml⟩, ⟨env, hdistinct⟩, rfl, rfl⟩

end

end Fcam
