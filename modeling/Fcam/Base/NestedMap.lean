import Mathlib.Data.List.Basic
import Mathlib.Data.List.Infix
import Mathlib.Data.List.Nodup
import Mathlib.Tactic.Common

/-!
# Nested mappings

A tree is a leaf or a mapping from keys to trees, kept in insertion order. What matters of it is its
view: for each path whether there is nothing, a mapping or a leaf. Two operations on views are all
that layers of configuration need: `write` puts a view under a path, and `overlay` lays one view
over another. Writes commute where neither changes what the other has written.
-/

namespace Fcam

/-- A value that is a leaf, or a mapping of which each key is looked up where it stands first. -/
inductive Tree (κ α : Type) where
  | leaf (value : α)
  | node (members : List (κ × Tree κ α))

/-- What is found at each path: nothing, a mapping, or a leaf. -/
abbrev View (κ α : Type) := List κ → Option (Option α)

variable {κ α : Type} [DecidableEq κ]

/-- `members[key] = value`: a key that is there keeps its place. -/
def putMember (key : κ) (value : Tree κ α) : List (κ × Tree κ α) → List (κ × Tree κ α)
  | [] => [(key, value)]
  | (k, old) :: rest => if k = key then (k, value) :: rest else (k, old) :: putMember key value rest

theorem lookup_putMember (key k : κ) (value : Tree κ α) (members : List (κ × Tree κ α)) :
    (putMember key value members).lookup k = if k = key then some value else members.lookup k := by
  induction members with
  | nil =>
    rw [putMember, List.lookup_cons]
    by_cases heq : k = key
    · rw [if_pos heq, beq_iff_eq.mpr heq]
    · rw [if_neg heq, beq_eq_false_iff_ne.mpr heq]
  | cons m members ih =>
    obtain ⟨k', old⟩ := m
    rw [putMember]
    split
    · next hsame =>
      subst hsame
      rw [List.lookup_cons, List.lookup_cons]
      by_cases heq : k = k'
      · rw [if_pos heq, beq_iff_eq.mpr heq]
      · rw [if_neg heq, beq_eq_false_iff_ne.mpr heq]
    · next hother =>
      rw [List.lookup_cons, List.lookup_cons, ih]
      by_cases heq : k = k'
      · subst heq
        rw [beq_self_eq_true]
        exact (if_neg hother).symm
      · rw [beq_eq_false_iff_ne.mpr heq]

namespace Tree

/-- The view of a tree. -/
def view : Tree κ α → View κ α
  | leaf value, [] => some (some value)
  | leaf _, _ :: _ => none
  | node _, [] => some none
  | node members, key :: path => (members.lookup key).bind fun value => value.view path
termination_by structural _ path => path

section

variable {t : Tree κ α} {members : List (κ × Tree κ α)} {key : κ} {path rest : List κ}

@[simp] theorem view_nil_node (members : List (κ × Tree κ α)) :
    (node members).view [] = some none := rfl

@[simp] theorem view_node_cons (members : List (κ × Tree κ α)) (key : κ) (path : List κ) :
    (node members).view (key :: path) = (members.lookup key).bind fun value => value.view path :=
  rfl

theorem view_nil (t : Tree κ α) : (t.view []).isSome = true := by
  cases t <;> rfl

theorem view_append (t : Tree κ α) (path rest : List κ)
    (hsome : (t.view (path ++ rest)).isSome = true) (hne : rest ≠ []) :
    t.view path = some none := by
  induction path generalizing t with
  | nil =>
    cases t with
    | leaf value =>
      cases rest with
      | nil => exact absurd rfl hne
      | cons key rest => cases hsome
    | node members => rfl
  | cons key path ih =>
    cases t with
    | leaf value => cases hsome
    | node members =>
      rw [List.cons_append, view_node_cons] at hsome
      rw [view_node_cons]
      cases hlookup : members.lookup key with
      | none =>
        rw [hlookup] at hsome
        cases hsome
      | some value =>
        rw [hlookup] at hsome
        exact ih value hsome

end

end Tree

namespace View

/-- A view as trees have it: something at the root, and mappings above whatever there is. -/
structure WellFormed (f : View κ α) : Prop where
  root : (f []).isSome = true
  above : ∀ path rest, (f (path ++ rest)).isSome = true → rest ≠ [] → f path = some none

/-! ### Writing under a path -/

/-- What a view becomes when another is put under a path: mappings lead to it, and what stood there
is gone. -/
def write (path : List κ) (f g : View κ α) : View κ α := fun r =>
  if path <+: r then f (r.drop path.length) else if r <+: path then some none else g r

/-- What is written under one path has in it what is written under another, where the latter leads
into it. -/
def Agree (p : List κ) (f : View κ α) (q : List κ) (g : View κ α) : Prop :=
  p <+: q → ∀ r, f (q.drop p.length ++ r) = g r

section

variable {f g z : View κ α} {p q r : List κ}

theorem write_write (hf : WellFormed f) (hg : WellFormed g) (hpq : Agree p f q g)
    (hqp : Agree q g p f) (hp : p <+: r) :
    write q g (write p f z) r = f (r.drop p.length) := by
  rw [write]
  obtain ⟨a, rfl⟩ := hp
  rw [List.drop_left]
  split_ifs with hq hr
  · rcases List.prefix_or_prefix_of_prefix hq (List.prefix_append p a) with hle | hle
    · -- The second path is above the first.
      obtain ⟨b, rfl⟩ := hle
      rw [List.append_assoc, List.drop_left, ← hqp (List.prefix_append q b) a, List.drop_left]
    · obtain ⟨b, rfl⟩ := hle
      obtain ⟨c, hc⟩ := (List.prefix_append_right_inj p).mp hq
      rw [← hc, ← List.append_assoc, List.drop_left, ← hpq (List.prefix_append p b) c,
        List.drop_left]
  · obtain ⟨b, rfl⟩ := hr
    have hne : b ≠ [] := by
      rintro rfl
      rw [List.append_nil] at hq
      exact hq List.prefix_rfl
    have hroot := hpq ((List.prefix_append p a).trans (List.prefix_append _ b)) []
    rw [List.append_assoc, List.drop_left, List.append_nil] at hroot
    exact (hf.above a b (hroot ▸ hg.root) hne).symm
  · rw [write, if_pos (List.prefix_append p a), List.drop_left]

theorem write_comm (hf : WellFormed f) (hg : WellFormed g) (hpq : Agree p f q g)
    (hqp : Agree q g p f) :
    write p f (write q g z) = write q g (write p f z) := by
  funext r
  by_cases hp : p <+: r
  · rw [write_write hf hg hpq hqp hp, write, if_pos hp]
  · by_cases hq : q <+: r
    · rw [write_write hg hf hqp hpq hq]
      exact (if_pos hq).symm
    · rw [write, write, write, write, if_neg hp, if_neg hp, if_neg hq, if_neg hq]
      split_ifs <;> rfl

end

/-! ### One view over another -/

/-- There is a leaf at a proper prefix of the path. -/
def leafAbove : View κ α → List κ → Bool
  | _, [] => false
  | g, key :: path => (g []).join.isSome || leafAbove (fun rest => g (key :: rest)) path

/-- What one view shows through another: where the upper one has nothing, and no leaf above. -/
def overlay (f g : View κ α) : View κ α :=
  fun path => (g path).or (if g.leafAbove path then none else f path)

section

variable {f g : View κ α} {path : List κ}

omit [DecidableEq κ] in
theorem leafAbove_iff : g.leafAbove path = true ↔
    ∃ above, above <+: path ∧ above ≠ path ∧ (g above).join.isSome = true := by
  induction path generalizing g with
  | nil =>
    refine iff_of_false Bool.false_ne_true fun h => ?_
    obtain ⟨above, hprefix, hne, -⟩ := h
    exact hne (List.prefix_nil.mp hprefix)
  | cons key path ih =>
    rw [leafAbove, Bool.or_eq_true, ih]
    constructor
    · intro h
      rcases h with hroot | ⟨above, hprefix, hne, hleaf⟩
      · exact ⟨[], List.nil_prefix, (List.cons_ne_nil _ _).symm, hroot⟩
      · exact ⟨key :: above, List.cons_prefix_cons.mpr ⟨rfl, hprefix⟩,
          fun heq => hne (List.cons.inj heq).2, hleaf⟩
    · intro h
      obtain ⟨above, hprefix, hne, hleaf⟩ := h
      cases above with
      | nil => exact .inl hleaf
      | cons k above =>
        obtain ⟨rfl, hrest⟩ := List.cons_prefix_cons.mp hprefix
        exact .inr ⟨above, hrest, fun heq => hne (heq ▸ rfl), hleaf⟩

omit [DecidableEq κ] in
theorem overlay_overlay (f g : View κ α) : overlay (overlay f g) g = overlay f g := by
  funext path
  rw [overlay, overlay]
  cases g path with
  | some found => rfl
  | none =>
    rw [Option.none_or, Option.none_or]
    split_ifs <;> rfl

end

end View

theorem Tree.wellFormed (t : Tree κ α) : View.WellFormed t.view := ⟨t.view_nil, t.view_append⟩

/-! ### Distinct keys -/

mutual

/-- The keys of every mapping in a tree are distinct. -/
def Tree.Distinct : Tree κ α → Prop
  | .leaf _ => True
  | .node members => (members.map Prod.fst).Nodup ∧ DistinctMembers members

def DistinctMembers : List (κ × Tree κ α) → Prop
  | [] => True
  | (_, value) :: rest => value.Distinct ∧ DistinctMembers rest

end

/-- A mapping as a dictionary is one: with distinct keys, on every level. -/
structure Mapping (κ α : Type) where
  members : List (κ × Tree κ α)
  distinct : (Tree.node members).Distinct

section

variable {key : κ} {value : Tree κ α} {members : List (κ × Tree κ α)}

omit [DecidableEq κ] in
theorem distinctMembers_iff : DistinctMembers members ↔ ∀ m ∈ members, m.2.Distinct := by
  induction members with
  | nil => exact iff_of_true trivial (List.forall_mem_nil _)
  | cons m members ih => rw [DistinctMembers, ih, List.forall_mem_cons]

theorem mem_of_lookup {value : Tree κ α} (hlookup : members.lookup key = some value) :
    (key, value) ∈ members := by
  obtain ⟨before, after, rfl, -⟩ := List.lookup_eq_some_iff.mp hlookup
  exact List.mem_append_right _ List.mem_cons_self

theorem mem_putMember {m : κ × Tree κ α} (hm : m ∈ putMember key value members) :
    m = (key, value) ∨ m ∈ members := by
  induction members with
  | nil => exact .inl (List.mem_singleton.mp hm)
  | cons first members ih =>
    obtain ⟨k, old⟩ := first
    rw [putMember] at hm
    split at hm
    · next hsame =>
      rcases List.mem_cons.mp hm with hfirst | hrest
      · exact .inl (hsame ▸ hfirst)
      · exact .inr (List.mem_cons_of_mem _ hrest)
    · rcases List.mem_cons.mp hm with hfirst | hrest
      · exact .inr (hfirst ▸ List.mem_cons_self)
      · exact (ih hrest).imp_right (List.mem_cons_of_mem _)

theorem distinct_putMember (hmembers : (Tree.node members).Distinct) (hvalue : value.Distinct) :
    (Tree.node (putMember key value members)).Distinct := by
  obtain ⟨hkeys, hvalues⟩ := hmembers
  refine ⟨?_, distinctMembers_iff.mpr fun m hm => ?_⟩
  · clear hvalues
    induction members with
    | nil => exact List.nodup_singleton key
    | cons first members ih =>
      obtain ⟨k, old⟩ := first
      obtain ⟨hfirst, hrest⟩ := List.nodup_cons.mp hkeys
      rw [putMember]
      split
      · exact List.nodup_cons.mpr ⟨hfirst, hrest⟩
      · next hother =>
        refine List.nodup_cons.mpr ⟨fun hmem => ?_, ih hrest⟩
        obtain ⟨m, hm, heq⟩ := List.mem_map.mp hmem
        rcases mem_putMember hm with rfl | hm
        · exact hother heq.symm
        · exact hfirst (List.mem_map.mpr ⟨m, hm, heq⟩)
  · rcases mem_putMember hm with rfl | hm
    · exact hvalue
    · exact distinctMembers_iff.mp hvalues m hm

end

end Fcam
