import Mathlib.Data.List.Basic
import Mathlib.Data.List.Pairwise
import Mathlib.Data.List.Nodup
import Mathlib.Tactic.Common

/-!
# Tables with integer row ids

A table is a list of rows in strictly increasing id order, so an id names at most one row and a scan
in list order is a scan in id order. `insert` allocates the id a plain `INTEGER PRIMARY KEY` gives:
one more than the largest id present, which hands an id out again once the rows from it on are gone.
What an id names before and after a change is compared by `Option.Rel`.
-/

namespace Option.Rel

variable {α β γ : Type} {a : Option α} {b : Option β} {c : Option γ} {r : α → β → Prop}

theorem imp {s : α → β → Prop} (h : Option.Rel r a b) (himp : ∀ x y, r x y → s x y) :
    Option.Rel s a b := by
  cases h with
  | none => exact .none
  | some hrel => exact .some (himp _ _ hrel)

theorem comp {s : β → γ → Prop} {t : α → γ → Prop} (h : Option.Rel r a b) (h' : Option.Rel s b c)
    (hcomp : ∀ x y z, r x y → s y z → t x z) : Option.Rel t a c := by
  cases h with
  | none =>
    cases h'
    exact .none
  | some hrel =>
    cases h' with
    | some hrel' => exact .some (hcomp _ _ _ hrel hrel')

theorem of_eq {r : α → α → Prop} (a : Option α) (hrefl : ∀ x, r x x) : Option.Rel r a a := by
  cases a with
  | none => exact .none
  | some x => exact .some (hrefl x)

theorem map {r : α → α → Prop} (a : Option α) (f : α → α) (hrel : ∀ x, r x (f x)) :
    Option.Rel r a (a.map f) := by
  cases a with
  | none => exact .none
  | some x => exact .some (hrel x)

theorem exists_of_eq_some {x : α} (h : Option.Rel r a b) (hsome : a = .some x) :
    ∃ y, b = .some y ∧ r x y := by
  subst hsome
  cases h with
  | some hrel => exact ⟨_, rfl, hrel⟩

theorem isSome_eq (h : Option.Rel r a b) : a.isSome = b.isSome := by
  cases h with
  | none => rfl
  | some _ => rfl

end Option.Rel

namespace Fcam

/-- Rows keyed by their ids, in strictly increasing id order. -/
structure Table (ρ : Type) where
  rows : List (Nat × ρ)
  sorted : (rows.map Prod.fst).Pairwise (· < ·)
deriving DecidableEq

namespace Table

variable {ρ : Type}

def empty : Table ρ := ⟨[], .nil⟩

/-- The row with an id. -/
def get? (t : Table ρ) (id : Nat) : Option ρ := t.rows.lookup id

/-- Rewrite every row in place. -/
def mapRows (t : Table ρ) (f : Nat → ρ → ρ) : Table ρ where
  rows := t.rows.map fun row => (row.1, f row.1 row.2)
  sorted := by
    rw [List.map_map]
    exact t.sorted

/-- Rewrite the row with an id, if there is one. -/
def modify (t : Table ρ) (id : Nat) (f : ρ → ρ) : Table ρ :=
  t.mapRows fun i row => if i = id then f row else row

/-- The rows a query's filter keeps, in id order. -/
def select (t : Table ρ) (p : ρ → Bool) : List (Nat × ρ) := t.rows.filter fun row => p row.2

/-- Delete the rows a filter keeps. -/
def deleteWhere (t : Table ρ) (p : Nat → ρ → Bool) : Table ρ where
  rows := t.rows.filter fun row => !p row.1 row.2
  sorted := t.sorted.sublist (List.filter_sublist.map _)

/-- The id the next inserted row gets. -/
def nextId (t : Table ρ) : Nat := (t.rows.getLast?.map fun row => row.1 + 1).getD 1

theorem lt_nextId_of_mem {t : Table ρ} {row : Nat × ρ} (hmem : row ∈ t.rows) :
    row.1 < t.nextId := by
  obtain ⟨init, last, hrows⟩ :=
    List.eq_nil_or_concat t.rows |>.resolve_left (List.ne_nil_of_mem hmem)
  have hsorted := t.sorted
  rw [nextId, hrows]
  rw [hrows] at hmem hsorted
  simp only [List.concat_eq_append, List.map_append, List.map_cons, List.map_nil,
    List.pairwise_append] at hsorted
  simp only [List.concat_eq_append, List.mem_append, List.mem_singleton] at hmem
  simp only [List.concat_eq_append, List.getLast?_concat, Option.map_some, Option.getD_some]
  rcases hmem with hmem | rfl
  · have := hsorted.2.2 row.1 (List.mem_map_of_mem hmem) last.1 (by simp)
    omega
  · omega

/-- Append a row under the next id. -/
def insert (t : Table ρ) (row : ρ) : Table ρ where
  rows := t.rows ++ [(t.nextId, row)]
  sorted := by
    rw [List.map_append, List.pairwise_append]
    refine ⟨t.sorted, by simp, fun id hid next hnext => ?_⟩
    obtain ⟨old, hold, rfl⟩ := List.mem_map.mp hid
    simp only [List.map_cons, List.map_nil, List.mem_singleton] at hnext
    rw [hnext]
    exact lt_nextId_of_mem hold

/-! ### Lookups -/

theorem nodup_ids (t : Table ρ) : (t.rows.map Prod.fst).Nodup := t.sorted.imp Nat.ne_of_lt

private theorem lookup_eq_some_iff {id : Nat} {row : ρ} :
    ∀ {rows : List (Nat × ρ)}, (rows.map Prod.fst).Nodup →
      (rows.lookup id = some row ↔ (id, row) ∈ rows)
  | [], _ => by simp
  | (first, value) :: rest, hnodup => by
    rw [List.map_cons, List.nodup_cons] at hnodup
    rw [List.lookup_cons, List.mem_cons]
    by_cases heq : id = first
    · subst heq
      simp only [beq_self_eq_true, Prod.mk.injEq, true_and, Option.some.injEq]
      refine ⟨fun h => .inl h.symm, fun h => h.elim Eq.symm fun hrest => ?_⟩
      exact absurd (List.mem_map_of_mem (f := Prod.fst) hrest) hnodup.1
    · simp only [beq_eq_false_iff_ne.mpr heq, Prod.mk.injEq, heq, false_and, false_or]
      exact lookup_eq_some_iff hnodup.2

theorem get?_eq_some_iff {t : Table ρ} {id : Nat} {row : ρ} : t.get? id = some row ↔
    (id, row) ∈ t.rows :=
  lookup_eq_some_iff t.nodup_ids

theorem get?_of_mem {t : Table ρ} {row : Nat × ρ} (hmem : row ∈ t.rows) :
    t.get? row.1 = some row.2 :=
  get?_eq_some_iff.mpr hmem

theorem lt_nextId {t : Table ρ} {id : Nat} {row : ρ}
    (hget : t.get? id = some row) : id < t.nextId :=
  lt_nextId_of_mem (get?_eq_some_iff.mp hget)

@[simp] theorem get?_empty (id : Nat) : (empty : Table ρ).get? id = none := rfl

@[simp] theorem get?_nextId (t : Table ρ) : t.get? t.nextId = none := by
  rw [Option.eq_none_iff_forall_ne_some]
  intro row hget
  exact Nat.lt_irrefl _ (lt_nextId hget)

private theorem lookup_map (f : Nat → ρ → ρ) (id : Nat) :
    ∀ rows : List (Nat × ρ), (rows.map fun row => (row.1, f row.1 row.2)).lookup id =
      (rows.lookup id).map (f id)
  | [] => rfl
  | (first, value) :: rest => by
    rw [List.map_cons, List.lookup_cons, List.lookup_cons]
    by_cases heq : id = first
    · simp [heq]
    · simp [beq_eq_false_iff_ne.mpr heq, lookup_map f id rest]

@[simp] theorem get?_mapRows (t : Table ρ) (f : Nat → ρ → ρ) (id : Nat) :
    (t.mapRows f).get? id = (t.get? id).map (f id) :=
  lookup_map f id t.rows

@[simp] theorem get?_modify_self (t : Table ρ) (id : Nat) (f : ρ → ρ) :
    (t.modify id f).get? id = (t.get? id).map f := by
  simp [modify]

theorem get?_modify_of_ne (t : Table ρ) {id other : Nat} (f : ρ → ρ) (hne : other ≠ id) :
    (t.modify id f).get? other = t.get? other := by
  simp [modify, hne]

theorem get?_modify (t : Table ρ) (id other : Nat) (f : ρ → ρ) :
    (t.modify id f).get? other = if other = id then (t.get? other).map f else t.get? other := by
  by_cases heq : other = id
  · subst heq
    simp
  · rw [get?_modify_of_ne t f heq, if_neg heq]

theorem modify_congr {t : Table ρ} {id : Nat} {f g : ρ → ρ}
    (h : ∀ row, t.get? id = some row → f row = g row) :
    t.modify id f = t.modify id g := by
  rw [modify, modify, mapRows, mapRows, Table.mk.injEq]
  apply List.map_congr_left
  intro row hmem
  by_cases hid : row.1 = id
  · rw [if_pos hid, if_pos hid, h row.2 (hid ▸ get?_of_mem hmem)]
  · rw [if_neg hid, if_neg hid]

theorem find?_modify (t : Table ρ) (id : Nat) {f : ρ → ρ} {p : ρ → Bool}
    (hp : ∀ row, p (f row) = p row) :
    ((t.modify id f).rows.find? fun row => p row.2) =
      (t.rows.find? fun row => p row.2).map fun row => (row.1, if row.1 = id then f row.2
        else row.2) := by
  rw [modify, mapRows, List.find?_map]
  congr 2
  funext row
  simp only [Function.comp_apply]
  split
  · exact hp row.2
  · rfl

theorem find?_insert {t : Table ρ} {row : ρ} {p : ρ → Bool} :
    ((t.insert row).rows.find? fun row => p row.2) =
      (t.rows.find? fun row => p row.2).or (if p row then some (t.nextId, row) else none) := by
  rw [insert, List.find?_append, List.find?_cons, List.find?_nil]
  cases p row <;> rfl

theorem get?_insert (t : Table ρ) (row : ρ) (id : Nat) :
    (t.insert row).get? id = if id = t.nextId then some row else t.get? id := by
  by_cases heq : id = t.nextId
  · rw [if_pos heq, get?_eq_some_iff, heq]
    exact List.mem_append_right _ (List.mem_singleton_self _)
  · rw [if_neg heq]
    apply Option.ext
    intro value
    simp [get?_eq_some_iff, insert, heq]

@[simp] theorem get?_insert_self (t : Table ρ) (row : ρ) :
    (t.insert row).get? t.nextId = some row := by
  rw [get?_insert, if_pos rfl]

theorem get?_deleteWhere (t : Table ρ) (p : Nat → ρ → Bool) (id : Nat) :
    (t.deleteWhere p).get? id = (t.get? id).filter fun row => !p id row := by
  apply Option.ext
  intro row
  simp [get?_eq_some_iff, deleteWhere, Option.filter_eq_some_iff]

theorem get?_delete_of_ne (t : Table ρ) {id other : Nat} (hne : other ≠ id) :
    (t.deleteWhere fun row _ => row == id).get? other = t.get? other := by
  rw [get?_deleteWhere, beq_eq_false_iff_ne.mpr hne]
  cases t.get? other <;> rfl

theorem get?_of_deleteWhere {t : Table ρ} {p : Nat → ρ → Bool} {id : Nat} {row : ρ}
    (hget : (t.deleteWhere p).get? id = some row) : t.get? id = some row ∧ p id row = false := by
  rw [get?_deleteWhere, Option.filter_eq_some_iff] at hget
  simpa using hget

theorem mem_select {t : Table ρ} {p : ρ → Bool} {row : Nat × ρ} :
    row ∈ t.select p ↔ t.get? row.1 = some row.2 ∧ p row.2 = true := by
  rw [select, List.mem_filter, get?_eq_some_iff]

theorem pairwise_select (t : Table ρ) (p : ρ → Bool) :
    (t.select p).Pairwise fun row next => row.1 < next.1 :=
  (List.pairwise_map.mp t.sorted).sublist List.filter_sublist

theorem select_deleteWhere (t : Table ρ) (p : ρ → Bool) (q : Nat → ρ → Bool) :
    (t.deleteWhere q).select p = (t.select p).filter fun row => !q row.1 row.2 := by
  rw [select, select, deleteWhere, List.filter_filter, List.filter_filter]
  simp only [Bool.and_comm]

theorem select_eq {t t' : Table ρ} {p : ρ → Bool}
    (h : ∀ id row, p row = true → (t.get? id = some row ↔ t'.get? id = some row)) :
    t.select p = t'.select p := by
  have hmem : ∀ row, row ∈ t.select p ↔ row ∈ t'.select p := by
    intro row
    rw [mem_select, mem_select]
    by_cases hp : p row.2 = true
    · rw [h row.1 row.2 hp]
    · simp only [hp, Bool.false_eq_true, and_false]
  have hnodup : ∀ t : Table ρ, (t.select p).Nodup := by
    intro t
    apply (pairwise_select t p).imp
    intro row next hlt heq
    rw [heq] at hlt
    exact Nat.lt_irrefl _ hlt
  have hperm := (List.perm_ext_iff_of_nodup (hnodup t) (hnodup t')).mpr hmem
  apply hperm.eq_of_pairwise _ (pairwise_select t p) (pairwise_select t' p)
  intro row next _ _ hlt hgt
  omega

theorem mem_ids_select {t : Table ρ} {p : ρ → Bool} {id : Nat} :
    id ∈ (t.select p).map Prod.fst ↔ ∃ row, t.get? id = some row ∧ p row = true := by
  rw [List.mem_map]
  constructor
  · rintro ⟨row, hrow, rfl⟩
    exact ⟨row.2, mem_select.mp hrow⟩
  · rintro ⟨row, hrow⟩
    exact ⟨(id, row), mem_select.mpr hrow, rfl⟩

theorem ids_select_eq {t t' : Table ρ} {p : ρ → Bool}
    (h : ∀ id, Option.Rel (fun row row' => p row = p row') (t.get? id) (t'.get? id)) :
    (t.select p).map Prod.fst = (t'.select p).map Prod.fst := by
  have hsorted : ∀ t : Table ρ, ((t.select p).map Prod.fst).Pairwise (· < ·) := fun t =>
    List.pairwise_map.mpr (pairwise_select t p)
  have hsame : ∀ id, id ∈ (t.select p).map Prod.fst ↔ id ∈ (t'.select p).map Prod.fst := by
    intro id
    rw [mem_ids_select, mem_ids_select]
    have hid := h id
    revert hid
    generalize t.get? id = before
    generalize t'.get? id = after
    intro hid
    cases hid with
    | none => simp
    | some hp => simp [hp]
  have hperm :=
    (List.perm_ext_iff_of_nodup ((hsorted t).imp Nat.ne_of_lt) ((hsorted t').imp Nat.ne_of_lt)).mpr
      hsame
  apply hperm.eq_of_pairwise _ (hsorted t) (hsorted t')
  intro id next _ _ hlt hgt
  omega

end Table

end Fcam
