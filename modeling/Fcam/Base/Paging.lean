import Fcam.Base.Table

/-!
# Paging by the last id

A page is the latest rows a filter keeps below a cursor, up to a limit, and where more follow it
names the id of its last row as the next cursor. A client that follows the cursors gets every row
there was at its first request once, whatever is appended to the table between the requests, and
every row that stays once, whatever happens to the table (`Walked`).
-/

namespace Fcam

variable {ρ ι : Type}

/-- Rows were appended to the table, under larger ids. -/
def Table.Grows (t t' : Table ρ) : Prop := ∃ added, t'.rows = t.rows ++ added

/-- The rows a filter keeps below a cursor, latest first. -/
def rowsBelow (p : ρ → Bool) (cursor : Option Nat) (t : Table ρ) : List (Nat × ρ) :=
  (t.rows.filter fun row => p row.2 && cursor.all (row.1 < ·)).reverse

/-- The rows of a page. -/
def pageRows (p : ρ → Bool) (limit : Nat) (cursor : Option Nat) (t : Table ρ) : List (Nat × ρ) :=
  (rowsBelow p cursor t).take limit

/-- The cursor a page names, if more rows follow. -/
def pageNext (p : ρ → Bool) (limit : Nat) (cursor : Option Nat) (t : Table ρ) : Option Nat :=
  if limit < (rowsBelow p cursor t).length then (pageRows p limit cursor t).getLast?.map Prod.fst
  else none

/-- What a client that follows the cursors gets: the `i`th request is answered by `ask i`, with the
items of a page and the next cursor. -/
def follow (ask : Nat → Option Nat → Option (List ι × Option Nat)) : Nat → Nat →
    Option Nat → Option (List ι)
  | 0, _, _ => none
  | fuel + 1, i, cursor =>
    (ask i cursor).bind fun page =>
      match page.2 with
      | none => some page.1
      | some next => (follow ask fuel (i + 1) (some next)).map (page.1 ++ ·)

/-- The `i`th request is answered with a page of the `i`th table. -/
def Paged (ask : Nat → Option Nat → Option (List ι × Option Nat)) (p : ρ → Bool) (limit : Nat)
    (tables : Nat → Table ρ) (rowOf : ι → Nat × ρ) : Prop :=
  ∀ i cursor, ∃ items, ask i cursor = some (items, pageNext p limit cursor (tables i)) ∧
    items.map rowOf = pageRows p limit cursor (tables i)

/-- Of a query that always comes to a page, the answers are its items and its next cursor. -/
theorem Paged.of_query {ε π : Type} {query : Nat → Option Nat → Except ε π} {items : π → List ι}
    {next : π → Option Nat} {p : ρ → Bool} {limit : Nat} {tables : Nat → Table ρ}
    {rowOf : ι → Nat × ρ}
    (hpages : ∀ i cursor, ∃ page, query i cursor = .ok page ∧
      next page = pageNext p limit cursor (tables i) ∧
      (items page).map rowOf = pageRows p limit cursor (tables i)) :
    Paged (fun i cursor => (query i cursor).toOption.map fun page => (items page, next page)) p
      limit tables rowOf := by
  intro i cursor
  obtain ⟨page, hpage, hnext, hitems⟩ := hpages i cursor
  refine ⟨items page, ?_, hitems⟩
  simp only [hpage, ← hnext]
  rfl

section

variable {p : ρ → Bool} {limit : Nat} {cursor : Option Nat} {t t' : Table ρ}

/-- A cursor is an id of the table, or there is none. -/
def Table.Points (t : Table ρ) (cursor : Option Nat) : Prop :=
  ∀ last ∈ cursor, ∃ row, (last, row) ∈ t.rows

theorem mem_rowsBelow {row : Nat × ρ} :
    row ∈ rowsBelow p cursor t ↔ row ∈ t.rows ∧ p row.2 = true ∧ ∀ last ∈ cursor, row.1 < last := by
  rw [rowsBelow, List.mem_reverse, List.mem_filter, Bool.and_eq_true, Option.all_eq_true]
  simp only [Option.mem_def, decide_eq_true_eq]

theorem rowsBelow_pairwise : (rowsBelow p cursor t).Pairwise fun row next => next.1 < row.1 := by
  rw [rowsBelow, List.pairwise_reverse]
  exact (List.pairwise_map.mp t.sorted).sublist List.filter_sublist

theorem rowsBelow_grows {last : Nat} (hgrows : t.Grows t') (hpoints : t.Points (some last)) :
    rowsBelow p (some last) t' = rowsBelow p (some last) t := by
  obtain ⟨added, hrows⟩ := hgrows
  obtain ⟨row, hmem⟩ := hpoints last rfl
  have habove : ∀ new ∈ added, last < new.1 := by
    have hsorted := List.pairwise_map.mp t'.sorted
    rw [hrows, List.pairwise_append] at hsorted
    exact fun new hnew => hsorted.2.2 _ hmem new hnew
  rw [rowsBelow, rowsBelow, hrows, List.filter_append, show (added.filter fun row =>
    p row.2 && (some last).all (row.1 < ·)) = [] from ?_, List.append_nil]
  rw [List.filter_eq_nil_iff]
  intro new hnew
  have := habove new hnew
  simp only [Option.all_some, Bool.and_eq_true, decide_eq_true_eq, not_and]
  omega

theorem Table.Points.grows (hgrows : t.Grows t') (hpoints : t.Points cursor) :
    t'.Points cursor := by
  obtain ⟨added, hrows⟩ := hgrows
  intro last hlast
  obtain ⟨row, hmem⟩ := hpoints last hlast
  exact ⟨row, hrows ▸ List.mem_append_left _ hmem⟩

theorem pageNext_eq_some {last : Nat} (hnext : pageNext p limit cursor t = some last) :
    limit < (rowsBelow p cursor t).length ∧
      ∃ init row, pageRows p limit cursor t = init ++ [(last, row)] := by
  rw [pageNext] at hnext
  split at hnext
  · next hmore =>
    obtain ⟨⟨id, row⟩, hlast, rfl⟩ := Option.map_eq_some_iff.mp hnext
    obtain ⟨init, hinit⟩ := List.getLast?_eq_some_iff.mp hlast
    exact ⟨hmore, init, row, hinit⟩
  · cases hnext

theorem pageRows_of_last (hlimit : 0 < limit) (hnext : pageNext p limit cursor t = none) :
    pageRows p limit cursor t = rowsBelow p cursor t := by
  rw [pageNext] at hnext
  split at hnext
  · next hmore =>
    rw [Option.map_eq_none_iff, List.getLast?_eq_none_iff, pageRows, List.take_eq_nil_iff] at hnext
    rcases hnext with hzero | hnil
    · omega
    · rw [hnil, List.length_nil] at hmore
      omega
  · next hless => exact List.take_of_length_le (Nat.le_of_not_lt hless)

theorem rowsBelow_next {last : Nat} (hnext : pageNext p limit cursor t = some last) :
    rowsBelow p cursor t = pageRows p limit cursor t ++ rowsBelow p (some last) t := by
  obtain ⟨-, init, row, hpage⟩ := pageNext_eq_some hnext
  have hsplit :
      rowsBelow p cursor t = init ++ (last, row) :: (rowsBelow p cursor t).drop limit := by
    rw [List.append_cons, ← hpage]
    exact (List.take_append_drop limit _).symm
  have hmem : (last, row) ∈ rowsBelow p cursor t := by
    rw [hsplit]
    simp
  obtain ⟨-, -, hbelow⟩ := mem_rowsBelow.mp hmem
  have hfilter :
      rowsBelow p (some last) t = (rowsBelow p cursor t).filter fun other => other.1 < last := by
    rw [rowsBelow, rowsBelow, List.filter_reverse, List.filter_filter]
    congr 2
    funext other
    rw [Bool.eq_iff_iff]
    simp only [Option.all_some, Bool.and_eq_true, decide_eq_true_eq, Option.all_eq_true]
    constructor
    · rintro ⟨hp, hlast⟩
      exact ⟨hlast, hp, fun id hid => Nat.lt_trans hlast (hbelow id hid)⟩
    · rintro ⟨hlast, hp, -⟩
      exact ⟨hp, hlast⟩
  have hpairwise : (rowsBelow p cursor t).Pairwise fun row next => next.1 < row.1 :=
    rowsBelow_pairwise
  rw [hsplit, List.pairwise_append, List.pairwise_cons] at hpairwise
  obtain ⟨-, ⟨hafter, -⟩, hbefore⟩ := hpairwise
  have hinit : init.filter (fun other => other.1 < last) = [] := by
    rw [List.filter_eq_nil_iff]
    intro other hother
    have := hbefore other hother _ List.mem_cons_self
    simp only [decide_eq_true_eq]
    omega
  have hrest :
      ((rowsBelow p cursor t).drop limit).filter (fun other => other.1 < last) =
        (rowsBelow p cursor t).drop limit :=
    List.filter_eq_self.mpr fun other hother => decide_eq_true (hafter other hother)
  rw [hfilter, hpage]
  conv_rhs => rw [hsplit]
  rw [List.filter_append, hinit, List.nil_append, List.filter_cons, if_neg (by simp), hrest,
    List.append_assoc, List.singleton_append]
  exact hsplit

end

theorem follow_succ {ask : Nat → Option Nat → Option (List ι × Option Nat)} {items : List ι} :
    ∀ {fuel i cursor}, follow ask fuel i cursor = some items →
      follow ask (fuel + 1) i cursor = some items := by
  intro fuel
  induction fuel generalizing items with
  | zero => intro i cursor hdone; cases hdone
  | succ fuel ih =>
    intro i cursor hdone
    rw [follow, Option.bind_eq_some_iff] at hdone ⊢
    obtain ⟨page, hpage, hrest⟩ := hdone
    refine ⟨page, hpage, ?_⟩
    cases hnext : page.2 with
    | none =>
      rw [hnext] at hrest
      exact hrest
    | some next =>
      simp only [hnext, Option.map_eq_some_iff] at hrest ⊢
      obtain ⟨rest, hrest, rfl⟩ := hrest
      exact ⟨rest, ih hrest, rfl⟩

theorem follow_mono {ask : Nat → Option Nat → Option (List ι × Option Nat)} {items : List ι}
    {fuel more i : Nat} {cursor : Option Nat} (hle : fuel ≤ more)
    (hdone : follow ask fuel i cursor = some items) :
    follow ask more i cursor = some items := by
  obtain ⟨extra, rfl⟩ := Nat.exists_eq_add_of_le hle
  induction extra with
  | zero => exact hdone
  | succ extra ih => exact follow_succ (ih (Nat.le_add_right _ _))

/-- Following the cursors from a first page gets the rows there were below its cursor, in the order
of their ids going down. -/
theorem follow_rowsBelow {ask : Nat → Option Nat → Option (List ι × Option Nat)} {p : ρ → Bool}
    {limit : Nat} {tables : Nat → Table ρ} {rowOf : ι → Nat × ρ} (hlimit : 0 < limit)
    (hgrows : ∀ i, (tables i).Grows (tables (i + 1))) (hask : Paged ask p limit tables rowOf) :
    ∀ fuel i cursor, (tables i).Points cursor → (rowsBelow p cursor (tables i)).length < fuel →
      ∃ items, follow ask fuel i cursor = some items ∧
        items.map rowOf = rowsBelow p cursor (tables i) := by
  intro fuel
  induction fuel with
  | zero => intro i cursor _ hfuel; omega
  | succ fuel ih =>
    intro i cursor hpoints hfuel
    obtain ⟨items, hpage, hrows⟩ := hask i cursor
    rw [follow, hpage, Option.bind_some]
    cases hnext : pageNext p limit cursor (tables i) with
    | none => exact ⟨items, rfl, hrows.trans (pageRows_of_last hlimit hnext)⟩
    | some last =>
      have hsplit := rowsBelow_next hnext
      obtain ⟨hmore, init, row, hlast⟩ := pageNext_eq_some hnext
      have hmem : (last, row) ∈ (tables i).rows := by
        have : (last, row) ∈ pageRows p limit cursor (tables i) := by
          rw [hlast]
          simp
        exact (mem_rowsBelow.mp (List.mem_of_mem_take this)).1
      have hpoints' : (tables i).Points (some last) :=
        fun id hid => ⟨row, Option.mem_some.mp hid ▸ hmem⟩
      have hsame := rowsBelow_grows (p := p) (hgrows i) hpoints'
      have hlength : (rowsBelow p (some last) (tables (i + 1))).length < fuel := by
        have hsum := congrArg List.length hsplit
        rw [List.length_append, pageRows, List.length_take] at hsum
        rw [hsame]
        omega
      obtain ⟨rest, hrest, hrestRows⟩ := ih (i + 1) (some last) (hpoints'.grows (hgrows i)) hlength
      refine ⟨items ++ rest, ?_, ?_⟩
      · simp only [hrest, Option.map_some]
      · rw [List.map_append, hrows, hrestRows, hsame, hsplit]

/-! ### Tables that change -/

/-- The rows a filter keeps. -/
def Table.keep (p : ρ → Bool) (t : Table ρ) : Table ρ := t.deleteWhere fun _ row => !p row

theorem Table.keep_rows (p : ρ → Bool) (t : Table ρ) :
    (t.keep p).rows = t.rows.filter fun row => p row.2 := by
  apply List.filter_congr
  intro row _
  exact Bool.not_not _

theorem rowsBelow_keep (p : ρ → Bool) (cursor : Option Nat) (t : Table ρ) :
    rowsBelow p cursor (t.keep p) = rowsBelow p cursor t := by
  rw [rowsBelow, rowsBelow, Table.keep_rows, List.filter_filter]
  congr 2
  funext row
  cases p row.2 <;> simp

/-- What the filter drops may come and go between the requests. -/
theorem follow_kept {ask : Nat → Option Nat → Option (List ι × Option Nat)} {p : ρ → Bool}
    {limit : Nat} {tables : Nat → Table ρ} {rowOf : ι → Nat × ρ} (hlimit : 0 < limit)
    (hgrows : ∀ i, ((tables i).keep p).Grows ((tables (i + 1)).keep p))
    (hask : Paged ask p limit tables rowOf) :
    ∃ items, (∃ enough, ∀ requests, enough ≤ requests → follow ask requests 0 none = some items) ∧
      items.map rowOf = rowsBelow p none (tables 0) := by
  have hask' : Paged ask p limit (fun i => (tables i).keep p) rowOf := by
    intro i cursor
    rw [pageNext, pageRows, rowsBelow_keep]
    exact hask i cursor
  obtain ⟨items, hdone, hrows⟩ :=
    follow_rowsBelow hlimit hgrows hask' _ 0 none (fun _ hid => by cases hid)
    (Nat.lt_succ_self _)
  rw [rowsBelow_keep] at hrows
  exact ⟨items, ⟨_, fun requests henough => follow_mono henough hdone⟩, hrows⟩

/-- What a client gets that follows the cursors while the tables change in whatever way: the rows
go down by their ids, each was in the table of a request, kept by the filter and below the first
cursor, and of each id that stays there all along, whatever becomes of its row, one is got. -/
structure Walked (p : ρ → Bool) (tables : Nat → Table ρ) (i : Nat) (cursor : Option Nat)
    (rows : List (Nat × ρ)) : Prop where
  descend : rows.Pairwise fun row next => next.1 < row.1
  found : ∀ row ∈ rows,
    p row.2 = true ∧ (∀ last ∈ cursor, row.1 < last) ∧ ∃ j, i ≤ j ∧ row ∈ (tables j).rows
  kept : ∀ id, (∀ last ∈ cursor, id < last) →
    (∀ j, i ≤ j → ∃ row, (id, row) ∈ (tables j).rows ∧ p row = true) → id ∈ rows.map Prod.fst

/-- A page before the rest of a walk. -/
theorem Walked.page {p : ρ → Bool} {limit i last : Nat} {tables : Nat → Table ρ}
    {cursor : Option Nat} {rest : List (Nat × ρ)}
    (hnext : pageNext p limit cursor (tables i) = some last)
    (h : Walked p tables (i + 1) (some last) rest) :
    Walked p tables i cursor (pageRows p limit cursor (tables i) ++ rest) := by
  obtain ⟨-, init, row, hpage⟩ := pageNext_eq_some hnext
  have hsplit := rowsBelow_next hnext
  have hmem : ∀ row ∈ pageRows p limit cursor (tables i), row ∈ rowsBelow p cursor (tables i) :=
    fun _ => List.mem_of_mem_take
  have hpairwise : (pageRows p limit cursor (tables i)).Pairwise fun row next => next.1 < row.1 :=
    rowsBelow_pairwise.sublist (List.take_sublist _ _)
  have habove : ∀ row ∈ pageRows p limit cursor (tables i), last ≤ row.1 := by
    rw [hpage, List.pairwise_append] at hpairwise
    intro other hother
    rw [hpage, List.mem_append, List.mem_singleton] at hother
    rcases hother with hinit | rfl
    · exact Nat.le_of_lt (hpairwise.2.2 other hinit _ (List.mem_singleton_self _))
    · exact Nat.le_refl _
  have hlast : ∀ first ∈ cursor, last < first := by
    have hrow : (last, row) ∈ pageRows p limit cursor (tables i) := by
      rw [hpage]
      exact List.mem_append_right _ (List.mem_singleton_self _)
    exact (mem_rowsBelow.mp (hmem _ hrow)).2.2
  refine ⟨?_, ?_, ?_⟩
  · refine List.pairwise_append.mpr ⟨hpairwise, h.descend, fun above habove' below hbelow => ?_⟩
    have hle := habove above habove'
    have hlt := (h.found below hbelow).2.1 last rfl
    omega
  · intro other hother
    rcases List.mem_append.mp hother with hother | hother
    · obtain ⟨hrow, hp, hbelow⟩ := mem_rowsBelow.mp (hmem other hother)
      exact ⟨hp, hbelow, i, Nat.le_refl _, hrow⟩
    · obtain ⟨hp, hbelow, j, hj, htable⟩ := h.found other hother
      refine ⟨hp, fun first hfirst => ?_, j, by omega, htable⟩
      exact Nat.lt_trans (hbelow last rfl) (hlast first hfirst)
  · intro id hbelow hstays
    -- It is on this page, as the table of this request has it, or below.
    obtain ⟨other, hother, hp⟩ := hstays i (Nat.le_refl _)
    have hrow := mem_rowsBelow.mpr ⟨hother, hp, hbelow⟩
    rw [List.map_append]
    rw [hsplit, List.mem_append] at hrow
    rcases hrow with hrow | hrow
    · exact List.mem_append_left _ (List.mem_map_of_mem hrow)
    · apply List.mem_append_right
      exact h.kept id (mem_rowsBelow.mp hrow).2.2 fun j hj => hstays j (by omega)

/-- Whatever happens to the tables between the requests, a client that follows the cursors comes to
an end. -/
theorem follow_walked {ask : Nat → Option Nat → Option (List ι × Option Nat)} {p : ρ → Bool}
    {limit : Nat} {tables : Nat → Table ρ} {rowOf : ι → Nat × ρ} (hlimit : 0 < limit)
    (hask : Paged ask p limit tables rowOf) :
    ∀ fuel i cursor, (∀ row ∈ rowsBelow p cursor (tables i), row.1 + 1 < fuel) → 0 < fuel →
      ∃ items, follow ask fuel i cursor = some items ∧
        Walked p tables i cursor (items.map rowOf) := by
  intro fuel
  induction fuel with
  | zero => intro i cursor _ hfuel; omega
  | succ fuel ih =>
    intro i cursor hbound _
    obtain ⟨items, hpage, hrows⟩ := hask i cursor
    rw [follow, hpage, Option.bind_some]
    cases hnext : pageNext p limit cursor (tables i) with
    | none =>
      refine ⟨items, rfl, ?_⟩
      rw [hrows, pageRows_of_last hlimit hnext]
      refine ⟨rowsBelow_pairwise, fun row hrow => ?_, fun id hbelow hstays => ?_⟩
      · obtain ⟨hmem, hp, hbelow⟩ := mem_rowsBelow.mp hrow
        exact ⟨hp, hbelow, i, Nat.le_refl _, hmem⟩
      · obtain ⟨row, hrow, hp⟩ := hstays i (Nat.le_refl _)
        exact List.mem_map.mpr ⟨(id, row), mem_rowsBelow.mpr ⟨hrow, hp, hbelow⟩, rfl⟩
    | some last =>
      obtain ⟨-, init, row, hlast⟩ := pageNext_eq_some hnext
      have hrow : (last, row) ∈ pageRows p limit cursor (tables i) := by
        rw [hlast]
        exact List.mem_append_right _ (List.mem_singleton_self _)
      have hlt := hbound (last, row) (List.mem_of_mem_take hrow)
      have hrest : ∀ row ∈ rowsBelow p (some last) (tables (i + 1)), row.1 + 1 < fuel := by
        intro other hother
        have hbelow := (mem_rowsBelow.mp hother).2.2 last rfl
        omega
      obtain ⟨rest, hfollow, hwalked⟩ := ih (i + 1) (some last) hrest (by omega)
      refine ⟨items ++ rest, ?_, ?_⟩
      · simp only [hfollow, Option.map_some]
      · rw [List.map_append, hrows]
        exact hwalked.page hnext

end Fcam
