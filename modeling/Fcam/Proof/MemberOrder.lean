import Mathlib.Data.List.Sort
import Fcam.Proof.JsonRoundTrip

/-!
# The order of members

`dumps` with sorted keys writes a value with its members sorted at every level. Two values that can
be parsed are written alike exactly where one is the other up to the order of the members of
objects.
-/

namespace Fcam

namespace Json

/-! ### Equality up to the order of members -/

mutual

/-- The values are equal up to the order of the members of objects. -/
inductive EqualJson : Json → Json → Prop where
  | null : EqualJson null null
  | bool (value : Bool) : EqualJson (bool value) (bool value)
  | int (value : Int) : EqualJson (int value) (int value)
  | float (repr : PyStr) (truncated : Option Int) : EqualJson (float repr truncated)
      (float repr truncated)
  | str (value : PyStr) : EqualJson (str value) (str value)
  | arr {items items' : List Json} : EqualItems items items' → EqualJson (arr items) (arr items')
  | obj {members members' : List (PyStr × Json)} : EqualMembers members members' →
      EqualJson (obj members) (obj members')

inductive EqualItems : List Json → List Json → Prop where
  | nil : EqualItems [] []
  | cons {item item' : Json} {rest rest' : List Json} :
      EqualJson item item' → EqualItems rest rest' → EqualItems (item :: rest) (item' :: rest')

/-- Each member of one object stands somewhere in the other. -/
inductive EqualMembers : List (PyStr × Json) → List (PyStr × Json) → Prop where
  | nil : EqualMembers [] []
  | cons {key : PyStr} {value value' : Json} {rest before after : List (PyStr × Json)} :
      EqualJson value value' → EqualMembers rest (before ++ after) →
        EqualMembers ((key, value) :: rest) (before ++ (key, value') :: after)

end

/-! ### Sorted members -/

section

variable {α β : Type}

/-- The key of a member is not after that of the other; keys compare by code points. -/
def keyLe (m n : PyStr × α) : Prop := m.1 ≤ n.1

instance : DecidableRel (@keyLe α) := fun m n => inferInstanceAs (Decidable (m.1 ≤ n.1))

instance : Std.Total (@keyLe α) := ⟨fun m n => le_total m.1 n.1⟩

instance : IsTrans (PyStr × α) keyLe := ⟨fun _ _ _ hmn hno => le_trans (α := PyStr) hmn hno⟩

theorem keyLe_antisymm {m n : PyStr × α} (hmn : keyLe m n) (hnm : keyLe n m) : m.1 = n.1 :=
  le_antisymm hmn hnm

theorem insertionSort_eq_of_perm {ms ns : List (PyStr × α)} (hkeys : (ms.map Prod.fst).Nodup)
    (hperm : ms.Perm ns) :
    ms.insertionSort keyLe = ns.insertionSort keyLe := by
  refine List.Perm.eq_of_pairwise ?_ (List.pairwise_insertionSort keyLe ms)
    (List.pairwise_insertionSort keyLe ns) ?_
  · intro m n hm hn hmn hnm
    rw [List.mem_insertionSort] at hm hn
    exact List.inj_on_of_nodup_map hkeys hm (hperm.mem_iff.mpr hn) (keyLe_antisymm hmn hnm)
  · exact ((List.perm_insertionSort keyLe ms).trans hperm).trans
      (List.perm_insertionSort keyLe ns).symm

theorem sortMembers_eq (members : List (PyStr × PyStr)) :
    sortMembers members = members.insertionSort keyLe := by
  have hinsert : ∀ (m : PyStr × PyStr) (members : List (PyStr × PyStr)),
      insertMember m members = members.orderedInsert keyLe m := by
    intro m members
    induction members with
    | nil => rfl
    | cons n members ih =>
      rw [insertMember, List.orderedInsert_cons, ih]
      rfl
  induction members with
  | nil => rfl
  | cons m members ih =>
    rw [List.insertionSort_cons, ← ih, ← hinsert]
    rfl

end

mutual

/-- The value with the members of every object in it sorted. -/
def sorted : Json → Json
  | arr items => arr (sortedItems items)
  | obj members => obj ((sortedMembers members).insertionSort keyLe)
  | value => value

def sortedItems : List Json → List Json
  | [] => []
  | item :: rest => sorted item :: sortedItems rest

/-- The members in order, with those of their values sorted. -/
def sortedMembers : List (PyStr × Json) → List (PyStr × Json)
  | [] => []
  | (key, value) :: rest => (key, sorted value) :: sortedMembers rest

end

theorem map_fst_sortedMembers (members : List (PyStr × Json)) :
    (sortedMembers members).map Prod.fst = members.map Prod.fst := by
  induction members with
  | nil => rfl
  | cons m members ih =>
    obtain ⟨key, value⟩ := m
    rw [sortedMembers, List.map_cons, List.map_cons, ih]

theorem sortedMembers_append (members members' : List (PyStr × Json)) :
    sortedMembers (members ++ members') = sortedMembers members ++ sortedMembers members' := by
  induction members with
  | nil => rfl
  | cons m members ih =>
    obtain ⟨key, value⟩ := m
    rw [List.cons_append, sortedMembers, sortedMembers, ih, List.cons_append]

theorem writeMembers_eq_map (pad : PyStr) (members : List (PyStr × Json)) :
    writeMembers pad members = members.map fun m => quote m.1 ++ 58 :: (pad ++ write pad m.2) := by
  induction members with
  | nil => rfl
  | cons m members ih =>
    obtain ⟨key, value⟩ := m
    rw [writeMembers, List.map_cons, ih]

mutual

theorem dumps_eq_write : ∀ value : Json, value.dumps = write [] value.sorted
  | null => rfl
  | bool _ => rfl
  | int _ => rfl
  | float _ _ => rfl
  | str _ => rfl
  | arr items => by
    rw [dumps, sorted, write, dumpsItems_eq_writeItems]
    rfl
  | obj members => by
    have hsort : sortMembers (dumpsMembers members) =
        ((sortedMembers members).insertionSort keyLe).map fun m => (m.1, write [] m.2) := by
      rw [sortMembers_eq, dumpsMembers_eq_map]
      exact (List.map_insertionSort (@keyLe Json) (@keyLe PyStr) (fun m => (m.1, write [] m.2)) _
        fun _ _ _ _ => Iff.rfl).symm
    rw [dumps, sorted, write, hsort, writeMembers_eq_map, List.map_map]
    simp only [Function.comp_def, List.append_assoc, List.cons_append, List.nil_append]

theorem dumpsItems_eq_writeItems :
    ∀ items : List Json, dumpsItems items = writeItems [] (sortedItems items)
  | [] => rfl
  | item :: rest =>
    by rw [dumpsItems, sortedItems, writeItems, dumps_eq_write, dumpsItems_eq_writeItems]

theorem dumpsMembers_eq_map : ∀ members : List (PyStr × Json),
    dumpsMembers members = (sortedMembers members).map fun m => (m.1, write [] m.2)
  | [] => rfl
  | (key, value) :: rest => by
    rw [dumpsMembers, sortedMembers, List.map_cons, dumps_eq_write, dumpsMembers_eq_map]

end

/-! ### Values that can be parsed -/

section

variable {scalar : Json → Bool} {names : List PyStr → Bool}

theorem everyMember_eq_all (members : List (PyStr × Json)) :
    everyMember scalar names members = members.all fun m => every scalar names m.2 := by
  induction members with
  | nil => rfl
  | cons m members ih =>
    obtain ⟨key, value⟩ := m
    rw [everyMember, List.all_cons, ih]

mutual

theorem every_sorted (hnames : ∀ {ks ls : List PyStr}, ks.Perm ls → names ks = names ls) :
    ∀ value : Json, every scalar names value.sorted = every scalar names value
  | null => rfl
  | bool _ => rfl
  | int _ => rfl
  | float _ _ => rfl
  | str _ => rfl
  | arr items => everyItem_sorted hnames items
  | obj members => by
    have hperm := List.perm_insertionSort keyLe (sortedMembers members)
    rw [sorted, every, every, hnames (hperm.map Prod.fst), map_fst_sortedMembers,
      everyMember_eq_all, hperm.all_eq, ← everyMember_eq_all, everyMember_sorted hnames]

theorem everyItem_sorted (hnames : ∀ {ks ls : List PyStr}, ks.Perm ls → names ks = names ls) :
    ∀ items : List Json, everyItem scalar names (sortedItems items) = everyItem scalar names items
  | [] => rfl
  | item :: rest =>
    by rw [sortedItems, everyItem, everyItem, every_sorted hnames, everyItem_sorted hnames]

theorem everyMember_sorted (hnames : ∀ {ks ls : List PyStr}, ks.Perm ls → names ks = names ls) :
    ∀ members : List (PyStr × Json), everyMember scalar names (sortedMembers members) =
      everyMember scalar names members
  | [] => rfl
  | (key, value) :: rest => by
    rw [sortedMembers, everyMember, everyMember, every_sorted hnames, everyMember_sorted hnames]

end

end

section

variable {float : PyStr → PyStr × Option Int} {value value' : Json}

theorem parsed_sorted (hparsed : value.parsed float = true) : value.sorted.parsed float = true := by
  rw [parsed, every_sorted, ← parsed, hparsed]
  intro ks ls hperm
  exact decide_eq_decide.mpr hperm.nodup_iff

theorem dumps_eq_iff (hparsed : value.parsed float = true) (hparsed' : value'.parsed float = true) :
    value.dumps = value'.dumps ↔ value.sorted = value'.sorted := by
  rw [dumps_eq_write, dumps_eq_write]
  constructor
  · intro heq
    have hblank : ∀ c ∈ ([] : PyStr), isBlank c = true := fun c hc => absurd hc List.not_mem_nil
    have hread := @loads_write_of_parsed float [] hblank _ (parsed_sorted hparsed)
    have hread' := @loads_write_of_parsed float [] hblank _ (parsed_sorted hparsed')
    rw [heq] at hread
    exact Option.some.inj (hread.symm.trans hread')
  · intro heq
    rw [heq]

mutual

theorem EqualJson.sorted_eq {value value' : Json} :
    EqualJson value value' → value.parsed float = true → value.sorted = value'.sorted
  | .null, _ => rfl
  | .bool _, _ => rfl
  | .int _, _ => rfl
  | .float _ _, _ => rfl
  | .str _, _ => rfl
  | .arr hitems, hparsed => by rw [sorted, sorted, hitems.sorted_eq hparsed]
  | @EqualJson.obj members _ hmembers, hparsed => by
    obtain ⟨hkeys, hvalues⟩ := (Bool.and_eq_true _ _).mp hparsed
    have hkeys' : ((sortedMembers members).map Prod.fst).Nodup := by
      rw [map_fst_sortedMembers]
      exact of_decide_eq_true hkeys
    rw [sorted, sorted, insertionSort_eq_of_perm hkeys' (hmembers.sorted_perm hvalues)]

theorem EqualItems.sorted_eq {items items' : List Json} :
    EqualItems items items' → everyItem (parsedScalar float)
      (fun names => decide names.Nodup) items = true →
      sortedItems items = sortedItems items'
  | .nil, _ => rfl
  | .cons hitem hrest, hparsed => by
    obtain ⟨hparsedItem, hparsedRest⟩ := (Bool.and_eq_true _ _).mp hparsed
    rw [sortedItems, sortedItems, hitem.sorted_eq hparsedItem, hrest.sorted_eq hparsedRest]

theorem EqualMembers.sorted_perm {members members' : List (PyStr × Json)} :
    EqualMembers members members' →
      everyMember (parsedScalar float) (fun names => decide names.Nodup) members = true →
        (sortedMembers members).Perm (sortedMembers members')
  | .nil, _ => List.Perm.refl _
  | .cons hvalue hrest, hparsed => by
    obtain ⟨hparsedValue, hparsedRest⟩ := (Bool.and_eq_true _ _).mp hparsed
    have hperm := hrest.sorted_perm hparsedRest
    rw [sortedMembers_append] at hperm
    rw [sortedMembers, sortedMembers_append, sortedMembers, hvalue.sorted_eq hparsedValue]
    exact (hperm.cons _).trans List.perm_middle.symm

end

theorem exists_of_mem_sortedMembers {key : PyStr} {value : Json} {members : List (PyStr × Json)}
    (hmem : (key, value) ∈ sortedMembers members) :
    ∃ before found after, members = before ++ (key, found) :: after ∧ found.sorted = value := by
  induction members with
  | nil => exact absurd hmem List.not_mem_nil
  | cons m members ih =>
    obtain ⟨key', value'⟩ := m
    rw [sortedMembers, List.mem_cons, Prod.mk.injEq] at hmem
    rcases hmem with ⟨rfl, rfl⟩ | hmem
    · exact ⟨[], value', members, rfl, rfl⟩
    · obtain ⟨before, found, after, rfl, hfound⟩ := ih hmem
      exact ⟨(key', value') :: before, found, after, rfl, hfound⟩

mutual

theorem equalJson_of_sorted :
    ∀ {value value' : Json}, value.sorted = value'.sorted → EqualJson value value'
  | null, value', heq => by cases value' <;> first | exact .null | cases heq
  | bool value, value', heq => by cases value' <;> first | (cases heq; exact .bool _) | cases heq
  | int value, value', heq => by cases value' <;> first | (cases heq; exact .int _) | cases heq
  | float repr truncated, value', heq =>
    by cases value' <;> first | (cases heq; exact .float _ _) | cases heq
  | str value, value', heq => by cases value' <;> first | (cases heq; exact .str _) | cases heq
  | arr items, value', heq => by
    cases value' with
    | arr items' =>
      rw [sorted, sorted, arr.injEq] at heq
      exact .arr (equalItems_of_sorted heq)
    | _ => cases heq
  | obj members, value', heq => by
    cases value' with
    | obj members' =>
      rw [sorted, sorted, obj.injEq] at heq
      have hperm := List.perm_insertionSort keyLe (sortedMembers members')
      rw [← heq] at hperm
      exact .obj (equalMembers_of_perm ((List.perm_insertionSort keyLe _).symm.trans hperm))
    | _ => cases heq

theorem equalItems_of_sorted : ∀ {items items' : List Json},
    sortedItems items = sortedItems items' → EqualItems items items'
  | [], [], _ => .nil
  | [], _ :: _, heq => by cases heq
  | _ :: _, [], heq => by cases heq
  | _ :: _, _ :: _, heq => by
    rw [sortedItems, sortedItems, List.cons.injEq] at heq
    exact .cons (equalJson_of_sorted heq.1) (equalItems_of_sorted heq.2)

theorem equalMembers_of_perm : ∀ {members members' : List (PyStr × Json)},
    (sortedMembers members).Perm (sortedMembers members') → EqualMembers members members'
  | [], members', hperm => by
    cases members' with
    | nil => exact .nil
    | cons m members' => cases hperm.length_eq
  | (key, value) :: rest, members', hperm => by
    rw [sortedMembers] at hperm
    obtain ⟨before, found, after, rfl, hfound⟩ :=
      exists_of_mem_sortedMembers (hperm.subset List.mem_cons_self)
    rw [sortedMembers_append, sortedMembers, hfound] at hperm
    have hrest := (hperm.trans List.perm_middle).cons_inv
    rw [← sortedMembers_append] at hrest
    exact .cons (equalJson_of_sorted hfound.symm) (equalMembers_of_perm hrest)

end

theorem dumps_eq_iff_equalJson (hparsed : value.parsed float = true)
    (hparsed' : value'.parsed float = true) :
    value.dumps = value'.dumps ↔ EqualJson value value' := by
  rw [dumps_eq_iff hparsed hparsed']
  constructor
  · exact equalJson_of_sorted
  · intro hequal
    exact hequal.sorted_eq hparsed

end

end Json

end Fcam
