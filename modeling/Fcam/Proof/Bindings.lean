import Fcam.Base.Run
import Fcam.Model.DataPlane

/-!
# Bindings of resources

A binding is found by its client and by what the columns hold of a type and an id. One row at most
is kept for these three, so a call is described by what it does to the row of every slot.
-/

namespace Fcam

/-- What a row is found by. -/
structure Slot where
  clientId : Nat
  resourceType : String
  resourceId : PyStr
deriving DecidableEq

/-- The slot of a client, a type and an id, as far as the columns hold them. -/
def slotOf (clientId : Nat) (resourceType : String) (resourceId : PyStr) : Slot :=
  { clientId
    resourceType := String.ofList (resourceType.toList.take 32)
    resourceId := (strip resourceId).take 128 }

def UpstreamResourceBinding.slot (row : UpstreamResourceBinding) : Slot :=
  { clientId := row.clientId, resourceType := row.resourceType, resourceId := row.resourceId }

/-- An id the column can hold: not blank, without lone surrogates. -/
def Storable (resourceId : PyStr) : Prop :=
  (strip resourceId).take 128 ≠ [] ∧ ((strip resourceId).take 128).any isSurrogate = false

instance (resourceId : PyStr) : Decidable (Storable resourceId) :=
  inferInstanceAs (Decidable (_ ∧ _))

/-- The rows of a slot, of which there is at most one. -/
def rowsOf (slot : Slot) (bindings : Table UpstreamResourceBinding) :
    List (Nat × UpstreamResourceBinding) :=
  bindings.select fun row => decide (row.slot = slot)

/-- What the unique constraint keeps. -/
def OneRowEach (bindings : Table UpstreamResourceBinding) : Prop :=
  (bindings.rows.map fun row => row.2.slot).Nodup

/-- The binding of a slot. -/
def bound? (slot : Slot) (bindings : Table UpstreamResourceBinding) :
    Option UpstreamResourceBinding :=
  (rowsOf slot bindings).head?.map Prod.snd

/-- `now + timedelta(seconds=int(ttl_seconds)) if ttl_seconds else None`, or nothing where it
overflows. -/
def bindExpiry (now : Instant) (ttlSeconds : Option Int) : Option (Option Instant) :=
  match ttlSeconds.filter (· ≠ 0) with
  | none => some none
  | some ttl => (plusSeconds now ttl).map some

/-- The binding has expired. -/
def UpstreamResourceBinding.expired (row : UpstreamResourceBinding) (now : Instant) : Bool :=
  row.expiresAt.any (· < now)

section

variable {bindings after : Table UpstreamResourceBinding} {slot : Slot} {now : Instant}
  {clientId apiKeyId : Nat} {resourceType : String} {resourceId : PyStr} {ttlSeconds : Option Int}

/-! ### The row of a slot -/

theorem slot_eq_iff {row : UpstreamResourceBinding} :
    row.slot = slot ↔
      row.clientId = slot.clientId ∧ row.resourceType = slot.resourceType ∧
        row.resourceId = slot.resourceId := by
  rw [UpstreamResourceBinding.slot, Slot.mk.injEq]

theorem mem_rowsOf {row : Nat × UpstreamResourceBinding} : row ∈ rowsOf slot bindings ↔
    row ∈ bindings.rows ∧ row.2.slot = slot := by
  rw [rowsOf, Table.select, List.mem_filter, decide_eq_true_eq]

theorem rowsOf_cases (slot : Slot) (hone : OneRowEach bindings) :
    rowsOf slot bindings = [] ∨ ∃ row, rowsOf slot bindings = [row] := by
  cases hrows : rowsOf slot bindings with
  | nil => exact .inl rfl
  | cons first rest =>
    cases rest with
    | nil => exact .inr ⟨first, rfl⟩
    | cons second rest =>
      have hsublist : ((rowsOf slot bindings).map fun row => row.2.slot).Nodup :=
        hone.sublist (List.filter_sublist.map _)
      have hslot : ∀ row ∈ rowsOf slot bindings, row.2.slot = slot :=
        fun row hrow => (mem_rowsOf.mp hrow).2
      rw [hrows] at hsublist hslot
      rw [List.map_cons, List.map_cons, List.nodup_cons] at hsublist
      refine absurd ?_ hsublist.1
      rw [hslot first List.mem_cons_self, hslot second (List.mem_cons_of_mem _ List.mem_cons_self)]
      exact List.mem_cons_self

/-! ### Lookups -/

/-- What a lookup reads of the row it finds. -/
def keyAt (now : Instant) (row : Option UpstreamResourceBinding) : Option Nat :=
  (row.filter fun row => !row.expired now).map UpstreamResourceBinding.apiKeyId

theorem lookupBoundKeyId_of_not_storable (hid : ¬Storable resourceId) :
    lookupBoundKeyId now clientId resourceType resourceId bindings = (none, bindings) := by
  rw [Storable, not_and, Bool.not_eq_false] at hid
  rw [lookupBoundKeyId]
  exact if_pos (or_iff_not_imp_left.mpr hid)

theorem lookupBoundKeyId_eq (hid : Storable resourceId) :
    lookupBoundKeyId now clientId resourceType resourceId bindings =
      match rowsOf (slotOf clientId resourceType resourceId) bindings with
      | [(id, row)] =>
        if row.expired now then (none, bindings.deleteWhere fun other _ => other == id)
          else (some row.apiKeyId, bindings)
      | _ => (none, bindings) := by
  have hrows : (bindings.select fun row => row.clientId == clientId &&
      row.resourceType == String.ofList (resourceType.toList.take 32) &&
        row.resourceId == (strip resourceId).take 128) =
          rowsOf (slotOf clientId resourceType resourceId) bindings := by
    rw [rowsOf]
    congr 1
    funext row
    rw [Bool.eq_iff_iff, decide_eq_true_eq, slot_eq_iff]
    simp [slotOf, and_assoc]
  rw [lookupBoundKeyId]
  simp only [hrows]
  rw [if_neg (by simpa [Storable] using hid)]
  rfl

theorem lookup_key (hone : OneRowEach bindings) (hid : Storable resourceId) :
    (lookupBoundKeyId now clientId resourceType resourceId bindings).1 =
      keyAt now (bound? (slotOf clientId resourceType resourceId) bindings) := by
  rw [lookupBoundKeyId_eq hid, bound?, keyAt]
  rcases rowsOf_cases (slotOf clientId resourceType resourceId) hone with hrows | ⟨⟨id, row⟩, hrows⟩
  · simp [hrows]
  · cases hexpired : row.expired now with
    | true => simp [hrows, hexpired, Option.filter_some]
    | false => simp [hrows, hexpired, Option.filter_some]

/-- A lookup deletes the row of its slot or nothing. -/
theorem lookup_rows (now : Instant) (clientId : Nat) (resourceType : String) (resourceId : PyStr)
    (hone : OneRowEach bindings) :
    (lookupBoundKeyId now clientId resourceType resourceId bindings).2 = bindings ∨
      ∃ id row, rowsOf (slotOf clientId resourceType resourceId) bindings = [(id, row)] ∧
        row.expired now = true ∧
        (lookupBoundKeyId now clientId resourceType resourceId bindings).2 =
          bindings.deleteWhere fun other _ => other == id := by
  by_cases hid : Storable resourceId
  · rw [lookupBoundKeyId_eq hid]
    rcases rowsOf_cases (slotOf clientId resourceType resourceId) hone with
      hrows | ⟨⟨id, row⟩, hrows⟩
    · exact .inl (by simp [hrows])
    · cases hexpired : row.expired now with
      | true => exact .inr ⟨id, row, hrows, hexpired, by simp [hrows, hexpired]⟩
      | false => exact .inl (by simp [hrows, hexpired])
  · rw [lookupBoundKeyId_of_not_storable hid]
    exact .inl rfl

/-! ### Binding -/

/-- The row a bind inserts. -/
def newBinding (clientId apiKeyId : Nat) (resourceType : String) (resourceId : PyStr)
    (expiresAt : Option Instant) :
    UpstreamResourceBinding :=
  { clientId
    apiKeyId
    resourceType := String.ofList (resourceType.toList.take 32)
    resourceId := (strip resourceId).take 128
    expiresAt }

@[simp] theorem newBinding_slot (expiresAt : Option Instant) :
    (newBinding clientId apiKeyId resourceType resourceId expiresAt).slot =
      slotOf clientId resourceType resourceId := rfl

/-- A bind that finds this row writes its expiry into it. -/
def rewrites (apiKeyId : Nat) (expiresAt : Option Instant) (row : UpstreamResourceBinding) : Bool :=
  row.apiKeyId == apiKeyId && expiresAt.any fun until' => row.expiresAt.all (· < until')

/-- The row a bind leaves where it finds one. -/
def rebound (apiKeyId : Nat) (expiresAt : Option Instant) (row : UpstreamResourceBinding) :
    UpstreamResourceBinding :=
  if rewrites apiKeyId expiresAt row then { row with expiresAt } else row

/-- What a bind that returns does to the bindings. -/
inductive Binds (now : Instant) (clientId apiKeyId : Nat) (resourceType : String)
    (resourceId : PyStr) (ttlSeconds : Option Int) (bindings : Table UpstreamResourceBinding) :
    Table UpstreamResourceBinding → Prop where
  | unstored (hid : ¬Storable resourceId) :
      Binds now clientId apiKeyId resourceType resourceId ttlSeconds bindings bindings
  | fresh (expiresAt : Option Instant) (hid : Storable resourceId)
      (hexpiry : bindExpiry now ttlSeconds = some expiresAt)
      (hnone : rowsOf (slotOf clientId resourceType resourceId) bindings = []) :
      Binds now clientId apiKeyId resourceType resourceId ttlSeconds bindings
        (bindings.insert (newBinding clientId apiKeyId resourceType resourceId expiresAt))
  | kept (expiresAt : Option Instant) (id : Nat) (row : UpstreamResourceBinding)
      (hid : Storable resourceId) (hexpiry : bindExpiry now ttlSeconds = some expiresAt)
      (hrow : (rowsOf (slotOf clientId resourceType resourceId) bindings).head? = some (id, row))
      (hsame : rewrites apiKeyId expiresAt row = false) :
      Binds now clientId apiKeyId resourceType resourceId ttlSeconds bindings bindings
  | rewritten (expiresAt : Option Instant) (id : Nat) (row : UpstreamResourceBinding)
      (hid : Storable resourceId) (hexpiry : bindExpiry now ttlSeconds = some expiresAt)
      (hrow : (rowsOf (slotOf clientId resourceType resourceId) bindings).head? = some (id, row))
      (hrewrites : rewrites apiKeyId expiresAt row = true) :
      Binds now clientId apiKeyId resourceType resourceId ttlSeconds bindings
        (bindings.modify id fun row => { row with expiresAt })

theorem bindResource_blank (hblank : strip resourceId = []) :
    bindResource now clientId apiKeyId resourceType resourceId ttlSeconds bindings =
      .ok bindings := by
  rw [bindResource]
  simp only [hblank]

theorem bindResource_overflow (hid : strip resourceId ≠ [])
    (hexpiry : bindExpiry now ttlSeconds = none) :
    bindResource now clientId apiKeyId resourceType resourceId ttlSeconds bindings =
      .error .overflowError := by
  obtain ⟨c, rest, hrid⟩ := List.exists_cons_of_ne_nil hid
  rw [bindExpiry] at hexpiry
  rw [bindResource]
  cases httl : ttlSeconds.filter (· ≠ 0) with
  | none => simp only [httl, reduceCtorEq] at hexpiry
  | some ttl =>
    simp only [httl, Option.map_eq_none_iff] at hexpiry
    simp only [hrid, Option.bind_some, hexpiry]

/-- A bind of an id that is not blank, where its expiry does not overflow. -/
theorem bindResource_eq {expiresAt : Option Instant} (hid : strip resourceId ≠ [])
    (hexpiry : bindExpiry now ttlSeconds = some expiresAt) :
    bindResource now clientId apiKeyId resourceType resourceId ttlSeconds bindings =
      if ((strip resourceId).take 128).any isSurrogate then .ok bindings
      else
        match (rowsOf (slotOf clientId resourceType resourceId) bindings).head? with
        | none =>
          .ok (bindings.insert (newBinding clientId apiKeyId resourceType resourceId expiresAt))
        | some (id, row) =>
          .ok (if rewrites apiKeyId expiresAt row then
            bindings.modify id fun row => { row with expiresAt } else bindings) := by
  have hfind : bindings.rows.find? (fun row => row.2.clientId == clientId &&
      row.2.resourceType == String.ofList (resourceType.toList.take 32) &&
        row.2.resourceId == (strip resourceId).take 128) =
        (rowsOf (slotOf clientId resourceType resourceId) bindings).head? := by
    rw [rowsOf, Table.select, List.head?_filter]
    congr 1
    funext row
    rw [Bool.eq_iff_iff, decide_eq_true_eq, slot_eq_iff]
    simp [slotOf, and_assoc]
  obtain ⟨c, rest, hrid⟩ := List.exists_cons_of_ne_nil hid
  rw [bindExpiry] at hexpiry
  rw [bindResource]
  cases httl : ttlSeconds.filter (· ≠ 0) with
  | none =>
    simp only [httl, Option.some.injEq] at hexpiry
    subst hexpiry
    simp only [hrid, Option.bind_none]
    rw [hrid] at hfind
    rw [hfind, newBinding, hrid]
    rfl
  | some ttl =>
    simp only [httl, Option.map_eq_some_iff] at hexpiry
    obtain ⟨sum, hsum, rfl⟩ := hexpiry
    simp only [hrid, Option.bind_some, hsum]
    rw [hrid] at hfind
    rw [hfind, newBinding, hrid]
    rfl

theorem binds_of_ok (hok :
    bindResource now clientId apiKeyId resourceType resourceId ttlSeconds bindings = .ok after) :
    Binds now clientId apiKeyId resourceType resourceId ttlSeconds bindings after := by
  by_cases hblank : strip resourceId = []
  · have hid : ¬Storable resourceId := fun hid => hid.1 (by rw [hblank, List.take_nil])
    rw [bindResource_blank hblank] at hok
    rw [← Except.ok.inj hok]
    exact .unstored hid
  cases hexpiry : bindExpiry now ttlSeconds with
  | none =>
    rw [bindResource_overflow hblank hexpiry] at hok
    cases hok
  | some expiresAt =>
    rw [bindResource_eq hblank hexpiry] at hok
    split at hok
    · next hsurrogate =>
      rw [← Except.ok.inj hok]
      exact .unstored fun hid => absurd hsurrogate (by rw [hid.2]; exact Bool.false_ne_true)
    next hplain =>
    have hid : Storable resourceId := by
      obtain ⟨c, rest, hrid⟩ := List.exists_cons_of_ne_nil hblank
      exact ⟨by simp [hrid], Bool.not_eq_true _ ▸ hplain⟩
    split at hok
    · next hnone =>
      rw [← Except.ok.inj hok]
      exact .fresh expiresAt hid hexpiry (List.head?_eq_none_iff.mp hnone)
    · next id row hrow =>
      split at hok
      · next hrewrites =>
        rw [← Except.ok.inj hok]
        exact .rewritten expiresAt id row hid hexpiry hrow hrewrites
      · next hkept =>
        rw [← Except.ok.inj hok]
        exact .kept expiresAt id row hid hexpiry hrow (Bool.not_eq_true _ ▸ hkept)

theorem bindResource_ok_of_expiry (clientId apiKeyId : Nat) (resourceType : String)
    (bindings : Table UpstreamResourceBinding) {expiresAt : Option Instant}
    (hid : Storable resourceId) (hexpiry : bindExpiry now ttlSeconds = some expiresAt) :
    ∃ after, bindResource now clientId apiKeyId resourceType resourceId ttlSeconds bindings =
      .ok after := by
  have hblank : strip resourceId ≠ [] := fun hblank => hid.1 (by rw [hblank, List.take_nil])
  rw [bindResource_eq hblank hexpiry]
  split
  · exact ⟨_, rfl⟩
  · split <;> exact ⟨_, rfl⟩

/-! ### The row of every slot after a call -/

theorem rowsOf_insert (row : UpstreamResourceBinding) :
    rowsOf slot (bindings.insert row) = rowsOf slot bindings ++ if row.slot = slot then
      [(bindings.nextId, row)] else [] := by
  simp only [rowsOf, Table.select, Table.insert, List.filter_append]
  by_cases hslot : row.slot = slot <;> simp [hslot]

theorem rowsOf_modify {id : Nat} {f : UpstreamResourceBinding → UpstreamResourceBinding}
    (hf : ∀ row, (f row).slot = row.slot) :
    rowsOf slot (bindings.modify id f) =
      (rowsOf slot bindings).map fun row => (row.1, if row.1 = id then f row.2 else row.2) := by
  have hslot : ∀ row :
      Nat × UpstreamResourceBinding, (if row.1 = id then f row.2 else row.2).slot = row.2.slot := by
    intro row
    split
    · exact hf row.2
    · rfl
  simp only [rowsOf, Table.select, Table.modify, Table.mapRows, List.filter_map]
  congr 1
  apply List.filter_congr
  intro row _
  simp only [Function.comp_apply, hslot]

theorem slots_modify {id : Nat} {f : UpstreamResourceBinding → UpstreamResourceBinding}
    (hf : ∀ row, (f row).slot = row.slot) :
    (bindings.modify id f).rows.map (fun row => row.2.slot) = bindings.rows.map fun row =>
      row.2.slot := by
  simp only [Table.modify, Table.mapRows, List.map_map]
  apply List.map_congr_left
  intro row _
  simp only [Function.comp_apply]
  split
  · exact hf row.2
  · rfl

theorem withExpiry_slot (expiresAt : Option Instant) (row : UpstreamResourceBinding) :
    ({ row with expiresAt } : UpstreamResourceBinding).slot = row.slot := rfl

theorem OneRowEach.insert (hone : OneRowEach bindings) {row : UpstreamResourceBinding}
    (hnone : rowsOf row.slot bindings = []) : OneRowEach (bindings.insert row) := by
  rw [OneRowEach, Table.insert, List.map_append, List.nodup_append]
  refine ⟨hone, by simp, ?_⟩
  intro slot hslot other hother heq
  obtain ⟨old, hold, rfl⟩ := List.mem_map.mp hslot
  rw [List.map_singleton, List.mem_singleton] at hother
  have hmem : old ∈ rowsOf row.slot bindings := mem_rowsOf.mpr ⟨hold, heq.trans hother⟩
  rw [hnone] at hmem
  exact List.not_mem_nil hmem

theorem Binds.oneRowEach (h :
    Binds now clientId apiKeyId resourceType resourceId ttlSeconds bindings after)
    (hone : OneRowEach bindings) : OneRowEach after := by
  cases h with
  | unstored hid => exact hone
  | fresh expiresAt hid hexpiry hnone => exact hone.insert hnone
  | kept expiresAt id row hid hexpiry hrow hsame => exact hone
  | rewritten expiresAt id row hid hexpiry hrow hrewrites =>
    rw [OneRowEach, slots_modify (withExpiry_slot expiresAt)]
    exact hone

/-- The row a bind leaves in its slot. -/
theorem Binds.bound (h :
    Binds now clientId apiKeyId resourceType resourceId ttlSeconds bindings after)
    (hone : OneRowEach bindings) (hid : Storable resourceId) :
    ∃ expiresAt, bindExpiry now ttlSeconds = some expiresAt ∧
      bound? (slotOf clientId resourceType resourceId) after =
        some ((bound? (slotOf clientId resourceType resourceId) bindings).elim
          (newBinding clientId apiKeyId resourceType resourceId expiresAt)
            (rebound apiKeyId expiresAt)) := by
  have hhead :
      ∀ {id row}, (rowsOf (slotOf clientId resourceType resourceId) bindings).head? =
        some (id, row) → rowsOf (slotOf clientId resourceType resourceId) bindings =
          [(id, row)] := by
    intro id row hrow
    rcases rowsOf_cases (slotOf clientId resourceType resourceId) hone with hrows | ⟨only, hrows⟩
    · rw [hrows] at hrow
      cases hrow
    · rw [hrows, List.head?_cons] at hrow
      rw [hrows, Option.some.inj hrow]
  cases h with
  | unstored hunstored => exact absurd hid hunstored
  | fresh expiresAt _ hexpiry hnone =>
    refine ⟨expiresAt, hexpiry, ?_⟩
    rw [bound?, bound?, rowsOf_insert, hnone, newBinding_slot, if_pos rfl]
    rfl
  | kept expiresAt id row _ hexpiry hrow hsame =>
    refine ⟨expiresAt, hexpiry, ?_⟩
    rw [bound?, hrow, Option.map_some, Option.elim_some, rebound,
      if_neg (by rw [hsame]; exact Bool.false_ne_true)]
  | rewritten expiresAt id row _ hexpiry hrow hrewrites =>
    refine ⟨expiresAt, hexpiry, ?_⟩
    rw [bound?, bound?, rowsOf_modify (withExpiry_slot expiresAt), hhead hrow, List.map_singleton,
      List.head?_singleton, List.head?_singleton, Option.map_some, Option.map_some,
      Option.elim_some, rebound, if_pos hrewrites, if_pos rfl]

theorem Binds.bound_of_ne (h :
    Binds now clientId apiKeyId resourceType resourceId ttlSeconds bindings after)
    (hne : slot ≠ slotOf clientId resourceType resourceId) :
    bound? slot after = bound? slot bindings := by
  cases h with
  | unstored hid => rfl
  | kept expiresAt id row hid hexpiry hrow hsame => rfl
  | fresh expiresAt hid hexpiry hnone =>
    rw [bound?, bound?, rowsOf_insert, newBinding_slot, if_neg (Ne.symm hne), List.append_nil]
  | rewritten expiresAt id row hid hexpiry hrow hrewrites =>
    obtain ⟨hmem, hslot⟩ := mem_rowsOf.mp (List.mem_of_head? hrow)
    rw [bound?, bound?, rowsOf_modify (withExpiry_slot expiresAt)]
    have hsame :
        (rowsOf slot bindings).map
          (fun other => (other.1, if other.1 = id then { other.2 with expiresAt } else other.2)) =
            (rowsOf slot bindings).map fun other => other := by
      apply List.map_congr_left
      intro other hother
      obtain ⟨hotherMem, hotherSlot⟩ := mem_rowsOf.mp hother
      have hid : other.1 ≠ id := by
        intro heq
        have hrow : other.2 = row := by
          have hget := Table.get?_of_mem hotherMem
          rw [heq, Table.get?_of_mem hmem] at hget
          exact (Option.some.inj hget).symm
        rw [hrow] at hotherSlot
        exact hne (hotherSlot.symm.trans hslot)
      rw [if_neg hid]
    rw [hsame, List.map_id']

theorem lookup_oneRowEach (hone : OneRowEach bindings) :
    OneRowEach (lookupBoundKeyId now clientId resourceType resourceId bindings).2 := by
  rcases lookup_rows now clientId resourceType resourceId hone with
    hsame | ⟨id, row, _, _, hdeleted⟩
  · rw [hsame]
    exact hone
  · rw [hdeleted, OneRowEach]
    exact hone.sublist (List.filter_sublist.map _)

theorem lookup_bound (hone : OneRowEach bindings) {row : UpstreamResourceBinding}
    (hbound : bound? slot (lookupBoundKeyId now clientId resourceType resourceId bindings).2 =
      some row) :
    bound? slot bindings = some row := by
  rcases lookup_rows now clientId resourceType resourceId hone with
    hsame | ⟨id, expired, _, _, hdeleted⟩
  · rwa [hsame] at hbound
  · rw [hdeleted, bound?, rowsOf, Table.select_deleteWhere, ← rowsOf] at hbound
    rw [bound?]
    rcases rowsOf_cases slot hone with hrows | ⟨only, hrows⟩
    · rw [hrows] at hbound
      cases hbound
    · rw [hrows, List.filter_cons] at hbound
      rw [hrows]
      split at hbound
      · exact hbound
      · cases hbound

/-! ### What calls keep -/

/-- The bindings calls leave: one row for a slot, and only ids that can be stored. -/
structure BindingsOk (bindings : Table UpstreamResourceBinding) : Prop where
  one : OneRowEach bindings
  stored : ∀ row ∈ bindings.rows, row.2.resourceId ≠ [] ∧ row.2.resourceId.any isSurrogate = false

theorem bindingsOk_empty : BindingsOk .empty where
  one := List.nodup_nil
  stored _ hmem := absurd hmem List.not_mem_nil

theorem BindingsOk.storable (h : BindingsOk bindings) {row : UpstreamResourceBinding}
    (hbound : bound? (slotOf clientId resourceType resourceId) bindings = some row) :
    Storable resourceId := by
  rw [bound?, Option.map_eq_some_iff] at hbound
  obtain ⟨first, hhead, -⟩ := hbound
  obtain ⟨hmem, hslot⟩ := mem_rowsOf.mp (List.mem_of_head? hhead)
  have hid : first.2.resourceId = (strip resourceId).take 128 := congrArg Slot.resourceId hslot
  have hstored := h.stored first hmem
  rwa [hid] at hstored

theorem Binds.ok (hbinds :
    Binds now clientId apiKeyId resourceType resourceId ttlSeconds bindings after)
    (h : BindingsOk bindings) : BindingsOk after := by
  refine ⟨hbinds.oneRowEach h.one, ?_⟩
  cases hbinds with
  | unstored hid => exact h.stored
  | kept expiresAt id row hid hexpiry hrow hsame => exact h.stored
  | fresh expiresAt hid hexpiry hnone =>
    intro row hmem
    rcases List.mem_append.mp hmem with hold | hnew
    · exact h.stored row hold
    · rw [List.mem_singleton.mp hnew]
      exact hid
  | rewritten expiresAt id row hid hexpiry hrow hrewrites =>
    intro row hmem
    obtain ⟨old, hold, rfl⟩ := List.mem_map.mp hmem
    have hstored := h.stored old hold
    dsimp only
    split
    · exact hstored
    · exact hstored

theorem lookup_ok (h : BindingsOk bindings) :
    BindingsOk (lookupBoundKeyId now clientId resourceType resourceId bindings).2 := by
  refine ⟨lookup_oneRowEach h.one, ?_⟩
  rcases lookup_rows now clientId resourceType resourceId h.one with
    hsame | ⟨id, row, _, _, hdeleted⟩
  · rw [hsame]
    exact h.stored
  · rw [hdeleted]
    intro other hmem
    exact h.stored other (List.mem_filter.mp hmem).1

theorem next_bind (hnext :
    (BindingCall.bind now clientId apiKeyId resourceType resourceId ttlSeconds).next bindings =
    some after) :
    after = bindings ∨ Binds now clientId apiKeyId resourceType resourceId ttlSeconds bindings
    after := by
  rw [BindingCall.next] at hnext
  split at hnext
  · next hok =>
    rw [Option.some.inj hnext] at hok
    exact .inr (binds_of_ok hok)
  · exact .inl (Option.some.inj hnext).symm

/-- A bind whose expiry does not overflow returns. -/
theorem next_bind_of_expiry {expiresAt : Option Instant} (hid : Storable resourceId)
    (hexpiry : bindExpiry now ttlSeconds = some expiresAt)
    (hnext : (BindingCall.bind now clientId apiKeyId resourceType resourceId ttlSeconds).next
      bindings = some after) :
    Binds now clientId apiKeyId resourceType resourceId ttlSeconds bindings after := by
  obtain ⟨bound, hok⟩ :=
    bindResource_ok_of_expiry clientId apiKeyId resourceType bindings hid hexpiry
  rw [BindingCall.next, hok] at hnext
  exact Option.some.inj hnext ▸ binds_of_ok hok

theorem next_bindingsOk (bindings : Table UpstreamResourceBinding) (call : BindingCall)
    (after : Table UpstreamResourceBinding) (h : BindingsOk bindings)
    (hnext : call.next bindings = some after) : BindingsOk after := by
  cases call with
  | bind now clientId apiKeyId resourceType resourceId ttlSeconds =>
    rcases next_bind hnext with rfl | hbinds
    · exact h
    · exact hbinds.ok h
  | lookup now clientId resourceType resourceId =>
    rw [← Option.some.inj hnext]
    exact lookup_ok h

theorem exec_bindingsOk {trace : List BindingCall}
    (hexec : exec BindingCall.next bindings trace = some after) (h : BindingsOk bindings) :
    BindingsOk after :=
  exec_invariant next_bindingsOk hexec h

end

end Fcam
