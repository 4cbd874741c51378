import Fcam.Proof.Rebinding

/-!
# Which resource a binding is for

The columns of a binding hold 32 characters of a type and 128 of an id. Two resources of a client
that agree in these share a row, so a lookup tells resources apart exactly as far as the calls name
none that agree in them.
-/

namespace Fcam

/-- A resource as a call names it: its client, its type and its id without blanks around it. -/
structure Resource where
  clientId : Nat
  resourceType : String
  resourceId : PyStr
deriving DecidableEq

/-- The slot a resource is kept in. -/
def Resource.slot (r : Resource) : Slot :=
  { clientId := r.clientId
    resourceType := String.ofList (r.resourceType.toList.take 32)
    resourceId := r.resourceId.take 128 }

/-- The resource a call names. -/
def BindingCall.resource : BindingCall → Resource
  | bind _ clientId _ resourceType resourceId _ =>
    { clientId, resourceType, resourceId := strip resourceId }
  | lookup _ clientId resourceType resourceId =>
    { clientId, resourceType, resourceId := strip resourceId }

/-- The call binds the resource to a key, so that it has not expired at an instant. -/
def BindingCall.BindsTo (r : Resource) (apiKeyId : Nat) (at' : Instant) : BindingCall → Prop
  | bind now clientId keyId resourceType resourceId ttlSeconds =>
    (bind now clientId keyId resourceType resourceId ttlSeconds).resource = r ∧ keyId = apiKeyId ∧
      ∃ expiresAt, bindExpiry now ttlSeconds = some expiresAt ∧ ∀ until' ∈ expiresAt, at' ≤ until'
  | lookup _ _ _ _ => False

/-- The call binds the resource. -/
def BindingCall.binds (r : Resource) : BindingCall → Bool
  | bind now clientId keyId resourceType resourceId ttlSeconds =>
    (bind now clientId keyId resourceType resourceId ttlSeconds).resource = r
  | lookup _ _ _ _ => false

/-- Resources of the run that share a row are the same. -/
def TellsApart (trace : List BindingCall) : Prop :=
  ∀ call ∈ trace, ∀ other ∈ trace, call.resource.slot = other.resource.slot →
    call.resource = other.resource

section

variable {bindings after : Table UpstreamResourceBinding} {trace : List BindingCall}

/-- Every row was written by a bind of the run, of a resource that is kept in its slot, with its key
and its expiry. -/
def Written (trace : List BindingCall) (bindings : Table UpstreamResourceBinding) : Prop :=
  ∀ slot row, bound? slot bindings = some row →
    ∃ call ∈ trace, call.resource.slot = slot ∧ call.binds call.resource = true ∧
      ∀ at', row.expired at' = false → call.BindsTo call.resource row.apiKeyId at'

theorem Written.mono (h : Written trace bindings) (call : BindingCall) :
    Written (trace ++ [call]) bindings := by
  intro slot row hbound
  obtain ⟨earlier, hmem, hearlier⟩ := h slot row hbound
  exact ⟨earlier, List.mem_append_left _ hmem, hearlier⟩

theorem bindsTo_of_expiry {now : Instant} {clientId apiKeyId : Nat} {resourceType : String}
    {resourceId : PyStr} {ttlSeconds : Option Int} (row : UpstreamResourceBinding)
    (hexpiry : bindExpiry now ttlSeconds = some row.expiresAt) (hkey : row.apiKeyId = apiKeyId)
    {at' : Instant} (hlive : row.expired at' = false) :
    (BindingCall.bind now clientId apiKeyId resourceType resourceId ttlSeconds).BindsTo
      (BindingCall.bind now clientId apiKeyId resourceType resourceId ttlSeconds).resource
        row.apiKeyId at' := by
  refine ⟨rfl, hkey.symm, row.expiresAt, hexpiry, ?_⟩
  intro until' huntil
  rw [UpstreamResourceBinding.expired, Option.any_eq_false] at hlive
  simpa using hlive until' huntil

theorem next_written (h : Written trace bindings) (hok : BindingsOk bindings) {call : BindingCall}
    (hnext : call.next bindings = some after) : Written (trace ++ [call]) after := by
  cases call with
  | lookup now clientId resourceType resourceId =>
    rw [← Option.some.inj hnext]
    intro slot row hbound
    exact h.mono _ slot row (lookup_bound hok.one hbound)
  | bind now clientId apiKeyId resourceType resourceId ttlSeconds =>
    rcases next_bind hnext with rfl | hbinds
    · exact h.mono _
    intro slot row hbound
    by_cases hslot : slot = slotOf clientId resourceType resourceId
    · subst hslot
      have hid := (hbinds.ok hok).storable hbound
      obtain ⟨expiresAt, hexpiry, hafter⟩ := hbinds.bound hok.one hid
      rw [hafter, Option.some.injEq] at hbound
      have hlast : BindingCall.bind now clientId apiKeyId resourceType resourceId ttlSeconds ∈
          trace ++ [.bind now clientId apiKeyId resourceType resourceId ttlSeconds] :=
        List.mem_append_right _ (List.mem_singleton_self _)
      cases hbefore : bound? (slotOf clientId resourceType resourceId) bindings with
      | none =>
        rw [hbefore, Option.elim_none] at hbound
        subst hbound
        exact ⟨_, hlast, rfl, decide_eq_true rfl,
          fun _ hlive => bindsTo_of_expiry _ hexpiry rfl hlive⟩
      | some old =>
        rw [hbefore, Option.elim_some, rebound] at hbound
        split at hbound
        · next hrewrites =>
          subst hbound
          rw [rewrites, Bool.and_eq_true, beq_iff_eq] at hrewrites
          refine ⟨_, hlast, rfl, decide_eq_true rfl, fun _ hlive => ?_⟩
          exact bindsTo_of_expiry { old with expiresAt } hexpiry hrewrites.1 hlive
        · subst hbound
          exact h.mono _ _ old hbefore
    · rw [hbinds.bound_of_ne hslot] at hbound
      exact h.mono _ slot row hbound

theorem exec_written (hexec : exec BindingCall.next .empty trace = some after) :
    Written trace after := by
  induction trace using List.reverseRecOn generalizing after with
  | nil =>
    rw [exec_nil, Option.some.injEq] at hexec
    subst hexec
    intro slot row hbound
    cases hbound
  | append_singleton earlier call ih =>
    obtain ⟨mid, hmid, hnext⟩ := exec_snoc_eq_some.mp hexec
    exact next_written (ih hmid) (exec_bindingsOk hmid bindingsOk_empty) hnext

/-- Where resources that share a row are the same, a slot holds what was bound for its resource. -/
theorem written_same {before later : List BindingCall} (call : BindingCall)
    {row : UpstreamResourceBinding} (htells : TellsApart (before ++ call :: later))
    (hexec : exec BindingCall.next .empty before = some bindings)
    (hbound : bound? call.resource.slot bindings = some row) :
    ∃ earlier ∈ before, earlier.binds call.resource = true ∧
      ∀ at', row.expired at' = false → earlier.BindsTo call.resource row.apiKeyId at' := by
  obtain ⟨earlier, hmem, hslot, hbind, hbinds⟩ := exec_written hexec _ row hbound
  have hsame : earlier.resource = call.resource :=
    htells earlier (List.mem_append_left _ hmem) call (List.mem_append_right _ List.mem_cons_self)
      hslot
  exact ⟨earlier, hmem, hsame ▸ hbind, hsame ▸ hbinds⟩

/-- A lookup that gives a key comes after a bind of the resource to it that has not expired. -/
def LookupsSound (trace : List BindingCall) : Prop :=
  ∀ before at' clientId resourceType resourceId later mid apiKeyId,
    trace = before ++ .lookup at' clientId resourceType resourceId :: later →
      exec BindingCall.next .empty before = some mid →
        (lookupBoundKeyId at' clientId resourceType resourceId mid).1 = some apiKeyId →
          ∃ call ∈ before,
            call.BindsTo (BindingCall.lookup at' clientId resourceType resourceId).resource apiKeyId
            at'

/-- A lookup right after the first bind of a resource, if it is for good, gives the key. -/
def FirstBindsFound (trace : List BindingCall) : Prop :=
  ∀ before now clientId apiKeyId resourceType resourceId ttlSeconds at' resourceId' later mid,
    trace = before ++ .bind now clientId apiKeyId resourceType resourceId ttlSeconds ::
        .lookup at' clientId resourceType resourceId' :: later →
      strip resourceId' = strip resourceId → bindExpiry now ttlSeconds = some none →
        (∀ call ∈ before, call.binds
          (BindingCall.bind now clientId apiKeyId resourceType resourceId ttlSeconds).resource =
            false) →
          exec BindingCall.next .empty
            (before ++ [.bind now clientId apiKeyId resourceType resourceId ttlSeconds]) =
              some mid →
            (lookupBoundKeyId at' clientId resourceType resourceId' mid).1 = some apiKeyId

/-- The id the call names can be stored. -/
def BindingCall.StorableId : BindingCall → Prop
  | bind _ _ _ _ resourceId _ => Storable resourceId
  | lookup _ _ _ resourceId => Storable resourceId

theorem lookups_sound (htells : TellsApart trace) : LookupsSound trace := by
  intro before at' clientId resourceType resourceId later mid apiKeyId htrace hexec hfound
  have hok := exec_bindingsOk hexec bindingsOk_empty
  by_cases hid : Storable resourceId
  · rw [lookup_key hok.one hid, keyAt, Option.map_eq_some_iff] at hfound
    obtain ⟨row, hrow, rfl⟩ := hfound
    obtain ⟨hbound, hlive⟩ := Option.filter_eq_some_iff.mp hrow
    obtain ⟨earlier, hmem, _, hbinds⟩ :=
      written_same (.lookup at' clientId resourceType resourceId) (htrace ▸ htells) hexec
      hbound
    exact ⟨earlier, hmem, hbinds at' (by simpa using hlive)⟩
  · rw [lookupBoundKeyId_of_not_storable hid] at hfound
    cases hfound

theorem first_binds_found (htells : TellsApart trace) (hids : ∀ call ∈ trace, call.StorableId) :
    FirstBindsFound trace := by
  intro before now clientId apiKeyId resourceType resourceId ttlSeconds at' resourceId' later mid
    htrace hsame hgood hfirst hexec
  obtain ⟨earlier, hearlier, hnext⟩ := exec_snoc_eq_some.mp hexec
  have hok := exec_bindingsOk hearlier bindingsOk_empty
  have hid : Storable resourceId :=
    hids (.bind now clientId apiKeyId resourceType resourceId ttlSeconds) (by rw [htrace]; simp)
  have hfree : bound? (slotOf clientId resourceType resourceId) earlier = none := by
    rw [Option.eq_none_iff_forall_ne_some]
    intro row hbound
    obtain ⟨call, hmem, hbind, -⟩ :=
      written_same (.bind now clientId apiKeyId resourceType resourceId ttlSeconds)
      (htrace ▸ htells) hearlier hbound
    exact Bool.false_ne_true ((hfirst call hmem).symm.trans hbind)
  have hid' : Storable resourceId' := by rwa [Storable, hsame]
  have hbinds := next_bind_of_expiry hid hgood hnext
  obtain ⟨expiresAt, hexpiry, hafter⟩ := hbinds.bound hok.one hid
  rw [hgood, Option.some.injEq] at hexpiry
  rw [lookup_key (hbinds.oneRowEach hok.one) hid', slotOf, hsame, ← slotOf, hafter, hfree,
    Option.elim_none, ← hexpiry]
  rfl

/-- In a run that tells its resources apart and names ids that can be stored, bindings are for the
resource they were made for. -/
theorem bindings_identify (htells : TellsApart trace) (hids : ∀ call ∈ trace, call.StorableId) :
    LookupsSound trace ∧ FirstBindsFound trace :=
  ⟨lookups_sound htells, first_binds_found htells hids⟩

end

/-- An id of 129 characters. -/
def longId (last : Char) : PyStr :=
  PyStr.ofString (String.ofList (List.replicate 128 'a' ++ [last]))

/-- A bind of one id, and a lookup of another that differs in its last character. -/
def boundLong : List BindingCall :=
  [.bind 0 1 7 "crawl" (longId 'x') none, .lookup 0 1 "crawl" (longId 'y')]

/-- The lookup of the other id gives the key. -/
theorem long_ids_meet : ¬LookupsSound boundLong := by
  intro hsound
  have hrun : (exec BindingCall.next .empty [.bind 0 1 7 "crawl" (longId 'x') none]).map
      (fun mid => (lookupBoundKeyId 0 1 "crawl" (longId 'y') mid).1) =
        some (some 7) := by decide +kernel
  obtain ⟨mid, hmid, hfound⟩ := Option.map_eq_some_iff.mp hrun
  obtain ⟨call, hmem, hbinds⟩ :=
    hsound [.bind 0 1 7 "crawl" (longId 'x') none] 0 1 "crawl" (longId 'y') [] mid 7 rfl hmid hfound
  rw [List.mem_singleton] at hmem
  subst hmem
  exact absurd hbinds.1 (by decide +kernel)

/-- A bind and a lookup of two ids, one of them long. -/
theorem bindings_identify_two :
    LookupsSound [.bind 0 1 7 "crawl" crawlId none, .bind 0 1 8 "crawl" (longId 'x') none,
      .lookup 1 1 "crawl" crawlId] ∧
      FirstBindsFound
        [.bind 0 1 7 "crawl" crawlId none, .bind 0 1 8 "crawl" (longId 'x') none,
          .lookup 1 1 "crawl" crawlId] := by
  apply bindings_identify
  · unfold TellsApart
    decide +kernel
  · intro call hmem
    simp only [List.mem_cons, List.not_mem_nil, or_false] at hmem
    rcases hmem with rfl | rfl | rfl
    · show Storable crawlId
      decide
    · show Storable (longId 'x')
      decide +kernel
    · show Storable crawlId
      decide

end Fcam
