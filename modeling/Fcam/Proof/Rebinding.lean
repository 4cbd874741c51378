import Fcam.Proof.Bindings

/-!
# Binding a resource again

A bind of a resource that is bound already keeps the row or gives it a new expiry. What it should
not do is cut a binding short, or leave one in place that has expired.
-/

namespace Fcam

/-- A call that binds a resource does not cut a binding to its key short, and where the binding it
finds has expired, its own key is found up to its own expiry. -/
def BindingCall.BindsAnew (bindings : Table UpstreamResourceBinding) : BindingCall → Prop
  | bind now clientId apiKeyId resourceType resourceId ttlSeconds =>
    ∀ after, bindResource now clientId apiKeyId resourceType resourceId ttlSeconds bindings =
      .ok after →
      (∀ at', (lookupBoundKeyId at' clientId resourceType resourceId bindings).1 = some apiKeyId →
        (lookupBoundKeyId at' clientId resourceType resourceId after).1 = some apiKeyId) ∧
      ∀ row expiresAt, bound? (slotOf clientId resourceType resourceId) bindings = some row →
        row.expired now = true →
        bindExpiry now ttlSeconds = some expiresAt → ∀ at', (∀ until' ∈ expiresAt, at' < until') →
          (lookupBoundKeyId at' clientId resourceType resourceId after).1 = some apiKeyId
  | lookup _ _ _ _ => True

/-- A call that binds a resource for good does so where the binding it finds to its key is for good,
or where none is found; over one that has expired it binds to the same key, and for a time. -/
def BindingCall.SparesBinding (bindings : Table UpstreamResourceBinding) : BindingCall → Prop
  | bind now clientId apiKeyId resourceType resourceId ttlSeconds =>
    ∀ row expiresAt, bound? (slotOf clientId resourceType resourceId) bindings = some row →
      bindExpiry now ttlSeconds = some expiresAt →
        (row.apiKeyId = apiKeyId → row.expiresAt = none → expiresAt = none) ∧
          (row.expired now = true → row.apiKeyId = apiKeyId ∧ expiresAt.isSome = true)
  | lookup _ _ _ _ => True

section

variable {bindings after : Table UpstreamResourceBinding} {now : Instant} {clientId apiKeyId : Nat}
  {resourceType : String} {resourceId : PyStr} {ttlSeconds : Option Int}
  {row : UpstreamResourceBinding} {expiresAt : Option Instant}

theorem keyAt_eq_some_iff {id : Nat} :
    keyAt now (some row) = some id ↔ row.expired now = false ∧ row.apiKeyId = id := by
  rw [keyAt, Option.filter_some]
  cases row.expired now <;> simp

theorem expired_eq_false_iff : row.expired now = false ↔
    ∀ until' ∈ row.expiresAt, now ≤ until' := by
  rw [UpstreamResourceBinding.expired, Option.any_eq_false]
  simp

theorem rebound_prolongs_iff :
    (∀ at', keyAt at' (some row) = some apiKeyId →
      keyAt at' (some (rebound apiKeyId expiresAt row)) = some apiKeyId) ↔
      (row.apiKeyId = apiKeyId → row.expiresAt = none → expiresAt = none) := by
  constructor
  · intro hprolongs hkey hgood
    cases expiresAt with
    | none => rfl
    | some until' =>
      have hfound :=
        hprolongs (until' + 1)
          (keyAt_eq_some_iff.mpr ⟨by simp [UpstreamResourceBinding.expired, hgood], hkey⟩)
      have hrewrites : rewrites apiKeyId (some until') row = true := by simp [rewrites, hkey, hgood]
      rw [rebound, if_pos hrewrites] at hfound
      have hlate := expired_eq_false_iff.mp (keyAt_eq_some_iff.mp hfound).1 until' rfl
      exact absurd hlate (Int.not_le.mpr (Int.lt_succ until'))
  · intro hcond at' hfound
    obtain ⟨hexpired, hkey⟩ := keyAt_eq_some_iff.mp hfound
    rw [rebound]
    split
    · next hrewrites =>
      refine keyAt_eq_some_iff.mpr ⟨expired_eq_false_iff.mpr ?_, hkey⟩
      intro until' huntil
      obtain rfl : expiresAt = some until' := huntil
      rw [rewrites, Bool.and_eq_true, Option.any_some] at hrewrites
      cases hold : row.expiresAt with
      | none => exact absurd (hcond hkey hold) (Option.some_ne_none _)
      | some old =>
        have hlater : old < until' := by simpa [hold] using hrewrites.2
        have hnow := expired_eq_false_iff.mp hexpired old hold
        exact Int.le_trans hnow (Int.le_of_lt hlater)
    · exact hfound

/-- Over a row that has expired, the bound key is found up to the new expiry exactly where it is the
same key, for a time. -/
theorem rebound_unblocked_iff (hexpired : row.expired now = true) :
    (∀ at', (∀ until' ∈ expiresAt, at' < until') →
      keyAt at' (some (rebound apiKeyId expiresAt row)) = some apiKeyId) ↔
      row.apiKeyId = apiKeyId ∧ expiresAt.isSome = true := by
  obtain ⟨old, hold, hpast⟩ : ∃ old, row.expiresAt = some old ∧ old < now := by
    rw [UpstreamResourceBinding.expired, Option.any_eq_true] at hexpired
    simpa using hexpired
  constructor
  · intro hfound
    cases expiresAt with
    | none =>
      have hkept := hfound now (by simp)
      rw [rebound, if_neg (by simp [rewrites]), keyAt_eq_some_iff, hexpired] at hkept
      cases hkept.1
    | some until' =>
      refine ⟨?_, rfl⟩
      have hkept :=
        hfound (until' - 1)
          (by
            intro other hother
            rw [← Option.some.inj hother]
            exact Int.sub_one_lt_of_le (Int.le_refl _))
      have hkey := (keyAt_eq_some_iff.mp hkept).2
      rw [rebound] at hkey
      split at hkey <;> exact hkey
  · rintro ⟨hkey, hfinite⟩ at' hbefore
    obtain ⟨until', rfl⟩ := Option.isSome_iff_exists.mp hfinite
    have hsoon := hbefore until' rfl
    rw [rebound]
    split
    · refine keyAt_eq_some_iff.mpr ⟨expired_eq_false_iff.mpr ?_, hkey⟩
      intro other hother
      rw [← Option.some.inj hother]
      exact Int.le_of_lt hsoon
    · next hkept =>
      refine keyAt_eq_some_iff.mpr ⟨expired_eq_false_iff.mpr ?_, hkey⟩
      intro other hother
      have hle : until' ≤ old := by simpa [rewrites, hkey, hold] using hkept
      rw [hold] at hother
      rw [← Option.some.inj hother]
      exact Int.le_trans (Int.le_of_lt hsoon) hle

/-- What is found after a bind over a row. -/
theorem lookup_rebound (h : BindingsOk bindings)
    (hbound : bound? (slotOf clientId resourceType resourceId) bindings = some row)
    (hok : bindResource now clientId apiKeyId resourceType resourceId ttlSeconds bindings =
      .ok after) (hexpiry : bindExpiry now ttlSeconds = some expiresAt) (at' : Instant) :
    (lookupBoundKeyId at' clientId resourceType resourceId after).1 =
      keyAt at' (some (rebound apiKeyId expiresAt row)) := by
  have hid := h.storable hbound
  have hbinds := binds_of_ok hok
  obtain ⟨expiry, hexpiry', hafter⟩ := hbinds.bound h.one hid
  obtain rfl : expiry = expiresAt := Option.some.inj (hexpiry'.symm.trans hexpiry)
  rw [lookup_key (hbinds.oneRowEach h.one) hid, hafter, hbound, Option.elim_some]

theorem bindsAnew_iff (h : BindingsOk bindings) (call : BindingCall) :
    call.BindsAnew bindings ↔ call.SparesBinding bindings := by
  cases call with
  | lookup now clientId resourceType resourceId => exact Iff.rfl
  | bind now clientId apiKeyId resourceType resourceId ttlSeconds =>
    simp only [BindingCall.BindsAnew, BindingCall.SparesBinding]
    cases hbound : bound? (slotOf clientId resourceType resourceId) bindings with
    | none =>
      refine iff_of_true (fun after hok => ⟨fun at' hfound => ?_, fun row _ hrow => by cases hrow⟩)
        fun row _ hrow => by cases hrow
      by_cases hid : Storable resourceId
      · rw [lookup_key h.one hid, hbound] at hfound
        cases hfound
      · rw [lookupBoundKeyId_of_not_storable hid] at hfound
        cases hfound
    | some row =>
      have hid := h.storable hbound
      have hbefore :
          ∀ at', (lookupBoundKeyId at' clientId resourceType resourceId bindings).1 =
            keyAt at' (some row) := by
        intro at'
        rw [lookup_key h.one hid, hbound]
      constructor
      · intro hanew row' expiresAt hrow hexpiry
        obtain rfl := Option.some.inj hrow
        obtain ⟨after, hok⟩ :=
          bindResource_ok_of_expiry clientId apiKeyId resourceType bindings hid hexpiry
        obtain ⟨hprolongs, hunblocked⟩ := hanew after hok
        have hafter := lookup_rebound h hbound hok hexpiry
        refine ⟨rebound_prolongs_iff.mp fun at' hfound => ?_, fun hexpired => ?_⟩
        · rw [← hafter]
          exact hprolongs at' ((hbefore at').trans hfound)
        · apply (rebound_unblocked_iff hexpired).mp
          intro at' hsoon
          rw [← hafter]
          exact hunblocked row expiresAt rfl hexpired hexpiry at' hsoon
      · intro hspares after hok
        obtain ⟨expiresAt, hexpiry, -⟩ := (binds_of_ok hok).bound h.one hid
        obtain ⟨hgood, hpast⟩ := hspares row expiresAt rfl hexpiry
        have hafter := lookup_rebound h hbound hok hexpiry
        refine ⟨fun at' hfound => ?_, fun row' expiry hrow hexpired hexpiry' at' hsoon => ?_⟩
        · rw [hafter]
          exact rebound_prolongs_iff.mpr hgood at' ((hbefore at').symm.trans hfound)
        · obtain rfl := Option.some.inj hrow
          obtain rfl : expiresAt = expiry := Option.some.inj (hexpiry.symm.trans hexpiry')
          rw [hafter]
          exact (rebound_unblocked_iff hexpired).mpr (hpast hexpired) at' hsoon

/-- Every bind of a run binds anew if and only if every one spares the binding it finds. -/
theorem rebinds_anew_iff {trace : List BindingCall} (h : BindingsOk bindings) :
    (∀ before call later mid, trace = before ++ call :: later →
      exec BindingCall.next bindings before = some mid →
        call.BindsAnew mid) ↔
      Meets BindingCall.next BindingCall.SparesBinding bindings trace := by
  rw [meets_iff]
  constructor
  · intro hanew before call later mid htrace hmid
    exact (bindsAnew_iff (exec_bindingsOk hmid h) call).mp (hanew before call later mid htrace hmid)
  · intro hspares before call later mid htrace hmid
    exact (bindsAnew_iff (exec_bindingsOk hmid h) call).mpr
      (hspares before call later mid htrace hmid)

end

/-- The id of a crawl. -/
def crawlId : PyStr := PyStr.ofString "crawl-1"

/-- Binding for good, then for ten seconds, then, a minute later, to another key. -/
def boundThrice : List BindingCall :=
  [.bind 0 1 1 "crawl" crawlId none, .bind 0 1 1 "crawl" crawlId (some 10),
    .bind 60000000 1 2 "crawl" crawlId (some 10)]

/-- The second bind cuts the binding short, and the third does not replace it though it has
expired. -/
theorem rebinding_cuts_and_blocks :
    ∃ first second third, exec BindingCall.next .empty (boundThrice.take 1) = some first ∧
      exec BindingCall.next .empty (boundThrice.take 2) = some second ∧
      exec BindingCall.next .empty boundThrice = some third ∧
      (lookupBoundKeyId 60000000 1 "crawl" crawlId first).1 = some 1 ∧
      (lookupBoundKeyId 60000000 1 "crawl" crawlId second).1 = none ∧
      (lookupBoundKeyId 60000001 1 "crawl" crawlId third).1 = none :=
  ⟨_, _, _, rfl, rfl, rfl, by decide, by decide, by decide⟩

/-- A bind to the same key, for ten seconds again, takes the place of a binding that has expired. -/
theorem expired_binding_rebound :
    ∃ mid, exec BindingCall.next .empty [.bind 0 1 1 "crawl" crawlId (some 10)] = some mid ∧
      (BindingCall.bind 60000000 1 1 "crawl" crawlId (some 10)).BindsAnew mid := by
  obtain ⟨mid, hmid⟩ :
      ∃ mid, exec BindingCall.next .empty [.bind 0 1 1 "crawl" crawlId (some 10)] = some mid :=
        ⟨_, rfl⟩
  refine ⟨mid, hmid,
    (rebinds_anew_iff bindingsOk_empty).mpr ?_ [.bind 0 1 1 "crawl" crawlId (some 10)]
      (.bind 60000000 1 1 "crawl" crawlId (some 10)) [] mid rfl hmid⟩
  have hfirst : bound? (slotOf 1 "crawl" crawlId) .empty = none := rfl
  have hsecond :
      bound? (slotOf 1 "crawl" crawlId) mid =
        some (newBinding 1 1 "crawl" crawlId (some 10000000)) := by
    obtain rfl := Option.some.inj hmid
    decide
  have hexpiry : bindExpiry 60000000 (some 10) = some (some 70000000) := by decide
  obtain ⟨_, hnext, hsame⟩ := exec_cons_eq_some.mp hmid
  obtain rfl := Option.some.inj hsame
  refine meets_cons hnext ?_ ⟨?_, fun _ _ => trivial⟩
  · intro row expiresAt hrow
    rw [hfirst] at hrow
    cases hrow
  · intro row expiresAt hrow hexpires
    rw [hsecond] at hrow
    rw [hexpiry] at hexpires
    obtain rfl := Option.some.inj hrow
    obtain rfl := Option.some.inj hexpires
    exact ⟨fun _ hgood => absurd hgood (Option.some_ne_none _), fun _ => ⟨rfl, rfl⟩⟩

end Fcam
