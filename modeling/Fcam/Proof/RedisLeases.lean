import Mathlib.Data.List.Basic
import Mathlib.Data.List.Perm.Subperm
import Fcam.Base.Run
import Fcam.Model.RedisLeases

/-!
# The set of a key holds the leases that are out

A member of a set is a lease that is out, and a lease that is out and younger than its lifetime is a
member (`RedisState.Sound`). So the number of members that is compared with the maximum lies between
the number of leases that are still young when the call decides and the number of those that were
when it read the clock. The second bound needs `RedisState.Young` where the count is not made
together with the eviction: what breaks it is a lease granted so late that it was no longer young.
-/

namespace Fcam

open ScoredSet

/-! ### Counting by index -/

section

variable {α : Type} {p : α → Bool} {l : List α} {tokens : List Nat}

theorem countP_le_length (h : ∀ i x, l[i]? = some x → p x = true → i ∈ tokens) :
    l.countP p ≤ tokens.length := by
  rw [← List.length_findIdxs (p := p) (s := 0)]
  apply List.Subperm.length_le
  apply List.Nodup.subperm List.nodup_findIdxs
  intro i hi
  obtain ⟨hlt, hp⟩ := List.mem_findIdxs_iff_exists_getElem_pos.mp hi
  exact h i _ (List.getElem?_eq_getElem hlt) hp

theorem length_le_countP (hnodup : tokens.Nodup)
    (h : ∀ i ∈ tokens, ∃ x, l[i]? = some x ∧ p x = true) :
    tokens.length ≤ l.countP p := by
  rw [← List.length_findIdxs (p := p) (s := 0)]
  apply List.Subperm.length_le
  apply List.Nodup.subperm hnodup
  intro i hi
  obtain ⟨x, hget, hp⟩ := h i hi
  obtain ⟨hlt, hx⟩ := List.getElem?_eq_some_iff.mp hget
  exact List.mem_findIdxs_iff_exists_getElem_pos.mpr ⟨hlt, by rw [hx]; exact hp⟩

end

theorem getElem?_set_cases {b x : α} {i j : Nat} (h : (List.set l i b)[j]? = some x) :
    j = i ∧ x = b ∨ j ≠ i ∧ l[j]? = some x := by
  by_cases hj : j = i
  · subst hj
    rw [List.getElem?_set_self', Option.map_eq_map, Option.map_eq_some_iff] at h
    obtain ⟨_, -, rfl⟩ := h
    exact .inl ⟨rfl, rfl⟩
  · rw [List.getElem?_set_ne (Ne.symm hj)] at h
    exact .inr ⟨hj, h⟩

/-! ### The steps of a call -/

namespace AcquireCall

/-- What a call that watches the set of its key relies on. -/
def Flying (call : AcquireCall) (set : ScoredSet Nat) : Prop :=
  match call.phase with
  | .watching round => round < 5
  | .evicting round version => round < 5 ∧ version ≤ set.version
  | .counting round version => round < 5 ∧ version ≤ set.version
  | .executing round version =>
    round < 5 ∧ version ≤ set.version ∧ (set.version = version → (set.zcard : Int) < call.maximum)
  | _ => True

variable {ttl clock : Int} {token : Nat} {call : AcquireCall} {set set' : ScoredSet Nat}
  {action : CallStep} {phase : CallPhase}

theorem Flying.evolves (h : call.Flying set) (hset : set.Evolves set') : call.Flying set' := by
  have hversion := hset.version
  unfold Flying at h ⊢
  split at h
  · exact h
  · exact ⟨h.1, Nat.le_trans h.2 hversion⟩
  · exact ⟨h.1, Nat.le_trans h.2 hversion⟩
  · refine ⟨h.1, Nat.le_trans h.2.1 hversion, fun hsame => ?_⟩
    have hcard := hset.card (by omega)
    have hfew := h.2.2 (by omega)
    omega
  · trivial

/-- The ways a step of a call can go. -/
inductive Takes (ttl clock : Int) (token : Nat) (call : AcquireCall) (set : ScoredSet Nat) :
    CallStep → CallPhase → ScoredSet Nat → Prop where
  | full (hphase : call.phase = .asking)
      (hfull : call.maximum ≤ (set.zremrangebyscore call.readAt).zcard) :
    Takes ttl clock token call set .script .refused (set.zremrangebyscore call.readAt)
  | grant (hphase : call.phase = .asking)
      (hroom : ((set.zremrangebyscore call.readAt).zcard : Int) < call.maximum) :
    Takes ttl clock token call set .script (.granted false)
      ((set.zremrangebyscore call.readAt).lease clock call.readAt ttl token)
  | noScripts (hphase : call.phase = .asking) :
      Takes ttl clock token call set .noScripts (.watching 0) set
  | watch {round : Nat} (hphase : call.phase = .watching round) :
    Takes ttl clock token call set .watch (.evicting round set.version) set
  | evict {round version : Nat} (hphase : call.phase = .evicting round version) :
    Takes ttl clock token call set .evict (.counting round version)
      (set.zremrangebyscore call.readAt)
  | countFull {round version : Nat} (hphase : call.phase = .counting round version)
      (hfull : call.maximum ≤ set.zcard) :
    Takes ttl clock token call set .count .refused set
  | count {round version : Nat} (hphase : call.phase = .counting round version)
      (hroom : (set.zcard : Int) < call.maximum) :
    Takes ttl clock token call set .count (.executing round version) set
  | execute {round version : Nat} (hphase : call.phase = .executing round version)
      (hsame : set.version = version) :
    Takes ttl clock token call set .execute (.granted false) (set.lease clock call.readAt ttl token)
  | lost {round version : Nat} (hphase : call.phase = .executing round version)
      (hround : round + 1 < 5) :
    Takes ttl clock token call set .execute (.watching (round + 1)) set
  | giveUp {version : Nat} (hphase : call.phase = .executing 4 version)
      (hlost : set.version ≠ version) :
    Takes ttl clock token call set .execute .unavailable set
  | release (hphase : call.phase = .granted false) :
    Takes ttl clock token call set .release (.granted true) (set.zrem token)
  | again (hphase : call.phase = .granted true) :
      Takes ttl clock token call set .release (.granted true) set

theorem takes_of_step (hflying : call.Flying set)
    (hstep : call.step ttl clock token set action = some (phase, set')) :
    call.Takes ttl clock token set action phase set' := by
  cases action with
  | script =>
    simp only [step] at hstep
    split at hstep
    · split at hstep
      · cases hstep
        exact .full ‹_› ‹_›
      · cases hstep
        exact .grant ‹_› (by omega)
    · cases hstep
  | noScripts =>
    simp only [step] at hstep
    split at hstep
    · cases hstep
      exact .noScripts ‹_›
    · cases hstep
  | watch =>
    simp only [step] at hstep
    split at hstep
    · cases hstep
      exact .watch ‹_›
    · cases hstep
  | evict =>
    simp only [step] at hstep
    split at hstep
    · cases hstep
      exact .evict ‹_›
    · cases hstep
  | count =>
    simp only [step] at hstep
    split at hstep
    · split at hstep
      · cases hstep
        exact .countFull ‹_› ‹_›
      · cases hstep
        exact .count ‹_› (by omega)
    · cases hstep
  | execute =>
    simp only [step] at hstep
    split at hstep
    · rename_i round version hphase
      split at hstep
      · cases hstep
        exact .execute hphase ‹_›
      · split at hstep
        · cases hstep
          exact .lost hphase ‹_›
        · rw [Flying, hphase] at hflying
          have hround := hflying.1
          obtain rfl : round = 4 := by omega
          cases hstep
          exact .giveUp hphase ‹_›
    · cases hstep
  | release =>
    simp only [step] at hstep
    split at hstep
    · rename_i released hphase
      cases released with
      | false =>
        cases hstep
        exact .release hphase
      | true =>
        cases hstep
        exact .again hphase
    · cases hstep

/-- What a step of a call does to the set of its key. -/
structure Effect (ttl clock : Int) (token : Nat) (call : AcquireCall) (set : ScoredSet Nat)
    (phase : CallPhase) (set' : ScoredSet Nat) : Prop where
  evolves : set.Evolves set'
  members : ∀ member ∈ set'.members, member ∈ set.members ∧
    (call.phase = .granted false → member.1 ≠ token) ∨ member = (token, call.readAt + ttl) ∧
      phase = .granted false
  kept : ∀ member ∈ set.members, clock < member.2 → member.1 ≠ token → member ∈ set'.members
  granted : phase = .granted false → (token, call.readAt + ttl) ∈ set'.members
  evicted : ∀ round version, phase = .counting round version → ∀ member ∈ set'.members,
    call.readAt < member.2
  covered : set'.Covered
  flying : Flying { call with phase } set'

/-- A step that leaves the set as it is. -/
theorem effect_same (hcall : call.phase ≠ .granted false) (hphase : phase ≠ .granted false)
    (hcounting : ∀ round version, phase ≠ .counting round version) (hcovered : set.Covered)
    (hflying : Flying { call with phase } set) : call.Effect ttl clock token set phase set where
  evolves := .refl set
  members _ hmember := .inl ⟨hmember, fun h => absurd h hcall⟩
  kept _ hmember _ _ := hmember
  granted h := absurd h hphase
  evicted round version h := absurd h (hcounting round version)
  covered := hcovered
  flying := hflying

/-- A step that takes members out of the set. -/
theorem effect_keep {p : Nat × Int → Bool} (hphase : phase ≠ .granted false)
    (hown : call.phase = .granted false → ∀ member, p member = true → member.1 ≠ token)
    (hkept : ∀ member, clock < member.2 → member.1 ≠ token → p member = true)
    (hevicted : ∀ round version, phase = .counting round version → ∀ member, p member = true →
      call.readAt < member.2)
    (hcovered : set.Covered) (hflying : Flying { call with phase } (set.keep p)) :
    call.Effect ttl clock token set phase (set.keep p) where
  evolves := evolves_keep set p
  members member hmember := by
    obtain ⟨hmember, hp⟩ := mem_keep.mp hmember
    exact .inl ⟨hmember, fun h => hown h member hp⟩
  kept member hmember hyoung hother := mem_keep.mpr ⟨hmember, hkept member hyoung hother⟩
  granted h := absurd h hphase
  evicted round version h member hmember := hevicted round version h member (mem_keep.mp hmember).2
  covered := hcovered.keep p
  flying := hflying

theorem mem_lease {member : Nat × Int} : member ∈ (set.lease clock call.readAt ttl token).members ↔
    member ∈ set.members ∧ member.1 ≠ token ∨ member = (token, call.readAt + ttl) := mem_zadd

theorem covered_lease (hread : call.readAt ≤ clock)
    (hscores : ∀ member ∈ set.members, member.2 ≤ clock + ttl) :
    (set.lease clock call.readAt ttl token).Covered := by
  intro t hexpires member hmember
  obtain rfl : clock + expireSeconds ttl * 1000 = t := Option.some.inj hexpires
  -- rounded up, the seconds are no less than the lifetime
  have hseconds : ttl ≤ expireSeconds ttl * 1000 := by
    rw [expireSeconds]
    omega
  obtain ⟨hmember, -⟩ | rfl := mem_lease.mp hmember
  · have hscore := hscores member hmember
    omega
  · show call.readAt + ttl ≤ clock + expireSeconds ttl * 1000
    omega

/-- A step that adds the lease of the call after an eviction by the time it has read. -/
theorem effect_lease {kept : ScoredSet Nat} (hread : call.readAt ≤ clock)
    (hcall : call.phase ≠ .granted false) (hscores : ∀ member ∈ set.members, member.2 ≤ clock + ttl)
    (hevolves : set.Evolves kept)
    (hkept : ∀ member, member ∈ set.members → call.readAt < member.2 → member ∈ kept.members)
    (hsub : ∀ member ∈ kept.members, member ∈ set.members) :
    call.Effect ttl clock token set (.granted false) (kept.lease clock call.readAt ttl token) where
  evolves := (hevolves.trans (evolves_zadd kept token (call.readAt + ttl))).trans
    (evolves_expire _ _)
  members member hmember := by
    obtain ⟨hmember, -⟩ | rfl := mem_lease.mp hmember
    · exact .inl ⟨hsub member hmember, fun h => absurd h hcall⟩
    · exact .inr ⟨rfl, rfl⟩
  kept member hmember hyoung hother :=
    mem_lease.mpr (.inl ⟨hkept member hmember (by omega), hother⟩)
  granted _ := mem_lease.mpr (.inr rfl)
  evicted round version h := by cases h
  covered := covered_lease hread fun member hmember => hscores member (hsub member hmember)
  flying := trivial

theorem Takes.effect (h : call.Takes ttl clock token set action phase set')
    (hread : call.readAt ≤ clock) (hscores : ∀ member ∈ set.members, member.2 ≤ clock + ttl)
    (hcovered : set.Covered) (hflying : call.Flying set) :
    call.Effect ttl clock token set phase set' := by
  have hevict (member : Nat × Int) (hyoung : clock < member.2) :
      decide (call.readAt < member.2) = true :=
    decide_eq_true (by omega)
  cases h with
  | full hphase _ =>
    apply effect_keep (by simp) (by simp [hphase]) (fun member hyoung _ => hevict member hyoung)
      (by simp) hcovered
    trivial
  | grant hphase _ =>
    apply effect_lease hread (by simp [hphase]) hscores (evolves_keep _ _)
    · exact fun member hmember hyoung => mem_zremrangebyscore.mpr ⟨hmember, hyoung⟩
    · exact fun member hmember => (mem_zremrangebyscore.mp hmember).1
  | noScripts hphase =>
    apply effect_same (by simp [hphase]) (by simp) (by simp) hcovered
    show 0 < 5
    omega
  | watch hphase =>
    apply effect_same (by simp [hphase]) (by simp) (by simp) hcovered
    rw [Flying, hphase] at hflying
    exact ⟨hflying, Nat.le_refl _⟩
  | evict hphase =>
    apply effect_keep (by simp) (by simp [hphase]) (fun member hyoung _ => hevict member hyoung)
      _ hcovered
    · rw [Flying, hphase] at hflying
      exact ⟨hflying.1, Nat.le_trans hflying.2 (evolves_keep _ _).version⟩
    · exact fun _ _ _ member hp => of_decide_eq_true hp
  | countFull hphase _ =>
    apply effect_same (by simp [hphase]) (by simp) (by simp) hcovered
    trivial
  | count hphase hroom =>
    apply effect_same (by simp [hphase]) (by simp) (by simp) hcovered
    rw [Flying, hphase] at hflying
    exact ⟨hflying.1, hflying.2, fun _ => hroom⟩
  | execute hphase _ =>
    apply effect_lease hread (by simp [hphase]) hscores (.refl _)
    · exact fun member hmember _ => hmember
    · exact fun member hmember => hmember
  | lost hphase hround =>
    apply effect_same (by simp [hphase]) (by simp) (by simp) hcovered
    exact hround
  | giveUp hphase _ =>
    apply effect_same (by simp [hphase]) (by simp) (by simp) hcovered
    trivial
  | release hphase =>
    apply effect_keep (by simp) _ (fun member _ hother => decide_eq_true hother) (by simp) hcovered
    · trivial
    · exact fun _ member hp => of_decide_eq_true hp
  | again hphase =>
    apply effect_same (by simp [hphase]) (by simp) (by simp) hcovered
    trivial

end AcquireCall

/-! ### What holds in every state -/

namespace RedisState

/-- A member is a lease that is out. -/
def Out (ttl : Int) (calls : List AcquireCall) (key : PyStr) (member : Nat × Int) : Prop :=
  ∃ call, calls[member.1]? = some call ∧ call.phase = .granted false ∧ call.name.redisKey = key ∧
    member.2 = call.readAt + ttl

theorem Out.set {ttl : Int} {calls : List AcquireCall} {key : PyStr} {member : Nat × Int}
    {token : Nat} {call call' : AcquireCall} (h : Out ttl calls key member)
    (hget : calls[token]? = some call)
    (hother : call.phase = .granted false → call.name.redisKey = key → member.1 ≠ token) :
    Out ttl (List.set calls token call') key member := by
  obtain ⟨holder, hholder, hphase, hkey, hscore⟩ := h
  have hne : token ≠ member.1 := by
    intro heq
    rw [← heq, hget, Option.some.injEq] at hholder
    subst hholder
    exact hother hphase hkey heq.symm
  exact ⟨holder, by rw [List.getElem?_set_ne hne, hholder], hphase, hkey, hscore⟩

/-- The members of the sets are the leases that are out, but for those whose time is over. -/
structure Sound (ttl : Int) (st : RedisState) : Prop where
  readings : ∀ call ∈ st.calls, call.readAt ≤ st.clock
  members : ∀ key, ∀ member ∈ (st.sets key).members, Out ttl st.calls key member
  kept : ∀ (token : Nat) (call : AcquireCall), st.calls[token]? = some call →
    call.phase = .granted false → st.clock < call.readAt + ttl →
      (token, call.readAt + ttl) ∈ (st.sets call.name.redisKey).members
  covered : ∀ key, (st.sets key).Covered
  flying : ∀ call ∈ st.calls, call.Flying (st.sets call.name.redisKey)

variable {ttl : Int} {st : RedisState} {key : PyStr} {counted : ScoredSet Nat}

theorem Sound.score_le (h : st.Sound ttl) {member : Nat × Int}
    (hmember : member ∈ (st.sets key).members) :
    member.2 ≤ st.clock + ttl := by
  obtain ⟨call, hget, -, -, hscore⟩ := h.members key member hmember
  have hread := h.readings call (List.mem_of_getElem? hget)
  omega

theorem Sound.live_le (h : st.Sound ttl)
    (hcounted : ∀ member ∈ (st.sets key).members, st.clock < member.2 → member ∈ counted.members) :
    st.liveLeases ttl key st.clock ≤ counted.zcard := by
  have hlength : counted.zcard = (counted.members.map Prod.fst).length := by
    rw [zcard, List.length_map]
  rw [hlength, liveLeases]
  apply countP_le_length
  intro token call hget hlive
  simp only [AcquireCall.live, Bool.and_eq_true, beq_iff_eq, decide_eq_true_eq] at hlive
  obtain ⟨⟨hphase, hkey⟩, hyoung⟩ := hlive
  have hkept := h.kept token call hget hphase hyoung
  rw [hkey] at hkept
  exact List.mem_map_of_mem (hcounted _ hkept hyoung)

theorem Sound.le_live (h : st.Sound ttl) {at' : Int}
    (hcounted : ∀ member ∈ counted.members, member ∈ (st.sets key).members ∧ at' < member.2) :
    counted.zcard ≤ st.liveLeases ttl key at' := by
  have hlength : counted.zcard = (counted.members.map Prod.fst).length := by
    rw [zcard, List.length_map]
  rw [hlength, liveLeases]
  apply length_le_countP counted.distinct
  intro token htoken
  obtain ⟨member, hmember, rfl⟩ := List.mem_map.mp htoken
  obtain ⟨hin, hyoung⟩ := hcounted member hmember
  obtain ⟨call, hget, hphase, hkey, hscore⟩ := h.members key member hin
  refine ⟨call, hget, ?_⟩
  simp only [AcquireCall.live, Bool.and_eq_true, beq_iff_eq, decide_eq_true_eq]
  exact ⟨⟨hphase, hkey⟩, by omega⟩

/-- A step of a call keeps what holds. -/
theorem Sound.after_call (h : st.Sound ttl) {token : Nat} {call : AcquireCall} {phase : CallPhase}
    {set : ScoredSet Nat} (hget : st.calls[token]? = some call)
    (heffect : call.Effect ttl st.clock token (st.sets call.name.redisKey) phase set) :
    Sound ttl { st with
      sets := Function.update st.sets call.name.redisKey set
      calls := List.set st.calls token { call with phase } } where
  readings call' hcall' := by
    obtain hold | rfl := List.mem_or_eq_of_mem_set hcall'
    · exact h.readings call' hold
    · exact h.readings call (List.mem_of_getElem? hget)
  members := by
    have hlt := (List.getElem?_eq_some_iff.mp hget).1
    apply (Function.forall_update_iff st.sets fun key set =>
      ∀ member ∈ set.members, Out ttl _ key member).mpr
    refine ⟨fun member hmember => ?_, fun key hkey member hmember => ?_⟩
    · obtain ⟨hold, hother⟩ | ⟨rfl, rfl⟩ := heffect.members member hmember
      · exact (h.members _ member hold).set hget fun hphase _ => hother hphase
      · exact ⟨_, List.getElem?_set_self hlt, rfl, rfl, rfl⟩
    · exact (h.members key member hmember).set hget fun _ hsame => absurd hsame.symm hkey
  kept token' call' hget' hphase' hyoung := by
    obtain ⟨rfl, rfl⟩ | ⟨hne, hold⟩ := getElem?_set_cases hget'
    · show _ ∈ (Function.update st.sets call.name.redisKey set call.name.redisKey).members
      rw [Function.update_self]
      exact heffect.granted hphase'
    · have hmember := h.kept token' call' hold hphase' hyoung
      apply (Function.forall_update_iff st.sets fun key set => call'.name.redisKey = key →
        _ ∈ set.members).mpr _ _ rfl
      refine ⟨fun hkey => ?_, fun key _ hkey => hkey ▸ hmember⟩
      rw [hkey] at hmember
      exact heffect.kept _ hmember hyoung hne
  covered := (Function.forall_update_iff st.sets fun _ set => set.Covered).mpr
    ⟨heffect.covered, fun key _ => h.covered key⟩
  flying call' hcall' := by
    obtain hold | rfl := List.mem_or_eq_of_mem_set hcall'
    · have hflying := h.flying call' hold
      apply (Function.forall_update_iff st.sets fun key set => call'.name.redisKey = key →
        call'.Flying set).mpr _ _ rfl
      refine ⟨fun hkey => ?_, fun key _ hkey => hkey ▸ hflying⟩
      rw [hkey] at hflying
      exact hflying.evolves heffect.evolves
    · show AcquireCall.Flying _ (Function.update st.sets call.name.redisKey set call.name.redisKey)
      rw [Function.update_self]
      exact heffect.flying

/-- Nor does a set lose a young lease otherwise. -/
theorem Sound.after_loss (h : st.Sound ttl) {set : ScoredSet Nat}
    (hevolves : (st.sets key).Evolves set)
    (hmembers : ∀ member ∈ set.members, member ∈ (st.sets key).members)
    (hkept : ∀ member ∈ (st.sets key).members, st.clock < member.2 → member ∈ set.members)
    (hcovered : set.Covered) :
    Sound ttl { st with sets := Function.update st.sets key set } where
  readings := h.readings
  members := by
    apply (Function.forall_update_iff st.sets fun key set =>
      ∀ member ∈ set.members, Out ttl st.calls key member).mpr
    exact ⟨fun member hmember => h.members key member (hmembers member hmember),
      fun key' _ => h.members key'⟩
  kept token call hget hphase hyoung := by
    have hmember := h.kept token call hget hphase hyoung
    apply (Function.forall_update_iff st.sets fun key set => call.name.redisKey = key →
      _ ∈ set.members).mpr _ _ rfl
    refine ⟨fun hkey => ?_, fun key' _ hkey => hkey ▸ hmember⟩
    rw [hkey] at hmember
    exact hkept _ hmember hyoung
  covered := (Function.forall_update_iff st.sets fun _ set => set.Covered).mpr ⟨hcovered,
    fun key' _ => h.covered key'⟩
  flying call hcall := by
    have hflying := h.flying call hcall
    apply (Function.forall_update_iff st.sets fun key set => call.name.redisKey = key →
      call.Flying set).mpr _ _ rfl
    refine ⟨fun hkey => ?_, fun key' _ hkey => hkey ▸ hflying⟩
    rw [hkey] at hflying
    exact hflying.evolves hevolves

theorem Sound.after_begin (h : st.Sound ttl) {call : AcquireCall} (hread : call.readAt ≤ st.clock)
    (hphase : call.phase = .asking) : Sound ttl { st with calls := st.calls ++ [call] } where
  readings call' hcall' := by
    obtain hold | hnew := List.mem_append.mp hcall'
    · exact h.readings call' hold
    · exact List.mem_singleton.mp hnew ▸ hread
  members key member hmember := by
    obtain ⟨holder, hholder, hout⟩ := h.members key member hmember
    have hlt := (List.getElem?_eq_some_iff.mp hholder).1
    exact ⟨holder, (List.getElem?_append_left hlt).trans hholder, hout⟩
  kept token call' hget' hphase' hyoung := by
    by_cases hlt : token < st.calls.length
    · exact h.kept token call' ((List.getElem?_append_left hlt).symm.trans hget') hphase' hyoung
    · rw [List.getElem?_append_right (Nat.le_of_not_lt hlt)] at hget'
      obtain rfl := List.mem_singleton.mp (List.mem_of_getElem? hget')
      rw [hphase] at hphase'
      cases hphase'
  covered := h.covered
  flying call' hcall' := by
    obtain hold | hnew := List.mem_append.mp hcall'
    · exact h.flying call' hold
    · obtain rfl := List.mem_singleton.mp hnew
      rw [AcquireCall.Flying, hphase]
      trivial

variable {st' : RedisState} {a : RedisAction}

theorem next_call {token : Nat} {action : CallStep}
    (hnext : st.next ttl (.call token action) = some st') :
    ∃ call phase set, st.calls[token]? = some call ∧
      call.step ttl st.clock token (st.sets call.name.redisKey) action = some (phase, set) ∧
      st' = { st with
        sets := Function.update st.sets call.name.redisKey set
        calls := List.set st.calls token { call with phase } } := by
  obtain ⟨call, hget, hnext⟩ := Option.bind_eq_some_iff.mp hnext
  obtain ⟨after, hstep, hst⟩ := Option.map_eq_some_iff.mp hnext
  exact ⟨call, after.1, after.2, hget, hstep, hst.symm⟩

/-- What the step of a call does from such a state. -/
theorem Sound.effect (h : st.Sound ttl) {token : Nat} {action : CallStep} {call : AcquireCall}
    {phase : CallPhase} {set : ScoredSet Nat} (hget : st.calls[token]? = some call)
    (hstep : call.step ttl st.clock token (st.sets call.name.redisKey) action = some (phase, set)) :
    call.Takes ttl st.clock token (st.sets call.name.redisKey) action phase set ∧
      call.Effect ttl st.clock token (st.sets call.name.redisKey) phase set := by
  have hcall := List.mem_of_getElem? hget
  have htakes := AcquireCall.takes_of_step (h.flying call hcall) hstep
  exact ⟨htakes,
    htakes.effect (h.readings call hcall) (fun _ => h.score_le) (h.covered _) (h.flying call hcall)⟩

theorem Sound.next (h : st.Sound ttl) (hnext : st.next ttl a = some st') : st'.Sound ttl := by
  cases a with
  | tick elapsed =>
    cases hnext
    exact
      { readings := fun call hcall =>
          Int.le_trans (h.readings call hcall) (Int.le_add_of_nonneg_right (by omega))
        members := h.members
        kept := fun token call hget hphase hyoung =>
          h.kept token call hget hphase
            (Int.lt_of_le_of_lt (Int.le_add_of_nonneg_right (by omega)) hyoung)
        covered := h.covered
        flying := h.flying }
  | tryAcquire name maximum =>
    simp only [RedisState.next] at hnext
    split at hnext
    · cases hnext
      exact h
    · cases hnext
      exact h.after_begin (Int.le_refl _) rfl
  | call token action =>
    obtain ⟨call, phase, set, hget, hstep, rfl⟩ := next_call hnext
    exact h.after_call hget (h.effect hget hstep).2
  | current name readAt =>
    simp only [RedisState.next] at hnext
    split at hnext
    · cases hnext
      apply h.after_loss (evolves_keep _ _)
      · exact fun member hmember => (mem_zremrangebyscore.mp hmember).1
      · exact fun member hmember hyoung => mem_zremrangebyscore.mpr ⟨hmember, by omega⟩
      · exact (h.covered _).keep _
    · cases hnext
  | expire key noticed =>
    simp only [RedisState.next] at hnext
    split at hnext
    · rename_i hexpired
      cases hnext
      obtain ⟨t, hexpires, ht⟩ := (Option.any_eq_true _ _).mp hexpired
      apply h.after_loss (evolves_gone _ _) (List.forall_mem_nil _) _ (covered_gone _ _)
      intro member hmember hyoung
      have hscore := h.covered key t hexpires member hmember
      have hpast := of_decide_eq_true ht
      omega
    · cases hnext

/-! ### What a call decides -/

/-- A decision agrees with the leases that are out, and a release takes no lease but its own. -/
structure CallExact (ttl : Int) (st : RedisState) (token : Nat) (action : CallStep)
    (call : AcquireCall) (phase : CallPhase) (set : ScoredSet Nat) : Prop where
  granted : phase = .granted false →
    (st.liveLeases ttl call.name.redisKey st.clock : Int) < call.maximum
  refused : phase = .refused → action = .script →
    call.maximum ≤ st.liveLeases ttl call.name.redisKey call.readAt
  unavailable : phase = .unavailable →
    ∃ version, call.phase = .executing 4 version ∧ (st.sets call.name.redisKey).version ≠ version
  released : action = .release → ∀ member ∈ (st.sets call.name.redisKey).members, member.1 ≠ token →
    member ∈ set.members

/-- Every step of a call is exact, and a key expires when all leases under it are over. -/
def Exact (ttl : Int) (st : RedisState) : RedisAction → Prop
  | .call token action => ∀ call ∈ st.calls[token]?,
    ∀ after ∈ call.step ttl st.clock token (st.sets call.name.redisKey) action,
      st.CallExact ttl token action call after.1 after.2
  | .expire key noticed =>
    st.next ttl (.expire key noticed) ≠ none → st.liveLeases ttl key st.clock = 0
  | _ => True

/-- A lease that is granted has some of its lifetime left. -/
def Timely (ttl : Int) (st : RedisState) : RedisAction → Prop
  | .call token action => ∀ call ∈ st.calls[token]?,
    ∀ after ∈ call.step ttl st.clock token (st.sets call.name.redisKey) action,
      after.1 = .granted false → st.clock < call.readAt + ttl
  | _ => True

instance Timely.decidable (ttl : Int) (st : RedisState) : ∀ a, Decidable (st.Timely ttl a)
  | .call token action =>
    inferInstanceAs (Decidable (∀ call ∈ st.calls[token]?,
      ∀ after ∈ call.step ttl st.clock token (st.sets call.name.redisKey) action,
        after.1 = .granted false → st.clock < call.readAt + ttl))
  | .tick _ | .tryAcquire _ _ | .current _ _ | .expire _ _ => .isTrue trivial

/-- What `CallExact` says of a refusal by the script, for one after a count. -/
def CountExact (ttl : Int) (st : RedisState) : RedisAction → Prop
  | .call token .count => ∀ call ∈ st.calls[token]?,
    ∀ after ∈ call.step ttl st.clock token (st.sets call.name.redisKey) .count,
      after.1 = .refused → call.maximum ≤ st.liveLeases ttl call.name.redisKey call.readAt
  | _ => True

theorem Sound.call_exact (h : st.Sound ttl) {token : Nat} {action : CallStep} {call : AcquireCall}
    {phase : CallPhase} {set : ScoredSet Nat} (hget : st.calls[token]? = some call)
    (hstep : call.step ttl st.clock token (st.sets call.name.redisKey) action = some (phase, set)) :
    st.CallExact ttl token action call phase set := by
  have hread := h.readings call (List.mem_of_getElem? hget)
  have hflying := h.flying call (List.mem_of_getElem? hget)
  obtain ⟨htakes, -⟩ := h.effect hget hstep
  cases htakes with
  | full hphase hfull =>
    refine ⟨by simp, fun _ _ => ?_, by simp, by simp⟩
    -- after the eviction every member was young when the clock was read
    apply Int.le_trans hfull
    exact Int.ofNat_le.mpr (h.le_live fun member hmember => mem_zremrangebyscore.mp hmember)
  | grant hphase hroom =>
    refine ⟨fun _ => ?_, by simp, by simp, by simp⟩
    refine Int.lt_of_le_of_lt (Int.ofNat_le.mpr (h.live_le fun member hmember hyoung => ?_)) hroom
    exact mem_zremrangebyscore.mpr ⟨hmember, Int.lt_of_le_of_lt hread hyoung⟩
  | execute hphase hsame =>
    refine ⟨fun _ => ?_, by simp, by simp, by simp⟩
    rw [AcquireCall.Flying, hphase] at hflying
    exact Int.lt_of_le_of_lt (Int.ofNat_le.mpr (h.live_le fun member hmember _ => hmember))
      (hflying.2.2 hsame)
  | giveUp hphase hlost => exact ⟨by simp, by simp, fun _ => ⟨_, hphase, hlost⟩, by simp⟩
  | release hphase =>
    exact ⟨by simp, by simp, by simp, fun _ member hmember hother => mem_zrem.mpr ⟨hmember, hother⟩⟩
  | again hphase => exact ⟨by simp, by simp, by simp, fun _ member hmember _ => hmember⟩
  | noScripts | watch | evict | countFull | count | lost =>
    exact ⟨by simp, by simp, by simp, by simp⟩

theorem Sound.exact (h : st.Sound ttl) (a : RedisAction) : st.Exact ttl a := by
  cases a with
  | tick | tryAcquire | current => trivial
  | call token action => exact fun call hget after hstep => h.call_exact hget hstep
  | expire key noticed =>
    intro henabled
    simp only [RedisState.next] at henabled
    split at henabled
    · rename_i hexpired
      obtain ⟨t, hexpires, ht⟩ := (Option.any_eq_true _ _).mp hexpired
      have hpast := of_decide_eq_true ht
      have hlive : st.liveLeases ttl key st.clock ≤ (ScoredSet.empty : ScoredSet Nat).zcard := by
        apply h.live_le
        intro member hmember hyoung
        have hscore := h.covered key t hexpires member hmember
        omega
      exact Nat.le_zero.mp hlive
    · exact absurd rfl henabled

/-- A call that has evicted finds only members that were young when it read the clock. -/
def Young (st : RedisState) : Prop :=
  ∀ call ∈ st.calls, ∀ round version, call.phase = .counting round version →
    ∀ member ∈ (st.sets call.name.redisKey).members, call.readAt < member.2

/-- What a set is given in a step is young for all who have read the clock. -/
theorem Young.after (hyoung : st.Young) (h : st.Sound ttl) {set : ScoredSet Nat}
    {call : AcquireCall}
    (hmembers : ∀ member ∈ set.members, member ∈ (st.sets key).members ∨ st.clock < member.2)
    (hcall : call ∈ st.calls) {round version : Nat}
    (hphase : call.phase = .counting round version) :
    ∀ member ∈ (Function.update st.sets key set call.name.redisKey).members,
      call.readAt < member.2 := by
  have hold := hyoung call hcall round version hphase
  have hread := h.readings call hcall
  apply (Function.forall_update_iff st.sets fun key set =>
    call.name.redisKey = key → ∀ member ∈ set.members, call.readAt < member.2).mpr _ _ rfl
  refine ⟨fun hkey member hmember => ?_, fun key' _ hkey => hkey ▸ hold⟩
  rw [hkey] at hold
  obtain hmember | hlater := hmembers member hmember
  · exact hold member hmember
  · omega

theorem Young.next (hyoung : st.Young) (h : st.Sound ttl) (htimely : st.Timely ttl a)
    (hnext : st.next ttl a = some st') :
    st'.Young := by
  cases a with
  | tick elapsed =>
    cases hnext
    exact hyoung
  | tryAcquire name maximum =>
    simp only [RedisState.next] at hnext
    split at hnext
    · cases hnext
      exact hyoung
    · cases hnext
      intro call hcall round version hphase
      obtain hold | hnew := List.mem_append.mp hcall
      · exact hyoung call hold round version hphase
      · rw [List.mem_singleton.mp hnew] at hphase
        cases hphase
  | call token action =>
    obtain ⟨call, phase, set, hget, hstep, rfl⟩ := next_call hnext
    obtain ⟨-, heffect⟩ := h.effect hget hstep
    intro call' hcall' round version hphase'
    obtain hold | rfl := List.mem_or_eq_of_mem_set hcall'
    · apply hyoung.after h _ hold hphase'
      intro member hmember
      obtain ⟨hmember, -⟩ | ⟨rfl, hgranted⟩ := heffect.members member hmember
      · exact .inl hmember
      · exact .inr (htimely call hget (phase, set) hstep hgranted)
    · show ∀ member ∈ (Function.update st.sets call.name.redisKey set call.name.redisKey).members,
        call.readAt < member.2
      rw [Function.update_self]
      exact heffect.evicted round version hphase'
  | current name readAt =>
    simp only [RedisState.next] at hnext
    split at hnext
    · cases hnext
      intro call hcall round version
      exact hyoung.after h (fun member hmember => .inl (mem_zremrangebyscore.mp hmember).1) hcall
    · cases hnext
  | expire key noticed =>
    simp only [RedisState.next] at hnext
    split at hnext
    · cases hnext
      intro call hcall round version
      exact hyoung.after h (List.forall_mem_nil _) hcall
    · cases hnext

theorem Young.count_exact (hyoung : st.Young) (h : st.Sound ttl) (a : RedisAction) :
    st.CountExact ttl a := by
  unfold CountExact
  split
  · rename_i token
    intro call hget after hstep hrefused
    obtain ⟨htakes, -⟩ := h.effect hget hstep
    obtain ⟨phase, set⟩ := after
    subst hrefused
    cases htakes with
    | countFull hphase hfull =>
      have hall := hyoung call (List.mem_of_getElem? hget) _ _ hphase
      exact Int.le_trans hfull
        (Int.ofNat_le.mpr (h.le_live fun member hmember => ⟨hmember, hall member hmember⟩))
  · trivial

theorem sound_start (ttl clock : Int) : Sound ttl { clock } where
  readings := List.forall_mem_nil _
  members _ := List.forall_mem_nil _
  kept token call hget := by cases hget
  covered _ _ _ := List.forall_mem_nil _
  flying := List.forall_mem_nil _

end RedisState

/-! ### Every run -/

/-- In every run the decisions agree with the leases that are out; those after a count as long as
leases are granted while they have some of their lifetime left. -/
theorem redis_leases_exact (leaseTtlMs clock : Int) {trace : List RedisAction} {last : RedisState}
    (hexec : exec (RedisState.next (leaseTtl leaseTtlMs)) { clock } trace = some last) :
    Meets (RedisState.next (leaseTtl leaseTtlMs)) (RedisState.Exact (leaseTtl leaseTtlMs))
      { clock } trace ∧
      (Meets (RedisState.next (leaseTtl leaseTtlMs)) (RedisState.Timely (leaseTtl leaseTtlMs))
        { clock } trace →
        Meets (RedisState.next (leaseTtl leaseTtlMs)) (RedisState.CountExact (leaseTtl leaseTtlMs))
          { clock } trace) := by
  have hstart := RedisState.sound_start (leaseTtl leaseTtlMs) clock
  have hany : Meets (RedisState.next (leaseTtl leaseTtlMs)) (fun _ _ => True) { clock } trace :=
    meets_of_forall (fun _ _ => trivial) _ _
  constructor
  · exact meets_of_invariant (fun st a st' h _ hnext => ⟨h.next hnext, h.exact a⟩) hany hexec hstart
  · intro htimely
    have hstep : ∀ (st : RedisState) a st', st.Sound (leaseTtl leaseTtlMs) ∧ st.Young →
        st.Timely (leaseTtl leaseTtlMs) a → st.next (leaseTtl leaseTtlMs) a = some st' →
        (st'.Sound (leaseTtl leaseTtlMs) ∧ st'.Young) ∧ st.CountExact (leaseTtl leaseTtlMs) a := by
      rintro st a st' ⟨h, hyoung⟩ ha hnext
      exact ⟨⟨h.next hnext, hyoung.next h ha hnext⟩, hyoung.count_exact h a⟩
    exact meets_of_invariant hstep htimely hexec ⟨hstart, List.forall_mem_nil _⟩

/-- A lease of a client, by the text that names it. -/
def clientLease (key : String) : LeaseName where
  keyPrefix := PyStr.ofString "fcam"
  scope := PyStr.ofString "client"
  key := PyStr.ofString key

/-- A run in which the second of two calls, one by the script and one by the transaction, is
refused. -/
def secondRefused : List RedisAction :=
  [.tryAcquire (clientLease "1") 1, .call 0 .script, .tick 400, .tryAcquire (clientLease "1") 1,
    .call 1 .noScripts, .call 1 .watch, .call 1 .evict, .call 1 .count, .call 0 .release,
    .call 0 .release]

theorem second_refused_exact :
    Meets (RedisState.next (leaseTtl 1000)) (RedisState.Exact (leaseTtl 1000))
      { clock := 0 } secondRefused ∧
      Meets (RedisState.next (leaseTtl 1000)) (RedisState.CountExact (leaseTtl 1000)) { clock := 0 }
        secondRefused := by
  have hexact :=
    @redis_leases_exact 1000 0 secondRefused _ (Option.eq_some_of_isSome (by decide))
  exact ⟨hexact.1, hexact.2 (by decide)⟩

/-- Keys that differ in their outer colons share their leases; and a lease that is granted after its
lifetime keeps a call from its own, which read the clock before. -/
theorem no_lease_refused :
    (exec (RedisState.next (leaseTtl 1000)) { clock := 0 }
        [.tryAcquire (clientLease "1") 1, .call 0 .script, .tryAcquire (clientLease ":1") 1,
          .call 1 .script]).map RedisState.calls =
      some [{ name := clientLease "1", maximum := 1, readAt := 0, phase := .granted false },
        { name := clientLease ":1", maximum := 1, readAt := 0, phase := .refused }] ∧
    (exec (RedisState.next (leaseTtl 1000)) { clock := 0 }
        [.tryAcquire (clientLease "1") 1, .tick 5000, .tryAcquire (clientLease "1") 1,
          .call 1 .noScripts, .call 1 .watch, .call 1 .evict, .call 0 .script, .call 1 .count]).map
          (fun last => (last.calls.map AcquireCall.phase, last.clock,
            last.liveLeases (leaseTtl 1000) (clientLease "1").redisKey last.clock)) =
      some ([.granted false, .refused], 5000, 0) := by
  decide

end Fcam
