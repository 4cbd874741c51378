import Fcam.Proof.RedisLeases

/-!
# How many leases are out at once

Where every call asks for a key with at most some maximum, no more leases than that are out and
young under the key at any time: the call that adds one has found fewer (`Sound.call_exact`), and
nothing else makes one of them young.
-/

namespace Fcam

namespace RedisState

variable {ttl : Int} {st st' : RedisState} {key : PyStr} {m : Nat} {a : RedisAction}

/-- A call for a key asks with at most so many. -/
def AsksAtMost (key : PyStr) (m : Nat) : RedisAction → Prop
  | .tryAcquire name maximum => name.redisKey = key → maximum ≤ m
  | _ => True

instance AsksAtMost.decidable (key : PyStr) (m : Nat) : ∀ a, Decidable (AsksAtMost key m a)
  | .tryAcquire name maximum => inferInstanceAs (Decidable (name.redisKey = key → maximum ≤ m))
  | .tick _ | .call _ _ | .current _ _ | .expire _ _ => .isTrue trivial

/-- No call has asked for more, and no more leases are out. -/
structure Within (ttl : Int) (key : PyStr) (m : Nat) (st : RedisState) : Prop where
  sound : st.Sound ttl
  asked : ∀ call ∈ st.calls, call.name.redisKey = key → call.maximum ≤ m
  live : st.liveLeases ttl key st.clock ≤ m

theorem liveLeases_anti {at' later : Int} (hle : at' ≤ later) :
    st.liveLeases ttl key later ≤ st.liveLeases ttl key at' := by
  apply List.countP_mono_left
  intro call _ hlive
  simp only [AcquireCall.live, Bool.and_eq_true, decide_eq_true_eq] at hlive ⊢
  exact ⟨hlive.1, Int.lt_of_le_of_lt hle hlive.2⟩

variable (ttl key) in
theorem liveLeases_call {token : Nat} {call : AcquireCall} (phase : CallPhase) (set : ScoredSet Nat)
    (hget : st.calls[token]? = some call) (at' : Int) :
    liveLeases ttl { st with
        sets := Function.update st.sets call.name.redisKey set
        calls := List.set st.calls token { call with phase } } key at' ≤
      st.liveLeases ttl key at' + if phase = .granted false ∧ call.name.redisKey = key then 1
        else 0 := by
  obtain ⟨hlt, hcall⟩ := List.getElem?_eq_some_iff.mp hget
  rw [liveLeases, List.countP_set hlt, liveLeases]
  apply Nat.add_le_add (Nat.sub_le _ _)
  simp only [AcquireCall.live, Bool.and_eq_true, beq_iff_eq, decide_eq_true_eq]
  split
  · next hlive => exact Nat.le_of_eq (if_pos hlive.1).symm
  · exact Nat.zero_le _

theorem Within.next (h : st.Within ttl key m) (hasks : AsksAtMost key m a)
    (hnext : st.next ttl a = some st') :
    st'.Within ttl key m := by
  have hsound := h.sound.next hnext
  cases a with
  | tick elapsed =>
    cases hnext
    refine ⟨hsound, h.asked, Nat.le_trans (liveLeases_anti ?_) h.live⟩
    show st.clock ≤ st.clock + elapsed
    omega
  | tryAcquire name maximum =>
    simp only [RedisState.next] at hnext
    split at hnext
    · cases hnext
      exact h
    · cases hnext
      refine ⟨hsound, ?_, ?_⟩
      · intro call hcall hkey
        obtain hold | hnew := List.mem_append.mp hcall
        · exact h.asked call hold hkey
        · rw [List.mem_singleton.mp hnew] at hkey ⊢
          exact hasks hkey
      · rw [liveLeases, List.countP_append]
        exact h.live
  | call token action =>
    obtain ⟨call, phase, set, hget, hstep, rfl⟩ := next_call hnext
    refine ⟨hsound, ?_, ?_⟩
    · intro call' hcall' hkey
      obtain hold | rfl := List.mem_or_eq_of_mem_set hcall'
      · exact h.asked call' hold hkey
      · exact h.asked call (List.mem_of_getElem? hget) hkey
    · have hlive := liveLeases_call ttl key phase set hget st.clock
      split at hlive
      · next hgranted =>
        have hroom := (h.sound.call_exact hget hstep).granted hgranted.1
        have hasked := h.asked call (List.mem_of_getElem? hget) hgranted.2
        rw [hgranted.2] at hroom
        show liveLeases ttl _ key st.clock ≤ m
        omega
      · exact Nat.le_trans hlive h.live
  | current name readAt =>
    simp only [RedisState.next] at hnext
    split at hnext
    · cases hnext
      exact ⟨hsound, h.asked, h.live⟩
    · cases hnext
  | expire name noticed =>
    simp only [RedisState.next] at hnext
    split at hnext
    · cases hnext
      exact ⟨hsound, h.asked, h.live⟩
    · cases hnext

end RedisState

/-- In every run in which all calls for a key ask with at most so many, no more leases than that are
out and young under the key at any time. -/
theorem redis_leases_within (leaseTtlMs clock : Int) (key : PyStr) (m : Nat)
    {trace : List RedisAction} {last : RedisState}
    (hasks : ∀ a ∈ trace, RedisState.AsksAtMost key m a)
    (hexec : exec (RedisState.next (leaseTtl leaseTtlMs)) { clock } trace = some last) :
    last.liveLeases (leaseTtl leaseTtlMs) key last.clock ≤ m := by
  have hstart : RedisState.Within (leaseTtl leaseTtlMs) key m { clock } :=
    ⟨RedisState.sound_start _ _, List.forall_mem_nil _, Nat.zero_le _⟩
  have hmeets :
      Meets (RedisState.next (leaseTtl leaseTtlMs)) (fun _ => RedisState.AsksAtMost key m) { clock }
        trace := by
    apply meets_iff.mpr
    intro before a after st htrace _
    exact hasks a (htrace ▸ List.mem_append_right before List.mem_cons_self)
  exact (exec_invariant_of_meets (fun st a st' h ha hnext => h.next ha hnext) hmeets hexec
    hstart).live

/-- Three calls for one lease: one is granted, one refused, and one granted after the first lease is
over. -/
def oneAtATime : List RedisAction :=
  [.tryAcquire (clientLease "1") 1, .call 0 .script, .tryAcquire (clientLease "1") 1,
    .call 1 .script, .tick 1000, .tryAcquire (clientLease "1") 1, .call 2 .script, .call 0 .release]

theorem one_at_a_time :
    ((exec (RedisState.next (leaseTtl 1000)) { clock := 0 } oneAtATime).get
      (by decide)).liveLeases
      (leaseTtl 1000) (clientLease "1").redisKey
      ((exec (RedisState.next (leaseTtl 1000)) { clock := 0 } oneAtATime).get
        (by decide)).clock ≤ 1 :=
  redis_leases_within 1000 0 _ 1 (by decide) (Option.some_get _).symm

end Fcam
