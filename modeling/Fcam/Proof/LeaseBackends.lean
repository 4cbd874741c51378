import Fcam.Base.Unique
import Fcam.Model.LeaseBackends
import Fcam.Proof.RedisLeases

/-!
# Both managers of leases answer alike

The Redis manager forgets a lease once it is as old as its lifetime; the one in memory does not. As
long as no lease gets so old, both count the leases that were granted and not released (`Related`),
so they grant, refuse and count alike. The name of a row's leases is known by its id, which the text
of the key keeps.
-/

namespace Fcam

open ScoredSet

/-! ### The names of rows -/

theorem toDigits_injective {m n : Nat} (h : Nat.toDigits 10 m = Nat.toDigits 10 n) : m = n := by
  have hdigit : ∀ a < 10, ∀ b < 10, Nat.digitChar a = Nat.digitChar b → a = b := by decide
  have hlong : ∀ k, 10 ≤ k → 1 < (Nat.toDigits 10 k).length := by
    intro k hk
    rw [Nat.toDigits_of_base_le (by omega) hk, List.length_append, List.length_singleton]
    have hpos := List.length_pos_iff.mpr (@Nat.toDigits_ne_nil (k / 10) 10)
    omega
  have hshort : ∀ k, k < 10 → (Nat.toDigits 10 k).length = 1 := by
    intro k hk
    rw [Nat.toDigits_of_lt_base hk, List.length_singleton]
  induction m using Nat.strongRecOn generalizing n with
  | ind m ih =>
    have hlength := congrArg List.length h
    by_cases hm : m < 10
    · have hn : n < 10 := by
        by_contra hn
        have hm' := hshort m hm
        have hn' := hlong n (by omega)
        omega
      rw [Nat.toDigits_of_lt_base hm, Nat.toDigits_of_lt_base hn, List.cons.injEq] at h
      exact hdigit m hm n hn h.1
    · have hn : ¬n < 10 := by
        intro hn
        have hn' := hshort n hn
        have hm' := hlong m (by omega)
        omega
      have hm' := @Nat.toDigits_of_base_le 10 m (by omega) (by omega)
      have hn' := @Nat.toDigits_of_base_le 10 n (by omega) (by omega)
      rw [hm', hn'] at h
      obtain ⟨hinit, hlast⟩ := List.append_inj' h rfl
      have hdiv := ih (m / 10) (by omega) hinit
      have hmod := hdigit (m % 10) (by omega) (n % 10) (by omega) (List.cons.inj hlast).1
      omega

theorem stripColons_of_not_mem {text : PyStr} (h : 58 ∉ text) : stripColons text = text := by
  have hkept : ∀ text : PyStr, 58 ∉ text → text.dropWhile (fun c => c = 58) = text := by
    intro text h
    cases text with
    | nil => rfl
    | cons c rest =>
      have hne : c ≠ 58 := fun heq => h (heq ▸ List.mem_cons_self)
      rw [List.dropWhile_cons_of_neg (by simpa using hne)]
  rw [stripColons, hkept text h, hkept text.reverse (fun hmem => h (List.mem_reverse.mp hmem)),
    List.reverse_reverse]

theorem decimal_digits (n : Nat) : ∀ c ∈ decimal n, 48 ≤ c ∧ c ≤ 57 := by
  intro c hc
  obtain ⟨d, hd, rfl⟩ := List.mem_map.mp hc
  have hdigit := Nat.isDigit_of_mem_toDigits (by omega) (by omega) hd
  simp only [Char.isDigit, Bool.and_eq_true, decide_eq_true_eq] at hdigit
  exact ⟨UInt32.le_iff_toNat_le.mp hdigit.1, UInt32.le_iff_toNat_le.mp hdigit.2⟩

theorem leaseName_redisKey_injective {keyPrefix scope : PyStr} {id other : Nat}
    (h : (leaseName keyPrefix scope id).redisKey = (leaseName keyPrefix scope other).redisKey) :
    id = other := by
  have hkey : ∀ n, stripColons (decimal n) = decimal n := by
    intro n
    apply stripColons_of_not_mem
    intro hmem
    have hdigit := decimal_digits n 58 hmem
    omega
  have hnonempty : ∀ n, decimal n ≠ [] := by
    intro n hnil
    exact Nat.toDigits_ne_nil (List.map_eq_nil_iff.mp hnil)
  simp only [LeaseName.redisKey, leaseName, hkey, if_neg (hnonempty _)] at h
  have hdecimal : decimal id = decimal other := List.append_cancel_left h
  apply toDigits_injective
  exact List.map_injective_iff.mpr (fun a b => Char.toNat_inj.mp) hdecimal

/-! ### Related states -/

section

variable {ttl : Int} {keyPrefix scope : PyStr} {b b' : LeaseBackends} {calls : List AcquireCall}

/-- The call has a lease under a Redis key that is not released. -/
def AcquireCall.holds (key : PyStr) (call : AcquireCall) : Bool :=
  call.phase == .granted false && call.name.redisKey == key

/-- What a request was answered with in memory and in Redis. -/
inductive Paired (keyPrefix scope : PyStr) (calls : List AcquireCall) : Option Lease → Option Nat →
    Prop where
  | unlimited (released : Bool) :
      Paired keyPrefix scope calls (some { releases := none, released }) none
  | held {id token : Nat} {call : AcquireCall} {released : Bool} (hget : calls[token]? = some call)
      (hphase : call.phase = .granted released) (hname : call.name = leaseName keyPrefix scope id) :
    Paired keyPrefix scope calls (some { releases := some id, released }) (some token)
  | refused {token : Nat} {call : AcquireCall} (hget : calls[token]? = some call)
      (hphase : call.phase = .refused) :
    Paired keyPrefix scope calls none (some token)

theorem Paired.append {lease : Option Lease} {token : Option Nat}
    (h : Paired keyPrefix scope calls lease token) (more : List AcquireCall) :
    Paired keyPrefix scope (calls ++ more) lease token := by
  have hsame : ∀ {token : Nat} {call : AcquireCall}, calls[token]? = some call →
      (calls ++ more)[token]? = some call := by
    intro token call hget
    rw [List.getElem?_append_left (List.getElem?_eq_some_iff.mp hget).1, hget]
  cases h with
  | unlimited released => exact .unlimited released
  | held hget hphase hname => exact .held (hsame hget) hphase hname
  | refused hget hphase => exact .refused (hsame hget) hphase

theorem Paired.set {lease : Option Lease} {token : Option Nat}
    (h : Paired keyPrefix scope calls lease token) {other : Nat} (hne : token ≠ some other)
    (call : AcquireCall) : Paired keyPrefix scope (calls.set other call) lease token := by
  cases h with
  | unlimited released => exact .unlimited released
  | held hget hphase hname =>
    refine .held ?_ hphase hname
    rw [List.getElem?_set_ne (fun heq => hne (congrArg some heq.symm))]
    exact hget
  | refused hget hphase =>
    refine .refused ?_ hphase
    rw [List.getElem?_set_ne (fun heq => hne (congrArg some heq.symm))]
    exact hget

/-- Both managers have answered alike, and count the same leases. -/
structure Related (ttl : Int) (keyPrefix scope : PyStr) (b : LeaseBackends) : Prop where
  sound : b.redis.redis.Sound ttl
  paired : ∀ i : Nat, Option.Rel (Paired keyPrefix scope b.redis.redis.calls) (b.memory.leases[i]?)
    (b.redis.tokens[i]?)
  distinct : ∀ i j token : Nat, b.redis.tokens[i]? = some (some token) →
    b.redis.tokens[j]? = some (some token) → i = j
  count : ∀ id, b.memory.manager.current id =
    b.redis.redis.calls.countP (AcquireCall.holds (leaseName keyPrefix scope id).redisKey)

theorem LeaseBackends.Fresh.live_eq (h : b.Fresh ttl) (key : PyStr) :
    b.redis.redis.liveLeases ttl key b.redis.redis.clock =
      b.redis.redis.calls.countP (AcquireCall.holds key) := by
  apply List.countP_congr
  intro call hcall
  simp only [AcquireCall.live, AcquireCall.holds, Bool.and_eq_true, beq_iff_eq, decide_eq_true_eq]
  constructor
  · exact fun hlive => hlive.1
  · exact fun hholds => ⟨hholds, h call hcall hholds.1⟩

/-! ### A lease is asked for -/

theorem ConcurrencyManager.tryAcquire_isSome {m : ConcurrencyManager} {id maximum : Nat}
    (hpos : 0 < maximum) :
    (m.tryAcquire id maximum).1.isSome = decide (m.current id < maximum) := by
  have hcurrent : ((m.states id).getD {}).current = m.current id := by
    rw [ConcurrencyManager.current]
    cases m.states id with
    | none => rfl
    | some state => rfl
  have hne : maximum ≠ 0 := by omega
  simp only [ConcurrencyManager.tryAcquire, if_neg hne, hcurrent]
  split
  · next hfull =>
    have hno : ¬m.current id < maximum := by omega
    rw [decide_eq_false hno]
    rfl
  · next hroom =>
    have hyes : m.current id < maximum := by omega
    rw [decide_eq_true hyes]
    rfl

/-- A call that begins and sends its script is granted a lease below its maximum, and refused one
otherwise. -/
theorem RedisState.Sound.tryAcquire_script {st mid st' : RedisState} {name : LeaseName}
    {maximum : Int} (h : st.Sound ttl) (hpos : 0 < maximum)
    (hbegin : st.next ttl (.tryAcquire name maximum) = some mid)
    (hcall : mid.next ttl (.call st.calls.length .script) = some st') :
    ∃ phase, st'.calls = st.calls ++ [{ name, maximum, readAt := st.clock, phase }] ∧
      (phase = .granted false ∧ (st.liveLeases ttl name.redisKey st.clock : Int) < maximum ∨
        phase = .refused ∧ maximum ≤ st.liveLeases ttl name.redisKey st.clock) := by
  have hmid := h.next hbegin
  simp only [RedisState.next, if_neg (Int.not_le.mpr hpos), Option.some.injEq] at hbegin
  obtain ⟨call, phase, set, hget, hstep, rfl⟩ := RedisState.next_call hcall
  have hexact := hmid.call_exact hget hstep
  obtain ⟨htakes, -⟩ := hmid.effect hget hstep
  subst hbegin
  obtain rfl := Option.some.inj (List.getElem?_concat_length.symm.trans hget)
  have hlive :
      ∀ key at', ({ st with calls := st.calls ++ [{ name, maximum, readAt := st.clock }] } :
        RedisState).liveLeases ttl key at' = st.liveLeases ttl key at' := by
    intro key at'
    rw [RedisState.liveLeases, List.countP_append]
    rfl
  have hgranted := hexact.granted
  have hrefused := hexact.refused
  simp only [hlive] at hgranted hrefused
  refine ⟨phase, ?_, ?_⟩
  · show List.set (st.calls ++ [_]) st.calls.length _ = _
    rw [List.set_append_right _ _ (Nat.le_refl _), Nat.sub_self, List.set_cons_zero]
  · cases htakes with
    | full hphase hfull => exact .inr ⟨rfl, hrefused rfl trivial⟩
    | grant hphase hroom => exact .inl ⟨rfl, hgranted rfl⟩

variable {request : LeaseRequest}

theorem Paired.token_lt {lease : Option Lease} {token : Nat}
    (h : Paired keyPrefix scope calls lease (some token)) :
    token < calls.length := by
  cases h with
  | held hget _ _ => exact (List.getElem?_eq_some_iff.mp hget).1
  | refused hget _ => exact (List.getElem?_eq_some_iff.mp hget).1

theorem Related.token_lt (h : Related ttl keyPrefix scope b) {i token : Nat}
    (hget : b.redis.tokens[i]? = some (some token)) :
    token < b.redis.redis.calls.length := by
  obtain ⟨lease, -, hpaired⟩ := (h.paired i).exists_of_some_right hget
  exact hpaired.token_lt

/-- An answer that is kept on both sides keeps them related. -/
theorem Related.concat (h : Related ttl keyPrefix scope b) {redis : RedisState}
    {manager : ConcurrencyManager} {more : List AcquireCall} {lease : Option Lease}
    {token : Option Nat} (hsound : redis.Sound ttl)
    (hcalls : redis.calls = b.redis.redis.calls ++ more)
    (hpaired : Paired keyPrefix scope redis.calls lease token)
    (hfresh : ∀ t ∈ token, b.redis.redis.calls.length ≤ t)
    (hcount : ∀ id, manager.current id =
      redis.calls.countP (AcquireCall.holds (leaseName keyPrefix scope id).redisKey)) :
    Related ttl keyPrefix scope
      { memory := { manager, leases := b.memory.leases ++ [lease] }
        redis := { redis, tokens := b.redis.tokens ++ [token] } } where
  sound := hsound
  paired := by
    apply Option.Rel.getElem?_concat _ hpaired
    intro i
    rw [hcalls]
    have hrel := h.paired i
    generalize b.memory.leases[i]? = a at hrel ⊢
    generalize b.redis.tokens[i]? = c at hrel ⊢
    cases hrel with
    | none => exact .none
    | some hpaired => exact .some (hpaired.append more)
  distinct := by
    have hold : ∀ i t : Nat, (b.redis.tokens ++ [token])[i]? = some (some t) →
        b.redis.tokens[i]? = some (some t) ∧ t < b.redis.redis.calls.length ∨
          i = b.redis.tokens.length ∧ b.redis.redis.calls.length ≤ t := by
      intro i t hget
      rw [List.getElem?_append] at hget
      split at hget
      · exact .inl ⟨hget, h.token_lt hget⟩
      · obtain ⟨hlt, heq⟩ := List.getElem?_eq_some_iff.mp hget
        rw [List.length_singleton] at hlt
        rw [List.getElem_singleton] at heq
        exact .inr ⟨by omega, hfresh t heq⟩
    intro i j t hi hj
    obtain ⟨hi, hlt⟩ | ⟨rfl, hle⟩ := hold i t hi
    · obtain ⟨hj, -⟩ | ⟨rfl, hle⟩ := hold j t hj
      · exact h.distinct i j t hi hj
      · omega
    · obtain ⟨-, hlt⟩ | ⟨rfl, -⟩ := hold j t hj
      · omega
      · rfl
  count := hcount

theorem Related.tryAcquire (h : Related ttl keyPrefix scope b) (hfresh : b.Fresh ttl) {id : Nat}
    {maximum : Int} (hnext : b.next ttl keyPrefix scope (.tryAcquire id maximum) = some b') :
    Related ttl keyPrefix scope b' ∧ b.Agree ttl keyPrefix scope (.tryAcquire id maximum) := by
  obtain ⟨⟨answer, redis⟩, hserve, rfl⟩ := Option.map_eq_some_iff.mp hnext
  simp only [LeaseBackends.Agree, hserve, Option.map_some, Option.some.injEq]
  by_cases hpos : maximum ≤ 0
  · simp only [RedisLeases.serve, if_pos hpos, Option.some.injEq, Prod.mk.injEq] at hserve
    obtain ⟨rfl, rfl⟩ := hserve
    have hzero : maximum.toNat = 0 := by omega
    simp only [MemoryLeases.serve, ConcurrencyManager.tryAcquire, hzero, if_true]
    refine ⟨?_, rfl⟩
    have hsame : b.redis.redis.calls = b.redis.redis.calls ++ [] := (List.append_nil _).symm
    apply h.concat h.sound hsame (.unlimited false) _ h.count
    intro t ht
    cases ht
  · simp only [RedisLeases.serve, if_neg hpos] at hserve
    obtain ⟨mid, hbegin, hserve⟩ := Option.bind_eq_some_iff.mp hserve
    obtain ⟨st', hcall, heq⟩ := Option.map_eq_some_iff.mp hserve
    cases heq
    obtain ⟨phase, hcalls, hphase⟩ := h.sound.tryAcquire_script (by omega) hbegin hcall
    have hsound := (h.sound.next hbegin).next hcall
    have hget : st'.calls[b.redis.redis.calls.length]? = _ := hcalls ▸ List.getElem?_concat_length
    rw [hfresh.live_eq, ← h.count] at hphase
    have hsome : (b.memory.manager.tryAcquire id maximum.toNat).1.isSome =
        decide (b.memory.manager.current id < maximum.toNat) :=
          ConcurrencyManager.tryAcquire_isSome (by omega)
    have hlive :
        ∀ key, st'.calls.countP (AcquireCall.holds key) =
          b.redis.redis.calls.countP (AcquireCall.holds key) +
        if phase = .granted false ∧ (leaseName keyPrefix scope id).redisKey = key then 1
        else 0 := by
      intro key
      rw [hcalls, List.countP_append, List.countP_singleton]
      simp only [AcquireCall.holds, Bool.and_eq_true, beq_iff_eq]
    simp only [MemoryLeases.serve]
    cases hmemory : b.memory.manager.tryAcquire id maximum.toNat with
    | mk lease manager =>
    rw [hmemory] at hsome
    have hlater : ∀ t ∈ some b.redis.redis.calls.length, b.redis.redis.calls.length ≤ t := by
      intro t ht
      exact Nat.le_of_eq (Option.some.inj ht)
    obtain ⟨rfl, hroom⟩ | ⟨rfl, hfull⟩ := hphase
    · have hyes : b.memory.manager.current id < maximum.toNat := by omega
      rw [decide_eq_true hyes] at hsome
      obtain ⟨lease, rfl⟩ := Option.isSome_iff_exists.mp hsome
      obtain ⟨hreleased, hcount, hlease⟩ := ConcurrencyManager.tryAcquire_granted hmemory
      have hreleases := (hlease (by omega)).1
      refine ⟨?_, ?_⟩
      · apply h.concat hsound hcalls _ hlater
        · intro other
          rw [hcount, hlive, h.count]
          have hsame :
              (leaseName keyPrefix scope id).redisKey = (leaseName keyPrefix scope other).redisKey ↔
                id = other :=
            ⟨leaseName_redisKey_injective, fun heq => heq ▸ rfl⟩
          simp only [Lease.weight, hreleased, hreleases, Option.some.injEq, hsame, true_and,
            and_true]
        · obtain rfl : lease = { releases := some id, released := false } := by
            rw [← hreleases, ← hreleased]
          exact .held hget rfl rfl
      · simp [hget]
    · have hno : ¬b.memory.manager.current id < maximum.toNat := by omega
      rw [decide_eq_false hno] at hsome
      obtain rfl : lease = none :=
        Option.isNone_iff_eq_none.mp (Option.isSome_eq_false_iff.mp hsome)
      refine ⟨?_, ?_⟩
      · apply h.concat hsound hcalls (.refused hget rfl) hlater
        intro other
        rw [ConcurrencyManager.tryAcquire_refused hmemory, hlive, h.count]
        simp
      · simp [hget]

/-! ### A lease is released -/

theorem Related.release_held (h : Related ttl keyPrefix scope b) {i id token : Nat}
    {call : AcquireCall} {released : Bool} {redis : RedisState}
    (hlease : b.memory.leases[i]? = some (some { releases := some id, released }))
    (htoken : b.redis.tokens[i]? = some (some token))
    (hget : b.redis.redis.calls[token]? = some call) (hphase : call.phase = .granted released)
    (hname : call.name = leaseName keyPrefix scope id)
    (hcall : b.redis.redis.next ttl (.call token .release) = some redis) :
    Related ttl keyPrefix scope
      { memory := (b.memory.serve (.release i)).2, redis := { b.redis with redis } } := by
  have hsound := h.sound.next hcall
  obtain ⟨call', phase, set, hget', hstep, rfl⟩ := RedisState.next_call hcall
  obtain rfl := Option.some.inj (hget.symm.trans hget')
  obtain ⟨htakes, -⟩ := h.sound.effect hget hstep
  obtain rfl : phase = .granted true := by
    cases htakes with
    | release _ => rfl
    | again _ => rfl
  have hweight : ∀ other, Lease.weight other { releases := some id, released } =
      if AcquireCall.holds (leaseName keyPrefix scope other).redisKey call then 1 else 0 := by
    intro other
    have hsame :
        (leaseName keyPrefix scope id).redisKey = (leaseName keyPrefix scope other).redisKey ↔
          id = other :=
      ⟨leaseName_redisKey_injective, fun heq => heq ▸ rfl⟩
    simp only [Lease.weight, AcquireCall.holds, hphase, hname, Option.some.injEq,
      CallPhase.granted.injEq, Bool.and_eq_true, beq_iff_eq, hsame, and_comm]
  obtain ⟨hlt, hcall'⟩ := List.getElem?_eq_some_iff.mp hget
  have hout :
      ∀ other, Lease.weight other { releases := some id, released } ≤
        b.memory.manager.current other := by
    intro other
    rw [hweight, h.count]
    split
    · next hholds =>
      exact List.countP_pos_iff.mpr ⟨call, List.mem_of_getElem? hget, hholds⟩
    · exact Nat.zero_le _
  have hreleased :
      (b.memory.manager.release { releases := some id, released }).1 =
        { releases := some id, released := true } := by
    cases released with
    | true => rfl
    | false => rfl
  simp only [MemoryLeases.serve, hlease, hreleased]
  refine ⟨hsound, fun j => ?_, h.distinct, fun other => ?_⟩
  · by_cases hj : j = i
    · subst hj
      have hj := (List.getElem?_eq_some_iff.mp hlease).1
      rw [List.getElem?_set_self hj, htoken]
      exact .some (.held (List.getElem?_set_self hlt) rfl hname)
    · rw [List.getElem?_set_ne (Ne.symm hj)]
      have hrel := h.paired j
      have hother : b.redis.tokens[j]? ≠ some (some token) :=
        fun heq => hj (h.distinct j i token heq htoken)
      generalize b.memory.leases[j]? = lease at hrel ⊢
      generalize b.redis.tokens[j]? = token' at hrel hother ⊢
      cases hrel with
      | none => exact .none
      | some hpaired => exact .some (hpaired.set (fun heq => hother (congrArg some heq)) _)
  · have hcount := ConcurrencyManager.release_current hout other
    have hset := List.countP_set (p := AcquireCall.holds (leaseName keyPrefix scope other).redisKey)
      (a := { call with phase := .granted true }) hlt
    have hgone :
        AcquireCall.holds (leaseName keyPrefix scope other).redisKey
          { call with phase := .granted true } = false :=
      rfl
    rw [hcall', hgone] at hset
    rw [hweight, h.count] at hcount
    show _ = List.countP _ (List.set b.redis.redis.calls token _)
    rw [hset]
    simp only [Bool.false_eq_true, if_false]
    omega

theorem Related.release (h : Related ttl keyPrefix scope b) {i : Nat}
    (hnext : b.next ttl keyPrefix scope (.release i) = some b') :
    Related ttl keyPrefix scope b' ∧ b.Agree ttl keyPrefix scope (.release i) := by
  obtain ⟨⟨answer, redis⟩, hserve, rfl⟩ := Option.map_eq_some_iff.mp hnext
  have hanswered : (b.memory.serve (.release i)).1 = .done := by
    simp only [MemoryLeases.serve]
    split
    · rfl
    · rfl
  simp only [LeaseBackends.Agree, hserve, hanswered, Option.map_some, Option.some.injEq]
  simp only [RedisLeases.serve] at hserve
  have hrel := h.paired i
  cases htoken : b.redis.tokens[i]? with
  | none =>
    have hlease := hrel.none_iff.mpr htoken
    rw [htoken] at hserve
    cases hserve
    simp only [MemoryLeases.serve, hlease]
    exact ⟨h, trivial⟩
  | some token =>
    obtain ⟨lease, hlease, hpaired⟩ := hrel.exists_of_some_right htoken
    rw [htoken] at hserve
    cases hpaired with
    | unlimited released =>
      cases hserve
      have hreleased : b.memory.manager.release { releases := none, released } =
          ({ releases := none, released := true }, b.memory.manager) := by
        cases released with
        | true => rfl
        | false => rfl
      simp only [MemoryLeases.serve, hlease, hreleased]
      refine ⟨⟨h.sound, fun j => ?_, h.distinct, h.count⟩, trivial⟩
      by_cases hj : j = i
      · subst hj
        have hlt := (List.getElem?_eq_some_iff.mp hlease).1
        rw [List.getElem?_set_self hlt, htoken]
        exact .some (.unlimited true)
      · rw [List.getElem?_set_ne (Ne.symm hj)]
        exact h.paired j
    | refused hget hphase =>
      simp only [hget, Option.any_some, hphase, beq_self_eq_true, if_true, Option.some.injEq,
        Prod.mk.injEq] at hserve
      obtain ⟨rfl, rfl⟩ := hserve
      simp only [MemoryLeases.serve, hlease]
      exact ⟨h, trivial⟩
    | @held id token call released hget hphase hname =>
      have hout : (CallPhase.granted released == CallPhase.refused) = false := rfl
      simp only [hget, Option.any_some, hphase, hout, Bool.false_eq_true, if_false] at hserve
      obtain ⟨st', hcall, heq⟩ := Option.map_eq_some_iff.mp hserve
      cases heq
      exact ⟨h.release_held hlease htoken hget hphase hname hcall, rfl⟩

/-! ### Leases are counted, and every run -/

theorem Related.next (h : Related ttl keyPrefix scope b) (hfresh : b.Fresh ttl)
    (hnext : b.next ttl keyPrefix scope request = some b') :
    Related ttl keyPrefix scope b' ∧ b.Agree ttl keyPrefix scope request := by
  cases request with
  | tick elapsed =>
    cases hnext
    exact ⟨⟨h.sound.next (a := .tick elapsed) rfl, h.paired, h.distinct, h.count⟩, rfl⟩
  | expire key noticed =>
    cases hnext
    refine ⟨?_, rfl⟩
    cases hexpire : b.redis.redis.next ttl (.expire key noticed) with
    | none => exact h
    | some redis =>
      have hsound := h.sound.next hexpire
      simp only [RedisState.next] at hexpire
      split at hexpire
      · cases hexpire
        exact ⟨hsound, h.paired, h.distinct, h.count⟩
      · cases hexpire
  | tryAcquire id maximum => exact h.tryAcquire hfresh hnext
  | release i => exact h.release hnext
  | current id =>
    obtain ⟨⟨answer, redis⟩, hserve, rfl⟩ := Option.map_eq_some_iff.mp hnext
    simp only [LeaseBackends.Agree, hserve, Option.map_some, Option.some.injEq]
    obtain ⟨st', hcurrent, heq⟩ := Option.map_eq_some_iff.mp hserve
    cases heq
    have hsound := h.sound.next hcurrent
    simp only [RedisState.next, Int.le_refl, if_true, Option.some.injEq] at hcurrent
    subst hcurrent
    refine ⟨⟨hsound, h.paired, h.distinct, h.count⟩, ?_⟩
    -- the eviction leaves the leases that are young, which are all that are out
    have hle :
        b.redis.redis.liveLeases ttl (leaseName keyPrefix scope id).redisKey b.redis.redis.clock ≤
          _ :=
      h.sound.live_le fun member hmember hyoung => mem_zremrangebyscore.mpr ⟨hmember, hyoung⟩
    have hge :
        _ ≤ b.redis.redis.liveLeases ttl (leaseName keyPrefix scope id).redisKey
            b.redis.redis.clock :=
      h.sound.le_live fun member hmember => mem_zremrangebyscore.mp hmember
    rw [hfresh.live_eq, ← h.count] at hle hge
    simp only [MemoryLeases.serve, Function.update_self]
    exact congrArg LeaseAnswer.count (Nat.le_antisymm hge hle)

theorem Related.progress (h : Related ttl keyPrefix scope b) (request : LeaseRequest) :
    ∃ b', b.next ttl keyPrefix scope request = some b' := by
  have hserved : (b.redis.serve ttl keyPrefix scope request).isSome := by
    cases request with
    | tick | expire => rfl
    | tryAcquire id maximum =>
      simp only [RedisLeases.serve]
      split
      · rfl
      · next hpos =>
        simp only [RedisState.next, if_neg hpos, Option.bind_some, List.getElem?_concat_length,
          AcquireCall.step, if_true]
        split
        · rfl
        · rfl
    | release i =>
      simp only [RedisLeases.serve]
      split
      · next token htoken =>
        obtain ⟨lease, -, hpaired⟩ := (h.paired i).exists_of_some_right htoken
        cases hpaired with
        | held hget hphase hname =>
          split
          · rfl
          · simp only [RedisState.next, hget, Option.bind_some, AcquireCall.step, hphase]
            rfl
        | refused hget hphase =>
          simp only [hget, Option.any_some, hphase, beq_self_eq_true, if_true, Option.isSome_some]
      · rfl
    | current id =>
      simp only [RedisLeases.serve, RedisState.next, Int.le_refl, if_true]
      rfl
  obtain ⟨served, hserve⟩ := Option.isSome_iff_exists.mp hserved
  exact ⟨_, Option.map_eq_some_iff.mpr ⟨served, hserve, rfl⟩⟩

theorem related_start (ttl clock : Int) (keyPrefix scope : PyStr) :
    Related ttl keyPrefix scope { redis := { redis := { clock } } } where
  sound := RedisState.sound_start ttl clock
  paired _ := .none
  distinct i j token hi := by cases hi
  count _ := rfl

end

/-- In every run in which no lease gets as old as its lifetime, both managers serve every request,
and answer it alike. -/
theorem lease_backends_agree (leaseTtlMs clock : Int) (keyPrefix scope : PyStr)
    {trace : List LeaseRequest}
    (hfresh : Meets (LeaseBackends.next (leaseTtl leaseTtlMs) keyPrefix scope)
      (fun b _ => b.Fresh (leaseTtl leaseTtlMs)) { redis := { redis := { clock } } } trace) :
    (∃ last, exec (LeaseBackends.next (leaseTtl leaseTtlMs) keyPrefix scope)
     { redis := { redis := { clock } } } trace =
      some last) ∧
      Meets (LeaseBackends.next (leaseTtl leaseTtlMs) keyPrefix scope)
        (LeaseBackends.Agree (leaseTtl leaseTtlMs) keyPrefix scope)
          { redis := { redis := { clock } } } trace := by
  have hstart := related_start (leaseTtl leaseTtlMs) clock keyPrefix scope
  have hstep : ∀ (b : LeaseBackends) request b', Related (leaseTtl leaseTtlMs) keyPrefix scope b →
      b.Fresh (leaseTtl leaseTtlMs) →
        b.next (leaseTtl leaseTtlMs) keyPrefix scope request = some b' →
      Related (leaseTtl leaseTtlMs) keyPrefix scope b' ∧
        b.Agree (leaseTtl leaseTtlMs) keyPrefix scope request :=
    fun b request b' h hyoung hnext => h.next hyoung hnext
  obtain ⟨last, hexec⟩ :=
    exec_progress (fun b request b' h hyoung hnext => (hstep b request b' h hyoung hnext).1)
    (fun b request h _ => h.progress request) hfresh hstart
  exact ⟨⟨last, hexec⟩, meets_of_invariant hstep hfresh hexec hstart⟩

/-- Two leases are taken, a third is refused, and one is free again after a release that is made
twice. -/
def sharedLeases : List LeaseRequest :=
  [.tryAcquire 1 2, .tick 300, .tryAcquire 1 2, .tryAcquire 1 2, .tryAcquire 11 0, .release 0,
    .release 0, .release 2, .current 1, .tick 600,
    .expire (leaseName (PyStr.ofString "fcam") (PyStr.ofString "client") 1).redisKey true,
    .tryAcquire 1 2, .current 11]

theorem shared_leases_agree :
    (∃ last, exec
      (LeaseBackends.next (leaseTtl 1000) (PyStr.ofString "fcam") (PyStr.ofString "client"))
      { redis := { redis := { clock := 0 } } } sharedLeases = some last) ∧
      Meets (LeaseBackends.next (leaseTtl 1000) (PyStr.ofString "fcam") (PyStr.ofString "client"))
        (LeaseBackends.Agree (leaseTtl 1000) (PyStr.ofString "fcam") (PyStr.ofString "client"))
        { redis := { redis := { clock := 0 } } } sharedLeases :=
  lease_backends_agree 1000 0 _ _ (by decide)

end Fcam
