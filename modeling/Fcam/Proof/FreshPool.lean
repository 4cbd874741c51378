import Fcam.Proof.Busy

/-!
# Forwards over a pool of fresh keys

A pool of so many unused keys of a client, asked by a forward whose first attempts time out and
whose last one is answered. Such forwards make as many calls as the configuration lets them.
-/

namespace Fcam

/-- A gateway that can decrypt every key. -/
def openForwarder (config : AppConfig) : Forwarder :=
  { config
    security := { Security.plain with decryptApiKey := fun _ _ => some "k" }
    masterKey := some [] }

theorem openForwarder_decrypt (config : AppConfig) (masterKey : Bytes) (key : ApiKey) :
    (openForwarder config).decrypt masterKey key = some "k" := rfl

/-- A key that has not been used today. -/
def freshKey (clientId : Nat) (provider : Provider) : ApiKey :=
  { clientId := some clientId, provider, apiKeyCiphertext := [107], dailyQuota := 1,
    quotaResetAt := some 0 }

/-- A table of so many unused keys. -/
def freshKeys (clientId : Nat) (provider : Provider) : Nat → Table ApiKey
  | 0 => .empty
  | n + 1 => (freshKeys clientId provider n).insert (freshKey clientId provider)

def freshWorld (clientId : Nat) (provider : Provider) (n : Nat) : World :=
  { db := { keys := freshKeys clientId provider n } }

/-- The keys with these ids have not been used. -/
structure FreshIn (clientId : Nat) (provider : Provider) (ids : List Nat) (w : World) : Prop where
  nodup : ids.Nodup
  fresh : ∀ id ∈ ids, w.key? id = some (freshKey clientId provider)

section

variable {clientId : Nat} {provider : Provider}

variable (clientId provider) in
theorem freshIn_freshWorld (n : Nat) :
    ∃ ids : List Nat, ids.length = n ∧
      FreshIn clientId provider ids (freshWorld clientId provider n) := by
  induction n with
  | zero => exact ⟨[], rfl, .nil, fun _ hmem => absurd hmem List.not_mem_nil⟩
  | succ n ih =>
    obtain ⟨ids, hlength, hfresh⟩ := ih
    have hlast :
        (freshWorld clientId provider (n + 1)).key? (freshKeys clientId provider n).nextId =
          some (freshKey clientId provider) := Table.get?_insert_self _ _
    have hnew : (freshKeys clientId provider n).nextId ∉ ids := by
      intro hmem
      have hkey := hfresh.fresh _ hmem
      rw [World.key?, freshWorld, Table.get?_nextId] at hkey
      cases hkey
    refine ⟨(freshKeys clientId provider n).nextId :: ids, by rw [List.length_cons, hlength],
      List.nodup_cons.mpr ⟨hnew, hfresh.nodup⟩, ?_⟩
    intro id hmem
    rcases List.mem_cons.mp hmem with rfl | hold
    · exact hlast
    · have hne : id ≠ (freshKeys clientId provider n).nextId := fun heq => hnew (heq ▸ hold)
      show ((freshKeys clientId provider n).insert _).get? id = _
      rw [Table.get?_insert, if_neg hne]
      exact hfresh.fresh id hold

/-- A scan that meets an eligible key and no failure of the cooldown store ends at a key. -/
theorem scan_found {env : PoolEnv} {rows : List ((Nat × ApiKey) × Nat)}
    (hreads : ∀ id key error, examine env id key ≠ .error error) {id idx : Nat} {key row : ApiKey}
    (hmem : ((id, key), idx) ∈ rows) (heligible : examine env id key = .ok (.eligible, row)) :
    ∃ idx id row, (scan env rows).1 = .selected idx id row := by
  fun_induction scan env rows with
  | case1 => cases hmem
  | case2 other otherKey otherIdx rest error hexamine =>
    exact absurd hexamine (hreads other otherKey error)
  | case3 other otherKey otherIdx rest otherRow hexamine => exact ⟨otherIdx, other, otherRow, rfl⟩
  | case4 other otherKey otherIdx rest verdict otherRow hne hexamine scanEnd examined hrest ih =>
    rw [hrest] at ih
    rcases List.mem_cons.mp hmem with hhead | htail
    · cases hhead
      rw [heligible] at hexamine
      cases hexamine
      exact absurd rfl hne
    · exact ih htail

variable (clientId provider) in
theorem examine_fresh (outcome : Outcome) (id : Nat) :
    examine (Turn.unhindered 0 0 outcome).pool id (freshKey clientId provider) =
      .ok (.eligible, freshKey clientId provider) := rfl

theorem examines_fresh {outcome : Outcome} {id : Nat} {verdict : Verdict} {row : ApiKey}
    (h : Examines (Turn.unhindered 0 0 outcome).pool id (freshKey clientId provider) verdict row) :
    row = freshKey clientId provider := by
  cases h with
  | disabled => rfl
  | cooling remaining henabled hbacks => exact absurd hbacks Bool.false_ne_true
  | quotaExceeded tested henabled htested hquota =>
    obtain ⟨_, rfl⟩ | ⟨hbacks, _⟩ := htested
    · exact absurd hquota (Nat.not_succ_le_zero 0)
    · exact absurd hbacks Bool.false_ne_true
  | eligible tested henabled htested hquota =>
    obtain ⟨_, rfl⟩ | ⟨hbacks, _⟩ := htested
    · rfl
    · exact absurd hbacks Bool.false_ne_true

variable {ids : List Nat} {w : World}

theorem FreshIn.select (h : FreshIn clientId provider ids w) (outcome : Outcome) :
    FreshIn clientId provider ids
      (select (Turn.unhindered 0 0 outcome).pool w (some clientId) provider).world := by
  refine ⟨h.nodup, fun id hmem => ?_⟩
  have hkey := h.fresh id hmem
  obtain ⟨row, hrow, _⟩ :=
    (select_scheduling (Turn.unhindered 0 0 outcome).pool w (some clientId) provider
    id).exists_of_eq_some hkey
  rw [hrow]
  obtain ⟨key, hsame, rfl | ⟨verdict, hexamines⟩⟩ := select_key? hrow
  · exact hsame.symm.trans hkey
  · rw [hkey, Option.some.injEq] at hsame
    subst hsame
    rw [examines_fresh hexamines]

theorem FreshIn.select_ok (h : FreshIn clientId provider ids w) {id : Nat} (hmem : id ∈ ids)
    (outcome : Outcome) :
    ∃ id row, (Fcam.select (Turn.unhindered 0 0 outcome).pool w (some clientId) provider).result =
      .ok (id, row) := by
  have hscope : inScope (some clientId) provider (freshKey clientId provider) = true := by
    simp [inScope, freshKey]
  have hrow :
      (id, freshKey clientId provider) ∈ w.db.keys.select (inScope (some clientId) provider) :=
    Table.mem_select.mpr ⟨h.fresh id hmem, hscope⟩
  obtain ⟨position, hlt, hget⟩ := List.getElem_of_mem hrow
  have hreads : ∀ id key error, examine (Turn.unhindered 0 0 outcome).pool id key ≠ .error error :=
    fun id key error hexamine => by cases examine_error hexamine
  have hposition : ((id, freshKey clientId provider), position) ∈ cyclicFrom
      (w.rrIndexByScope { clientId := some clientId, provider } %
        (w.db.keys.select (inScope (some clientId) provider)).length)
      (w.db.keys.select (inScope (some clientId) provider)) := by
    rw [cyclicFrom, List.mem_rotate, List.mk_mem_zipIdx_iff_getElem?, List.getElem?_eq_getElem hlt,
      hget]
  obtain ⟨idx, found, row, hselected⟩ :=
    scan_found hreads hposition (examine_fresh clientId provider outcome id)
  refine ⟨found, row, ?_⟩
  rw [Fcam.select]
  simp only
  have hactive :
      (w.db.keys.select (inScope (some clientId) provider)).any (fun row => row.2.isActive) =
        true :=
    List.any_eq_true.mpr ⟨_, hrow, rfl⟩
  rw [if_neg (by simp [List.ne_nil_of_mem hrow]), if_neg (by simp [hactive])]
  split
  · next hscan => rw [hscan] at hselected; cases hselected
  · next hscan => rw [hscan] at hselected; cases hselected
  · next hscan =>
    rw [hscan] at hselected
    cases hselected
    rfl

theorem FreshIn.updated {w' : World} {id : Nat} {f : ApiKey → ApiKey}
    (h : FreshIn clientId provider ids w) (hrow : RowUpdated w w' id f) :
    FreshIn clientId provider (ids.erase id) w' := by
  refine ⟨h.nodup.erase id, fun other hmem => ?_⟩
  rw [hrow other, if_neg (List.Nodup.mem_erase_iff h.nodup |>.mp hmem).1]
  exact h.fresh other (List.mem_of_mem_erase hmem)

end

/-- The first attempts of a forward time out and the next one is answered 404. -/
def timeouts (attempts i : Nat) : Turn :=
  Turn.unhindered 0 0 (if i < attempts then .timeout else .response { statusCode := 404 })

section

variable {fwd : Forwarder} {masterKey : Bytes} {baseUrl : String} {req : ForwardRequest}
  {turns : Nat → Turn} {i id : Nat} {row : ApiKey} {p : Progress} {plaintextKey : String}

/-- A pass that times out goes round, unless it was the last attempt. -/
theorem pooledPass_timeout (hturn : turns i = Turn.unhindered 0 0 .timeout)
    (hresult : (select (turns i).pool p.world (some req.clientId) req.provider).result =
      .ok (id, row))
    (hsecret : fwd.decrypt masterKey row = some plaintextKey)
    (hmore : p.upstreamAttempts + 1 < fwd.totalAttempts req.provider) :
    ∃ p', pooledPass fwd masterKey baseUrl req turns i p = .again p' ∧
      p'.upstreamAttempts = p.upstreamAttempts + 1 ∧
      p'.world = recordFailure fwd.config 0 id
        (select (turns i).pool p.world (some req.clientId) req.provider).world ∧
      (exchangesOf p'.events).length = (exchangesOf p.events).length + 1 := by
  have hlast : ¬fwd.totalAttempts req.provider ≤ p.upstreamAttempts + 1 := Nat.not_le.mpr hmore
  rw [pooledPass, hturn]
  rw [hturn] at hresult
  simp only [hresult]
  simp only [Turn.unhindered, hsecret, call, Progress.log, hlast, if_false]
  refine ⟨_, rfl, rfl, rfl, ?_⟩
  simp [exchangesOf, exchanges]

theorem pooledPass_notFound (hturn :
    turns i = Turn.unhindered 0 0 (.response { statusCode := 404 }))
    (hresult : (select (turns i).pool p.world (some req.clientId) req.provider).result =
      .ok (id, row)) (hsecret : fwd.decrypt masterKey row = some plaintextKey) :
    ∃ forwarded, pooledPass fwd masterKey baseUrl req turns i p = .done forwarded ∧
      (∃ result, forwarded.result = .ok result ∧ result.response.statusCode = 404) ∧
      forwarded.world = (select (turns i).pool p.world (some req.clientId) req.provider).world ∧
      (exchangesOf forwarded.events).length = (exchangesOf p.events).length + 1 := by
  rw [pooledPass, hturn]
  rw [hturn] at hresult
  simp only [hresult]
  simp only [Turn.unhindered, hsecret, call, Progress.log]
  refine ⟨_, rfl, ⟨_, rfl, rfl⟩, rfl, ?_⟩
  simp [exchangesOf, exchanges, Progress.respond]

variable {clientId : Nat} {provider : Provider} {ids : List Nat}

variable (fwd masterKey baseUrl req) in
/-- Over a pool with enough fresh keys a loop makes all the attempts of its script. -/
theorem loopWhile_timeouts (hdecrypt : ∀ key, fwd.decrypt masterKey key = some plaintextKey)
    (k i : Nat) (fuel : Nat) (p : Progress) (ids : List Nat) (hattempts : p.upstreamAttempts = i)
    (hfresh : FreshIn req.clientId req.provider ids p.world) (hkeys : k < ids.length)
    (htotal : i + k < fwd.totalAttempts req.provider) (hfuel : k < fuel) :
    ∃ forwarded, loopWhile (fun p => decide (p.upstreamAttempts < fwd.totalAttempts req.provider))
        (pooledPass fwd masterKey baseUrl req (timeouts (i + k))) fuel i p = .done forwarded ∧
      (∃ result, forwarded.result = .ok result ∧ result.response.statusCode = 404) ∧
      (exchangesOf forwarded.events).length = (exchangesOf p.events).length + k + 1 ∧
      ∃ rest : List Nat, ids.length ≤ rest.length + k ∧
        FreshIn req.clientId req.provider rest forwarded.world := by
  induction k generalizing i fuel p ids with
  | zero =>
    obtain ⟨fuel, rfl⟩ : ∃ rest, fuel = rest + 1 := ⟨fuel - 1, by omega⟩
    have hguard : decide (p.upstreamAttempts < fwd.totalAttempts req.provider) = true :=
      decide_eq_true (by omega)
    have hturn : timeouts (i + 0) i = Turn.unhindered 0 0 (.response { statusCode := 404 }) := by
      rw [timeouts, if_neg (by omega)]
    obtain ⟨id, row, hresult⟩ :=
      hfresh.select_ok (List.getElem_mem hkeys) (.response { statusCode := 404 })
    rw [← hturn] at hresult
    obtain ⟨forwarded, hdone, hanswer, hworld, hcalls⟩ :=
      pooledPass_notFound hturn hresult (hdecrypt row)
    rw [loopWhile, if_pos hguard, hdone]
    refine ⟨forwarded, rfl, hanswer, hcalls, ids, Nat.le_refl _, ?_⟩
    rw [hworld, hturn]
    exact hfresh.select _
  | succ k ih =>
    obtain ⟨fuel, rfl⟩ : ∃ rest, fuel = rest + 1 := ⟨fuel - 1, by omega⟩
    have hguard : decide (p.upstreamAttempts < fwd.totalAttempts req.provider) = true :=
      decide_eq_true (by omega)
    have hturn : timeouts (i + (k + 1)) i = Turn.unhindered 0 0 .timeout := by
      rw [timeouts, if_pos (by omega)]
    obtain ⟨id, row, hresult⟩ := hfresh.select_ok (List.getElem_mem hkeys) .timeout
    rw [← hturn] at hresult
    obtain ⟨p', hagain, hnext, hworld, hcalls⟩ :=
      pooledPass_timeout hturn hresult (hdecrypt row) (by omega)
    have hfresh' : FreshIn req.clientId req.provider (ids.erase id) p'.world := by
      rw [hworld, hturn]
      exact (hfresh.select _).updated (recordFailure_row fwd.config 0 id _)
    have herase : ids.length ≤ (ids.erase id).length + 1 := by
      rw [List.length_erase]
      split <;> omega
    rw [loopWhile, if_pos hguard, hagain, show i + (k + 1) = i + 1 + k by omega]
    obtain ⟨forwarded, hdone, hanswer, hmore, rest, hrest, hlast⟩ :=
      ih (i + 1) fuel p' (ids.erase id) (by omega) hfresh' (by omega) (by omega) (by omega)
    exact ⟨forwarded, hdone, hanswer, by omega, rest, by omega, hlast⟩

end

/-- A forward over a pool with enough fresh keys makes all the attempts of its script, and leaves
the other keys fresh. -/
theorem forward_timeouts (fwd : Forwarder) {masterKey : Bytes} {baseUrl : String}
    {req : ForwardRequest} {w : World} {ids : List Nat} {plaintextKey : String}
    (hmaster : fwd.masterKey = some masterKey)
    (hbase : fwd.providerBaseUrl req.provider = .ok baseUrl)
    (hdecrypt : ∀ key, fwd.decrypt masterKey key = some plaintextKey)
    (hpin : req.pinnedApiKeyId = none) (hfresh : FreshIn req.clientId req.provider ids w) {k : Nat}
    (hkeys : k < ids.length) (htotal : k < fwd.totalAttempts req.provider) :
    (∃ result, (forward fwd (timeouts k) req w).result = .ok result ∧
      result.response.statusCode = 404) ∧
      (exchangesOf (forward fwd (timeouts k) req w).events).length = k + 1 ∧
      ∃ rest : List Nat, ids.length ≤ rest.length + k ∧
        FreshIn req.clientId req.provider rest (forward fwd (timeouts k) req w).world := by
  have hfuel : k < maxSelectionTries (fwd.totalAttempts req.provider) := by
    rw [maxSelectionTries]
    omega
  obtain ⟨forwarded, hdone, hanswer, hcalls, hrest⟩ :=
    loopWhile_timeouts fwd masterKey baseUrl req hdecrypt k 0
    (maxSelectionTries (fwd.totalAttempts req.provider)) { world := w } ids rfl hfresh hkeys
      (by omega) hfuel
  rw [Nat.zero_add] at hdone
  have hforward : forward fwd (timeouts k) req w = forwarded := by
    rw [forward, hmaster]
    simp only [hbase, hpin, Option.bind_none, forwardPooled, hdone]
  have hnone : (exchangesOf ({ world := w } : Progress).events).length = 0 := rfl
  rw [hforward]
  exact ⟨hanswer, by omega, hrest⟩

end Fcam
