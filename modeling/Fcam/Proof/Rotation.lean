import Fcam.Base.RoundRobin
import Fcam.Proof.Passes
import Fcam.Proof.Tenant

/-!
# The order in which a forward goes through its keys

The keys of a scope, from the round-robin position on, are looked at in an order that a selection
turns by `nextOrder`: behind the selected key, with the selected key last. `PooledStep` says what a
pass over the pool that goes round does to the order and to the rows, and so which key the passes of
a forward come to.
-/

namespace Fcam

/-- The ids of a scope's keys. -/
def keyIds (w : World) (clientId : Option Nat) (provider : Provider) : List Nat :=
  (w.db.keys.select (inScope clientId provider)).map Prod.fst

/-- The ids of a scope's keys, in the order the next selection looks at them. -/
def keyOrder (w : World) (clientId : Option Nat) (provider : Provider) : List Nat :=
  (keyIds w clientId provider).rotate (w.rrIndexByScope { clientId, provider })

section Select

variable {env : PoolEnv} {w : World} {clientId : Option Nat} {provider : Provider} {id : Nat}
  {row : ApiKey}

theorem keyOrder_nodup (w : World) (clientId : Option Nat) (provider : Provider) :
    (keyOrder w clientId provider).Nodup :=
  List.nodup_rotate.mpr (select_ids_nodup w.db.keys (inScope clientId provider))

theorem mem_keyOrder {w : World} {clientId : Option Nat} {provider : Provider} {id : Nat} :
    id ∈ keyOrder w clientId provider ↔
      ∃ key, w.key? id = some key ∧ inScope clientId provider key = true :=
  List.mem_rotate.trans Table.mem_ids_select

/-- A selection turns the order behind the key it returns. -/
theorem select_order (h : (select env w clientId provider).result = .ok (id, row)) :
    ∃ passed rest key, keyOrder w clientId provider = passed ++ id :: rest ∧
      (keyIds w clientId provider).rotate
        ((select env w clientId provider).world.rrIndexByScope { clientId, provider }) =
        nextOrder passed id rest ∧
      w.key? id = some key ∧ examine env id key = .ok (.eligible, row) ∧
      (select env w clientId provider).examined.map Examined.id = passed ++ [id] ∧
      ∀ other ∈ passed, ∃ before verdict after, w.key? other = some before ∧
        examine env other before = .ok (verdict, after) ∧ verdict ≠ .eligible := by
  rw [select] at h ⊢
  simp only at h ⊢
  split at h
  · cases h
  split at h
  · cases h
  next hempty hactive =>
  rw [if_neg hempty, if_neg hactive]
  split at h
  · cases h
  · cases h
  · next idx id' row' examined hscan =>
    cases h
    have hids := scan_split (congrArg Prod.fst hscan)
    rw [hscan] at hids
    obtain ⟨passed, key, rest, hrows, heligible, hids, hpassed⟩ := hids
    have hmem : ∀ r ∈ passed ++ ((id, key), idx) :: rest, w.key? r.1.1 = some r.1.2 := by
      intro r hr
      rw [← hrows] at hr
      exact (Table.mem_select.mp (mem_cyclicFrom hr)).1
    refine ⟨passed.map fun r => r.1.1, rest.map fun r => r.1.1, key, ?_, ?_, ?_, heligible, hids,
      ?_⟩
    · rw [keyOrder, ← List.rotate_mod, keyIds, List.length_map, ← map_zipIdx_id, ← List.map_rotate]
      refine (congrArg (List.map fun r => r.1.1) hrows).trans ?_
      rw [List.map_append, List.map_cons]
    · have hturn := congrArg (List.map Prod.fst) (rotate_succ_of_zipIdx_rotate hrows)
      simp only [keyIds, Function.update_self]
      rw [← List.map_rotate, hturn]
      simp [nextOrder, Function.comp_def]
    · exact hmem ((id, key), idx) (by simp)
    · intro other hother
      obtain ⟨r, hr, rfl⟩ := List.mem_map.mp hother
      obtain ⟨verdict, after, hexamine, hne⟩ := hpassed r hr
      exact ⟨r.1.2, verdict, after, hmem r (List.mem_append_left _ hr), hexamine, hne⟩

end Select

/-! ### One pass -/

/-- A step leaves every key in its scope, and makes and loses none. -/
def SameScopes (w v : World) : Prop :=
  ∀ id, Option.Rel (fun before after : ApiKey => after.clientId = before.clientId ∧
    after.provider = before.provider) (w.key? id) (v.key? id)

theorem SameScopes.keyIds_eq {w v : World} (h : SameScopes w v) (clientId : Option Nat)
    (provider : Provider) :
    keyIds w clientId provider = keyIds v clientId provider := by
  apply Table.ids_select_eq
  intro id
  apply (h id).imp
  intro before after hsame
  rw [inScope, inScope, hsame.1, hsame.2]

theorem SameScopes.trans {w v u : World} (h : SameScopes w v) (h' : SameScopes v u) :
    SameScopes w u := by
  intro id
  apply (h id).comp (h' id)
  intro before mid after hfirst hsecond
  exact ⟨hsecond.1.trans hfirst.1, hsecond.2.trans hfirst.2⟩

theorem select_sameScopes (env : PoolEnv) (w : World) (clientId : Option Nat)
    (provider : Provider) :
    SameScopes w (select env w clientId provider).world := by
  intro id
  apply (select_scheduling env w clientId provider id).imp
  intro key row hrow
  rw [hrow]
  exact ⟨rfl, rfl⟩

theorem RowUpdated.sameScopes {w v : World} {id : Nat} {f : ApiKey → ApiKey}
    (h : RowUpdated w v id f) (hframe : ∀ key, f key = withOutcome key (f key)) :
    SameScopes w v := by
  intro other
  rw [h other]
  by_cases heq : other = id
  · rw [if_pos heq]
    apply Option.Rel.map
    intro key
    rw [hframe key]
    exact ⟨rfl, rfl⟩
  · rw [if_neg heq]
    exact .of_eq _ fun _ => ⟨rfl, rfl⟩

section

variable {fwd : Forwarder} {masterKey : Bytes} {baseUrl : String} {req : ForwardRequest}

/-- An attempt after which the loop goes on has written the row of its key at most. -/
theorem Tried.rowUpdated {turn : Turn} {id : Nat} {key : ApiKey} {p p' : Progress}
    (h : Tried fwd masterKey baseUrl req turn id key p (.again p')) :
    (∃ f, RowUpdated p.world p'.world id f ∧ ∀ key, f key = withOutcome key (f key)) ∧
      p'.world.rrIndexByScope = p.world.rrIndexByScope := by
  generalize hpass : Pass.again p' = pass at h
  cases h with
  | passedOver more retryCount hmore hnot =>
    cases hpass
    exact ⟨⟨fun key => key, .unchanged (fun _ => rfl) fun _ _ => rfl, fun _ => rfl⟩, rfl⟩
  | disabled retryCount hsecret =>
    cases hpass
    exact ⟨⟨disableKeyDecryptFailed, rowUpdated_modifyKey p.world id _, fun _ => rfl⟩, rfl⟩
  | again plaintextKey retryCount hadmits hsecret houtcome =>
    cases hpass
    exact ⟨⟨_, settle_row fwd.config req.method req.upstreamPath turn.outcome turn.settledAt
      req.clientId id p.world, settleRow_frame _ _ _ _ _ _⟩, (settle_rest _ _ _ _ _ _ _ _).1⟩
  | refused => cases hpass
  | undecryptable => cases hpass
  | failed => cases hpass
  | gaveUp => cases hpass
  | answered => cases hpass

/-- What an attempt after which the loop goes on adds to the progress. -/
theorem Tried.grows {turn : Turn} {id : Nat} {key : ApiKey} {p p' : Progress}
    (h : Tried fwd masterKey baseUrl req turn id key p (.again p')) :
    (∃ more, p'.events = p.events ++ more ∧ ∀ event ∈ more, ∀ other,
      event.key? = some other → other = id) ∧
      p.upstreamAttempts ≤ p'.upstreamAttempts := by
  generalize hpass : Pass.again p' = pass at h
  cases h with
  | passedOver more retryCount hmore =>
    cases hpass
    refine ⟨⟨more, rfl, ?_⟩, Nat.le_refl _⟩
    rcases hmore with rfl | rfl
    · simp [Event.key?]
    · simp [Event.key?]
  | disabled =>
    cases hpass
    exact ⟨⟨_, rfl, by simp [Event.key?]⟩, Nat.le_refl _⟩
  | again plaintextKey =>
    cases hpass
    refine ⟨⟨_, List.append_assoc _ _ _, ?_⟩, Nat.le_succ _⟩
    unfold exchanges
    split
    · simp [Event.key?]
    · simp [Event.key?]
  | refused => cases hpass
  | undecryptable => cases hpass
  | failed => cases hpass
  | gaveUp => cases hpass
  | answered => cases hpass

/-- A pass over the pool after which the loop goes on: the key it tried, what it passed over before
and what comes behind. -/
structure PooledStep (fwd : Forwarder) (masterKey : Bytes) (baseUrl : String) (req : ForwardRequest)
    (turn : Turn) (p p' : Progress) (id : Nat) (key row : ApiKey) (passed rest : List Nat) :
    Prop where
  before : keyOrder p.world (some req.clientId) req.provider = passed ++ id :: rest
  after : keyOrder p'.world (some req.clientId) req.provider = nextOrder passed id rest
  selected : (select turn.pool p.world (some req.clientId) req.provider).result = .ok (id, row)
  stored : p.world.key? id = some key
  eligible : examine turn.pool id key = .ok (.eligible, row)
  skipped : ∀ other ∈ passed, ∃ before verdict after, p.world.key? other = some before ∧
    examine turn.pool other before = .ok (verdict, after) ∧ verdict ≠ .eligible
  tried : Tried fwd masterKey baseUrl req turn id row
    { p.selected req turn with lastApiKeyId := some id } (.again p')
  kept : ∀ other before, p.world.key? other = some before → other ≠ id →
    other ∉ passed ∨ isDisabled before = true → p'.world.key? other = some before

theorem pooledPass_step {turns : Nat → Turn} {i : Nat} {p p' : Progress}
    (h : pooledPass fwd masterKey baseUrl req turns i p = .again p') :
    ∃ id key row passed rest,
      PooledStep fwd masterKey baseUrl req (turns i) p p' id key row passed rest := by
  have hcases := pooledPass_cases fwd masterKey baseUrl req turns i p
  rw [h] at hcases
  generalize hpass : Pass.again p' = pass at hcases
  cases hcases with
  | refused => cases hpass
  | tried id row hresult htried =>
    subst hpass
    obtain ⟨passed, rest, key, hbefore, hrotated, hkey, heligible, hids, hskipped⟩ :=
      select_order hresult
    obtain ⟨⟨f, hrow, hframe⟩, hrr⟩ := htried.rowUpdated
    refine ⟨id, key, row, passed, rest, hbefore, ?_, hresult, hkey, heligible, hskipped, htried, ?_⟩
    · have hscopes :=
        (select_sameScopes (turns i).pool p.world (some req.clientId) req.provider).trans
        (hrow.sameScopes hframe)
      rw [keyOrder, ← hscopes.keyIds_eq, hrr]
      exact hrotated
    · intro other before hother hne hor
      rw [hrow.of_ne hne]
      obtain ⟨after, hafter, hcases⟩ := select_committed hresult hother
      refine hafter.trans (congrArg some ?_)
      rcases hcases with ⟨heq, _⟩ | ⟨e, hmem, rfl, rfl⟩
      · exact heq
      rcases hor with hnot | hdisabled
      · have hin : e.id ∈ passed ++ [id] := hids ▸ List.mem_map_of_mem hmem
        rw [List.mem_append, List.mem_singleton] at hin
        exact absurd (hin.resolve_right hne) hnot
      · obtain ⟨before', hbefore', _, hexamines⟩ := select_examined hmem
        rw [hother, Option.some.injEq] at hbefore'
        subst hbefore'
        rcases hexamines.counter with ⟨_, _, heq⟩ | ⟨henabled, _⟩
        · exact heq
        · rw [henabled] at hdisabled
          cases hdisabled

end

end Fcam
