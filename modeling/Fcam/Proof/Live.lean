import Fcam.Model.LiveForward
import Fcam.Proof.Passes

/-!
# A forward with stores is a forward

What the stores answer at the passes of a forward is a script, so what holds of a forward under
every script holds of one that is answered by the limiter and the leases of its process.
-/

namespace Fcam

section

variable (live : Nat → LiveTurn) {pass : (Nat → Turn) → Nat → Progress → Pass Progress Forwarded}

/-- The answers of the stores at the passes of a loop are those of a script. -/
theorem loopWhile_livePass (hlocal : ∀ turns i p, pass turns i p = pass (fun _ => turns i) i p)
    (guard : Progress → Bool) (fuel i : Nat) (p : Progress) (stores : Stores) :
    ∃ turns, loopWhile guard (pass turns) fuel i p =
      (loopWhile (fun s => guard s.1) (livePass live pass) fuel i (p, stores)).map Prod.fst
        Prod.fst := by
  induction fuel generalizing i p stores with
  | zero => exact ⟨fun i => (live i).turn stores, rfl⟩
  | succ fuel ih =>
    simp only [loopWhile]
    by_cases hguard : guard p = true
    · simp only [if_pos hguard, livePass]
      cases hpass : pass (fun _ => (live i).turn stores) i p with
      | done forwarded =>
        refine ⟨fun _ => (live i).turn stores, ?_⟩
        simp only [hpass]
        rfl
      | again p' =>
        obtain ⟨rest, hrest⟩ := ih (i + 1) p'
          ((p'.events.drop p.events.length).foldl (Stores.logged (live i).monotonic p.world) stores)
        refine ⟨Function.update rest i ((live i).turn stores), ?_⟩
        rw [hlocal, Function.update_self, hpass]
        simp only
        rw [← hrest]
        apply loopWhile_congr
        intro j hj
        funext s
        rw [hlocal, hlocal rest, Function.update_of_ne (by omega)]
    · simp only [if_neg hguard]
      exact ⟨fun _ => (live i).turn stores, rfl⟩

end

theorem forwardLive_eq (fwd : Forwarder) (req : ForwardRequest) (live : Nat → LiveTurn) (w : World)
    (stores : Stores) :
    ∃ turns, forward fwd turns req w = (forwardLive fwd req live w stores).1 := by
  simp only [forward, forwardLive]
  cases fwd.masterKey with
  | none => exact ⟨fun i => (live i).turn stores, rfl⟩
  | some masterKey =>
  cases fwd.providerBaseUrl req.provider with
  | error error => exact ⟨fun i => (live i).turn stores, rfl⟩
  | ok baseUrl =>
  simp only
  cases req.pinnedApiKeyId.bind fun id => (pinnedKey? req w id).map fun _ => id with
  | none =>
    have hlocal : ∀ turns i p, pooledPass fwd masterKey baseUrl req turns i p =
        pooledPass fwd masterKey baseUrl req (fun _ => turns i) i p := fun _ _ _ => rfl
    obtain ⟨turns, hturns⟩ := loopWhile_livePass live hlocal
      (fun p => decide (p.upstreamAttempts < fwd.totalAttempts req.provider))
      (maxSelectionTries (fwd.totalAttempts req.provider)) 0 { world := w } stores
    refine ⟨turns, ?_⟩
    simp only [forwardPooled, forwardPooledLive]
    rw [hturns]
    cases loopWhile (fun s => decide (s.1.upstreamAttempts < fwd.totalAttempts req.provider))
      (livePass live (pooledPass fwd masterKey baseUrl req))
        (maxSelectionTries (fwd.totalAttempts req.provider)) 0
      ({ world := w }, stores) with
    | again s => rfl
    | done r => rfl
  | some id =>
    have hlocal : ∀ turns i p, pinnedPass fwd masterKey baseUrl req turns id i p =
        pinnedPass fwd masterKey baseUrl req (fun _ => turns i) id i p := fun _ _ _ => rfl
    obtain ⟨turns, hturns⟩ :=
      loopWhile_livePass live hlocal (fun _ => true) (fwd.totalAttempts req.provider) 0
      { world := w, lastApiKeyId := some id } stores
    -- the last attempt with a pin ends the forward, so the loop over the pool asks nothing
    obtain ⟨forwarded, hdone⟩ :=
      pinnedLoop_done fwd masterKey baseUrl req turns id { world := w, lastApiKeyId := some id }
    refine ⟨turns, ?_⟩
    simp only [forwardPinned, forwardPinnedLive]
    rw [hdone] at hturns
    rw [hdone]
    revert hturns
    cases loopWhile (fun _ => true)
      (livePass live fun turns => pinnedPass fwd masterKey baseUrl req turns id)
        (fwd.totalAttempts req.provider) 0 ({ world := w, lastApiKeyId := some id }, stores) with
    | again s => exact nofun
    | done r =>
      intro hturns
      exact Pass.done.inj hturns

end Fcam
