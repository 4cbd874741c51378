import Fcam.Proof.RefreshSession

/-!
# What one refresh pass leaves behind

Two things end badly. A key that is purged during a fetch that ends in a commit is read again by the
handler, and that exception leaves the pass. A key that is purged during any other fetch spoils the
next commit of the session, and with it the times that earlier keys of the batch have pending.
-/

namespace Fcam

/-- Every key that was due has been attempted once, in id order, and refreshes later than the pass
began if it still exists. -/
structure PassIsolated (now : Instant) (w : World) (s : PassState) : Prop where
  attempted : s.attempted = (w.db.keys.select (refreshDue now)).map Prod.fst
  later : ∀ row ∈ w.db.keys.select (refreshDue now), ∀ key, s.world.key? row.1 = some key →
    RefreshesAfter now key

/-! ### When it does so -/

section

variable (fwd : Forwarder) (enforced : Bool) (now : Instant) (turns : Nat → KeyTurn)

/-- A commit, refused or not, of a fetch whose key gets its time stored along with it, or can get it
scheduled after. -/
def Stake.afterCommit (stake : Stake)
    (last purged refused stores schedules : Bool) : Option Stake :=
  if stake.waiting && refused then none
  else if purged then if last then some {} else none
  else if schedules then some { waiting := !stores }
  else if last && stores then some {}
  else none

/-- The stake after a key's turn. Nothing where a key that exists has lost its time, or an exception
leaves the pass before the last key. -/
def Stake.after (stake : Stake) (last : Bool) (key : ApiKey) (turn : KeyTurn) : Option Stake :=
  let retries := (retryTime fwd now).isSome
  match fetchEnd fwd key turn.env with
  | .raised =>
    let stake : Stake :=
      { waiting := stake.waiting || !turn.purged, doomed := stake.doomed || turn.purged }
    if retries then some stake else if last && !stake.waiting then some {} else none
  | .failed changesRow =>
    let refused := stake.doomed || (turn.purged && (enforced || changesRow))
    stake.afterCommit last turn.purged refused false retries
  | .succeeded remaining plan =>
    let refused := stake.doomed || turn.purged
    let stores := !refused && (timeFor fwd turn.env.writtenAt remaining plan).isSome
    let schedules := retries || (!refused && (timeFor fwd turn.refreshedAt remaining plan).isSome)
    stake.afterCommit last turn.purged refused stores schedules

/-- No key of a batch loses its time, and no exception leaves the pass before the last key. -/
def batchSpared (more : Bool) : List (Nat × ApiKey) → Stake → Bool
  | [], stake => !(stake.waiting && stake.doomed)
  | (id, key) :: rest, stake =>
    match stake.after fwd enforced now (rest.isEmpty && !more) key (turns id) with
    | none => false
    | some stake => batchSpared more rest stake

def passSpared : List (List (Nat × ApiKey)) → Bool
  | [] => true
  | batch :: rest =>
    batchSpared fwd enforced now turns (!rest.flatten.isEmpty) batch {} && passSpared rest

end

/-! ### One turn -/

/-- The pass between two turns, with the keys done and the keys to come. -/
structure Reached (now : Instant) (s : PassState) (stake : Stake) (done : List Nat)
    (todo : List (Nat × ApiKey)) :
    Prop where
  session : SessionHolds now s.world s.pending stake done
  attempted : s.attempted = done
  nodup : (done ++ todo.map Prod.fst).Nodup
  todo : ∀ row ∈ todo, s.world.key? row.1 = some row.2 ∧ refreshDue now row.2 = true

/-- The pass within the turn of a key that has just been fetched, and perhaps purged. -/
structure InTurn (now : Instant) (s : PassState) (stake : Stake) (done : List Nat) (id : Nat)
    (key : ApiKey) (purged : Bool) (todo : List (Nat × ApiKey)) : Prop where
  session : SessionHolds now s.world s.pending stake done
  attempted : s.attempted = done ++ [id]
  nodup : (done ++ [id] ++ todo.map Prod.fst).Nodup
  todo : ∀ row ∈ todo, s.world.key? row.1 = some row.2 ∧ refreshDue now row.2 = true
  due : refreshDue now key = true
  row : s.world.key? id = if purged then none else some key

/-- A key that exists does not refresh later, and will not any more. -/
structure Lost (now : Instant) (s : PassState) (id : Nat) : Prop where
  row : ∃ key, s.world.key? id = some key ∧ ¬RefreshesAfter now key
  unscheduled : id ∉ s.pending.map Scheduled.id

/-- What a stake, or its absence, says about the pass. -/
def Spared (now : Instant) (done : List Nat) (todo : List (Nat × ApiKey)) :
    Except PassState PassState → Option Stake → Prop
  | .ok s, some stake => Reached now s stake done todo
  | .ok s, none => ∃ lost ∈ done, Lost now s lost
  | .error s, some stake =>
    stake.waiting = false ∧ todo = [] ∧ s.attempted = done ∧ AllLater now s.world done
  | .error s, none => s.attempted = done ∧ (todo = [] → ¬AllLater now s.world done)

section

variable {fwd : Forwarder} {enforced : Bool} {now : Instant} {s : PassState} {stake : Stake}
  {done : List Nat} {id : Nat} {key current : ApiKey} {purged changesRow : Bool}
  {todo : List (Nat × ApiKey)} {writes : List Write}

theorem InTurn.not_done (h : InTurn now s stake done id key purged todo) : id ∉ done := by
  have hnodup := h.nodup
  rw [List.append_assoc, List.nodup_append] at hnodup
  intro hid
  exact hnodup.2.2 id hid id List.mem_cons_self rfl

theorem InTurn.not_todo (h : InTurn now s stake done id key purged todo) {row : Nat × ApiKey}
    (hrow : row ∈ todo) :
    row.1 ∉ done ++ [id] := by
  intro hdone
  exact (List.nodup_append.mp h.nodup).2.2 row.1 hdone row.1 (List.mem_map_of_mem hrow) rfl

theorem allLater_snoc {w : World} :
    AllLater now w (done ++ [id]) ↔
      AllLater now w done ∧ ∀ key, w.key? id = some key → RefreshesAfter now key := by
  simp only [AllLater, List.mem_append, List.mem_singleton, or_imp, forall_and, forall_eq]

theorem raised_spared (h : InTurn now s stake done id key purged todo) :
    Spared now (done ++ [id]) todo (s.schedule id key (retryTime fwd now))
      (let stake :
        Stake := { waiting := stake.waiting || !purged, doomed := stake.doomed || purged }
      if (retryTime fwd now).isSome then some stake
      else if todo.isEmpty && !stake.waiting then some {} else none) := by
  have hearlier := not_refreshesAfter_of_due h.due
  cases hretry : retryTime fwd now with
  | some t =>
    have hlater := lt_retryTime hretry
    have hrow := h.row
    have hsession :
        SessionHolds now s.world (s.pending ++ [{ id, loaded := key, nextRefreshAt := t }])
          { waiting := stake.waiting || !purged, doomed := stake.doomed || purged }
            (done ++ [id]) := by
      cases purged with
      | true =>
        exact h.session.push h.not_done (.inr ⟨hrow, hearlier⟩) hlater (by simp [hrow])
          (by simp [hrow])
      | false =>
        exact h.session.push h.not_done (.inl hrow) hlater (by simp [hrow, hearlier])
          (by simp [hrow])
    exact ⟨hsession, h.attempted, h.nodup, h.todo⟩
  | none =>
    have hiff : AllLater now s.world (done ++ [id]) ↔ (stake.waiting || !purged) = false := by
      rw [allLater_snoc, h.session.allLater_iff, Bool.or_eq_false_iff, h.row]
      cases purged with
      | true => simp
      | false => simp [hearlier]
    simp only [Option.isSome_none, Bool.false_eq_true, if_false, PassState.schedule]
    split
    · next hlast =>
      rw [Bool.and_eq_true, Bool.not_eq_true', List.isEmpty_iff] at hlast
      exact ⟨rfl, hlast.1, h.attempted, hiff.mpr hlast.2⟩
    · next hlast =>
      refine ⟨h.attempted, ?_⟩
      rintro rfl hlater
      exact hlast (by rw [hiff.mp hlater]; rfl)

/-- The turn of a key that is gone ends the pass. -/
theorem gone_spared {refused stores schedules : Bool} (h : InTurn now s stake done id key true todo)
    (hown : OwnWrites enforced id key changesRow current writes)
    (hrefused : (s.pending.map Scheduled.write ++ writes).any (Write.refused enforced s.world) =
      refused) :
    Spared now (done ++ [id]) todo (.error (s.commit enforced writes))
      (stake.afterCommit todo.isEmpty true refused stores schedules) := by
  have hgone : (s.commit enforced writes).world.key? id = none :=
    h.session.commit_gone hown h.not_done h.row
  rw [Stake.afterCommit]
  split
  · next hlost =>
    obtain ⟨lost, hdone, row, hrow, hearlier⟩ := h.session.lost_of_commit hrefused hlost
    refine ⟨h.attempted, fun _ hlater => ?_⟩
    exact hearlier (hlater lost (List.mem_append_left _ hdone) row hrow)
  · next hkept =>
    have hlater := h.session.later_of_commit hown h.not_done hrefused (Bool.not_eq_true _ ▸ hkept)
    rw [if_pos rfl]
    split
    · next hlast =>
      refine ⟨rfl, List.isEmpty_iff.mp hlast, h.attempted, allLater_snoc.mpr ⟨hlater, ?_⟩⟩
      intro row hrow
      rw [hgone] at hrow
      cases hrow
    · next hmore =>
      refine ⟨h.attempted, ?_⟩
      rintro rfl
      exact absurd rfl hmore

/-- The turn of a key that exists ends with its time scheduled, if one can be computed. -/
theorem stored_spared {refused stores : Bool} {next : Option Instant}
    (h : InTurn now s stake done id key false todo)
    (hown : OwnWrites enforced id key changesRow current writes)
    (hrefused : (s.pending.map Scheduled.write ++ writes).any (Write.refused enforced s.world) =
      refused) (hstores : stores = true ↔ RefreshesAfter now (if refused then key else current))
    (hnext : ∀ t, next = some t → now < t) :
    Spared now (done ++ [id]) todo ((s.commit enforced writes).schedule id (if refused then key
      else current) next)
      (stake.afterCommit todo.isEmpty false refused stores next.isSome) := by
  have hkey : (s.commit enforced writes).world.key? id = some (if refused then key else current) :=
    h.session.commit_stored hown h.not_done h.row hrefused
  generalize (if refused then key else current) = stored at hstores hkey ⊢
  have hrest :
      ∀ row ∈ todo, (s.commit enforced writes).world.key? row.1 = some row.2 ∧
        refreshDue now row.2 = true := by
    intro row hrow
    have hnot := h.not_todo hrow
    rw [List.mem_append, List.mem_singleton, not_or] at hnot
    refine ⟨?_, (h.todo row hrow).2⟩
    rw [← (h.todo row hrow).1]
    exact h.session.commit_others hown hnot.2 hnot.1
  rw [Stake.afterCommit]
  split
  · next hlost =>
    obtain ⟨lost, hdone, row, hrow, hearlier⟩ := h.session.lost_of_commit hrefused hlost
    cases next with
    | none =>
      refine ⟨h.attempted, fun _ hlater => ?_⟩
      exact hearlier (hlater lost (List.mem_append_left _ hdone) row hrow)
    | some t =>
      refine ⟨lost, List.mem_append_left _ hdone, ⟨row, hrow, hearlier⟩, ?_⟩
      rintro hmem
      rw [show lost = id from List.mem_singleton.mp hmem] at hdone
      exact h.not_done hdone
  · next hkept =>
    have hlater := h.session.later_of_commit hown h.not_done hrefused (Bool.not_eq_true _ ▸ hkept)
    rw [if_neg Bool.false_ne_true]
    cases next with
    | some t =>
      have hsession : SessionHolds now (s.commit enforced writes).world
          [{ id, loaded := stored, nextRefreshAt := t }] { waiting := !stores } (done ++ [id]) := by
        have hnone : SessionHolds now (s.commit enforced writes).world [] {} done :=
          sessionHolds_nil hlater
        apply hnone.push h.not_done (.inl hkey) (hnext t rfl)
        · simp [hkey, ← hstores]
        · simp [hkey]
      exact ⟨hsession, h.attempted, h.nodup, hrest⟩
    | none =>
      have hiff : AllLater now (s.commit enforced writes).world (done ++ [id]) ↔ stores = true := by
        rw [allLater_snoc, hstores, hkey]
        constructor
        · rintro ⟨-, hown⟩
          exact hown _ rfl
        · rintro hown
          refine ⟨hlater, fun row hrow => ?_⟩
          rw [← Option.some.inj hrow]
          exact hown
      rw [Option.isSome_none, if_neg Bool.false_ne_true]
      split
      · next hlast =>
        rw [Bool.and_eq_true, List.isEmpty_iff] at hlast
        exact ⟨rfl, hlast.1, h.attempted, hiff.mpr hlast.2⟩
      · next hlast =>
        refine ⟨h.attempted, ?_⟩
        rintro rfl hlater
        exact hlast (by rw [hiff.mp hlater]; rfl)

variable {turns : Nat → KeyTurn}

/-- The clock goes on while the pass runs, and the key was not last checked when its own fetch
begins. -/
structure ClockMoves (now : Instant) (turn : KeyTurn) (key : ApiKey) : Prop where
  written : now ≤ turn.env.writtenAt
  refreshed : now ≤ turn.refreshedAt
  checked : key.lastCreditCheckAt ≠ some turn.env.now

theorem Reached.inTurn (h : Reached now s stake done ((id, key) :: todo)) (purged : Bool) :
    InTurn now
      { s with
        world := if purged then (purgeKey false id s.world).2 else s.world
        attempted := s.attempted ++ [id] }
      stake done id key purged todo := by
  have hnodup : (done ++ [id] ++ todo.map Prod.fst).Nodup := by
    rw [List.append_assoc]
    exact h.nodup
  have hother : ∀ other, other ≠ id →
      World.key? (if purged then (purgeKey false id s.world).2
        else s.world) other = s.world.key? other := by
    intro other hne
    cases purged with
    | true => exact (key?_purgeKey s.world id other).trans (if_neg hne)
    | false => rfl
  have hdisjoint := (List.nodup_append.mp hnodup).2.2
  constructor
  · apply h.session.congr
    intro other hdone
    apply hother
    rintro rfl
    rw [List.append_assoc, List.nodup_append] at hnodup
    exact hnodup.2.2 other hdone other List.mem_cons_self rfl
  · rw [h.attempted]
  · exact hnodup
  · intro row hrow
    obtain ⟨hkey, hdue⟩ := h.todo row (List.mem_cons_of_mem _ hrow)
    refine ⟨?_, hdue⟩
    rw [← hkey]
    apply hother
    intro heq
    exact hdisjoint id (List.mem_append_right _ (List.mem_singleton_self id)) row.1
      (List.mem_map_of_mem hrow) heq.symm
  · exact (h.todo (id, key) List.mem_cons_self).2
  · cases purged with
    | true => exact (key?_purgeKey s.world id id).trans (if_pos rfl)
    | false => exact (h.todo (id, key) List.mem_cons_self).1

section Settle

variable {turn : KeyTurn}

/-- A turn that commits: what is refused, and for a key that is not purged what is stored and
scheduled. -/
theorem settle_spared {refused stores schedules : Bool}
    (h : InTurn now s stake done id key turn.purged todo)
    (hown : OwnWrites enforced id key changesRow current writes)
    (hrefused : refused = (stake.doomed || (turn.purged && (enforced || changesRow))))
    (hstores : stores = true ↔ RefreshesAfter now (if refused then key else current))
    {next : Option Instant} (hnext : (if (fetchedCredits fwd key turn.env).isSome && !refused then
      (calculateNextRefreshTime fwd.config turn.refreshedAt (if refused then key else current)).or
      (retryTime fwd now)
      else retryTime fwd now) = next)
    (hschedules : next.isSome = schedules) (hlater : ∀ t, next = some t → now < t) :
    Spared now (done ++ [id]) todo (s.settle fwd enforced now turn id key writes)
      (stake.afterCommit todo.isEmpty turn.purged refused stores schedules) := by
  have hany :
      (s.pending.map Scheduled.write ++ writes).any (Write.refused enforced s.world) = refused := by
    rw [h.session.refused hown, h.row, hrefused]
    cases turn.purged <;> rfl
  rw [PassState.settle]
  simp only [hany]
  cases hpurged : turn.purged with
  | true =>
    rw [hpurged] at h
    have hgone : (s.commit enforced writes).world.key? id = none :=
      h.session.commit_gone hown h.not_done h.row
    simp only [hgone]
    exact gone_spared h hown hany
  | false =>
    rw [hpurged] at h
    have hkey :
        (s.commit enforced writes).world.key? id = some (if refused then key else current) :=
      h.session.commit_stored hown h.not_done h.row hany
    simp only [hkey, hnext, ← hschedules]
    exact stored_spared h hown hany hstores hlater

theorem failed_spared (h : InTurn now s stake done id key turn.purged todo)
    (hend : fetchEnd fwd key turn.env = .failed changesRow) :
    Spared now (done ++ [id]) todo
      (s.settle fwd enforced now turn id key ((KeyEdit.fetch turn.env).writes fwd s.world id key))
      (stake.after fwd enforced now todo.isEmpty key turn) := by
  obtain ⟨current, hnext, hown⟩ :=
    @ownWrites_failed fwd enforced s.world id key turn.env changesRow hend
  have hcredits : fetchedCredits fwd key turn.env = none := by
    rw [Option.eq_none_iff_forall_ne_some]
    rintro ⟨remaining, plan⟩ hsome
    rw [fetchEnd_credits.mpr hsome] at hend
    cases hend
  have hearlier : ∀ refused : Bool, ¬RefreshesAfter now (if refused then key else current) := by
    rintro refused ⟨t, ht, hlater⟩
    apply not_refreshesAfter_of_due h.due
    cases refused with
    | true => exact ⟨t, ht, hlater⟩
    | false => exact ⟨t, by rw [← hnext]; exact ht, hlater⟩
  simp only [Stake.after, hend]
  apply settle_spared h hown rfl
  · exact iff_of_false Bool.false_ne_true (hearlier _)
  · rw [hcredits]
  · rfl
  · exact fun t => lt_retryTime

theorem succeeded_spared (hpos : PositiveIntervals fwd.config.creditMonitoring)
    (hclock : ClockMoves now turn key) (h : InTurn now s stake done id key turn.purged todo)
    {remaining plan : Int} (hend : fetchEnd fwd key turn.env = .succeeded remaining plan) :
    Spared now (done ++ [id]) todo
      (s.settle fwd enforced now turn id key ((KeyEdit.fetch turn.env).writes fwd s.world id key))
      (stake.after fwd enforced now todo.isEmpty key turn) := by
  have hown :=
    @ownWrites_succeeded fwd enforced s.world id key turn.env remaining plan hend hclock.checked
  have hcredits := fetchEnd_credits.mp hend
  have hafter :
      ∀ {computedAt t : Instant}, now ≤ computedAt →
        timeFor fwd computedAt remaining plan = some t → now < t :=
    fun hle ht => lt_of_le_of_lt hle (lt_timeFor hpos ht)
  simp only [Stake.after, hend]
  apply settle_spared h hown
  · rw [Bool.or_true, Bool.and_true]
  · cases hrefused : stake.doomed || turn.purged with
    | true => exact iff_of_false Bool.false_ne_true (not_refreshesAfter_of_due h.due)
    | false =>
      rw [Bool.not_false, Bool.true_and, Option.isSome_iff_exists]
      apply exists_congr
      intro t
      have hstored :
          (fetchSucceeded fwd.config turn.env.now turn.env.writtenAt
           s.world.db.creditSnapshots.nextId remaining plan key).nextRefreshAt =
             timeFor fwd turn.env.writtenAt remaining plan := by
        simp only [fetchSucceeded]
        exact calculateNextRefreshTime_eq _ rfl rfl
      rw [if_neg Bool.false_ne_true, hstored]
      exact ⟨fun ht => ⟨ht, hafter hclock.written ht⟩, And.left⟩
  · rfl
  · cases hrefused : stake.doomed || turn.purged with
    | true => simp [hcredits]
    | false =>
      rw [if_neg Bool.false_ne_true, calculateNextRefreshTime_eq turn.refreshedAt rfl rfl, hcredits]
      simp [Bool.or_comm]
  · intro t ht
    cases hrefused : stake.doomed || turn.purged with
    | true =>
      rw [hrefused, hcredits] at ht
      exact lt_retryTime ht
    | false =>
      rw [hrefused, hcredits, if_neg Bool.false_ne_true,
        calculateNextRefreshTime_eq turn.refreshedAt rfl rfl] at ht
      rcases Option.or_eq_some_iff.mp ht with hnext | ⟨-, hretry⟩
      · exact hafter hclock.refreshed hnext
      · exact lt_retryTime hretry

end Settle

theorem refreshTurn_spared (hpos : PositiveIntervals fwd.config.creditMonitoring)
    (hclock : ClockMoves now (turns id) key) (h : Reached now s stake done ((id, key) :: todo)) :
    Spared now (done ++ [id]) todo (refreshTurn fwd enforced now turns id s)
      (stake.after fwd enforced now todo.isEmpty key (turns id)) := by
  have hturn := h.inTurn (turns id).purged
  have hkey := (h.todo (id, key) List.mem_cons_self).1
  rw [refreshTurn]
  simp only [hkey]
  cases hend : fetchEnd fwd key (turns id).env with
  | raised =>
    rw [fetch_raised hend, Stake.after, hend]
    exact raised_spared hturn
  | failed changesRow =>
    obtain ⟨current, -, hown⟩ := @ownWrites_failed fwd enforced
      (if (turns id).purged then (purgeKey false id s.world).2
       else s.world) id key _ changesRow hend
    rw [hown.nonempty, if_neg Bool.false_ne_true]
    exact failed_spared hturn hend
  | succeeded remaining plan =>
    have hown := @ownWrites_succeeded fwd enforced
      (if (turns id).purged then (purgeKey false id s.world).2
       else s.world) id key _ remaining plan hend hclock.checked
    rw [hown.nonempty, if_neg Bool.false_ne_true]
    exact succeeded_spared hpos hclock hturn hend

/-! ### What is lost stays lost -/

/-- The state at the end, whether or not by an exception. -/
def outcome : Except PassState PassState → PassState
  | .ok s => s
  | .error s => s

theorem fetch_others {w : World} {env : FetchEnv} {other : Nat} (hne : other ≠ id) :
    ∀ write ∈ (KeyEdit.fetch env).writes fwd w id key, ∀ loaded current,
      write ≠ .key other loaded current := by
  cases hend : fetchEnd fwd key env with
  | raised =>
    rw [fetch_raised hend]
    simp
  | failed changesRow =>
    obtain ⟨current, -, hown⟩ := @ownWrites_failed fwd false w id key env changesRow hend
    exact hown.others other hne
  | succeeded remaining plan =>
    rw [fetch_writes (fetchEnd_credits.mp hend)]
    simp [Ne.symm hne]

theorem Lost.schedule {lost : Nat} (h : Lost now s lost) (hne : lost ≠ id) (next : Option Instant) :
    Lost now (outcome (s.schedule id key next)) lost := by
  cases next with
  | none => exact h
  | some t =>
    refine ⟨h.row, ?_⟩
    simp only [outcome, PassState.schedule, List.map_append, List.mem_append, not_or]
    exact ⟨h.unscheduled, fun hmem => hne (List.mem_singleton.mp hmem)⟩

theorem Lost.commit {lost : Nat} (h : Lost now s lost)
    (hothers : ∀ write ∈ writes, ∀ loaded current, write ≠ .key lost loaded current) :
    Lost now (s.commit enforced writes) lost := by
  obtain ⟨row, hrow, hearlier⟩ := h.row
  refine ⟨⟨row, ?_, hearlier⟩, List.not_mem_nil⟩
  show (tryCommit enforced s.world (s.pending.map Scheduled.write ++ writes)).key? lost = some row
  rw [tryCommit]
  split
  · exact hrow
  · rw [commit_append, key?_commit_of_ne hothers, key?_commit_unscheduled h.unscheduled, hrow]

theorem Lost.turn {lost : Nat} (h : Lost now s lost) (hne : lost ≠ id) :
    Lost now (outcome (refreshTurn fwd enforced now turns id s)) lost := by
  rw [refreshTurn]
  split
  · exact h
  · next loaded hloaded =>
    have hpurged : Lost now
        { s with
          world := if (turns id).purged then (purgeKey false id s.world).2 else s.world
          attempted := s.attempted ++ [id] } lost := by
      refine ⟨?_, h.unscheduled⟩
      cases (turns id).purged with
      | true =>
        obtain ⟨row, hrow, hearlier⟩ := h.row
        exact ⟨row, ((key?_purgeKey s.world id lost).trans (if_neg hne)).trans hrow, hearlier⟩
      | false => exact h.row
    simp only
    generalize (if (turns id).purged then (purgeKey false id s.world).2
        else s.world) = w at hpurged ⊢
    split
    · exact hpurged.schedule hne _
    · have hcommitted := @Lost.commit enforced now _ _ lost hpurged
        (@fetch_others fwd id loaded w (turns id).env lost hne)
      rw [PassState.settle]
      simp only
      split
      · exact hcommitted
      · exact hcommitted.schedule hne _

theorem Lost.batch {lost : Nat} {batch : List (Nat × ApiKey)} (h : Lost now s lost)
    (hnot : lost ∉ batch.map Prod.fst) :
    Lost now (outcome (refreshBatch fwd enforced now turns batch s)) lost := by
  induction batch generalizing s with
  | nil => exact h.commit (by simp)
  | cons row rest ih =>
    rw [List.map_cons, List.mem_cons, not_or] at hnot
    have hturn := @Lost.turn fwd enforced now s row.1 turns lost h hnot.1
    rw [refreshBatch]
    cases hresult : refreshTurn fwd enforced now turns row.1 s with
    | error s' =>
      rw [hresult] at hturn
      exact hturn
    | ok s' =>
      rw [hresult] at hturn
      exact ih hturn hnot.2

theorem Lost.batches {lost : Nat} {batches : List (List (Nat × ApiKey))} (h : Lost now s lost)
    (hnot : lost ∉ batches.flatten.map Prod.fst) :
    Lost now (outcome (refreshBatches fwd enforced now turns batches s)) lost := by
  induction batches generalizing s with
  | nil => exact h
  | cons batch rest ih =>
    rw [List.flatten_cons, List.map_append, List.mem_append, not_or] at hnot
    have hbatch := @Lost.batch fwd enforced now s turns lost batch h hnot.1
    rw [refreshBatches]
    cases hresult : refreshBatch fwd enforced now turns batch s with
    | error s' =>
      rw [hresult] at hbatch
      exact hbatch
    | ok s' =>
      rw [hresult] at hbatch
      exact ih hbatch hnot.2

/-! ### Batches and the pass -/

/-- All keys have been attempted in order, and refresh later where they exist. -/
def AllDone (now : Instant) (s : PassState) (ids : List Nat) : Prop :=
  s.attempted = ids ∧ AllLater now s.world ids

theorem Reached.commit (h : Reached now s stake done todo) :
    Spared now done todo (.ok (s.commit enforced []))
      (if stake.waiting && stake.doomed then none else some {}) := by
  have hrefused :
      (s.pending.map Scheduled.write ++ []).any (Write.refused enforced s.world) =
        stake.doomed := by
    rw [List.append_nil, h.session.any_refused]
  split
  · next hlost =>
    obtain ⟨lost, hdone, hrow⟩ := h.session.lost_of_commit hrefused hlost
    exact ⟨lost, hdone, hrow, List.not_mem_nil⟩
  · next hkept =>
    have hlater : AllLater now (s.commit enforced []).world done := by
      show AllLater now (tryCommit enforced s.world (s.pending.map Scheduled.write ++ [])) done
      rw [tryCommit, hrefused]
      cases hdoomed : stake.doomed with
      | true =>
        rw [hdoomed, Bool.and_true, Bool.not_eq_true] at hkept
        exact h.session.allLater_iff.mpr hkept
      | false => exact h.session.allLater_commit hdoomed (by simp)
    refine ⟨sessionHolds_nil hlater, h.attempted, h.nodup,
      fun row hrow => ⟨?_, (h.todo row hrow).2⟩⟩
    have hnot : row.1 ∉ done := fun hdone =>
      (List.nodup_append.mp h.nodup).2.2 row.1 hdone row.1 (List.mem_map_of_mem hrow) rfl
    rw [← (h.todo row hrow).1]
    show (tryCommit enforced s.world (s.pending.map Scheduled.write ++ [])).key? row.1 = _
    rw [tryCommit]
    split
    · rfl
    · rw [List.append_nil, key?_commit_unscheduled (h.session.not_scheduled hnot)]

/-- What the stakes of a batch say about the pass, whose keys are `ids`. -/
def BatchKept (now : Instant) (done : List Nat) (more : List (Nat × ApiKey)) (ids : List Nat) :
    Except PassState PassState → Bool → Prop
  | .ok s, true => Reached now s {} done more
  | .ok s, false => ∃ lost ∈ done, Lost now s lost
  | .error s, true => more = [] ∧ AllDone now s ids
  | .error s, false => ¬AllDone now s ids

theorem not_allDone_of_lost {lost : Nat} {ids : List Nat} (h : Lost now s lost)
    (hmem : lost ∈ ids) :
    ¬AllDone now s ids := by
  rintro ⟨-, hlater⟩
  obtain ⟨row, hrow, hearlier⟩ := h.row
  exact hearlier (hlater lost hmem row hrow)

theorem refreshBatch_kept (hpos : PositiveIntervals fwd.config.creditMonitoring)
    {batch more : List (Nat × ApiKey)} (hclock : ∀ row ∈ batch, ClockMoves now (turns row.1) row.2)
    (h : Reached now s stake done (batch ++ more)) :
    BatchKept now (done ++ batch.map Prod.fst) more (done ++ (batch ++ more).map Prod.fst)
      (refreshBatch fwd enforced now turns batch s)
      (batchSpared fwd enforced now turns (!more.isEmpty) batch stake) := by
  induction batch generalizing s stake done with
  | nil =>
    have hcommit := @Reached.commit enforced now s stake done more h
    rw [List.map_nil, List.append_nil, refreshBatch, batchSpared]
    cases hlost : stake.waiting && stake.doomed with
    | true =>
      rw [hlost] at hcommit
      exact hcommit
    | false =>
      rw [hlost] at hcommit
      exact hcommit
  | cons row rest ih =>
    obtain ⟨id, key⟩ := row
    have hlast : (rest.isEmpty && !!more.isEmpty) = (rest ++ more).isEmpty := by
      rw [Bool.not_not]
      cases rest <;> rfl
    have hturn := @refreshTurn_spared fwd enforced now s stake done id key (rest ++ more) turns hpos
      (hclock (id, key) List.mem_cons_self) h
    have hnodup : (done ++ [id] ++ (rest ++ more).map Prod.fst).Nodup := by
      rw [List.append_assoc]
      exact h.nodup
    have hids :
        done ++ ((id, key) :: rest ++ more).map Prod.fst = done ++ [id] ++ (rest ++ more).map
          Prod.fst := by
      rw [List.append_assoc]
      rfl
    have hdone : done ++ ((id, key) :: rest).map Prod.fst = done ++ [id] ++ rest.map Prod.fst := by
      rw [List.append_assoc]
      rfl
    rw [hids, hdone, refreshBatch, batchSpared, hlast]
    cases hresult : refreshTurn fwd enforced now turns id s with
    | ok s' =>
      rw [hresult] at hturn
      cases hstake : stake.after fwd enforced now (rest ++ more).isEmpty key (turns id) with
      | some stake' =>
        rw [hstake] at hturn
        exact ih (fun row hrow => hclock row (List.mem_cons_of_mem _ hrow)) hturn
      | none =>
        rw [hstake] at hturn
        obtain ⟨lost, hlost, hrow⟩ := hturn
        have hnot : lost ∉ rest.map Prod.fst := by
          intro hmem
          rw [List.map_append] at hnodup
          exact (List.nodup_append.mp hnodup).2.2 lost hlost lost (List.mem_append_left _ hmem) rfl
        have hbatch := @Lost.batch fwd enforced now s' turns lost rest hrow hnot
        show BatchKept _ _ _ _ (refreshBatch fwd enforced now turns rest s') false
        cases hrest : refreshBatch fwd enforced now turns rest s' with
        | ok s'' =>
          rw [hrest] at hbatch
          exact ⟨lost, List.mem_append_left _ hlost, hbatch⟩
        | error s'' =>
          rw [hrest] at hbatch
          exact not_allDone_of_lost hbatch (List.mem_append_left _ hlost)
    | error s' =>
      rw [hresult] at hturn
      cases hstake : stake.after fwd enforced now (rest ++ more).isEmpty key (turns id) with
      | some stake' =>
        rw [hstake] at hturn
        obtain ⟨hwaiting, hnil, hattempted, hlater⟩ := hturn
        obtain ⟨rfl, rfl⟩ := List.append_eq_nil_iff.mp hnil
        simp only [batchSpared, hwaiting, Bool.false_and, Bool.not_false]
        refine ⟨rfl, ?_⟩
        rw [List.append_nil, List.map_nil, List.append_nil]
        exact ⟨hattempted, hlater⟩
      | none =>
        rw [hstake] at hturn
        obtain ⟨hattempted, hnil⟩ := hturn
        rintro ⟨hall, hlater⟩
        rw [hattempted, List.self_eq_append_right, List.map_eq_nil_iff] at hall
        rw [hall, List.map_nil, List.append_nil] at hlater
        exact hnil hall hlater

theorem passSpared_of_empty {batches : List (List (Nat × ApiKey))} (h : batches.flatten = []) :
    passSpared fwd enforced now turns batches = true := by
  induction batches with
  | nil => rfl
  | cons batch rest ih =>
    obtain ⟨rfl, hrest⟩ := List.append_eq_nil_iff.mp h
    rw [passSpared, ih hrest]
    rfl

/-- The keys of some batches end up done exactly where the stakes say so. -/
theorem refreshBatches_iff (hpos : PositiveIntervals fwd.config.creditMonitoring)
    {batches : List (List (Nat × ApiKey))}
    (hclock : ∀ row ∈ batches.flatten, ClockMoves now (turns row.1) row.2)
    (h : Reached now s {} done batches.flatten) :
    AllDone now (outcome (refreshBatches fwd enforced now turns batches s))
      (done ++ batches.flatten.map Prod.fst) ↔
      passSpared fwd enforced now turns batches = true := by
  induction batches generalizing s done with
  | nil =>
    refine iff_of_true ?_ rfl
    rw [List.flatten_nil, List.map_nil, List.append_nil]
    exact ⟨h.attempted, h.session.allLater_iff.mpr rfl⟩
  | cons batch rest ih =>
    rw [List.flatten_cons] at hclock h
    have hbatch := @refreshBatch_kept fwd enforced now s {} done turns hpos batch rest.flatten
      (fun row hrow => hclock row (List.mem_append_left _ hrow)) h
    have hnodup := h.nodup
    rw [List.map_append, ← List.append_assoc] at hnodup
    rw [List.flatten_cons, refreshBatches, passSpared]
    cases hresult : refreshBatch fwd enforced now turns batch s with
    | ok s' =>
      rw [hresult] at hbatch
      cases hspared : batchSpared fwd enforced now turns (!rest.flatten.isEmpty) batch {} with
      | true =>
        rw [hspared] at hbatch
        rw [Bool.true_and, ← ih (fun row hrow => hclock row (List.mem_append_right _ hrow)) hbatch,
          List.map_append, List.append_assoc]
        rfl
      | false =>
        rw [hspared] at hbatch
        obtain ⟨lost, hmem, hlost⟩ := hbatch
        have hnot : lost ∉ rest.flatten.map Prod.fst := fun hrest =>
          (List.nodup_append.mp hnodup).2.2 lost hmem lost hrest rfl
        refine iff_of_false ?_ Bool.false_ne_true
        apply not_allDone_of_lost (hlost.batches hnot)
        rw [List.map_append, ← List.append_assoc]
        exact List.mem_append_left _ hmem
    | error s' =>
      rw [hresult] at hbatch
      cases hspared : batchSpared fwd enforced now turns (!rest.flatten.isEmpty) batch {} with
      | true =>
        rw [hspared] at hbatch
        exact iff_of_true hbatch.2 (passSpared_of_empty hbatch.1)
      | false =>
        rw [hspared] at hbatch
        exact iff_of_false hbatch Bool.false_ne_true

end

theorem flatten_batches {α : Type} {size : Nat} (hsize : 0 < size) (keys : List α) :
    (batches size keys).flatten = keys := by
  have htake :
      ∀ n, ((List.range n).map fun i => (keys.drop (i * size)).take size).flatten =
        keys.take (n * size) := by
    intro n
    induction n with
    | zero => simp
    | succ n ih =>
      rw [List.range_succ, List.map_append, List.flatten_append, ih, Nat.succ_mul, List.take_add]
      simp
  rw [batches, htake]
  apply List.take_of_length_le
  have hdiv := Nat.div_add_mod (keys.length + size - 1) size
  have hmod := Nat.mod_lt (keys.length + size - 1) hsize
  rw [Nat.mul_comm] at hdiv
  omega

section

variable {fwd : Forwarder} {enforced : Bool} {now : Instant} {turns : Nat → KeyTurn} {w : World}
  {cleanupAt : Instant}

/-- The clean-up and the close of the session leave the keys as the batches do. -/
theorem refreshPass_outcome {size : Nat}
    (hsize : (max fwd.config.creditMonitoring.batchSize 1).toNat = size) (hpos : 0 < size)
    {ids : List Nat} :
    AllDone now (refreshPass fwd enforced now turns cleanupAt w) ids ↔
      AllDone now
        (outcome (refreshBatches fwd enforced now turns
          (batches size (w.db.keys.select (refreshDue now))) { world := w }))
        ids := by
  rw [refreshPass]
  simp only [hsize]
  split
  · next hempty =>
    have hnone : batches size (w.db.keys.select (refreshDue now)) = [] := by
      rw [List.isEmpty_iff.mp hempty, batches, List.length_nil, Nat.zero_add,
        Nat.div_eq_of_lt (by omega)]
      rfl
    rw [hnone]
    rfl
  · split
    · next s hs => rw [hs]; rfl
    · next s hs =>
      rw [hs]
      simp only [AllDone, AllLater, key?_cleanupOldSnapshots, outcome]

/-- One call attempts every due key once, in id order, and leaves those that exist to be refreshed
later than it began, if and only if no purge meets a commit that it or a key before it waits for. -/
theorem refresh_isolated_iff (hpos : PositiveIntervals fwd.config.creditMonitoring)
    (hclock : ∀ row ∈ w.db.keys.select (refreshDue now), ClockMoves now (turns row.1) row.2) :
    PassIsolated now w (refreshPass fwd enforced now turns cleanupAt w) ↔
      passSpared fwd enforced now turns
        (batches (max fwd.config.creditMonitoring.batchSize 1).toNat
          (w.db.keys.select (refreshDue now))) = true := by
  have hsize : 0 < (max fwd.config.creditMonitoring.batchSize 1).toNat := by omega
  have hflatten := flatten_batches hsize (w.db.keys.select (refreshDue now))
  have hnodup : ((w.db.keys.select (refreshDue now)).map Prod.fst).Nodup :=
    (List.pairwise_map.mpr (Table.pairwise_select w.db.keys (refreshDue now))).imp Nat.ne_of_lt
  have hstart : Reached now { world := w } {} []
      (batches (max fwd.config.creditMonitoring.batchSize 1).toNat
       (w.db.keys.select (refreshDue now))).flatten := by
    rw [hflatten]
    refine ⟨sessionHolds_nil (by simp [AllLater]), rfl, hnodup, fun row hrow => ?_⟩
    exact Table.mem_select.mp hrow
  rw [← refreshBatches_iff hpos (by rwa [hflatten]) hstart, ← refreshPass_outcome rfl hsize,
    hflatten]
  constructor
  · rintro ⟨hattempted, hlater⟩
    refine ⟨hattempted, fun id hid => ?_⟩
    obtain ⟨row, hrow, rfl⟩ := List.mem_map.mp hid
    exact hlater row hrow
  · rintro ⟨hattempted, hlater⟩
    exact ⟨hattempted, fun row hrow => hlater row.1 (List.mem_map_of_mem hrow)⟩

end

/-! ### A pass over two keys -/

/-- Two keys that are due. -/
def dueKeys : World :=
  { db :=
      { keys :=
          (Table.empty.insert { apiKeyCiphertext := [1] }).insert { apiKeyCiphertext := [2] } } }

/-- The first fetch times out, the second is answered or fails to connect, and the given key is
purged meanwhile. -/
def turnOf (outcome : Outcome) (purged id : Nat) : KeyTurn :=
  { env := { outcome := if id = 1 then .timeout else outcome, now := 10, writtenAt := 20 }
    purged := id = purged
    refreshedAt := 30 }

/-- If the first key is purged during a fetch that times out, the second is not attempted. If the
second is purged during one that cannot connect, both are, and the first keeps no next refresh. -/
theorem purge_not_isolated :
    ¬PassIsolated 0 dueKeys (refreshPass defaultForwarder false 0 (turnOf (.httpError "refused") 1)
      40 dueKeys) ∧
      (refreshPass defaultForwarder false 0 (turnOf (.httpError "refused") 2) 40
        dueKeys).attempted = [1, 2] ∧
      ¬PassIsolated 0 dueKeys
        (refreshPass defaultForwarder false 0 (turnOf (.httpError "refused") 2) 40 dueKeys) := by
  refine ⟨fun h => ?_, by decide, fun h => ?_⟩
  · have hattempted := h.attempted
    revert hattempted
    decide
  · obtain ⟨t, ht, -⟩ :=
      h.later (1, { apiKeyCiphertext := [1] }) (by decide) { apiKeyCiphertext := [1] } (by decide)
    cases ht

/-- If both time out and the second is purged meanwhile, the first still refreshes later. -/
theorem dueKeys_isolated :
    PassIsolated 0 dueKeys
      (refreshPass defaultForwarder false 0 (turnOf .timeout 2) 40 dueKeys) := by
  have hnever : ∀ row ∈ dueKeys.db.keys.select (refreshDue 0), row.2.lastCreditCheckAt = none := by
    decide
  apply (refresh_isolated_iff ⟨by decide, by decide, by decide, by decide, by decide⟩
    fun row hrow => ?_).mpr
  · decide
  · refine ⟨show (0 : Int) ≤ 20 by decide, show (0 : Int) ≤ 30 by decide, ?_⟩
    rw [hnever row hrow]
    nofun

end Fcam
