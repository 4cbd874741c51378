import Fcam.Proof.RefreshFetch

/-!
# What the session of a pass has pending

The times of earlier keys go along with the next commit. It stores them all, unless a row it changes
is gone: then it stores none, and a key that exists keeps the refresh time it had.
-/

namespace Fcam

/-- What hangs on the next commit of the session: whether a key that exists has its time only
pending, and whether the commit will be refused, since a row it changes is gone. -/
structure Stake where
  waiting : Bool := false
  doomed : Bool := false

/-! ### One session -/

@[simp] theorem key?_purgeKey (w : World) (id other : Nat) :
    (purgeKey false id w).2.key? other = if other = id then none else w.key? other := by
  rw [purgeKey]
  split
  · next hnone =>
    split
    · next heq => rw [heq, Option.isNone_iff_eq_none.mp hnone]
    · rfl
  · rw [Bool.false_and, if_neg Bool.false_ne_true]
    show (w.db.keys.deleteWhere fun row _ => row == id).get? other = _
    by_cases heq : other = id
    · subst heq
      rw [if_pos rfl, Table.get?_deleteWhere, beq_self_eq_true]
      cases w.db.keys.get? other <;> rfl
    · rw [if_neg heq, Table.get?_delete_of_ne w.db.keys heq]
      rfl

theorem commit_append (first second : List Write) (w : World) :
    commit (first ++ second) w = commit second (commit first w) :=
  List.foldl_append

theorem key?_commit_of_ne {writes : List Write} {id : Nat} {w : World}
    (hne : ∀ write ∈ writes, ∀ loaded current, write ≠ .key id loaded current) :
    (commit writes w).key? id = w.key? id := by
  induction writes generalizing w with
  | nil => rfl
  | cons write rest ih =>
    rw [commit_cons, ih fun other hother => hne other (List.mem_cons_of_mem write hother)]
    cases write with
    | key other loaded current =>
      have hother : id ≠ other := by
        rintro rfl
        exact hne _ List.mem_cons_self loaded current rfl
      show (w.modifyKey other _).key? id = _
      rw [World.key?_modifyKey, if_neg hother]
    | client other loaded current => rfl
    | roundRobin scope idx => rfl
    | failures other entry => rfl
    | snapshot row => rfl

section

variable {pending : List Scheduled} {w : World}

theorem key?_commit_unscheduled {id : Nat} (hnot : id ∉ pending.map Scheduled.id) :
    (commit (pending.map Scheduled.write) w).key? id = w.key? id := by
  apply key?_commit_of_ne
  rintro write hwrite loaded current rfl
  obtain ⟨p, hp, heq⟩ := List.mem_map.mp hwrite
  apply hnot
  rw [← (Write.key.inj heq).1]
  exact List.mem_map_of_mem hp

/-- A scheduled time is stored where the row is still the one that was loaded. -/
theorem key?_commit_scheduled (hids : (pending.map Scheduled.id).Nodup) {p : Scheduled}
    (hp : p ∈ pending) (hloaded : w.key? p.id = some p.loaded) :
    (commit (pending.map Scheduled.write) w).key? p.id =
      some (scheduleRefresh p.nextRefreshAt p.loaded) := by
  induction pending generalizing w with
  | nil => cases hp
  | cons first rest ih =>
    rw [List.map_cons, List.nodup_cons] at hids
    have hfirst : ∀ id, (first.write.apply w).key? id =
        if id = first.id then
          (w.key? id).map
            (ApiKey.save first.loaded (scheduleRefresh first.nextRefreshAt first.loaded))
        else w.key? id := fun id => World.key?_modifyKey w first.id id _
    rw [List.map_cons, commit_cons]
    rcases List.mem_cons.mp hp with rfl | hp
    · rw [key?_commit_unscheduled hids.1, hfirst, if_pos rfl, hloaded, Option.map_some,
        ApiKey.save_fresh]
    · have hne : p.id ≠ first.id := by
        intro heq
        rw [← heq] at hids
        exact hids.1 (List.mem_map_of_mem hp)
      apply ih hids.2 hp
      rw [hfirst, if_neg hne, hloaded]

end

/-- The keys with some ids refresh later, where they exist. -/
def AllLater (now : Instant) (w : World) (ids : List Nat) : Prop :=
  ∀ id ∈ ids, ∀ key, w.key? id = some key → RefreshesAfter now key

/-- What is pending after the turns of some keys. Each of these keys is gone, refreshes later or has
its time pending. -/
structure SessionHolds (now : Instant) (w : World) (pending : List Scheduled) (stake : Stake)
    (done : List Nat) :
    Prop where
  ids : (pending.map Scheduled.id).Nodup
  scheduled : ∀ p ∈ pending, p.id ∈ done ∧ now < p.nextRefreshAt ∧
    (w.key? p.id = some p.loaded ∨ w.key? p.id = none ∧ ¬RefreshesAfter now p.loaded)
  kept : ∀ id ∈ done, ∀ key, w.key? id = some key → RefreshesAfter now key ∨
    id ∈ pending.map Scheduled.id
  waiting : stake.waiting = true ↔
    ∃ p ∈ pending, ∃ key, w.key? p.id = some key ∧ ¬RefreshesAfter now key
  doomed : stake.doomed = true ↔ ∃ p ∈ pending, w.key? p.id = none

section

variable {now : Instant} {enforced : Bool} {w w' : World} {pending : List Scheduled} {stake : Stake}
  {done : List Nat}

theorem sessionHolds_nil (hlater : AllLater now w done) : SessionHolds now w [] {} done := by
  refine ⟨List.nodup_nil, by simp,
    fun id hid key hkey => .inl (hlater id hid key hkey), by simp, by simp⟩

theorem SessionHolds.congr (h : SessionHolds now w pending stake done)
    (hsame : ∀ id ∈ done, w'.key? id = w.key? id) :
    SessionHolds now w' pending stake done := by
  have hpending : ∀ p ∈ pending, w'.key? p.id = w.key? p.id :=
    fun p hp => hsame p.id (h.scheduled p hp).1
  refine ⟨h.ids, fun p hp => ?_, fun id hid key hkey => ?_, ?_, ?_⟩
  · rw [hpending p hp]
    exact h.scheduled p hp
  · rw [hsame id hid] at hkey
    exact h.kept id hid key hkey
  · rw [h.waiting]
    apply exists_congr
    intro p
    apply and_congr_right
    intro hp
    rw [hpending p hp]
  · rw [h.doomed]
    apply exists_congr
    intro p
    apply and_congr_right
    intro hp
    rw [hpending p hp]

theorem SessionHolds.any_refused (h : SessionHolds now w pending stake done) :
    (pending.map Scheduled.write).any (Write.refused enforced w) = stake.doomed := by
  rw [Bool.eq_iff_iff, h.doomed, List.any_map, List.any_eq_true]
  apply exists_congr
  intro p
  apply and_congr_right
  intro hp
  obtain ⟨-, hlater, hrow⟩ := h.scheduled p hp
  rcases hrow with hloaded | ⟨hgone, hearlier⟩
  · simp [Scheduled.write, Write.refused, hloaded]
  · have hchanged : scheduleRefresh p.nextRefreshAt p.loaded ≠ p.loaded := by
      intro hsame
      exact hearlier ⟨p.nextRefreshAt, by rw [← hsame]; rfl, hlater⟩
    simp [Scheduled.write, Write.refused, hgone, hchanged]

theorem SessionHolds.waiting_of_not_later (h : SessionHolds now w pending stake done) {id : Nat}
    (hid : id ∈ done) {key : ApiKey} (hkey : w.key? id = some key)
    (hearlier : ¬RefreshesAfter now key) : stake.waiting = true := by
  obtain ⟨p, hp, rfl⟩ := List.mem_map.mp ((h.kept id hid key hkey).resolve_left hearlier)
  exact h.waiting.mpr ⟨p, hp, key, hkey, hearlier⟩

theorem SessionHolds.allLater_iff (h : SessionHolds now w pending stake done) :
    AllLater now w done ↔ stake.waiting = false := by
  rw [← Bool.not_eq_true]
  constructor
  · intro hlater hwaiting
    obtain ⟨p, hp, key, hkey, hearlier⟩ := h.waiting.mp hwaiting
    exact hearlier (hlater p.id (h.scheduled p hp).1 key hkey)
  · intro hnot id hid key hkey
    by_contra hearlier
    exact hnot (h.waiting_of_not_later hid hkey hearlier)

/-- A commit that goes through stores every pending time. -/
theorem SessionHolds.allLater_commit (h : SessionHolds now w pending stake done)
    (haccepted : stake.doomed = false) {writes : List Write}
    (hothers : ∀ id ∈ done, ∀ write ∈ writes, ∀ loaded current, write ≠ .key id loaded current) :
    AllLater now (commit (pending.map Scheduled.write ++ writes) w) done := by
  intro id hid key hkey
  rw [commit_append, key?_commit_of_ne (hothers id hid)] at hkey
  by_cases hmem : id ∈ pending.map Scheduled.id
  · obtain ⟨p, hp, rfl⟩ := List.mem_map.mp hmem
    obtain ⟨-, hlater, hrow⟩ := h.scheduled p hp
    rcases hrow with hloaded | ⟨hgone, -⟩
    · rw [key?_commit_scheduled h.ids hp hloaded] at hkey
      obtain rfl := Option.some.inj hkey
      exact ⟨p.nextRefreshAt, rfl, hlater⟩
    · rw [h.doomed.mpr ⟨p, hp, hgone⟩] at haccepted
      cases haccepted
  · rw [key?_commit_unscheduled hmem] at hkey
    exact (h.kept id hid key hkey).resolve_right hmem

/-- One more key has its time pending. It waits if it exists, and spoils the next commit if it is
gone. -/
theorem SessionHolds.push (h : SessionHolds now w pending stake done) {id : Nat} (hnew : id ∉ done)
    {key : ApiKey} (hrow : w.key? id = some key ∨ w.key? id = none ∧ ¬RefreshesAfter now key)
    {nextRefreshAt : Instant} (hlater : now < nextRefreshAt) {stake' : Stake}
    (hwaiting : stake'.waiting = true ↔
      stake.waiting = true ∨ ∃ row, w.key? id = some row ∧ ¬RefreshesAfter now row)
    (hdoomed : stake'.doomed = true ↔ stake.doomed = true ∨ w.key? id = none) :
    SessionHolds now w (pending ++ [{ id, loaded := key, nextRefreshAt }]) stake'
      (done ++ [id]) := by
  have hids : ∀ p ∈ pending, p.id ≠ id := by
    rintro p hp rfl
    exact hnew (h.scheduled p hp).1
  constructor
  · rw [List.map_append, List.nodup_append]
    refine ⟨h.ids, List.nodup_singleton id, ?_⟩
    intro other hother new hnew heq
    obtain ⟨p, hp, rfl⟩ := List.mem_map.mp hother
    exact hids p hp (heq.trans (List.mem_singleton.mp hnew))
  · intro p hp
    rcases List.mem_append.mp hp with hp | hp
    · obtain ⟨hdone, hrest⟩ := h.scheduled p hp
      exact ⟨List.mem_append_left _ hdone, hrest⟩
    · obtain rfl := List.mem_singleton.mp hp
      exact ⟨List.mem_append_right _ (List.mem_singleton_self id), hlater, hrow⟩
  · intro other hother row hrow
    rw [List.map_append, List.mem_append]
    rcases List.mem_append.mp hother with hdone | hsame
    · exact (h.kept other hdone row hrow).imp_right .inl
    · exact .inr (.inr hsame)
  · simp only [hwaiting, h.waiting, List.mem_append, List.mem_singleton, or_and_right, exists_or,
      exists_eq_left]
  · simp only [hdoomed, h.doomed, List.mem_append, List.mem_singleton, or_and_right, exists_or,
      exists_eq_left]

end

section

variable {now : Instant} {enforced : Bool} {w : World} {pending : List Scheduled} {stake : Stake}
  {done : List Nat} {id : Nat} {key current : ApiKey} {changesRow : Bool} {writes : List Write}

theorem SessionHolds.not_scheduled (h : SessionHolds now w pending stake done) {other : Nat}
    (hother : other ∉ done) :
    other ∉ pending.map Scheduled.id := by
  intro hmem
  obtain ⟨p, hp, rfl⟩ := List.mem_map.mp hmem
  exact hother (h.scheduled p hp).1

theorem SessionHolds.refused (h : SessionHolds now w pending stake done)
    (hown : OwnWrites enforced id key changesRow current writes) :
    (pending.map Scheduled.write ++ writes).any (Write.refused enforced w) =
      (stake.doomed || ((w.key? id).isNone && (enforced || changesRow))) := by
  rw [List.any_append, h.any_refused, hown.refused]

variable {refused : Bool}

theorem SessionHolds.later_of_commit (h : SessionHolds now w pending stake done)
    (hown : OwnWrites enforced id key changesRow current writes) (hid : id ∉ done)
    (hrefused : (pending.map Scheduled.write ++ writes).any (Write.refused enforced w) = refused)
    (hkept : (stake.waiting && refused) = false) :
    AllLater now (tryCommit enforced w (pending.map Scheduled.write ++ writes)) done := by
  rw [tryCommit, hrefused]
  cases refused with
  | true =>
    rw [Bool.and_true] at hkept
    exact h.allLater_iff.mpr hkept
  | false =>
    rw [h.refused hown, Bool.or_eq_false_iff] at hrefused
    apply h.allLater_commit hrefused.1
    intro other hother
    apply hown.others
    rintro rfl
    exact hid hother

theorem SessionHolds.lost_of_commit (h : SessionHolds now w pending stake done)
    (hrefused : (pending.map Scheduled.write ++ writes).any (Write.refused enforced w) = refused)
    (hlost : (stake.waiting && refused) = true) :
    ∃ lost ∈ done, ∃ key, (tryCommit enforced w (pending.map Scheduled.write ++ writes)).key? lost =
      some key ∧
      ¬RefreshesAfter now key := by
  obtain ⟨hwaiting, rfl⟩ := Bool.and_eq_true_iff.mp hlost
  obtain ⟨p, hp, key, hkey, hearlier⟩ := h.waiting.mp hwaiting
  rw [tryCommit, if_pos hrefused]
  exact ⟨p.id, (h.scheduled p hp).1, key, hkey, hearlier⟩

theorem SessionHolds.commit_others (h : SessionHolds now w pending stake done)
    (hown : OwnWrites enforced id key changesRow current writes) {other : Nat} (hne : other ≠ id)
    (hother : other ∉ done) :
    (tryCommit enforced w (pending.map Scheduled.write ++ writes)).key? other = w.key? other := by
  rw [tryCommit]
  split
  · rfl
  · rw [commit_append, key?_commit_of_ne (hown.others other hne),
      key?_commit_unscheduled (h.not_scheduled hother)]

theorem SessionHolds.commit_gone (h : SessionHolds now w pending stake done)
    (hown : OwnWrites enforced id key changesRow current writes) (hid : id ∉ done)
    (hgone : w.key? id = none) :
    (tryCommit enforced w (pending.map Scheduled.write ++ writes)).key? id = none := by
  rw [tryCommit]
  split
  · exact hgone
  · rw [commit_append]
    apply hown.gone
    rw [key?_commit_unscheduled (h.not_scheduled hid), hgone]

theorem SessionHolds.commit_stored (h : SessionHolds now w pending stake done)
    (hown : OwnWrites enforced id key changesRow current writes) (hid : id ∉ done)
    (hkey : w.key? id = some key)
    (hrefused : (pending.map Scheduled.write ++ writes).any (Write.refused enforced w) = refused) :
    (tryCommit enforced w (pending.map Scheduled.write ++ writes)).key? id =
      some (if refused then key else current) := by
  rw [tryCommit, hrefused]
  cases refused with
  | true => exact hkey
  | false =>
    rw [if_neg Bool.false_ne_true, if_neg Bool.false_ne_true, commit_append]
    apply hown.stored
    rw [key?_commit_unscheduled (h.not_scheduled hid), hkey]

end

end Fcam
