import Mathlib.Tactic.Common

/-!
# Bounded loops with exits

One pass of a loop either goes round again with a new state or leaves the loop with a result.
`loopWhile` runs at most `fuel` passes while a guard holds, and `loopWhile_counted` is the invariant
rule: what holds of the state before every pass holds of the state the loop ends in, and what every
leaving pass guarantees holds of the result.
-/

namespace Fcam

inductive Pass (σ ρ : Type) where
  | again (s : σ)
  | done (r : ρ)

/-- The state of a pass that goes round satisfies `inv`, the result of one that leaves `post`. -/
def Pass.Satisfies {σ ρ : Type} (inv : σ → Prop) (post : ρ → Prop) : Pass σ ρ → Prop
  | .again s => inv s
  | .done r => post r

variable {σ ρ : Type}

@[simp] theorem Pass.satisfies_again (inv : σ → Prop) (post : ρ → Prop) (s : σ) :
    (Pass.again s : Pass σ ρ).Satisfies inv post ↔ inv s :=
  Iff.rfl

@[simp] theorem Pass.satisfies_done (inv : σ → Prop) (post : ρ → Prop) (r : ρ) :
    (Pass.done r : Pass σ ρ).Satisfies inv post ↔ post r :=
  Iff.rfl

/-- What a pass leaves, seen through two functions. -/
def Pass.map {σ ρ σ' ρ' : Type} (f : σ → σ') (g : ρ → ρ') : Pass σ ρ → Pass σ' ρ'
  | .again s => .again (f s)
  | .done r => .done (g r)

/-- Both passes go round, with related states, or both leave, with related results. -/
inductive Pass.Related {σ ρ σ' ρ' : Type} (inv : σ → σ' → Prop) (post : ρ → ρ' → Prop) :
    Pass σ ρ → Pass σ' ρ' → Prop
    where
  | again {s : σ} {s' : σ'} (hinv : inv s s') : Related inv post (.again s) (.again s')
  | done {r : ρ} {r' : ρ'} (hpost : post r r') : Related inv post (.done r) (.done r')

theorem Pass.Related.ite {σ ρ σ' ρ' : Type} {inv : σ → σ' → Prop} {post : ρ → ρ' → Prop}
    {c c' : Prop} [Decidable c] [Decidable c'] {a b : Pass σ ρ} {a' b' : Pass σ' ρ'} (hiff : c ↔ c')
    (hthen : a.Related inv post a') (helse : b.Related inv post b') :
    (if c then a else b).Related inv post (if c' then a' else b') := by
  by_cases h : c
  · rw [if_pos h, if_pos (hiff.mp h)]
    exact hthen
  · rw [if_neg h, if_neg fun h' => h (hiff.mpr h')]
    exact helse

/-- At most `fuel` passes, the first with index `i`, while the guard holds. -/
def loopWhile (guard : σ → Bool) (pass : Nat → σ → Pass σ ρ) : Nat → Nat → σ → Pass σ ρ
  | 0, _, s => .again s
  | fuel + 1, i, s =>
    if guard s then
      match pass i s with
      | .again s' => loopWhile guard pass fuel (i + 1) s'
      | .done r => .done r
    else .again s

variable (guard : σ → Bool) (pass : Nat → σ → Pass σ ρ)

/-- The invariant may depend on the number of the pass. -/
theorem loopWhile_counted {inv : Nat → σ → Prop} {post : ρ → Prop} (fuel i : Nat)
    (hpass : ∀ j, j < i + fuel → ∀ s, inv j s → guard s = true →
      (pass j s).Satisfies (inv (j + 1)) post) (s : σ)
    (hinv : inv i s) :
    (loopWhile guard pass fuel i s).Satisfies (fun s => ∃ j, j ≤ i + fuel ∧ inv j s) post := by
  induction fuel generalizing i s with
  | zero => exact ⟨i, Nat.le_refl _, hinv⟩
  | succ fuel ih =>
    rw [loopWhile]
    split
    · next hguard =>
      have hnext := hpass i (by omega) s hinv hguard
      have hrest : ∀ s', inv (i + 1) s' → (loopWhile guard pass fuel (i + 1) s').Satisfies
          (fun s => ∃ j, j ≤ i + (fuel + 1) ∧ inv j s) post := by
        intro s' hs'
        have hbound : i + 1 + fuel = i + (fuel + 1) := by omega
        rw [← hbound]
        exact ih (i + 1) (fun j hj => hpass j (by omega)) s' hs'
      cases hcase : pass i s with
      | again s' =>
        rw [hcase] at hnext
        exact hrest s' hnext
      | done r =>
        rw [hcase] at hnext
        exact hnext
    · exact ⟨i, by omega, hinv⟩

theorem loopWhile_satisfies {inv : σ → Prop} {post : ρ → Prop} (fuel i : Nat)
    (hpass : ∀ j, j < i + fuel → ∀ s, inv s → guard s = true → (pass j s).Satisfies inv post)
    (s : σ) (hinv : inv s) : (loopWhile guard pass fuel i s).Satisfies inv post := by
  have hcounted := loopWhile_counted guard pass fuel i hpass s hinv
  cases hcase : loopWhile guard pass fuel i s with
  | again s' =>
    rw [hcase] at hcounted
    obtain ⟨_, _, hlast⟩ := hcounted
    exact hlast
  | done r =>
    rw [hcase] at hcounted
    exact hcounted

theorem loopWhile_done_of_last (fuel i : Nat) (hlast : ∀ s, ∃ r, pass (i + fuel) s = .done r)
    (s : σ) :
    ∃ r, loopWhile (fun _ => true) pass (fuel + 1) i s = .done r := by
  induction fuel generalizing i s with
  | zero =>
    obtain ⟨r, hdone⟩ := hlast s
    rw [Nat.add_zero] at hdone
    exact ⟨r, by simp only [loopWhile, hdone, if_true]⟩
  | succ fuel ih =>
    rw [loopWhile, if_pos rfl]
    cases pass i s with
    | again s' =>
      exact ih (i + 1) (fun s => by rw [show i + 1 + fuel = i + (fuel + 1) by omega]; exact hlast s)
        s'
    | done r => exact ⟨r, rfl⟩

theorem loopWhile_congr {pass' : Nat → σ → Pass σ ρ} (fuel i : Nat)
    (hpass : ∀ j, i ≤ j → pass j = pass' j) (s : σ) :
    loopWhile guard pass fuel i s = loopWhile guard pass' fuel i s := by
  induction fuel generalizing i s with
  | zero => rfl
  | succ fuel ih =>
    rw [loopWhile, loopWhile, hpass i (Nat.le_refl i)]
    split
    · cases pass' i s with
      | again s' => exact ih (i + 1) (fun j hj => hpass j (by omega)) s'
      | done r => rfl
    · rfl

variable {pass} in
/-- Two loops stay related where their passes do. -/
theorem loopWhile_related {σ' ρ' : Type} (guard' : σ' → Bool) {pass' : Nat → σ' → Pass σ' ρ'}
    {inv : σ → σ' → Prop} {post : ρ → ρ' → Prop} (hguard : ∀ s s', inv s s' → guard s = guard' s')
    (hpass : ∀ i s s', inv s s' → (pass i s).Related inv post (pass' i s')) (fuel i : Nat) (s : σ)
    (s' : σ') (hinv : inv s s') :
    (loopWhile guard pass fuel i s).Related inv post (loopWhile guard' pass' fuel i s') := by
  induction fuel generalizing i s s' with
  | zero => exact .again hinv
  | succ fuel ih =>
    rw [loopWhile, loopWhile, ← hguard s s' hinv]
    split
    · have hnext := hpass i s s' hinv
      revert hnext
      generalize pass i s = first
      generalize pass' i s' = second
      intro hnext
      cases hnext with
      | again hstates => exact ih (i + 1) _ _ hstates
      | done hresults => exact .done hresults
    · exact .again hinv

/-- Going round from pass `i` in a state, a loop gets to pass `j` in another one. -/
inductive Reaches : Nat → σ → Nat → σ → Prop where
  | here (i : Nat) (s : σ) : Reaches i s i s
  | again {i j : Nat} {s s' last : σ} (hguard : guard s = true) (hpass : pass i s = .again s')
      (hrest : Reaches (i + 1) s' j last) : Reaches i s j last

variable {guard pass}

theorem Reaches.next {i j : Nat} {s last s' : σ} (h : Reaches guard pass i s j last)
    (hguard : guard last = true) (hpass : pass j last = .again s') :
    Reaches guard pass i s (j + 1) s' := by
  induction h with
  | here i s => exact .again hguard hpass (.here (i + 1) s')
  | again hfirst hagain _ ih => exact .again hfirst hagain (ih hguard hpass)

theorem Reaches.le {i j : Nat} {s last : σ} (h : Reaches guard pass i s j last) : i ≤ j := by
  induction h with
  | here i s => exact Nat.le_refl i
  | again _ _ _ ih => omega

/-- What the passes keep holds wherever the loop gets to. -/
theorem Reaches.invariant {inv : Nat → σ → Prop} {i j : Nat} {s last : σ}
    (h : Reaches guard pass i s j last)
    (hpass : ∀ k s s', k < j → inv k s → guard s = true → pass k s = .again s' → inv (k + 1) s')
    (hinv : inv i s) :
    inv j last := by
  induction h with
  | here i s => exact hinv
  | again hguard hagain hrest ih => exact ih hpass (hpass _ _ _ hrest.le hinv hguard hagain)

theorem loopWhile_again {fuel i : Nat} {s last : σ}
    (h : loopWhile guard pass fuel i s = .again last) :
    ∃ j, Reaches guard pass i s j last ∧ (j = i + fuel ∨ guard last = false) := by
  induction fuel generalizing i s with
  | zero =>
    obtain rfl := Pass.again.inj h
    exact ⟨i, .here i s, .inl rfl⟩
  | succ fuel ih =>
    rw [loopWhile] at h
    split at h
    · next hguard =>
      cases hpass : pass i s with
      | done r =>
        rw [hpass] at h
        cases h
      | again s' =>
        rw [hpass] at h
        obtain ⟨j, hreaches, hend⟩ := ih h
        exact ⟨j, .again hguard hpass hreaches, hend.imp_left fun heq => by omega⟩
    · next hguard =>
      obtain rfl := Pass.again.inj h
      exact ⟨i, .here i s, .inr (Bool.not_eq_true _ ▸ hguard)⟩

theorem loopWhile_done {fuel i : Nat} {s : σ} {r : ρ}
    (h : loopWhile guard pass fuel i s = .done r) :
    ∃ j last, Reaches guard pass i s j last ∧ guard last = true ∧ pass j last = .done r := by
  induction fuel generalizing i s with
  | zero => cases h
  | succ fuel ih =>
    rw [loopWhile] at h
    split at h
    · next hguard =>
      cases hpass : pass i s with
      | done r' =>
        rw [hpass] at h
        cases h
        exact ⟨i, s, .here i s, hguard, hpass⟩
      | again s' =>
        rw [hpass] at h
        obtain ⟨j, last, hreaches, hlast⟩ := ih h
        exact ⟨j, last, .again hguard hpass hreaches, hlast⟩
    · cases h

variable (guard pass) in
/-- Within its passes the loop, from pass `i` on, gets to one of a kind. -/
def ReachesHit (hits : Nat → σ → Prop) (fuel i : Nat) (s : σ) : Prop :=
  ∃ j last, j < i + fuel ∧ Reaches guard pass i s j last ∧ guard last = true ∧ hits j last

variable {hits : Nat → σ → Prop}

theorem not_reachesHit_zero (i : Nat) (s : σ) : ¬ReachesHit guard pass hits 0 i s := by
  rintro ⟨j, last, hj, hreaches, _⟩
  have hle := hreaches.le
  omega

theorem not_reachesHit_of_guard {fuel i : Nat} {s : σ} (hguard : ¬guard s = true) :
    ¬ReachesHit guard pass hits fuel i s := by
  rintro ⟨j, last, _, hreaches, hlast, _⟩
  cases hreaches with
  | here => exact hguard hlast
  | again hfirst => exact hguard hfirst

theorem reachesHit_of_done {fuel i : Nat} {s : σ} {r : ρ} (hguard : guard s = true)
    (hpass : pass i s = .done r) :
    ReachesHit guard pass hits (fuel + 1) i s ↔ hits i s := by
  constructor
  · rintro ⟨j, last, _, hreaches, _, hhit⟩
    cases hreaches with
    | here => exact hhit
    | again _ hagain =>
      rw [hpass] at hagain
      cases hagain
  · intro hhit
    exact ⟨i, s, by omega, .here i s, hguard, hhit⟩

theorem reachesHit_of_again {fuel i : Nat} {s s' : σ} (hguard : guard s = true)
    (hpass : pass i s = .again s') :
    ReachesHit guard pass hits (fuel + 1) i s ↔
      hits i s ∨ ReachesHit guard pass hits fuel (i + 1) s' := by
  constructor
  · rintro ⟨j, last, hj, hreaches, hlast, hhit⟩
    cases hreaches with
    | here => exact .inl hhit
    | again _ hagain hrest =>
      rw [hpass, Pass.again.injEq] at hagain
      subst hagain
      exact .inr ⟨j, last, by omega, hrest, hlast, hhit⟩
  · rintro (hhit | ⟨j, last, hj, hreaches, hlast, hhit⟩)
    · exact ⟨i, s, by omega, .here i s, hguard, hhit⟩
    · exact ⟨j, last, by omega, .again hguard hpass hreaches, hlast, hhit⟩

variable (guard) in
/-- Where a pass leaves a property if it held before or the pass is of a kind, the loop leaves it if
it held at first or the loop gets to a pass of that kind. -/
theorem loopWhile_iff_reachesHit {inv holds : σ → Prop} {post : ρ → Prop}
    (hpass : ∀ i s, inv s →
      (pass i s).Satisfies (fun s' => inv s' ∧ (holds s' ↔ holds s ∨ hits i s)) fun r => post r ↔
      holds s ∨ hits i s) (fuel i : Nat) (s : σ) (hinv : inv s) :
    (loopWhile guard pass fuel i s).Satisfies (fun last => holds last ↔
      holds s ∨ ReachesHit guard pass hits fuel i s)
      fun r => post r ↔ holds s ∨ ReachesHit guard pass hits fuel i s := by
  induction fuel generalizing i s with
  | zero => exact (or_iff_left (not_reachesHit_zero i s)).symm
  | succ fuel ih =>
    rw [loopWhile]
    split
    · next hguard =>
      have hnext := hpass i s hinv
      cases hcase : pass i s with
      | done r =>
        rw [hcase] at hnext
        rw [reachesHit_of_done hguard hcase]
        exact hnext
      | again s' =>
        rw [hcase] at hnext
        have hrest := ih (i + 1) s' hnext.1
        simp only [hnext.2] at hrest
        simp only [reachesHit_of_again hguard hcase, ← or_assoc]
        exact hrest
    · next hguard => exact (or_iff_left (not_reachesHit_of_guard hguard)).symm

end Fcam
