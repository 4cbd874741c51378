import Mathlib.Algebra.Order.Field.Basic
import Mathlib.Data.List.Pairwise
import Mathlib.Order.Bounds.Basic
import Mathlib.Algebra.Order.Floor.Ring
import Mathlib.Tactic.FieldSimp
import Mathlib.Tactic.Linarith
import Mathlib.Tactic.Ring

/-!
# Token buckets over an ordered field

A bucket holds `capacity` tokens at most and fills by `rate` tokens per unit of time. A call takes
one token where there is one. Over calls in the order of their clock, the calls of a window are paid
by a full bucket and by what flows in during the window.
-/

namespace Fcam

variable {K : Type} [Field K] [LinearOrder K]

/-- A bucket as its last call left it. -/
structure Level (K : Type) where
  tokens : K
  last : K

namespace Level

/-- The tokens at `now`. A bucket nobody has used is full. -/
def refilled (capacity rate now : K) (level : Option (Level K)) : K :=
  level.elim capacity fun l => min capacity (l.tokens + max (now - l.last) 0 * rate)

/-- One call: whether it gets a token, and the bucket it leaves. -/
def take (capacity rate now : K) (level : Option (Level K)) : Bool × Level K :=
  let tokens := refilled capacity rate now level
  if 1 ≤ tokens then (true, { tokens := tokens - 1, last := now })
  else (false, { tokens, last := now })

/-- The times of the calls that get a token. -/
def taken (capacity rate : K) : Option (Level K) → List K → List K
  | _, [] => []
  | level, now :: times =>
    let rest := taken capacity rate (some (take capacity rate now level).2) times
    if (take capacity rate now level).1 then now :: rest else rest

/-- The tokens of a bucket are no debt. -/
def Solvent (level : Option (Level K)) : Prop := ∀ l ∈ level, 0 ≤ l.tokens

/-- The whole units of time, one at least, until a bucket with these tokens has one. -/
def wait [FloorRing K] (rate tokens : K) : Int := max ⌈(1 - tokens) / rate⌉ 1

variable {capacity rate now : K} {level : Option (Level K)} {l : Level K} {times : List K}

theorem one_le_wait [FloorRing K] {tokens : K} : 1 ≤ wait rate tokens := le_max_right _ _

@[simp] theorem refilled_none : refilled capacity rate now none = capacity := rfl

theorem refilled_some :
    refilled capacity rate now (some l) = min capacity (l.tokens + max (now - l.last) 0 * rate) :=
  rfl

theorem refilled_le_capacity : refilled capacity rate now level ≤ capacity := by
  cases level with
  | none => exact le_refl capacity
  | some l => exact min_le_left _ _

theorem take_of_le (h : 1 ≤ refilled capacity rate now level) :
    take capacity rate now level =
      (true, { tokens := refilled capacity rate now level - 1, last := now }) := if_pos h

theorem take_of_lt (h : refilled capacity rate now level < 1) :
    take capacity rate now level =
      (false, { tokens := refilled capacity rate now level, last := now }) :=
  if_neg h.not_ge

/-- What a call gets and leaves depends on what it finds. -/
theorem take_congr {rate' now' : K} {level' : Option (Level K)}
    (h : refilled capacity rate now level = refilled capacity rate' now' level') :
    (take capacity rate now level).1 = (take capacity rate' now' level').1 ∧
      (take capacity rate now level).2.tokens = (take capacity rate' now' level').2.tokens := by
  rcases le_or_gt 1 (refilled capacity rate' now' level') with hone | hone
  · rw [take_of_le (h ▸ hone), take_of_le hone, h]
    exact ⟨rfl, rfl⟩
  · rw [take_of_lt (h ▸ hone), take_of_lt hone, h]
    exact ⟨rfl, rfl⟩

@[simp] theorem take_last : (take capacity rate now level).2.last = now := by
  rcases le_or_gt 1 (refilled capacity rate now level) with h | h
  · rw [take_of_le h]
  · rw [take_of_lt h]

theorem take_granted : (take capacity rate now level).1 = true ↔
    1 ≤ refilled capacity rate now level := by
  rcases le_or_gt 1 (refilled capacity rate now level) with h | h
  · simp [take_of_le h, h]
  · simp [take_of_lt h, h]

theorem taken_cons (now : K) (times : List K) :
    taken capacity rate level (now :: times) =
      if (take capacity rate now level).1 then
        now :: taken capacity rate (some (take capacity rate now level).2) times
      else taken capacity rate (some (take capacity rate now level).2) times := rfl

theorem mem_of_mem_taken {t : K} (hmem : t ∈ taken capacity rate level times) : t ∈ times := by
  induction times generalizing level with
  | nil => exact hmem
  | cons now times ih =>
    rw [taken_cons] at hmem
    split at hmem
    · rcases List.mem_cons.mp hmem with heq | hrest
      · exact heq ▸ List.mem_cons_self
      · exact List.mem_cons_of_mem now (ih hrest)
    · exact List.mem_cons_of_mem now (ih hmem)

theorem take_tokens :
    (if (take capacity rate now level).1 then 1 else 0) + (take capacity rate now level).2.tokens =
      refilled capacity rate now level := by
  rcases le_or_gt 1 (refilled capacity rate now level) with h | h
  · simp [take_of_le h]
  · simp [take_of_lt h]

theorem countP_taken_cons {p : K → Bool} (hp : p now = true) :
    ((taken capacity rate level (now :: times)).countP p : K) =
      (if (take capacity rate now level).1 then 1 else 0) +
        ((taken capacity rate (some (take capacity rate now level).2) times).countP p : K) := by
  rw [taken_cons]
  split
  · rw [List.countP_cons_of_pos hp, Nat.cast_add, Nat.cast_one, add_comm]
  · rw [zero_add]

theorem countP_taken_cons_of_not {p : K → Bool} (hp : ¬ p now = true) :
    (taken capacity rate level (now :: times)).countP p =
      (taken capacity rate (some (take capacity rate now level).2) times).countP p := by
  rw [taken_cons]
  split
  · exact List.countP_cons_of_neg hp
  · rfl

variable [IsStrictOrderedRing K]

theorem refilled_nonneg (hcapacity : 0 ≤ capacity) (hrate : 0 ≤ rate) (hlevel : Solvent level) :
    0 ≤ refilled capacity rate now level := by
  cases level with
  | none => exact hcapacity
  | some l =>
    have hflow : 0 ≤ max (now - l.last) 0 * rate := mul_nonneg (le_max_right _ _) hrate
    exact le_min hcapacity (add_nonneg (hlevel l rfl) hflow)

theorem solvent_take (hcapacity : 0 ≤ capacity) (hrate : 0 ≤ rate) (hlevel : Solvent level) :
    Solvent (some (take capacity rate now level).2) := by
  rintro l ⟨⟩
  rcases le_or_gt 1 (refilled capacity rate now level) with h | h
  · rw [take_of_le h]
    exact sub_nonneg.mpr h
  · rw [take_of_lt h]
    exact refilled_nonneg hcapacity hrate hlevel

theorem refilled_mono (hrate : 0 ≤ rate) {later : K} (hle : now ≤ later) :
    refilled capacity rate now level ≤ refilled capacity rate later level := by
  cases level with
  | none => exact le_refl capacity
  | some l =>
    have helapsed : max (now - l.last) 0 ≤ max (later - l.last) 0 :=
      max_le_max (sub_le_sub_right hle _) le_rfl
    exact min_le_min le_rfl (add_le_add_right (mul_le_mul_of_nonneg_right helapsed hrate) _)

theorem refilled_le_of_le (hlast : l.last ≤ now) :
    refilled capacity rate now (some l) ≤ l.tokens + rate * (now - l.last) := by
  have hmax : max (now - l.last) 0 = now - l.last := max_eq_left (sub_nonneg.mpr hlast)
  rw [refilled_some, hmax, mul_comm rate]
  exact min_le_right _ _

theorem refilled_of_le_mul (htokens : 0 ≤ l.tokens) (hlast : l.last ≤ now)
    (hfull : capacity ≤ (now - l.last) * rate) :
    refilled capacity rate now (some l) = capacity := by
  have hmax : max (now - l.last) 0 = now - l.last := max_eq_left (sub_nonneg.mpr hlast)
  rw [refilled_some, hmax]
  exact min_eq_left (by linarith)

theorem one_le_refilled_iff (hcapacity : 1 ≤ capacity) (hrate : 0 < rate) (hlast : l.last ≤ now) :
    1 ≤ refilled capacity rate now (some l) ↔ (1 - l.tokens) / rate ≤ now - l.last := by
  have hmax : max (now - l.last) 0 = now - l.last := max_eq_left (sub_nonneg.mpr hlast)
  rw [refilled_some, hmax, le_min_iff, div_le_iff₀ hrate, sub_le_iff_le_add']
  exact and_iff_right hcapacity

theorem refilled_rescale {unit : K} (hunit : 0 < unit) (capacity rate now tokens last : K) :
    refilled capacity rate (now / unit) (some { tokens, last := last / unit }) =
      refilled capacity (rate / unit) now (some { tokens, last }) := by
  have hmax : max (now / unit - last / unit) 0 = max (now - last) 0 / unit := by
    rw [← sub_div, ← max_div_div_right hunit.le, zero_div]
  simp only [refilled_some, hmax]
  ring_nf

/-! ### Counting -/

section

variable (hcapacity : 0 ≤ capacity) (hrate : 0 ≤ rate)
include hcapacity hrate

theorem countP_taken_le (htokens : 0 ≤ l.tokens) (hsorted : (l.last :: times).Pairwise (· ≤ ·))
    {t : K} (hle : l.last ≤ t) :
    ((taken capacity rate (some l) times).countP (· ≤ t) : K) ≤ l.tokens + rate * (t - l.last) := by
  induction times generalizing l with
  | nil =>
    have hflow : 0 ≤ rate * (t - l.last) := mul_nonneg hrate (sub_nonneg.mpr hle)
    simpa [taken] using add_nonneg htokens hflow
  | cons now times ih =>
    obtain ⟨hlast, hrest⟩ := List.pairwise_cons.mp hsorted
    by_cases hnow : now ≤ t
    · have hsolvent : Solvent (some l) := by rintro _ ⟨⟩; exact htokens
      have hleft : Solvent (some (take capacity rate now (some l)).2) :=
        solvent_take hcapacity hrate hsolvent
      have hih := ih (hleft _ rfl) (by simpa using hrest) (by simpa using hnow)
      have hfound : refilled capacity rate now (some l) ≤ _ :=
        refilled_le_of_le (hlast now List.mem_cons_self)
      rw [take_last] at hih
      rw [countP_taken_cons (by simpa using hnow)]
      calc _ ≤ _ := add_le_add_right hih _
        _ = refilled capacity rate now (some l) + rate *
            (t - now) := by rw [← add_assoc, take_tokens]
        _ ≤ l.tokens + rate * (now - l.last) + rate * (t - now) := add_le_add_left hfound _
        _ = l.tokens + rate * (t - l.last) := by ring
    · have hlate : ∀ s ∈ taken capacity rate (some l) (now :: times), ¬ s ≤ t := by
        intro s hs
        rcases List.mem_cons.mp (mem_of_mem_taken hs) with heq | hmem
        · exact heq ▸ hnow
        · exact fun hst => hnow ((List.rel_of_pairwise_cons hrest hmem).trans hst)
      have hzero : (taken capacity rate (some l) (now :: times)).countP (· ≤ t) = 0 :=
        List.countP_eq_zero.mpr (by simpa using hlate)
      rw [hzero, Nat.cast_zero]
      exact add_nonneg htokens (mul_nonneg hrate (sub_nonneg.mpr hle))

theorem countP_taken_window_le (hlevel : Solvent level) (hsorted : times.Pairwise (· ≤ ·))
    {t₀ t₁ : K} (hle : t₀ ≤ t₁) :
    ((taken capacity rate level times).countP (fun t => t₀ ≤ t ∧ t ≤ t₁) : K) ≤ capacity + rate *
      (t₁ - t₀) := by
  induction times generalizing level with
  | nil =>
    have hflow : 0 ≤ rate * (t₁ - t₀) := mul_nonneg hrate (sub_nonneg.mpr hle)
    simpa [taken] using add_nonneg hcapacity hflow
  | cons now times ih =>
    have hleft : Solvent (some (take capacity rate now level).2) :=
      solvent_take hcapacity hrate hlevel
    by_cases hin : t₀ ≤ now ∧ now ≤ t₁
    · -- the first call of the window finds a full bucket at most
      have hrest : ((taken capacity rate (some (take capacity rate now level).2) times).countP
          (fun t => t₀ ≤ t ∧ t ≤ t₁) : K) ≤ (take capacity rate now level).2.tokens + rate *
            (t₁ - now) := by
        have hupto :=
          countP_taken_le (l := (take capacity rate now level).2) (t := t₁) hcapacity hrate
          (hleft _ rfl) (by simpa using hsorted) (by simpa using hin.2)
        rw [take_last] at hupto
        refine le_trans (Nat.cast_le.mpr (List.countP_mono_left fun t _ ht => ?_)) hupto
        simp_all
      rw [countP_taken_cons (by simpa using hin)]
      calc _ ≤ _ := add_le_add_right hrest _
        _ = refilled capacity rate now level + rate * (t₁ - now) := by rw [← add_assoc, take_tokens]
        _ ≤ capacity + rate * (t₁ - t₀) :=
          add_le_add refilled_le_capacity
            (mul_le_mul_of_nonneg_left (sub_le_sub_left hin.1 t₁) hrate)
    · rw [countP_taken_cons_of_not (by simpa using hin)]
      exact ih hleft (List.pairwise_cons.mp hsorted).2

end

/-! ### Waiting for a token -/

section

variable [FloorRing K]

theorem isLeast_wait (hcapacity : 1 ≤ capacity) (hrate : 0 < rate) :
    IsLeast {units : Int |
      1 ≤ units ∧ ∀ next : K, l.last + units ≤ next → 1 ≤ refilled capacity rate next (some l)}
      (wait rate l.tokens) := by
  have hone : 1 ≤ wait rate l.tokens := one_le_wait
  have hwait : (1 : K) ≤ wait rate l.tokens := by exact_mod_cast hone
  have hceil : (1 - l.tokens) / rate ≤ wait rate l.tokens :=
    (Int.le_ceil _).trans (by exact_mod_cast le_max_left _ _)
  refine ⟨⟨hone, fun next hnext => ?_⟩, ?_⟩
  · exact (one_le_refilled_iff hcapacity hrate (by linarith)).mpr (by linarith)
  · rintro units ⟨hunits, hfound⟩
    have hpos : (1 : K) ≤ units := by exact_mod_cast hunits
    have hpaid := hfound (l.last + units) le_rfl
    rw [one_le_refilled_iff hcapacity hrate (by linarith), add_sub_cancel_left] at hpaid
    exact max_le (Int.ceil_le.mpr hpaid) hunits

end

end Level

end Fcam
