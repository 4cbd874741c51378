import Mathlib.Data.List.Basic
import Mathlib.Tactic.Common

/-!
# Runs of a labelled transition function

`next s a` is the state after action `a`, or nothing where `a` is not enabled in `s`. A run is the
list of its actions, `exec` its last state. `Meets` says that every step of a run satisfies a
condition on the state the step starts from, and `exec_invariant_of_meets` is the induction every
statement about all runs goes through: an invariant that such steps keep holds in the last state,
so, applied to the prefixes of a run, in every state the run reaches.
-/

namespace Fcam

variable {σ α : Type} (next : σ → α → Option σ)

/-- The last state of a run. -/
def exec : σ → List α → Option σ
  | s, [] => some s
  | s, a :: rest => (next s a).bind fun s' => exec s' rest

/-- Every step of the run satisfies `ok` in the state it starts from. -/
def Meets (ok : σ → α → Prop) : σ → List α → Prop
  | _, [] => True
  | s, a :: rest => ok s a ∧ ∀ s', next s a = some s' → Meets ok s' rest

variable {next}

@[simp] theorem exec_nil (s : σ) : exec next s [] = some s := rfl

theorem exec_cons (s : σ) (a : α) (rest : List α) :
    exec next s (a :: rest) = (next s a).bind fun s' => exec next s' rest := rfl

theorem exec_cons_eq_some {s last : σ} {a : α} {rest : List α} :
    exec next s (a :: rest) = some last ↔
      ∃ s', next s a = some s' ∧ exec next s' rest = some last := by
  rw [exec_cons, Option.bind_eq_some_iff]

theorem exec_append (s : σ) (first second : List α) :
    exec next s (first ++ second) = (exec next s first).bind fun s' => exec next s' second := by
  induction first generalizing s with
  | nil => rfl
  | cons a rest ih =>
    rw [List.cons_append, exec_cons, exec_cons, Option.bind_assoc]
    simp only [ih]

theorem exec_snoc_eq_some {s last : σ} {trace : List α} {a : α} :
    exec next s (trace ++ [a]) = some last ↔
      ∃ s', exec next s trace = some s' ∧ next s' a = some last := by
  rw [exec_append, Option.bind_eq_some_iff]
  simp [exec_cons]

/-- An invariant that every step meeting a condition keeps holds at the end of a run of such
steps. -/
theorem exec_invariant_of_meets {inv : σ → Prop} {ok : σ → α → Prop}
    (hstep : ∀ s a s', inv s → ok s a → next s a = some s' → inv s') {s last : σ} {trace : List α}
    (hmeets : Meets next ok s trace) (hexec : exec next s trace = some last) (hinv : inv s) :
    inv last := by
  induction trace generalizing s with
  | nil =>
    rw [exec_nil, Option.some.injEq] at hexec
    exact hexec ▸ hinv
  | cons a rest ih =>
    obtain ⟨s', hnext, hrest⟩ := exec_cons_eq_some.mp hexec
    exact ih (hmeets.2 s' hnext) hrest (hstep s a s' hinv hmeets.1 hnext)

/-- Along a run whose steps meet a condition, every step also does what it does from an invariant
state. -/
theorem meets_of_invariant {inv : σ → Prop} {ok good : σ → α → Prop}
    (hstep : ∀ s a s', inv s → ok s a → next s a = some s' → inv s' ∧ good s a) {s last : σ}
    {trace : List α} (hmeets : Meets next ok s trace) (hexec : exec next s trace = some last)
    (hinv : inv s) :
    Meets next good s trace := by
  induction trace generalizing s with
  | nil => trivial
  | cons a rest ih =>
    obtain ⟨mid, hnext, hrest⟩ := exec_cons_eq_some.mp hexec
    obtain ⟨hmid, hgood⟩ := hstep s a mid hinv hmeets.1 hnext
    refine ⟨hgood, fun s' hs' => ?_⟩
    rw [hnext, Option.some.injEq] at hs'
    subst hs'
    exact ih (hmeets.2 mid hnext) hrest hmid

/-- A run goes on to its end where every step that meets the condition is enabled. -/
theorem exec_progress {inv : σ → Prop} {ok : σ → α → Prop}
    (hstep : ∀ s a s', inv s → ok s a → next s a = some s' → inv s')
    (henabled : ∀ s a, inv s → ok s a → ∃ s', next s a = some s') {s : σ} {trace : List α}
    (hmeets : Meets next ok s trace) (hinv : inv s) : ∃ last, exec next s trace = some last := by
  induction trace generalizing s with
  | nil => exact ⟨s, rfl⟩
  | cons a rest ih =>
    obtain ⟨s', hnext⟩ := henabled s a hinv hmeets.1
    obtain ⟨last, hlast⟩ := ih (hmeets.2 s' hnext) (hstep s a s' hinv hmeets.1 hnext)
    exact ⟨last, exec_cons_eq_some.mpr ⟨s', hnext, hlast⟩⟩

theorem meets_cons {ok : σ → α → Prop} {s s' : σ} {a : α} {rest : List α}
    (hnext : next s a = some s') (hok : ok s a) (hrest : Meets next ok s' rest) :
    Meets next ok s (a :: rest) := by
  refine ⟨hok, fun s'' hs'' => ?_⟩
  rw [hnext, Option.some.injEq] at hs''
  exact hs'' ▸ hrest

/-- Along a run that keeps an invariant two conditions hold of all steps together if from its states
they say the same. -/
theorem meets_congr_of_invariant {inv : σ → Prop} {pre good ok : σ → α → Prop}
    (hstep : ∀ s a s', inv s → pre s a → next s a = some s' → inv s' ∧ (good s a ↔ ok s a))
    {s last : σ} {trace : List α} (hpre : Meets next pre s trace)
    (hexec : exec next s trace = some last) (hinv : inv s) :
    Meets next good s trace ↔ Meets next ok s trace := by
  induction trace generalizing s with
  | nil => exact Iff.rfl
  | cons a rest ih =>
    obtain ⟨mid, hnext, hrest⟩ := exec_cons_eq_some.mp hexec
    obtain ⟨hmid, hiff⟩ := hstep s a mid hinv hpre.1 hnext
    have htail := ih (hpre.2 mid hnext) hrest hmid
    constructor
    · rintro ⟨hgood, hmeets⟩
      exact meets_cons hnext (hiff.mp hgood) (htail.mp (hmeets mid hnext))
    · rintro ⟨hok, hmeets⟩
      exact meets_cons hnext (hiff.mpr hok) (htail.mpr (hmeets mid hnext))

/-- A condition that can be decided of a step can be decided along a run. -/
instance Meets.decidable {ok : σ → α → Prop} [∀ s a, Decidable (ok s a)] :
    ∀ (s : σ) (trace : List α), Decidable (Meets next ok s trace)
  | _, [] => .isTrue trivial
  | s, a :: rest =>
    have : Decidable (∀ s' ∈ next s a, Meets next ok s' rest) :=
      @Option.decidableForallMem _ _ (fun s' => Meets.decidable s' rest) (next s a)
    inferInstanceAs (Decidable (ok s a ∧ ∀ s' ∈ next s a, Meets next ok s' rest))

theorem meets_of_forall {ok : σ → α → Prop} (hok : ∀ s a, ok s a) (s : σ) (trace : List α) :
    Meets next ok s trace := by
  induction trace generalizing s with
  | nil => trivial
  | cons a rest ih => exact ⟨hok s a, fun s' _ => ih s'⟩

theorem Meets.mono {ok good : σ → α → Prop} {s : σ} {trace : List α} (h : Meets next ok s trace)
    (himp : ∀ s a, ok s a → good s a) : Meets next good s trace := by
  induction trace generalizing s with
  | nil => trivial
  | cons a rest ih => exact ⟨himp s a h.1, fun s' hnext => ih (h.2 s' hnext)⟩

theorem exec_invariant {inv : σ → Prop} (hstep : ∀ s a s', inv s → next s a = some s' → inv s')
    {s last : σ} {trace : List α} (hexec : exec next s trace = some last) (hinv : inv s) :
    inv last := by
  have hmeets : Meets next (fun _ _ => True) s trace := meets_of_forall (fun _ _ => trivial) s trace
  exact exec_invariant_of_meets (fun s a s' h _ => hstep s a s' h) hmeets hexec hinv

/-- Where every step is seen as a step of another system, or not at all, every run is seen as one of
its runs. -/
theorem exec_refines {τ β : Type} {other : τ → β → Option τ} (view : σ → τ)
    (hstep : ∀ s a s', next s a = some s' → view s' = view s ∨
      ∃ b, other (view s) b = some (view s')) {s last : σ}
    {trace : List α} (hexec : exec next s trace = some last) :
    ∃ seen : List β, exec other (view s) seen = some (view last) := by
  induction trace generalizing s with
  | nil =>
    rw [exec_nil, Option.some.injEq] at hexec
    exact ⟨[], by rw [exec_nil, hexec]⟩
  | cons a rest ih =>
    obtain ⟨s', hnext, hrest⟩ := exec_cons_eq_some.mp hexec
    obtain ⟨seen, hseen⟩ := ih hrest
    rcases hstep s a s' hnext with hsame | ⟨b, hother⟩
    · exact ⟨seen, by rw [← hsame, hseen]⟩
    · exact ⟨b :: seen, exec_cons_eq_some.mpr ⟨view s', hother, hseen⟩⟩

/-- Where a step keeps an invariant exactly when it meets a condition, a run keeps it throughout
exactly when all its steps do. -/
theorem throughout_iff_meets {inv : σ → Prop} {ok : σ → α → Prop}
    (hstep : ∀ s a s', inv s → next s a = some s' → (inv s' ↔ ok s a)) {s last : σ} {trace : List α}
    (hexec : exec next s trace = some last) (hinv : inv s) :
    (∀ before after mid, trace = before ++ after → exec next s before = some mid → inv mid) ↔
      Meets next ok s trace := by
  induction trace generalizing s with
  | nil =>
    refine iff_of_true (fun before after mid htrace hmid => ?_) trivial
    obtain ⟨rfl, -⟩ := List.append_eq_nil_iff.mp htrace.symm
    rw [exec_nil, Option.some.injEq] at hmid
    exact hmid ▸ hinv
  | cons a rest ih =>
    obtain ⟨s', hnext, hrest⟩ := exec_cons_eq_some.mp hexec
    constructor
    · intro h
      have hinv' : inv s' := h [a] rest s' rfl (exec_cons_eq_some.mpr ⟨s', hnext, exec_nil s'⟩)
      apply meets_cons hnext ((hstep s a s' hinv hnext).mp hinv')
      apply (ih hrest hinv').mp
      intro before after mid htrace hmid
      apply h (a :: before) after mid
      · rw [htrace, List.cons_append]
      · exact exec_cons_eq_some.mpr ⟨s', hnext, hmid⟩
    · rintro ⟨hok, hmeets⟩ before after mid htrace hmid
      cases before with
      | nil =>
        rw [exec_nil, Option.some.injEq] at hmid
        exact hmid ▸ hinv
      | cons b before =>
        rw [List.cons_append, List.cons.injEq] at htrace
        obtain ⟨rfl, htrace⟩ := htrace
        obtain ⟨t, ht, hmid⟩ := exec_cons_eq_some.mp hmid
        obtain rfl := Option.some.inj (hnext.symm.trans ht)
        have hinv' : inv s' := (hstep s a s' hinv hnext).mpr hok
        exact (ih hrest hinv').mpr (hmeets s' hnext) before after mid htrace hmid

theorem meets_iff {ok : σ → α → Prop} {s : σ} {trace : List α} :
    Meets next ok s trace ↔
      ∀ before a after s', trace = before ++ a :: after →
        exec next s before = some s' → ok s' a := by
  induction trace generalizing s with
  | nil => simp [Meets]
  | cons b rest ih =>
    constructor
    · rintro ⟨hok, hrest⟩ before a after s' htrace hexec
      cases before with
      | nil =>
        rw [exec_nil, Option.some.injEq] at hexec
        rw [List.nil_append, List.cons.injEq] at htrace
        rw [← hexec, ← htrace.1]
        exact hok
      | cons c before =>
        rw [List.cons_append, List.cons.injEq] at htrace
        obtain ⟨mid, hnext, hexec⟩ := exec_cons_eq_some.mp hexec
        rw [← htrace.1] at hnext
        exact ih.mp (hrest mid hnext) before a after s' htrace.2 hexec
    · intro h
      refine ⟨h [] b rest s rfl rfl, fun mid hnext => ih.mpr fun before a after s' htrace hexec =>
        ?_⟩
      refine h (b :: before) a after s' (by rw [htrace, List.cons_append]) ?_
      exact exec_cons_eq_some.mpr ⟨mid, hnext, hexec⟩

end Fcam
