import Mathlib.Data.List.Basic
import Mathlib.Order.Nat

/-!
# Runs of a partial transition function

A system is a function `step : σ → α → Option σ`: the action `a` is enabled in
`s` when `step s a` is a state. `Reachable step ok s₀` contains the states of
the runs from `s₀` whose steps all meet `ok`, a condition on the state before the
step and on its action.
-/
namespace Transition

variable {σ α : Type*} {step : σ → α → Option σ} {ok : σ → α → Prop} {s₀ : σ}

/-- The states reached from `s₀` by steps that meet `ok`. -/
inductive Reachable (step : σ → α → Option σ) (ok : σ → α → Prop) (s₀ : σ) : σ → Prop
  | init : Reachable step ok s₀ s₀
  | next {s s' : σ} {a : α} : Reachable step ok s₀ s → ok s a → step s a = some s' →
      Reachable step ok s₀ s'

/-- The condition that every step meets. -/
def anyStep : σ → α → Prop := fun _ _ => True

def run (step : σ → α → Option σ) (s : σ) (as : List α) : Option σ := as.foldlM step s

@[simp] lemma run_cons (s : σ) (a : α) (as : List α) :
    run step s (a :: as) = (step s a).bind fun s' => run step s' as := rfl

/-- What holds initially and is kept by every admitted step holds in every reachable state. -/
lemma Reachable.invariant {P : σ → Prop} (hinit : P s₀)
    (hstep : ∀ s a s', Reachable step ok s₀ s → P s → ok s a → step s a = some s' → P s')
    {s : σ} (h : Reachable step ok s₀ s) : P s := by
  induction h with
  | init => exact hinit
  | next hreach hok hs ih => exact hstep _ _ _ hreach ih hok hs

/-- A weaker condition admits more states. -/
lemma Reachable.mono {ok' : σ → α → Prop} (hok : ∀ s a, ok s a → ok' s a) {s : σ}
    (h : Reachable step ok s₀ s) : Reachable step ok' s₀ s := by
  induction h with
  | init => exact .init
  | next _ ha hs ih => exact ih.next (hok _ _ ha) hs

section
variable {step' : σ → α → Option σ} {as : List α}
  (hstep : ∀ s, ∀ a ∈ as, ∀ t, step' s a = some t → ok s a ∧ step s a = some t)
include hstep

lemma Reachable.of_steps {s s' : σ} (h : Reachable step ok s₀ s)
    (hrun : run step' s as = some s') : Reachable step ok s₀ s' := by
  induction as generalizing s with
  | nil =>
    cases hrun
    exact h
  | cons a as ih =>
    obtain ⟨t, hs, ht⟩ := Option.bind_eq_some_iff.mp hrun
    obtain ⟨hok, hs⟩ := hstep s a (.head _) t hs
    exact ih (fun s b hb => hstep s b (.tail a hb)) (h.next hok hs) ht

lemma exists_reachable (p : σ → Bool) (h : (run step' s₀ as).any p) :
    ∃ s, Reachable step ok s₀ s ∧ p s := by
  cases hrun : run step' s₀ as with
  | none => simp [hrun] at h
  | some s =>
    rw [hrun] at h
    exact ⟨s, Reachable.init.of_steps hstep hrun, h⟩

end

lemma Reachable.of_run {as : List α} {s s' : σ} (h : Reachable step ok s₀ s)
    (hok : ∀ s, ∀ a ∈ as, ok s a) (hrun : run step s as = some s') : Reachable step ok s₀ s' :=
  h.of_steps (fun s a ha _ hs => ⟨hok s a ha, hs⟩) hrun

/-- A run of admitted actions reaches the state it ends in. -/
lemma exists_reachable_of_run (as : List α) (hok : ∀ s, ∀ a ∈ as, ok s a) (p : σ → Bool)
    (h : (run step s₀ as).any p) : ∃ s, Reachable step ok s₀ s ∧ p s :=
  exists_reachable (fun s a ha _ hs => ⟨hok s a ha, hs⟩) p h

/-- The step function restricted to the steps that meet `ok`. -/
def admitted (step : σ → α → Option σ) (ok : σ → α → Prop) [∀ s a, Decidable (ok s a)] (s : σ)
    (a : α) : Option σ :=
  if ok s a then step s a else none

/-- A run evaluated with the conditions on its steps reaches the state it ends in. -/
lemma exists_reachable_of_admitted_run [∀ s a, Decidable (ok s a)] (as : List α)
    (p : σ → Bool) (h : (run (admitted step ok) s₀ as).any p) :
    ∃ s, Reachable step ok s₀ s ∧ p s := by
  refine exists_reachable (fun s a _ t hs => ?_) p h
  unfold admitted at hs
  split_ifs at hs with hok
  exact ⟨hok, hs⟩

/-!
## Infinite runs

An infinite run of a transition function, with the rules by which properties of runs are
derived from properties of steps: what no step ends goes on, and what does not go on is ended
by a step.
-/

open List Option

structure Trace (step : σ → α → Option σ) (s₀ : σ) where
  state : ℕ → σ
  action : ℕ → α
  init : state 0 = s₀
  next : ∀ n, step (state n) (action n) = some (state (n + 1))

namespace Trace

variable (t : Trace step s₀) {P : σ → Prop}

/-- What holds initially and is kept by every step holds always. -/
lemma always (hinit : P s₀)
    (hstep : ∀ n, P (t.state n) → P (t.state (n + 1))) (n : ℕ) : P (t.state n) := by
  induction n with
  | zero =>
    rw [t.init]
    exact hinit
  | succ n ih => exact hstep n ih

variable {n m : ℕ}

/-- What every step keeps goes on. -/
lemma stable (hn : P (t.state n))
    (hstep : ∀ m, n ≤ m → P (t.state m) → P (t.state (m + 1))) (hm : n ≤ m) :
    P (t.state m) := by
  induction m, hm using Nat.le_induction with
  | base => exact hn
  | succ m hm ih => exact hstep m hm ih

/-- What does not hold any more has been ended by a step. -/
lemma exists_ends (hn : P (t.state n)) (hm : n ≤ m)
    (hend : ¬ P (t.state m)) : ∃ l, n ≤ l ∧ P (t.state l) ∧ ¬ P (t.state (l + 1)) := by
  by_contra hnone
  push Not at hnone
  exact hend (t.stable hn hnone hm)

/-- A finite run after which nothing happens. -/
def ofRun (events : List α) (idle : α) (hidle : ∀ s, step s idle = some s)
    (hrun : (run step s₀ events).isSome) : Trace step s₀ where
  state n := (run step s₀ (events.take n)).getD s₀
  action n := events[n]?.getD idle
  init := rfl
  next n := by
    -- The first part of a run is a run.
    have hpart : ∃ s, run step s₀ (events.take n) = some s := by
      rw [← isSome_iff_exists]
      rw [← take_append_drop n events, run, foldlM_append] at hrun
      exact isSome_of_isSome_bind hrun
    obtain ⟨s, hs⟩ := hpart
    cases hn : events[n]? with
    | none =>
      have hlength := List.getElem?_eq_none_iff.mp hn
      rw [take_of_length_le hlength] at hs
      rw [take_of_length_le hlength, take_of_length_le (by omega), hs]
      exact hidle s
    | some e =>
      have hlast : run step s₀ (events.take (n + 1)) = step s e := by
        rw [take_add_one, hn, run, foldlM_append]
        rw [run] at hs
        simp [hs]
      have hsome : (step s e).isSome := by
        rw [← hlast]
        rw [← take_append_drop (n + 1) events, run, foldlM_append] at hrun
        exact isSome_of_isSome_bind hrun
      obtain ⟨s', hs'⟩ := isSome_iff_exists.mp hsome
      rw [hs, hlast, hs']
      exact hs'

end Trace

end Transition
