import Mathlib.Logic.Basic
import Mathlib.Data.Option.Basic

/-!
# Step functions and the states they reach

A system is a partial step function `σ → α → Option σ`: the state after an action, or
`none` where the action is not enabled. An *admission* `ok : σ → α → Prop` restricts which
enabled actions a run may take, and it is read in the state the action is taken in. With
`ok := fun _ _ => True` every run is admitted.
-/

namespace Caveat.Lib

variable {σ α : Type*}

/-- The states reached from `init` by actions that `ok` admits where they are taken. -/
inductive Reaches (step : σ → α → Option σ) (ok : σ → α → Prop) (init : σ → Prop) : σ → Prop where
  | init {s : σ} : init s → Reaches step ok init s
  | tail {s s' : σ} {a : α} :
      Reaches step ok init s → ok s a → step s a = some s' → Reaches step ok init s'

variable {step : σ → α → Option σ} {ok ok' : σ → α → Prop} {init : σ → Prop}

/-- **The invariant rule.** What holds at the start and survives every admitted step holds. -/
theorem Reaches.invariant {I : σ → Prop} (hinit : ∀ s, init s → I s)
    (hstep : ∀ s a s', I s → ok s a → step s a = some s' → I s') {s : σ}
    (h : Reaches step ok init s) : I s := by
  induction h with
  | init hi => exact hinit _ hi
  | tail _ hok hs ih => exact hstep _ _ _ ih hok hs

/-- Admitting more actions reaches more states. -/
theorem Reaches.mono (hok : ∀ s a, ok s a → ok' s a) {s : σ}
    (h : Reaches step ok init s) : Reaches step ok' init s := by
  induction h with
  | init hi => exact .init hi
  | tail _ ha hs ih => exact .tail ih (hok _ _ ha) hs

/-- The state after a list of actions, all of them enabled in turn. -/
def run (step : σ → α → Option σ) : σ → List α → Option σ
  | s, [] => some s
  | s, a :: as => (step s a).bind (fun s' => run step s' as)

@[simp] theorem run_nil (s : σ) : run step s [] = some s := rfl

@[simp] theorem run_cons (s : σ) (a : α) (as : List α) :
    run step s (a :: as) = (step s a).bind (fun s' => run step s' as) := rfl

theorem run_append (s : σ) (as bs : List α) :
    run step s (as ++ bs) = (run step s as).bind (fun s' => run step s' bs) := by
  induction as generalizing s with
  | nil => rfl
  | cons a as ih =>
      rw [List.cons_append, run_cons, run_cons]
      cases step s a with
      | none => rfl
      | some s₁ => exact ih s₁

/-- Every state of an unrestricted run is reached. -/
theorem Reaches.of_run {s : σ} (h : Reaches step (fun _ _ => True) init s) :
    ∀ {as : List α} {s' : σ}, run step s as = some s' →
      Reaches step (fun _ _ => True) init s' := by
  intro as
  induction as generalizing s with
  | nil => intro s' hr; cases hr; exact h
  | cons a as ih =>
      intro s' hr
      obtain ⟨t, ht, hr⟩ := Option.bind_eq_some_iff.mp hr
      exact ih (h.tail trivial ht) hr

variable (step) in
/-- A run whose last state passes a test gives a reached state that passes it. -/
theorem Reaches.exists_of_run {s : σ} (hi : init s) (as : List α) (p : σ → Bool)
    (h : (run step s as).any p = true) :
    ∃ s', Reaches step (fun _ _ => True) init s' ∧ p s' = true := by
  cases hr : run step s as with
  | none => rw [hr] at h; exact absurd h (by simp)
  | some s' => rw [hr] at h; exact ⟨s', (Reaches.init hi).of_run hr, by simpa using h⟩

variable (step) in
/-- The same for a run whose actions pass a test that admits them. -/
theorem Reaches.exists_of_tested_run {test : σ → α → Bool} (htest : ∀ s a, test s a = true → ok s a)
    {s : σ} (h : Reaches step ok init s) : ∀ (as : List α) (p : σ → Bool),
      (run (fun s a => if test s a then step s a else none) s as).any p = true →
        ∃ s', Reaches step ok init s' ∧ p s' = true := by
  intro as
  induction as generalizing s with
  | nil => intro p hp; exact ⟨s, h, by simpa using hp⟩
  | cons a as ih =>
      intro p hp
      rw [run_cons] at hp
      by_cases ha : test s a = true
      · rw [if_pos ha] at hp
        cases hs : step s a with
        | none => rw [hs] at hp; exact absurd hp (by simp)
        | some s₁ => rw [hs] at hp; exact ih (h.tail (htest s a ha) hs) p hp
      · rw [if_neg ha] at hp
        exact absurd hp (by simp)

/-- `Reaches.tail` with the action given. -/
theorem Reaches.act {s s' : σ} (h : Reaches step ok init s) (a : α) (hok : ok s a)
    (hs : step s a = some s') : Reaches step ok init s' :=
  h.tail hok hs

end Caveat.Lib
