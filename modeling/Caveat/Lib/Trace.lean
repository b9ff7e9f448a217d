import Caveat.Lib.Transition

/-!
# Runs that are remembered

A property of two steps of one run, and of what happened between them, is a property of the run's
history. `traced step` is the system of `step` with its history beside the state, the latest event
first.
-/

namespace Caveat.Lib

variable {σ α : Type*}

/-- A step that was taken. -/
structure Event (σ α : Type*) where
  before : σ
  action : α
  after : σ

/-- A state, and how the run came to it. -/
structure Traced (σ α : Type*) where
  state : σ
  events : List (Event σ α) := []

def traced (step : σ → α → Option σ) (t : Traced σ α) (a : α) : Option (Traced σ α) :=
  (step t.state a).map (fun s => ⟨s, ⟨t.state, a, s⟩ :: t.events⟩)

/-- A start without history. -/
def TracedInit (init : σ → Prop) (t : Traced σ α) : Prop := init t.state ∧ t.events = []

variable {step : σ → α → Option σ} {ok : Traced σ α → α → Prop} {init : σ → Prop}
  {t : Traced σ α} {e e' : Event σ α} {earlier mid later : List (Event σ α)}

theorem traced_eq_some {t t' : Traced σ α} {a : α} :
    traced step t a = some t' ↔
      ∃ s, step t.state a = some s ∧ t' = ⟨s, ⟨t.state, a, s⟩ :: t.events⟩ := by
  unfold traced
  rw [Option.map_eq_some_iff]
  exact exists_congr fun s => and_congr_right fun _ => eq_comm

/-- An event is a step, taken and admitted in the history before it. -/
theorem Reaches.event (h : Reaches (traced step) ok (TracedInit init) t)
    (hsplit : t.events = later ++ e :: earlier) :
    Reaches (traced step) ok (TracedInit init) ⟨e.before, earlier⟩ ∧
      ok ⟨e.before, earlier⟩ e.action ∧ step e.before e.action = some e.after := by
  induction h generalizing later with
  | init hi =>
      rw [hi.2] at hsplit
      exact absurd hsplit (by simp)
  | tail hr hok hs ih =>
      obtain ⟨s, hstep, rfl⟩ := traced_eq_some.mp hs
      cases later with
      | nil =>
          obtain ⟨rfl, rfl⟩ := List.cons.inj hsplit
          exact ⟨hr, hok, hstep⟩
      | cons e₀ later => exact ih (List.cons.inj hsplit).2

/-- What holds after an event, and survives those after it, holds in the end. -/
theorem Reaches.kept_since {P : σ → Prop} (h : Reaches (traced step) ok (TracedInit init) t)
    (hsplit : t.events = mid ++ e :: earlier) (hafter : P e.after)
    (hkept : ∀ m ∈ mid, P m.before → P m.after) : P t.state := by
  induction h generalizing mid with
  | init hi =>
      rw [hi.2] at hsplit
      exact absurd hsplit (by simp)
  | tail hr hok hs ih =>
      obtain ⟨s, hs, rfl⟩ := traced_eq_some.mp hs
      cases mid with
      | nil =>
          obtain ⟨rfl, rfl⟩ := List.cons.inj hsplit
          exact hafter
      | cons m mid =>
          obtain ⟨rfl, hrest⟩ := List.cons.inj hsplit
          exact hkept _ List.mem_cons_self
            (ih hrest (fun m hm => hkept m (List.mem_cons_of_mem _ hm)))

/-- **Between two events.** What held after the first and not before the second was ended by an
event between them. -/
theorem Reaches.ended_between {P : σ → Prop} (h : Reaches (traced step) ok (TracedInit init) t)
    (hsplit : t.events = later ++ e' :: (mid ++ e :: earlier)) (hafter : P e.after)
    (hbefore : ¬ P e'.before) : ∃ m ∈ mid, P m.before ∧ ¬ P m.after := by
  by_contra hnone
  refine hbefore ((h.event hsplit).1.kept_since rfl hafter fun m hm hP => ?_)
  by_contra hP'
  exact hnone ⟨m, hm, hP, hP'⟩

/-- An event between two others was admitted in a history that the first one is in. -/
theorem Reaches.event_between (h : Reaches (traced step) ok (TracedInit init) t)
    (hsplit : t.events = later ++ e' :: (mid ++ e :: earlier)) {m : Event σ α} (hm : m ∈ mid) :
    ∃ since, e ∈ since ∧ ok ⟨m.before, since⟩ m.action ∧ step m.before m.action = some m.after := by
  obtain ⟨ms, ms', rfl⟩ := List.append_of_mem hm
  have hat : t.events = (later ++ e' :: ms) ++ m :: (ms' ++ e :: earlier) := by
    rw [hsplit]
    simp
  exact ⟨_, by simp, (h.event hat).2⟩

end Caveat.Lib
