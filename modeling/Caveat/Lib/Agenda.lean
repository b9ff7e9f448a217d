import Mathlib.Data.List.Basic
import Mathlib.Data.List.Nodup

/-!
# Agendas

An agenda is a list of tasks of which some are due. Doing a due task makes it not due and leaves the
others as they are. The tasks that are due, in the order of the list, are then the schedule: the first
of them is done, and the rest of them is the schedule that is left. So a search for the first due task
before every action, and one pass over the list, do the same tasks in the same order.
-/

namespace Caveat.Lib

variable {σ τ : Type*}

/-- What doing a task does to what is due. -/
structure Settles (due : σ → τ → Bool) (s : σ) (t : τ) (s' : σ) : Prop where
  done : due s' t = false
  others : ∀ t', t' ≠ t → due s' t' = due s t'

variable {due : σ → τ → Bool} {s s' : σ} {t : τ} {tasks before after : List τ}

/-- The due tasks in their order. -/
def schedule (due : σ → τ → Bool) (tasks : List τ) (s : σ) : List τ := tasks.filter (due s)

theorem schedule_append : schedule due (before ++ after) s =
    schedule due before s ++ schedule due after s := List.filter_append ..

/-- The task that a search finds is the first of the schedule. -/
theorem find?_eq_head?_schedule : tasks.find? (due s) = (schedule due tasks s).head? :=
  List.head?_filter.symm

/-- What a task settles is as due as before where the task is not. -/
theorem Settles.schedule_of_not_mem (h : Settles due s t s') (ht : t ∉ tasks) :
    schedule due tasks s' = schedule due tasks s :=
  List.filter_congr fun t' ht' => h.others t' (ht'.ne_of_notMem ht)

/-- **Doing the first task leaves the rest of the schedule.** -/
theorem Settles.schedule_of_head (h : Settles due s t s') (hnodup : tasks.Nodup)
    (hhead : (schedule due tasks s).head? = some t) :
    schedule due tasks s = t :: schedule due tasks s' := by
  induction tasks with
  | nil => exact absurd hhead (by simp [schedule])
  | cons a tasks ih =>
      obtain ⟨hnot, hnodup⟩ := List.nodup_cons.mp hnodup
      cases hdue : due s a with
      | true =>
          have hcons : schedule due (a :: tasks) s = a :: schedule due tasks s :=
            List.filter_cons_of_pos hdue
          rw [hcons, List.head?_cons] at hhead
          obtain rfl := Option.some.inj hhead
          have hskip : schedule due (a :: tasks) s' = schedule due tasks s' :=
            List.filter_cons_of_neg (by rw [h.done]; simp)
          rw [hcons, hskip, h.schedule_of_not_mem hnot]
      | false =>
          have hcons : schedule due (a :: tasks) s = schedule due tasks s :=
            List.filter_cons_of_neg (by rw [hdue]; simp)
          rw [hcons] at hhead ⊢
          have hmem : due s t = true :=
            (List.mem_filter.mp (List.mem_of_mem_head? hhead)).2
          have hskip : schedule due (a :: tasks) s' = schedule due tasks s' := by
            refine List.filter_cons_of_neg ?_
            rw [h.others a (by rintro rfl; rw [hdue] at hmem; exact absurd hmem (by simp)), hdue]
            simp
          rw [hskip, ← ih hnodup hhead]

theorem Settles.schedule_length_lt (h : Settles due s t s') (hnodup : tasks.Nodup)
    (hhead : (schedule due tasks s).head? = some t) :
    (schedule due tasks s').length < (schedule due tasks s).length := by
  rw [h.schedule_of_head hnodup hhead]
  exact Nat.lt_succ_self _

/--
Tasks that are done one after the other, always the first of those that are due. What changes nothing
about what is due may happen between them.
-/
inductive Course (due : σ → τ → Bool) (tasks : List τ) : σ → List τ → σ → Prop where
  | nil (s : σ) : Course due tasks s [] s
  | idle {s₀ s s' : σ} {done : List τ} : Course due tasks s₀ done s → due s' = due s →
      Course due tasks s₀ done s'
  | snoc {s₀ s s' : σ} {done : List τ} {t : τ} : Course due tasks s₀ done s →
      tasks.find? (due s) = some t → Settles due s t s' → Course due tasks s₀ (done ++ [t]) s'

/-- **What a course does is what was scheduled**, up to what is still due. -/
theorem Course.schedule {done : List τ} (h : Course due tasks s done s') (hnodup : tasks.Nodup) :
    schedule due tasks s = done ++ schedule due tasks s' := by
  induction h with
  | nil => rfl
  | idle _ hsame ih => rw [ih, Lib.schedule, Lib.schedule, hsame]
  | snoc _ hfind hsettles ih =>
      rw [find?_eq_head?_schedule] at hfind
      rw [ih, hsettles.schedule_of_head hnodup hfind, List.append_assoc]
      rfl

/-- A course keeps the order of the tasks. -/
theorem Course.sublist {done : List τ} (h : Course due tasks s done s') (hnodup : tasks.Nodup) :
    done.Sublist tasks := by
  have hall : (Lib.schedule due tasks s).Sublist tasks := List.filter_sublist
  rw [h.schedule hnodup] at hall
  exact (List.sublist_append_left _ _).trans hall

/-- When the search finds nothing, nothing is due. -/
theorem not_due_of_find?_eq_none (h : tasks.find? (due s) = none) (ht : t ∈ tasks) :
    due s t = false := by
  have hnot := List.find?_eq_none.mp h t ht
  simpa using hnot

/-- The first that passes a test comes before every other one that does. -/
theorem find?_first {R : τ → τ → Prop} {p : τ → Bool} (hR : tasks.Pairwise R)
    (hfind : tasks.find? p = some t) {t' : τ} (ht' : t' ∈ tasks) (hp : p t' = true) :
    t = t' ∨ R t t' := by
  obtain ⟨_, earlier, later, rfl, hnot⟩ := List.find?_eq_some_iff_append.mp hfind
  rcases List.mem_append.mp ht' with hmem | hmem
  · have hfalse := hnot t' hmem
    rw [hp] at hfalse
    exact absurd hfalse (by simp)
  · rcases List.mem_cons.mp hmem with rfl | hmem
    · exact .inl rfl
    · exact .inr (List.rel_of_pairwise_cons (List.pairwise_append.mp hR).2.1 hmem)

end Caveat.Lib
