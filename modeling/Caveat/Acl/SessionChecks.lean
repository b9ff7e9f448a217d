import Caveat.Acl.SessionSteps

/-!
# What a check that returns stands for

A good answer has come a long way: an interpreter evaluated the script of that very operation, printed
its number, the worker read the line, and filled the buffer. `Vouches` collects the places on that way.
Nothing gets there but by a script that passed.
-/

namespace Caveat.Acl

open Js Lib

variable {s s' : State} {a : Action} {c d : Nat} {w w' : AclWork} {o : AclOperation} {n : Nat}

/-! ## How an answer gets to its buffer -/

/-- Number `n` is on its way as a good answer. -/
def Vouches (s : State) (n : Nat) : Prop :=
  (∃ c, .answer n ∈ (s.interpreters c).program.stdout) ∨
    (∃ w, s.active = some (w, .resolved) ∧ w.sequence = n) ∨
    ∃ r, s.replies n = some r ∧ r.ok = true

/-- **Where a good answer comes from**: a script that passes, or a `close`. -/
theorem vouches_step (h : Numbered s) (hs : step s a = some s') (hv : Vouches s' n) :
    Vouches s n ∨ (∃ c o, a = .pass c ∧ (s.interpreters c).program.evaluating = some o ∧
      o.sequence = n) ∨ .close n ∈ s.queue := by
  rcases hv with ⟨c, hc⟩ | ⟨w, hw, hn⟩ | ⟨r, hr, hok⟩
  · -- a line that is printed
    rcases programSteps_step hs c with ⟨hp, -⟩ | ⟨o, -, -, hfresh⟩
    swap
    · rw [hfresh] at hc
      exact absurd hc List.not_mem_nil
    generalize (s'.interpreters c).program = p' at hp hc
    cases hp with
    | same => exact .inl (.inl ⟨c, hc⟩)
    | given o h hnew => exact .inl (.inl ⟨c, hc⟩)
    | heard l rest h =>
      refine .inl (.inl ⟨c, ?_⟩)
      rw [h]
      exact List.mem_cons_of_mem _ hc
    | began o rest out ha h => exact .inl (.inl ⟨c, by rw [h]; exact hc⟩)
    | refused o rest out h => exact .inl (.inl ⟨c, by rw [h]; exact hc⟩)
    | passed lines o out ha h =>
      rcases List.mem_append.mp hc with hc | hc
      · exact .inl (.inl ⟨c, by rw [h]; exact hc⟩)
      · have hn := Line.answer.inj (List.mem_singleton.mp hc)
        exact .inr (.inl ⟨c, o, ha, by rw [h], hn.symm⟩)
    | printed =>
      rcases List.mem_append.mp hc with hc | hc
      · exact .inl (.inl ⟨c, hc⟩)
      · cases List.mem_singleton.mp hc
  · -- a request that is resolved
    cases activeStep_step h.inv hs with
    | same hsame => exact .inl (.inr (.inl ⟨w, by rw [← hsame, hw], hn⟩))
    | ended hnone hgone =>
      rw [hnone] at hw
      cases hw
    | taken hnone w' p ht hp =>
      rw [ht] at hw
      exact absurd (Prod.mk.inj (Option.some.inj hw)).2 hp
    | moved w' p p' hold hnew hprevious hresolved =>
      rw [hnew] at hw
      obtain ⟨hww, hpp⟩ := Prod.mk.inj (Option.some.inj hw)
      obtain ⟨c, hc⟩ := hresolved hpp
      rw [hww, hn] at hc
      exact .inl (.inl ⟨c, hc⟩)
  · -- a buffer that is filled
    cases h.effect hs with
    | same hqueue hreplies hsequence hmain => exact .inl (.inr (.inr ⟨r, by rw [← hreplies, hr], hok⟩))
    | sent w hqueue hreplies hsequence hnumber hmain =>
      exact .inl (.inr (.inr ⟨r, by rw [← hreplies, hr], hok⟩))
    | lost hcrashed hqueue hreplies hsession =>
      exact .inl (.inr (.inr ⟨r, by rw [← hreplies, hr], hok⟩))
    | answered w r' l l' hnumber hanswer hqueue hqueue' hreplies hsession =>
      have hr : (if n = w.sequence then some r' else s.replies n) = some r := by
        rw [hreplies] at hr
        exact hr
      split at hr
      · rename_i hn
        rw [← Option.some.inj hr] at hok
        rcases hanswer.ok hok with hresolved | ⟨⟨k, hk⟩, -⟩
        · exact .inl (.inr (.inl ⟨w, hresolved, hn.symm⟩))
        · have hkn : k = n := by rw [hn, hk]; rfl
          refine .inr (.inr ?_)
          rw [hqueue, hk, hkn]
          simp
      · exact .inl (.inr (.inr ⟨r, hr, hok⟩))

/-! ## What the main thread waits for -/

theorem session_finish (s : State) (w : AclWork) (error : Option AclError) :
    (s.finish w error).session = s.session := by
  cases w with
  | check o => rfl
  | close n => rfl

theorem session_caught (s : State) (w : AclWork) (error : AclError) :
    (s.caught w error).session = s.session := by
  unfold State.caught
  split
  · exact session_finish s w _
  · rfl

theorem session_hand (s : State) (o : AclOperation) (threw : Option Units) :
    (s.hand o threw).session = s.session := by
  rcases hand_cases s o threw with ⟨message, hhand⟩ | ⟨-, -, -, -, hsession⟩
  · rw [hhand, session_finish]
  · exact hsession

theorem session_perform (s : State) (w : AclWork) (threw : Option Units) :
    (s.perform w threw).session = s.session := by
  unfold State.perform
  split
  · rfl
  · split
    · exact session_finish s _ _
    · rfl
    · exact session_hand s _ _
    · split
      · rfl
      · exact session_hand s _ _

theorem session_resume {threw : Option Units} (hs : s.resume threw = some s') :
    s'.session = s.session := by
  unfold State.resume at hs
  split at hs
  · split at hs
    · rw [← Option.some.inj hs]
      exact session_hand s _ _
    · cases hs
  · rw [← Option.some.inj hs]
    exact session_finish s _ _
  · rw [← Option.some.inj hs]
    exact session_caught s _ _
  · split at hs
    · split at hs
      · rw [← Option.some.inj hs]
        exact session_finish s _ _
      · rw [← Option.some.inj hs]
        exact session_caught s _ _
    · cases hs
  · split at hs
    · rw [← Option.some.inj hs]
      exact session_finish s _ _
    · cases hs
  · cases hs

theorem session_line (hs : s.line c = some s') : s'.session = s.session := by
  unfold State.line at hs
  split at hs
  · cases hs
  · dsimp only at hs
    split at hs
    · rw [← Option.some.inj hs]
      exact (keeps_fail _ c _).session
    · split at hs
      · rw [← Option.some.inj hs]
        rfl
      · rw [← Option.some.inj hs]
        exact (keeps_fail _ c _).session

theorem session_closeEvent (hs : s.closeEvent c = some s') : s'.session = s.session := by
  unfold State.closeEvent at hs
  split at hs
  · dsimp only at hs
    rw [← Option.some.inj hs]
    split
    · exact (keeps_rejectPending _ c _).session
    · exact (keeps_rejectPending _ c _).session
  · cases hs

/-- A step that changes the session is the main thread's. -/
def Action.isMain : Action → Bool
  | .run .. | .close | .wake | .timeout | .giveUp | .failed _ => true
  | _ => false

theorem session_step (hs : step s a = some s') (ha : a.isMain = false) :
    s'.session = s.session := by
  cases a with
  | run path directory apply missing => cases ha
  | close => cases ha
  | wake => cases ha
  | timeout => cases ha
  | giveUp => cases ha
  | failed name => cases ha
  | loaded threw =>
    have hs : s.loaded threw = some s' := hs
    unfold State.loaded at hs
    split at hs
    · rw [← Option.some.inj hs]
      exact session_perform _ _ threw
    · cases hs
  | importFailed code =>
    have hs : s.importFailed code = some s' := hs
    unfold State.importFailed at hs
    split at hs
    · rw [← Option.some.inj hs]
      rfl
    · cases hs
  | crash =>
    have hs : s.crash = some s' := hs
    unfold State.crash at hs
    split at hs
    · rw [← Option.some.inj hs]
    · rw [← Option.some.inj hs]
    · cases hs
  | receive threw =>
    have hs : s.receive threw = some s' := (when_eq_some.mp hs).2
    unfold State.receive at hs
    split at hs
    · cases hs
    · rw [← Option.some.inj hs]
      exact session_perform _ _ threw
    · rw [← Option.some.inj hs]
      exact (keeps_cancel _ _).session
  | resume threw => exact session_resume (when_eq_some.mp hs).2
  | closeTimer => exact (keeps_closeTimer (when_eq_some.mp hs).2).session
  | line c => exact session_line (when_eq_some.mp hs).2
  | stdoutData c bytes =>
    rw [← Option.some.inj (when_eq_some.mp hs).2]
    exact (keeps_stdoutData s c bytes).session
  | stderrData c text =>
    rw [← Option.some.inj (when_eq_some.mp hs).2]
    exact (keeps_stderrData s c text).session
  | trouble c code =>
    rw [← Option.some.inj (when_eq_some.mp hs).2]
    exact (keeps_fail s c _).session
  | exitEvent c =>
    obtain ⟨f, rfl⟩ := exitEvent_modifies (when_eq_some.mp hs).2
    rfl
  | closeEvent c => exact session_closeEvent (when_eq_some.mp hs).2
  | read c =>
    obtain ⟨f, rfl⟩ := read_modifies (when_eq_some.mp hs).2
    rfl
  | pass c =>
    obtain ⟨f, rfl⟩ := pass_modifies (when_eq_some.mp hs).2
    rfl
  | print c =>
    rw [← Option.some.inj (when_eq_some.mp hs).2]
    rfl
  | exit c status =>
    rw [← Option.some.inj (when_eq_some.mp hs).2]
    rfl

/-- What the main thread does while it waits: it goes on waiting, or its call ends, and ends well only
with a good answer. -/
theorem waits_step (hs : step s a = some s') (hw : s.session.main.work? = some w) :
    (s'.session.main.work? = some w ∧ s'.session.outcomes = s.session.outcomes) ∨
      ∃ outcome, s'.session.outcomes = (w.call, outcome) :: s.session.outcomes ∧
        (outcome = .ok () → ∃ r, s.replies w.sequence = some r ∧ r.ok = true) := by
  have hbusy : s.session.main ≠ .idle := by
    intro hidle
    rw [hidle] at hw
    cases hw
  cases ha : a.isMain with
  | false =>
    have hsession := session_step hs ha
    exact .inl ⟨by rw [hsession, hw], by rw [hsession]⟩
  | true =>
    cases a with
    | run path directory apply missing => exact absurd (by simpa using (when_eq_some.mp hs).1) hbusy
    | close => exact absurd (by simpa using (when_eq_some.mp hs).1) hbusy
    | failed name =>
      have hidle := (when_eq_some.mp hs).1
      simp only [Bool.and_eq_true, decide_eq_true_eq] at hidle
      exact absurd hidle.1 hbusy
    | wake =>
      have hs : s.wake = some s' := hs
      unfold State.wake at hs
      split at hs
      · rename_i w' hmain
        obtain ⟨r, hr, rfl⟩ := Option.map_eq_some_iff.mp hs
        rw [hmain] at hw
        obtain rfl : w' = w := Option.some.inj hw
        unfold State.take
        split
        · exact .inr ⟨_, rfl, fun h => by cases h⟩
        dsimp only
        split
        · rename_i hok
          exact .inr ⟨_, rfl, fun _ => ⟨r, hr, hok⟩⟩
        · exact .inr ⟨_, rfl, fun h => by cases h⟩
      · cases hs
    | timeout =>
      have hs : s.timeout = some s' := hs
      unfold State.timeout at hs
      split at hs
      · rename_i w' hmain
        rw [← Option.some.inj hs]
        rw [hmain] at hw
        exact .inl ⟨hw, rfl⟩
      · cases hs
    | giveUp =>
      have hs : s.giveUp = some s' := hs
      unfold State.giveUp at hs
      split at hs
      · rename_i w' hmain
        rw [← Option.some.inj hs]
        rw [hmain] at hw
        obtain rfl : w' = w := Option.some.inj hw
        exact .inr ⟨_, rfl, fun h => by cases h⟩
      · cases hs
    | loaded threw => cases ha
    | importFailed code => cases ha
    | crash => cases ha
    | receive threw => cases ha
    | resume threw => cases ha
    | closeTimer => cases ha
    | line c => cases ha
    | stdoutData c bytes => cases ha
    | stderrData c text => cases ha
    | trouble c code => cases ha
    | exitEvent c => cases ha
    | closeEvent c => cases ha
    | read c => cases ha
    | pass c => cases ha
    | print c => cases ha
    | exit c status => cases ha

/-! ## The operations a process has -/

/-- The operation that is evaluated, and those after it. -/
def Program.lines (p : Program) : List AclOperation := p.evaluating.toList ++ p.stdin

/-- An operation that is with a process was there, or it is the one that was handed over. -/
theorem mem_lines_step (hs : step s a = some s') (ho : o ∈ (s'.interpreters c).program.lines) :
    o ∈ (s.interpreters c).program.lines ∨
      (s'.active = some (.check o, .answer c) ∧ ¬ Handed s.active (.check o)) := by
  rcases programSteps_step hs c with ⟨hp, -⟩ | ⟨o', h, hnew, hfresh⟩
  swap
  · rw [hfresh, Program.lines] at ho
    rw [List.mem_singleton.mp ho]
    exact .inr ⟨h, hnew⟩
  generalize (s'.interpreters c).program = p' at hp ho
  generalize (s.interpreters c).program = p at hp ⊢
  cases hp with
  | same => exact .inl ho
  | given o' h hnew =>
    rw [Program.lines, ← List.append_assoc] at ho
    rcases List.mem_append.mp ho with ho | ho
    · exact .inl ho
    · rw [List.mem_singleton.mp ho]
      exact .inr ⟨h, hnew⟩
  | heard l rest h => exact .inl ho
  | began o' rest out ha h =>
    rw [h]
    exact .inl ho
  | refused o' rest out h =>
    rw [h]
    exact .inl (List.mem_cons_of_mem _ ho)
  | passed lines o' out ha h =>
    rw [h]
    exact .inl (List.mem_cons_of_mem _ ho)
  | printed => exact .inl ho

theorem queue_of_active {p : Perform} (h : Inv s) (hactive : s.active = some (w, p)) :
    s.queue = w :: s.messages.filterMap Message.work? := by
  have hworker : s.worker.initial? = none := by
    cases hworker : s.worker with
    | loading w' =>
      rw [(h.early (.inr ⟨w', hworker⟩)).1] at hactive
      cases hactive
    | absent => rfl
    | up => rfl
    | stopped => rfl
    | crashed => rfl
  rw [State.queue, hworker, hactive]
  rfl

theorem mem_queue_of_active {p : Perform} (h : Inv s) (hactive : s.active = some (w, p)) :
    w ∈ s.queue := by
  rw [queue_of_active h hactive]
  exact List.mem_cons_self

/-- Numbers do not run ahead of the calls, and the operation a process has under the number of the
call that is going on is the operation of that call. -/
structure Timely (s : State) : Prop where
  vouched : ∀ n, Vouches s n → n ≤ s.session.sequence
  lines : ∀ c, ∀ o ∈ (s.interpreters c).program.lines, o.sequence ≤ s.session.sequence
  same : ∀ w, s.session.main.work? = some w → ∀ c, ∀ o ∈ (s.interpreters c).program.lines,
    o.sequence = w.sequence → .check o = w

theorem Timely.init : Timely {} where
  vouched n h := by
    rcases h with ⟨c, hc⟩ | ⟨w, hw, -⟩ | ⟨r, hr, -⟩
    · exact absurd hc List.not_mem_nil
    · cases hw
    · cases hr
  lines c o ho := absurd ho List.not_mem_nil
  same w hw := by cases hw

theorem Timely.keep (h : Timely s) (hn : Numbered s) (hs : step s a = some s') : Timely s' := by
  have hn' := hn.step hs
  have he := hn.effect hs
  have hle := he.sequence_le
  have hlines : ∀ c, ∀ o ∈ (s'.interpreters c).program.lines,
      o.sequence ≤ s'.session.sequence := by
    intro c o ho
    rcases mem_lines_step hs ho with ho | ⟨hactive, -⟩
    · exact (h.lines c o ho).trans hle
    · exact hn'.bound (.check o) (mem_queue_of_active hn'.inv hactive)
  refine ⟨fun n hv => ?_, hlines, fun w hw c o ho hsame => ?_⟩
  · rcases vouches_step hn hs hv with hv | ⟨c, o, rfl, ho, rfl⟩ | hclose
    · exact (h.vouched n hv).trans hle
    · exact (h.lines c o (by rw [Program.lines, ho]; exact List.mem_cons_self)).trans hle
    · exact (hn.bound _ hclose).trans hle
  · rcases mem_lines_step hs ho with ho | ⟨hactive, -⟩
    · have hbound := h.lines c o ho
      have hold : s.session.main.work? = some w → .check o = w := fun hw =>
        h.same w hw c o ho hsame
      cases he with
      | same hqueue hreplies hsequence hmain => exact hold (hmain w hw).1
      | sent w' hqueue hreplies hsequence hnumber hmain =>
        -- the call that has just been made has a number of its own
        rw [hmain] at hw
        have hww : w' = w := Option.some.inj hw
        rw [hww] at hnumber
        omega
      | answered w' r l l' hnumber hanswer hqueue hqueue' hreplies hsession =>
        exact hold (by rw [← hsession, hw])
      | lost hcrashed hqueue hreplies hsession => exact hold (by rw [← hsession, hw])
    · exact hn'.same w hw (.check o) (mem_queue_of_active hn'.inv hactive) hsame

/-- What holds of every state a session comes to. -/
theorem timely_traced {t : Traced State Action}
    (h : Reaches (traced step) (fun _ _ => True) (TracedInit Initial) t) :
    Numbered t.state ∧ Timely t.state := by
  refine h.invariant (I := fun t => Numbered t.state ∧ Timely t.state) (fun t ht => ?_)
    fun t a t' hi _ hs => ?_
  · rw [ht.1]
    exact ⟨Numbered.init, Timely.init⟩
  · obtain ⟨s', hs', rfl⟩ := traced_eq_some.mp hs
    exact ⟨hi.1.step hs', hi.2.keep hi.1 hs'⟩

/-! ## A check that returns has passed -/

theorem cons_outcome_ne (s : State) (x : Call × Except AclError Unit) :
    x :: s.session.outcomes ≠ s.session.outcomes := by
  intro h
  have := congrArg List.length h
  simp at this

/-- A request ends at once, or it is waited for. -/
theorem request_waits (s : State) (missing : Bool) (w : AclWork) :
    (∃ x, (s.request missing w).session.outcomes = x :: s.session.outcomes) ∨
      (s.request missing w).session.main.work? = some w := by
  unfold State.request
  dsimp only
  split
  · split
    · exact .inl ⟨_, rfl⟩
    · exact .inr rfl
  · exact .inr rfl

theorem callRun_waits {path : Units} {directory apply missing : Bool}
    (hgoing : (s.callRun path directory apply missing).session.outcomes = s.session.outcomes) :
    (s.callRun path directory apply missing).session.main.work? =
      some (.check ⟨s.session.sequence + 1, path, directory, apply⟩) := by
  have hcases : (∃ x, (s.callRun path directory apply missing).session.outcomes =
      x :: s.session.outcomes) ∨ (s.callRun path directory apply missing).session.main.work? =
        some (.check ⟨s.session.sequence + 1, path, directory, apply⟩) := by
    unfold State.callRun
    split
    · exact .inl ⟨_, rfl⟩
    split
    · exact .inl ⟨_, rfl⟩
    split
    · exact .inl ⟨_, rfl⟩
    · exact request_waits s missing _
  rcases hcases with ⟨x, hx⟩ | hw
  · exact absurd (hx.symm.trans hgoing) (cons_outcome_ne s x)
  · exact hw

/-- A step of the main thread does not touch what vouches for a number. -/
theorem Untouched.vouches (h : Untouched s s') : Vouches s' n ↔ Vouches s n := by
  rw [Vouches, Vouches, h.active, h.interpreters, h.replies]

/-- **A check that returns has passed.** Between a call of `run` and its return an interpreter has
evaluated the script of that very check, and it has passed. -/
theorem run_returns_checked {t : Traced State Action}
    (h : Reaches (traced step) (fun _ _ => True) (TracedInit Initial) t)
    {e e' : Event State Action} {earlier mid later : List (Event State Action)}
    (hsplit : t.events = later ++ e' :: (mid ++ e :: earlier)) {path : Units}
    {directory apply missing : Bool} (hcall : e.action = .run path directory apply missing)
    (hstarts : e.after.session.outcomes = e.before.session.outcomes)
    (hgoing : ∀ m ∈ mid, m.after.session.outcomes = m.before.session.outcomes)
    (hreturn : e'.after.session.outcomes = (.run, .ok ()) :: e'.before.session.outcomes) :
    ∃ m ∈ mid, ∃ c o, m.action = .pass c ∧
      (m.before.interpreters c).program.evaluating = some o ∧
      o.path = path ∧ o.directory = directory ∧ o.apply = apply := by
  -- the events of the run, each with what holds before it
  have hevent : ∀ {l k : List (Event State Action)} {m : Event State Action},
      t.events = l ++ m :: k →
        (Numbered m.before ∧ Timely m.before) ∧ step m.before m.action = some m.after :=
    fun hl => ⟨timely_traced (h.event hl).1, (h.event hl).2.2⟩
  have hmid : ∀ m ∈ mid, (Numbered m.before ∧ Timely m.before) ∧
      step m.before m.action = some m.after := by
    intro m hm
    obtain ⟨l, k, rfl⟩ := List.append_of_mem hm
    exact hevent (l := later ++ e' :: l) (k := k ++ e :: earlier) (by rw [hsplit]; simp)
  obtain ⟨⟨hn, ht⟩, hs⟩ := hevent (l := later ++ e' :: mid) (k := earlier) (m := e)
    (by rw [hsplit]; simp)
  obtain ⟨-, hs'⟩ := hevent hsplit
  rw [hcall] at hs
  have hafter := Option.some.inj (when_eq_some.mp hs).2
  generalize hw : (.check ⟨e.before.session.sequence + 1, path, directory, apply⟩ : AclWork) = w
  have hwaits : e.after.session.main.work? = some w := by
    rw [← hafter] at hstarts ⊢
    rw [← hw]
    exact callRun_waits hstarts
  have hnumber : w.sequence = e.before.session.sequence + 1 := by rw [← hw]; rfl
  have hfresh : ¬ Vouches e.after w.sequence := by
    rw [← hafter, (untouched_callRun _ path directory apply missing).vouches]
    intro hv
    have := ht.vouched _ hv
    omega
  -- the call goes on, and nothing vouches for it yet, until an event between the two
  obtain ⟨m, hm, ⟨hmw, hmv⟩, hmafter⟩ : ∃ m ∈ mid,
      (m.before.session.main.work? = some w ∧ ¬ Vouches m.before w.sequence) ∧
        ¬ (m.after.session.main.work? = some w ∧ ¬ Vouches m.after w.sequence) := by
    refine h.ended_between
      (P := fun s => s.session.main.work? = some w ∧ ¬ Vouches s w.sequence) hsplit
      ⟨hwaits, hfresh⟩ fun hbefore => hbefore.2 ?_
    rcases waits_step hs' hbefore.1 with ⟨-, hsame⟩ | ⟨outcome, houtcome, hok⟩
    · rw [hsame] at hreturn
      exact absurd hreturn.symm (cons_outcome_ne _ _)
    · rw [houtcome] at hreturn
      obtain ⟨hpair, -⟩ := List.cons.inj hreturn
      exact .inr (.inr (hok (Prod.mk.inj hpair).2))
  obtain ⟨⟨hnm, htm⟩, hsm⟩ := hmid m hm
  have hmwaits : m.after.session.main.work? = some w := by
    rcases waits_step hsm hmw with ⟨hkept, -⟩ | ⟨outcome, houtcome, -⟩
    · exact hkept
    · rw [hgoing m hm] at houtcome
      exact absurd houtcome.symm (cons_outcome_ne _ _)
  have hmvouches : Vouches m.after w.sequence := by
    by_contra hnot
    exact hmafter ⟨hmwaits, hnot⟩
  rcases vouches_step hnm hsm hmvouches with hv | ⟨c, o, haction, ho, hso⟩ | hclose
  · exact absurd hv hmv
  · have hoperation := htm.same w hmw c o (by rw [Program.lines, ho]; exact List.mem_cons_self) hso
    rw [← hw] at hoperation
    refine ⟨m, hm, c, o, haction, ho, ?_⟩
    rw [AclWork.check.inj hoperation]
    exact ⟨rfl, rfl, rfl⟩
  · have hcheck := hnm.same w hmw _ hclose rfl
    rw [← hw] at hcheck
    cases hcheck

theorem run_returns_checked_passing : ∃ t e e' mid,
    run (traced step) ⟨{}, []⟩ passing = some t ∧ t.events = [] ++ e' :: (mid ++ e :: []) ∧
      e'.after.session.outcomes = [(.run, .ok ())] ∧
      ∃ m ∈ mid, ∃ c o, m.action = .pass c ∧
        (m.before.interpreters c).program.evaluating = some o ∧
        o.path = [] ∧ o.directory = true ∧ o.apply = false := by
  obtain ⟨t, e, e', mid, hrun, hsplit, hcall, hstarts, hgoing, hbefore, hreturn⟩ :
      ∃ t e e' mid, run (traced step) ⟨{}, []⟩ passing = some t ∧
        t.events = [] ++ e' :: (mid ++ e :: []) ∧ e.action = .run [] true false false ∧
        e.after.session.outcomes = e.before.session.outcomes ∧
        (∀ m ∈ mid, m.after.session.outcomes = m.before.session.outcomes) ∧
        e'.before.session.outcomes = [] ∧ e'.after.session.outcomes = [(.run, .ok ())] := by
    refine ⟨_, _, _, [_, _, _, _, _], rfl, rfl, rfl, rfl, fun m hm => ?_, rfl, rfl⟩
    simp only [List.mem_cons, List.not_mem_nil, or_false] at hm
    rcases hm with rfl | rfl | rfl | rfl | rfl
    · rfl
    · rfl
    · rfl
    · rfl
    · rfl
  exact ⟨t, e, e', mid, hrun, hsplit, hreturn, run_returns_checked (reaches_of_run hrun) hsplit
    hcall hstarts hgoing (by rw [hreturn, hbefore])⟩

/-! ## Checks are evaluated once and in order -/

/-- The operation a process begins to evaluate. -/
def begun (e : Event State Action) : Option AclOperation :=
  match e.action with
  | .read c => (e.after.interpreters c).program.evaluating
  | _ => none

/-- Every open request comes after the operation, or was handed over itself. -/
structure Past (s : State) (o : AclOperation) : Prop where
  bound : o.sequence ≤ s.session.sequence
  before : ∀ w ∈ s.queue, o.sequence < w.sequence ∨ Handed s.active w

theorem handed_step (h : Numbered s) (hs : step s a = some s') (hw : Handed s.active w)
    (hmem : w ∈ s'.queue) : Handed s'.active w := by
  obtain ⟨p, hp, hne⟩ := hw
  cases activeStep_step h.inv hs with
  | same hsame => exact ⟨p, hsame.trans hp, hne⟩
  | ended hnone hgone =>
    have hr := hgone w p hp
    rw [(h.step hs).unanswered w hmem] at hr
    cases hr
  | taken hnone w' p' ht hres =>
    rw [hnone] at hp
    cases hp
  | moved w' p₁ p' hold hnew hprevious hresolved =>
    rw [hp] at hold
    rw [(Prod.mk.inj (Option.some.inj hold)).1]
    exact ⟨p', hnew, hprevious⟩

theorem Past.keep (h : Past s o) (hn : Numbered s) (hs : step s a = some s') : Past s' o := by
  have he := hn.effect hs
  refine ⟨h.bound.trans he.sequence_le, fun w hw => ?_⟩
  have hold : w ∈ s.queue → o.sequence < w.sequence ∨ Handed s'.active w := fun hmem =>
    (h.before w hmem).imp id fun hh => handed_step hn hs hh hw
  cases he with
  | same hqueue hreplies hsequence hmain => exact hold (hqueue ▸ hw)
  | sent w' hqueue hreplies hsequence hnumber hmain =>
    have hmem : w ∈ s.queue ++ [w'] := hqueue ▸ hw
    rcases List.mem_append.mp hmem with hmem | hmem
    · exact hold hmem
    · have := h.bound
      rw [List.mem_singleton.mp hmem]
      exact .inl (by omega)
  | answered w' r l l' hnumber hanswer hqueue hqueue' hreplies hsession =>
    refine hold ?_
    rw [hqueue' ] at hw
    rw [hqueue]
    rcases List.mem_append.mp hw with hw | hw
    · exact List.mem_append_left _ hw
    · exact List.mem_append_right _ (List.mem_cons_of_mem _ hw)
  | lost hcrashed hqueue hreplies hsession => exact hold (hqueue.subset hw)

/-- An operation that is handed over is past. -/
theorem past_handed (hn : Numbered s) (hactive : s.active = some (.check o, .answer c)) :
    Past s o := by
  refine ⟨hn.bound (.check o) (mem_queue_of_active hn.inv hactive), fun w hw => ?_⟩
  have hsorted := hn.sorted
  rw [queue_of_active hn.inv hactive] at hw hsorted
  rcases List.mem_cons.mp hw with rfl | hw
  · exact .inr ⟨_, hactive, by simp⟩
  · exact .inl ((List.pairwise_cons.mp hsorted).1 w hw)

/-- What is past has a smaller number than an operation that is handed over now. -/
theorem Past.lt {o' : AclOperation} (h : Past s o') (hn : Numbered s) (hs : step s a = some s')
    (hactive : s'.active = some (.check o, .answer c)) (hnew : ¬ Handed s.active (.check o)) :
    o'.sequence < o.sequence := by
  have hmem := mem_queue_of_active (hn.step hs).inv hactive
  have hold : .check o ∈ s.queue → o'.sequence < o.sequence := fun hmem =>
    (h.before _ hmem).resolve_right hnew
  cases hn.effect hs with
  | same hqueue hreplies hsequence hmain => exact hold (hqueue ▸ hmem)
  | sent w' hqueue hreplies hsequence hnumber hmain =>
    have hmem : .check o ∈ s.queue ++ [w'] := hqueue ▸ hmem
    rcases List.mem_append.mp hmem with hmem | hmem
    · exact hold hmem
    · have := h.bound
      rw [← List.mem_singleton.mp hmem] at hnumber
      have hsame : (AclWork.check o).sequence = o.sequence := rfl
      omega
  | answered w' r l l' hnumber hanswer hqueue hqueue' hreplies hsession =>
    refine hold ?_
    rw [hqueue'] at hmem
    rw [hqueue]
    rcases List.mem_append.mp hmem with hmem | hmem
    · exact List.mem_append_left _ hmem
    · exact List.mem_append_right _ (List.mem_cons_of_mem _ hmem)
  | lost hcrashed hqueue hreplies hsession => exact hold (hqueue.subset hmem)

/-- The operations with the processes are past, and each process has them in order. -/
structure Ordered (s : State) : Prop where
  past : ∀ c, ∀ o ∈ (s.interpreters c).program.lines, Past s o
  sorted : ∀ c, (s.interpreters c).program.lines.Pairwise fun o o' => o.sequence < o'.sequence

theorem Ordered.keep (h : Ordered s) (hn : Numbered s) (hs : step s a = some s') : Ordered s' := by
  refine ⟨fun c o ho => ?_, fun c => ?_⟩
  · rcases mem_lines_step hs ho with ho | ⟨hactive, -⟩
    · exact (h.past c o ho).keep hn hs
    · exact past_handed (hn.step hs) hactive
  · have hsorted := h.sorted c
    have hpast := h.past c
    rcases programSteps_step hs c with ⟨hp, -⟩ | ⟨o, -, -, hfresh⟩
    swap
    · rw [hfresh]
      exact List.pairwise_singleton _ _
    generalize (s'.interpreters c).program = p' at hp ⊢
    generalize (s.interpreters c).program = p at hp hsorted hpast
    cases hp with
    | same => exact hsorted
    | given o hactive hnew =>
      rw [Program.lines, ← List.append_assoc, List.pairwise_append]
      refine ⟨hsorted, List.pairwise_singleton _ _, fun o₁ ho₁ o₂ ho₂ => ?_⟩
      rw [List.mem_singleton.mp ho₂]
      exact (hpast o₁ ho₁).lt hn hs hactive hnew
    | heard l rest h => exact hsorted
    | began o rest out ha h =>
      rw [h] at hsorted
      exact hsorted
    | refused o rest out h =>
      rw [h] at hsorted
      exact (List.pairwise_cons.mp hsorted).2
    | passed lines o out ha h =>
      rw [h] at hsorted
      exact (List.pairwise_cons.mp hsorted).2
    | printed => exact hsorted

/-- What was evaluated is past, and has smaller numbers than what the running process still has. -/
structure Evaluated (s : State) (evaluated : List AclOperation) : Prop where
  past : ∀ o ∈ evaluated, Past s o
  before : ∀ o ∈ evaluated, ∀ c, (s.interpreters c).life = .running →
    ∀ o' ∈ (s.interpreters c).program.stdin, o.sequence < o'.sequence
  sorted : evaluated.Pairwise fun o o' => o'.sequence < o.sequence

theorem Evaluated.keep {evaluated : List AclOperation} (h : Evaluated s evaluated)
    (hn : Numbered s) (hs : step s a = some s') : Evaluated s' evaluated := by
  refine ⟨fun o ho => (h.past o ho).keep hn hs, fun o ho c hrunning o' ho' => ?_, h.sorted⟩
  rcases programSteps_step hs c with ⟨hp, hlife⟩ | ⟨o₁, hactive, hnew, hfresh⟩
  · have hbefore := h.before o ho c (hlife hrunning)
    generalize (s'.interpreters c).program = p' at hp ho'
    generalize (s.interpreters c).program = p at hp hbefore
    cases hp with
    | same => exact hbefore o' ho'
    | given o₁ hactive hnew =>
      rcases List.mem_append.mp ho' with ho' | ho'
      · exact hbefore o' ho'
      · rw [List.mem_singleton.mp ho']
        exact (h.past o ho).lt hn hs hactive hnew
    | heard l rest hout => exact hbefore o' ho'
    | began o₁ rest out ha hprogram =>
      rw [hprogram] at hbefore
      exact hbefore o' (List.mem_cons_of_mem _ ho')
    | refused o₁ rest out hprogram =>
      rw [hprogram] at hbefore
      exact hbefore o' (List.mem_cons_of_mem _ ho')
    | passed lines o₁ out ha hprogram =>
      rw [hprogram] at hbefore
      exact hbefore o' ho'
    | printed => exact hbefore o' ho'
  · rw [hfresh] at ho'
    rw [List.mem_singleton.mp ho']
    exact (h.past o ho).lt hn hs hactive hnew

/-- The next line is the next one of the only process that runs. -/
theorem Evaluated.read {evaluated : List AclOperation} (h : Evaluated s evaluated)
    (hn : Numbered s) (hord : Ordered s) (hs : step s (.read c) = some s')
    (ho : (s'.interpreters c).program.evaluating = some o) : Evaluated s' (o :: evaluated) := by
  have hk := h.keep hn hs
  obtain ⟨hrunning, hread⟩ := when_eq_some.mp hs
  have hrunning : (s.interpreters c).life = .running := by simpa [State.isRunning] using hrunning
  have hord' := hord.keep hn hs
  have hlines : (s'.interpreters c).program.lines = o :: (s'.interpreters c).program.stdin := by
    rw [Program.lines, ho]
    rfl
  have hmem : o ∈ (s.interpreters c).program.stdin := by
    unfold State.read at hread
    split at hread
    · rename_i o' rest out hprogram
      split at hread
      · rw [← Option.some.inj hread] at ho
        simp at ho
      · rw [← Option.some.inj hread] at ho
        simp only [State.setProgram, interpreters_modify_self, Option.some.injEq] at ho
        rw [hprogram, ho]
        exact List.mem_cons_self
    · cases hread
  refine ⟨fun o₁ ho₁ => ?_, fun o₁ ho₁ d hd o' ho' => ?_, List.pairwise_cons.mpr ⟨fun o₁ ho₁ => ?_, h.sorted⟩⟩
  · rcases List.mem_cons.mp ho₁ with rfl | ho₁
    · exact hord'.past c o₁ (by rw [hlines]; exact List.mem_cons_self)
    · exact hk.past o₁ ho₁
  · rcases List.mem_cons.mp ho₁ with rfl | ho₁
    · -- what runs is the process that reads
      have hc : (s'.interpreters c).life.isOpen = true := by
        unfold State.read at hread
        split at hread
        · split at hread
          · rw [← Option.some.inj hread]
            simp [Life.isOpen]
          · rw [← Option.some.inj hread]
            simp [State.setProgram, hrunning, Life.isOpen]
        · cases hread
      have hinv := (hn.step hs).inv
      have hsame : c = d := Option.some.inj ((((hinv.process c).mpr hc).symm.trans
        ((hinv.process d).mpr (by rw [hd]; rfl))))
      have hsorted := hord'.sorted c
      rw [hlines] at hsorted
      exact (List.pairwise_cons.mp hsorted).1 o' (hsame ▸ ho')
    · exact hk.before o₁ ho₁ d hd o' ho'
  · exact h.before o₁ ho₁ c hrunning o hmem

structure InOrder (t : Traced State Action) : Prop where
  numbered : Numbered t.state
  ordered : Ordered t.state
  evaluated : Evaluated t.state (t.events.filterMap begun)

theorem InOrder.snoc {t t' : Traced State Action} (h : InOrder t) (hs : traced step t a = some t') :
    InOrder t' := by
  obtain ⟨s', hs', rfl⟩ := traced_eq_some.mp hs
  refine ⟨h.numbered.step hs', h.ordered.keep h.numbered hs', ?_⟩
  cases hb : begun ⟨t.state, a, s'⟩ with
  | none =>
    rw [List.filterMap_cons_none hb]
    exact h.evaluated.keep h.numbered hs'
  | some o =>
    rw [List.filterMap_cons_some hb]
    unfold begun at hb
    dsimp only at hb
    split at hb
    · exact h.evaluated.read h.numbered h.ordered hs' hb
    · cases hb

/-- **Checks are evaluated in the order of their calls, and none is evaluated twice**, whichever
processes evaluate them and whatever becomes of these. -/
theorem evaluated_in_order {t : Traced State Action}
    (h : Reaches (traced step) (fun _ _ => True) (TracedInit Initial) t) :
    (t.events.filterMap begun).Pairwise fun o o' => o'.sequence < o.sequence := by
  have hi : InOrder t := by
    refine h.invariant (fun t ht => ?_) fun _ _ _ hi _ hs => hi.snoc hs
    obtain ⟨hinit, hevents⟩ := ht
    refine ⟨by rw [hinit]; exact Numbered.init, ?_, ?_⟩
    · rw [hinit]
      exact ⟨fun c o ho => absurd ho List.not_mem_nil, fun c => List.Pairwise.nil⟩
    · rw [hevents]
      exact ⟨fun o ho => absurd ho List.not_mem_nil, fun o ho => absurd ho List.not_mem_nil,
        List.Pairwise.nil⟩
  exact hi.evaluated.sorted

/-- Two checks, one after the other. -/
def twoChecks : List Action :=
  passing ++ [.run [] false true false, .receive none, .read 0, .pass 0, .line 0, .resume none, .wake]

theorem evaluated_in_order_twoChecks : ∃ t, run (traced step) ⟨{}, []⟩ twoChecks = some t ∧
    (t.events.filterMap begun).map (·.sequence) = [2, 1] ∧
    (t.events.filterMap begun).Pairwise fun o o' => o'.sequence < o.sequence := by
  obtain ⟨t, hrun, hbegun⟩ : ∃ t, run (traced step) ⟨{}, []⟩ twoChecks = some t ∧
      (t.events.filterMap begun).map (·.sequence) = [2, 1] := ⟨_, rfl, rfl⟩
  exact ⟨t, hrun, hbegun, evaluated_in_order (reaches_of_run hrun)⟩

end Caveat.Acl
