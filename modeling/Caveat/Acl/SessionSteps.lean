import Caveat.Acl.SessionRequests

/-!
# What a step does to the request in hand and to the processes

`ActiveStep` says what can become of the request the worker has in its hands, and `ProgramSteps` what
can become of the input and the output of each process. What a run of the session keeps is derived
from these two and from `Effect`.
-/

namespace Caveat.Acl

open Js Lib

variable {s s' : State} {a : Action} {c d : Nat} {w w' : AclWork} {o : AclOperation} {n : Nat}

/-! ## Who takes a step -/

/-- The worker's variables and the processes are as they were. -/
structure Untouched (s s' : State) : Prop where
  active : s'.active = s.active
  processState : s'.processState = s.processState
  interpreters : s'.interpreters = s.interpreters
  replies : s'.replies = s.replies

theorem untouched_request (s : State) (missing : Bool) (w : AclWork) :
    Untouched s (s.request missing w) := by
  unfold State.request
  dsimp only
  split
  · split
    · exact ⟨rfl, rfl, rfl, rfl⟩
    · exact ⟨rfl, rfl, rfl, rfl⟩
  · exact ⟨rfl, rfl, rfl, rfl⟩

theorem untouched_callRun (s : State) (path : Units) (directory apply missing : Bool) :
    Untouched s (s.callRun path directory apply missing) := by
  unfold State.callRun
  split
  · exact ⟨rfl, rfl, rfl, rfl⟩
  split
  · exact ⟨rfl, rfl, rfl, rfl⟩
  split
  · exact ⟨rfl, rfl, rfl, rfl⟩
  · exact untouched_request s missing _

theorem untouched_callClose (s : State) : Untouched s s.callClose := by
  unfold State.callClose
  split
  · exact ⟨rfl, rfl, rfl, rfl⟩
  dsimp only
  split
  · exact ⟨rfl, rfl, rfl, rfl⟩
  · obtain ⟨ha, hp, hi, hr⟩ := untouched_request { s with session := { s.session with closed := true } }
      false (.close (s.session.sequence + 1))
    exact ⟨ha, hp, hi, hr⟩

theorem untouched_wake (hs : s.wake = some s') : Untouched s s' := by
  unfold State.wake at hs
  split at hs
  · obtain ⟨r, -, rfl⟩ := Option.map_eq_some_iff.mp hs
    unfold State.take
    split
    · exact ⟨rfl, rfl, rfl, rfl⟩
    dsimp only
    split
    · exact ⟨rfl, rfl, rfl, rfl⟩
    · exact ⟨rfl, rfl, rfl, rfl⟩
  · cases hs

theorem untouched_timeout (hs : s.timeout = some s') : Untouched s s' := by
  unfold State.timeout at hs
  split at hs
  · rw [← Option.some.inj hs]
    exact ⟨rfl, rfl, rfl, rfl⟩
  · cases hs

theorem untouched_giveUp (hs : s.giveUp = some s') : Untouched s s' := by
  unfold State.giveUp at hs
  split at hs
  · rw [← Option.some.inj hs]
    exact ⟨rfl, rfl, rfl, rfl⟩
  · cases hs

theorem untouched_crash (hs : s.crash = some s') : Untouched s s' := by
  unfold State.crash at hs
  split at hs
  · rw [← Option.some.inj hs]
    exact ⟨rfl, rfl, rfl, rfl⟩
  · rw [← Option.some.inj hs]
    exact ⟨rfl, rfl, rfl, rfl⟩
  · cases hs

/-! ## What the worker works on -/

/-- What can become of the request in the worker's hands. -/
inductive ActiveStep (s s' : State) : Prop where
  | same (h : s'.active = s.active)
  /-- It is answered, where there was one. -/
  | ended (h : s'.active = none)
      (hgone : ∀ w p, s.active = some (w, p) → (s'.replies w.sequence).isSome = true)
  | taken (hnone : s.active = none) (w : AclWork) (p : Perform) (h : s'.active = some (w, p))
      (hp : p ≠ .resolved)
  /-- It goes on, and no more to the wait for a process that ran before. It is resolved by a line. -/
  | moved (w : AclWork) (p p' : Perform) (h : s.active = some (w, p)) (h' : s'.active = some (w, p'))
      (hprevious : ∀ c, p' ≠ .previous c)
      (hresolved : p' = .resolved → ∃ c, .answer w.sequence ∈ (s.interpreters c).program.stdout)

theorem Keeps.activeStep (h : Inv s) (hk : Keeps s s') : ActiveStep s s' := by
  rcases hk.active with hsame | ⟨c, hr⟩
  · exact .same hsame
  · obtain ⟨o, error, ho, herror⟩ := hr.active_eq h
    exact .moved _ _ _ ho herror (by simp) (by simp)

theorem finish_replies (s : State) (w : AclWork) (error : Option AclError) :
    ((s.finish w error).replies w.sequence).isSome = true := by
  cases w with
  | check o => simp [State.finish, State.reply, AclWork.sequence]
  | close n => simp [State.finish, State.reply, AclWork.sequence]

theorem activeStep_finish {s₀ : State} {error : Option AclError}
    (h : ∀ w' p, s₀.active = some (w', p) → w' = w) : ActiveStep s₀ (s.finish w error) := by
  refine .ended (by cases w <;> rfl) fun w' p hactive => ?_
  rw [h w' p hactive]
  exact finish_replies s w error

theorem active_unique {p : Perform} (hactive : s.active = some (w, p)) :
    ∀ w' p', s.active = some (w', p') → w' = w := by
  intro w' p' h
  rw [hactive] at h
  exact (Prod.mk.inj (Option.some.inj h)).1.symm

theorem activeStep_caught {p : Perform} (hactive : s.active = some (w, p)) (error : AclError) :
    ActiveStep s (s.caught w error) := by
  unfold State.caught
  split
  · exact activeStep_finish (active_unique hactive)
  · exact .moved w p _ hactive rfl (by simp) (by simp)

theorem activeStep_hand {p : Perform} (hactive : s.active = some (.check o, p))
    (threw : Option Units) : ActiveStep s (s.hand o threw) := by
  rcases hand_cases s o threw with ⟨message, hhand⟩ | ⟨ha, -⟩
  · rw [hhand]
    exact activeStep_finish (active_unique hactive)
  · exact .moved _ p _ hactive ha (by simp) (by simp)

theorem activeStep_perform {s₀ : State} (hsame : s.active = s₀.active) (w : AclWork)
    (threw : Option Units) : ActiveStep s₀ (s.perform w threw) := by
  unfold State.perform
  split
  · exact .same hsame
  · rename_i hnone
    rw [hsame] at hnone
    have hvoid : ∀ w₁ w' p, s₀.active = some (w', p) → w' = w₁ := by simp [hnone]
    split
    · exact activeStep_finish (hvoid _)
    · exact .taken hnone _ _ rfl (by simp)
    · rename_i o _
      rcases hand_cases s o threw with ⟨message, hhand⟩ | ⟨ha, -⟩
      · rw [hhand]
        exact activeStep_finish (hvoid _)
      · exact .taken hnone _ _ ha (by simp)
    · rename_i o _ _
      split
      · exact .taken hnone _ _ rfl (by simp)
      · rcases hand_cases s o threw with ⟨message, hhand⟩ | ⟨ha, -⟩
        · rw [hhand]
          exact activeStep_finish (hvoid _)
        · exact .taken hnone _ _ ha (by simp)

theorem activeStep_resume {threw : Option Units} (hs : s.resume threw = some s') :
    ActiveStep s s' := by
  unfold State.resume at hs
  split at hs
  · rename_i o c hactive
    split at hs
    · rw [← Option.some.inj hs]
      exact activeStep_hand hactive threw
    · cases hs
  · rename_i w hactive
    rw [← Option.some.inj hs]
    exact activeStep_finish (active_unique hactive)
  · rename_i w error hactive
    rw [← Option.some.inj hs]
    exact activeStep_caught hactive error
  · rename_i w c hactive
    split at hs
    · split at hs
      · rw [← Option.some.inj hs]
        exact activeStep_finish (active_unique hactive)
      · rw [← Option.some.inj hs]
        exact activeStep_caught hactive _
    · cases hs
  · rename_i w c error hactive
    split at hs
    · rw [← Option.some.inj hs]
      exact activeStep_finish (active_unique hactive)
    · cases hs
  · cases hs

theorem activeStep_line (h : Inv s) (hs : s.line c = some s') : ActiveStep s s' := by
  unfold State.line at hs
  split at hs
  · cases hs
  · rename_i l rest hout
    have h₁ := h.setProgram c (fun p => { p with stdout := rest })
    have hfail : ∀ error, ActiveStep s ((s.setProgram c (fun p => { p with stdout := rest })).fail c error) := by
      intro error
      rcases (keeps_fail (s.setProgram c (fun p => { p with stdout := rest })) c error).active with
        hsame | ⟨d, hr⟩
      · exact .same hsame
      · obtain ⟨o, error, ho, herror⟩ := hr.active_eq h₁
        exact .moved _ _ _ ho herror (by simp) (by simp)
    dsimp only at hs
    split at hs
    · rw [← Option.some.inj hs]
      exact hfail _
    · rename_i n hpending
      split at hs
      · rename_i hl
        rw [← Option.some.inj hs]
        obtain ⟨o, ho, hn⟩ := h₁.pending c n hpending
        have hactive : s.active = some (.check o, .answer c) := ho
        refine .moved (.check o) (.answer c) .resolved hactive ?_ (by simp) fun _ => ⟨c, ?_⟩
        · rw [State.settlePending, ho]
          rfl
        · rw [hout, hl, ← hn]
          exact List.mem_cons_self
      · rw [← Option.some.inj hs]
        exact hfail _

theorem activeStep_closeEvent (h : Inv s) (hs : s.closeEvent c = some s') : ActiveStep s s' := by
  unfold State.closeEvent at hs
  split at hs
  · rename_i status hlife
    dsimp only at hs
    rw [← Option.some.inj hs]
    have hreject : ∀ (s₁ : State) (error : AclError), s₁.active = s.active →
        (∀ d, (s₁.interpreters d).pending = (s.interpreters d).pending) →
        ActiveStep s (s₁.rejectPending c error) := by
      intro s₁ error hactive hpending
      unfold State.rejectPending
      split
      · rename_i hsome
        rw [hpending] at hsome
        obtain ⟨k, hk⟩ := Option.isSome_iff_exists.mp hsome
        obtain ⟨o, ho, -⟩ := h.pending c k hk
        refine .moved (.check o) (.answer c) (.rejected error) ho ?_ (by simp) (by simp)
        rw [State.settlePending, hactive, ho]
        rfl
      · exact .same hactive
    have hpending : ∀ d, ((s.modify c (fun i => { i with life := .closed status })).interpreters
        d).pending = (s.interpreters d).pending :=
      modify_keeps (·.pending) s c (f := fun i => { i with life := .closed status }) fun _ => rfl
    split
    · exact hreject _ _ rfl hpending
    · exact hreject _ _ rfl hpending
  · cases hs

theorem activeStep_step (h : Inv s) (hs : step s a = some s') : ActiveStep s s' := by
  cases a with
  | run path directory apply missing =>
    rw [← Option.some.inj (when_eq_some.mp hs).2]
    exact .same (untouched_callRun s path directory apply missing).active
  | close =>
    rw [← Option.some.inj (when_eq_some.mp hs).2]
    exact .same (untouched_callClose s).active
  | wake => exact .same (untouched_wake hs).active
  | timeout => exact .same (untouched_timeout hs).active
  | giveUp => exact .same (untouched_giveUp hs).active
  | failed name =>
    rw [← Option.some.inj (when_eq_some.mp hs).2]
    exact .same rfl
  | loaded threw =>
    have hs : s.loaded threw = some s' := hs
    unfold State.loaded at hs
    split at hs
    · rename_i w hworker
      rw [← Option.some.inj hs]
      exact @activeStep_perform { s with worker := .up } s rfl w threw
    · cases hs
  | importFailed code =>
    have hs : s.importFailed code = some s' := hs
    unfold State.importFailed at hs
    split at hs
    · rw [← Option.some.inj hs]
      exact .same rfl
    · cases hs
  | crash => exact .same (untouched_crash hs).active
  | receive threw =>
    have hs : s.receive threw = some s' := (when_eq_some.mp hs).2
    unfold State.receive at hs
    split at hs
    · cases hs
    · rename_i w rest hmessages
      rw [← Option.some.inj hs]
      exact @activeStep_perform { s with messages := rest } s rfl w threw
    · rename_i k rest hmessages
      rw [← Option.some.inj hs]
      have hrest : Inv { s with messages := rest } := h.congr rfl rfl rfl fun hw => hw
      cases (keeps_cancel { s with messages := rest } k).activeStep hrest with
      | same h => exact .same h
      | ended h hgone => exact .ended h hgone
      | taken hnone w p h hp => exact .taken hnone w p h hp
      | moved w p p' h h' hprevious hresolved => exact .moved w p p' h h' hprevious hresolved
  | resume threw => exact activeStep_resume (when_eq_some.mp hs).2
  | closeTimer => exact (keeps_closeTimer (when_eq_some.mp hs).2).activeStep h
  | line c => exact activeStep_line h (when_eq_some.mp hs).2
  | stdoutData c bytes =>
    rw [← Option.some.inj (when_eq_some.mp hs).2]
    exact (keeps_stdoutData s c bytes).activeStep h
  | stderrData c text =>
    rw [← Option.some.inj (when_eq_some.mp hs).2]
    exact (keeps_stderrData s c text).activeStep h
  | trouble c code =>
    rw [← Option.some.inj (when_eq_some.mp hs).2]
    exact (keeps_fail s c _).activeStep h
  | exitEvent c =>
    obtain ⟨f, rfl⟩ := exitEvent_modifies (when_eq_some.mp hs).2
    exact .same rfl
  | closeEvent c => exact activeStep_closeEvent h (when_eq_some.mp hs).2
  | read c =>
    obtain ⟨f, rfl⟩ := read_modifies (when_eq_some.mp hs).2
    exact .same rfl
  | pass c =>
    obtain ⟨f, rfl⟩ := pass_modifies (when_eq_some.mp hs).2
    exact .same rfl
  | print c =>
    rw [← Option.some.inj (when_eq_some.mp hs).2]
    exact .same rfl
  | exit c status =>
    rw [← Option.some.inj (when_eq_some.mp hs).2]
    exact .same rfl

/-! ## What a process has -/

/-- A request that is in the worker's hands, and not before its hand-over. -/
def Handed (active : Option (AclWork × Perform)) (w : AclWork) : Prop :=
  ∃ p, active = some (w, p) ∧ ∀ c, p ≠ .previous c

/-- What a step makes of the program of process `d`. -/
inductive ProgramStep (active active' : Option (AclWork × Perform)) (a : Action) (d : Nat)
    (p : Program) : Program → Prop where
  | same : ProgramStep active active' a d p p
  | given (o : AclOperation) (h : active' = some (.check o, .answer d))
      (hnew : ¬ Handed active (.check o)) :
      ProgramStep active active' a d p { p with stdin := p.stdin ++ [o] }
  | heard (l : Line) (rest : List Line) (h : p.stdout = l :: rest) :
      ProgramStep active active' a d p { p with stdout := rest }
  | began (o : AclOperation) (rest : List AclOperation) (out : List Line) (ha : a = .read d)
      (h : p = ⟨o :: rest, none, out⟩) : ProgramStep active active' a d p ⟨rest, some o, out⟩
  | refused (o : AclOperation) (rest : List AclOperation) (out : List Line)
      (h : p = ⟨o :: rest, none, out⟩) : ProgramStep active active' a d p ⟨rest, none, out⟩
  | passed (lines : List AclOperation) (o : AclOperation) (out : List Line) (ha : a = .pass d)
      (h : p = ⟨lines, some o, out⟩) :
      ProgramStep active active' a d p ⟨lines, none, out ++ [.answer o.sequence]⟩
  | printed : ProgramStep active active' a d p { p with stdout := p.stdout ++ [.other] }

/-- A process that is new has the operation that is handed over. -/
def Spawned (s s' : State) (d : Nat) : Prop :=
  ∃ o, s'.active = some (.check o, .answer d) ∧ ¬ Handed s.active (.check o) ∧
    (s'.interpreters d).program = { stdin := [o] }

/-- The programs of all processes change like this, and only a new one begins to run. -/
def ProgramSteps (s s' : State) (a : Action) : Prop :=
  ∀ d, (ProgramStep s.active s'.active a d (s.interpreters d).program (s'.interpreters d).program ∧
    ((s'.interpreters d).life = .running → (s.interpreters d).life = .running)) ∨ Spawned s s' d

theorem programSteps_of_eq (h : ∀ d, (s'.interpreters d).program = (s.interpreters d).program)
    (hlife : ∀ d, (s'.interpreters d).life = .running → (s.interpreters d).life = .running) :
    ProgramSteps s s' a := by
  intro d
  rw [h d]
  exact .inl ⟨.same, hlife d⟩

theorem Keeps.programSteps (h : Keeps s s') : ProgramSteps s s' a :=
  programSteps_of_eq h.program fun d hd => (h.life d).symm.trans hd

/-- A change of one process changes the program of that one. -/
theorem programSteps_modify {f : Interpreter → Interpreter}
    (h : ProgramStep s.active s.active a c (s.interpreters c).program
      (f (s.interpreters c)).program)
    (hlife : (f (s.interpreters c)).life = .running → (s.interpreters c).life = .running) :
    ProgramSteps s (s.modify c f) a := by
  intro d
  rw [interpreters_modify]
  by_cases hd : d = c
  · rw [if_pos hd, hd]
    exact .inl ⟨h, hlife⟩
  · rw [if_neg hd]
    exact .inl ⟨.same, fun h => h⟩

theorem finish_interpreters (s : State) (w : AclWork) (error : Option AclError) :
    (s.finish w error).interpreters = s.interpreters := by
  cases w with
  | check o => rfl
  | close n => rfl

theorem programSteps_finish (w : AclWork) (error : Option AclError) :
    ProgramSteps s (s.finish w error) a :=
  programSteps_of_eq (fun d => by rw [finish_interpreters]) fun d => by
    rw [finish_interpreters]
    exact fun hd => hd

theorem programSteps_caught (w : AclWork) (error : AclError) :
    ProgramSteps s (s.caught w error) a := by
  unfold State.caught
  split
  · exact programSteps_finish w _
  · exact programSteps_of_eq (modify_keeps (·.program) s _ kill_program)
      fun d hd => (modify_keeps (·.life) s _ kill_life d).symm.trans hd

theorem programSteps_hand (hnew : ¬ Handed s.active (.check o)) (threw : Option Units) :
    ProgramSteps s (s.hand o threw) a := by
  intro d
  unfold State.hand
  split
  · rename_i c hc
    by_cases hd : d = c
    · subst hd
      rw [show (s.write o d).interpreters d = (s.interpreters d).given o by simp [State.write]]
      exact .inl ⟨.given o rfl hnew, fun h => h⟩
    · rw [show (s.write o c).interpreters d = s.interpreters d by
        simp [State.write, interpreters_modify, hd]]
      exact .inl ⟨.same, fun h => h⟩
  · split
    · exact programSteps_finish _ _ d
    · by_cases hd : d = s.spawned
      · subst hd
        exact .inr ⟨o, rfl, hnew, by simp [State.write, State.spawn, State.set, Interpreter.given]⟩
      · rw [show (s.spawn.write o s.spawned).interpreters d = s.interpreters d by
          simp [State.write, State.spawn, State.set, interpreters_modify, hd]]
        exact .inl ⟨.same, fun h => h⟩

theorem programSteps_perform (w : AclWork) (threw : Option Units) :
    ProgramSteps s (s.perform w threw) a := by
  unfold State.perform
  split
  · exact fun d => .inl ⟨.same, fun h => h⟩
  · rename_i hnone
    have hnew : ∀ w, ¬ Handed s.active w := by
      intro w h
      obtain ⟨p, hp, -⟩ := h
      rw [hnone] at hp
      cases hp
    split
    · exact programSteps_finish _ _
    · exact programSteps_of_eq
        (modify_keeps (·.program) s _ (f := fun i => { i with ended := true }) fun _ => rfl)
        fun d hd => (modify_keeps (·.life) s _ (f := fun i => { i with ended := true })
          (fun _ => rfl) d).symm.trans hd
    · exact programSteps_hand (hnew _) _
    · split
      · exact fun d => .inl ⟨.same, fun h => h⟩
      · exact programSteps_hand (hnew _) _

theorem programSteps_resume {threw : Option Units} (hs : s.resume threw = some s') :
    ProgramSteps s s' a := by
  unfold State.resume at hs
  split at hs
  · rename_i o c hactive
    split at hs
    · rw [← Option.some.inj hs]
      refine programSteps_hand (fun h => ?_) threw
      obtain ⟨p, hp, hne⟩ := h
      rw [hactive] at hp
      exact hne c (Prod.mk.inj (Option.some.inj hp)).2.symm
    · cases hs
  · rw [← Option.some.inj hs]
    exact programSteps_finish _ _
  · rw [← Option.some.inj hs]
    exact programSteps_caught _ _
  · split at hs
    · split at hs
      · rw [← Option.some.inj hs]
        exact programSteps_finish _ _
      · rw [← Option.some.inj hs]
        exact programSteps_caught _ _
    · cases hs
  · split at hs
    · rw [← Option.some.inj hs]
      exact programSteps_finish _ _
    · cases hs
  · cases hs

theorem programSteps_line (hs : s.line c = some s') : ProgramSteps s s' a := by
  unfold State.line at hs
  split at hs
  · cases hs
  · rename_i l rest hout
    have hheard : ∀ s₁ : State, (∀ d, (s₁.interpreters d).program =
        ((s.setProgram c (fun p => { p with stdout := rest })).interpreters d).program) →
        (∀ d, (s₁.interpreters d).life =
          ((s.setProgram c (fun p => { p with stdout := rest })).interpreters d).life) →
          ProgramSteps s s₁ a := by
      intro s₁ h₁ h₂ d
      rw [h₁ d, h₂ d, State.setProgram, interpreters_modify]
      by_cases hd : d = c
      · rw [if_pos hd, hd]
        exact .inl ⟨.heard l rest hout, fun h => h⟩
      · rw [if_neg hd]
        exact .inl ⟨.same, fun h => h⟩
    dsimp only at hs
    split at hs
    · rw [← Option.some.inj hs]
      exact hheard _ (keeps_fail _ c _).program (keeps_fail _ c _).life
    · split at hs
      · rw [← Option.some.inj hs]
        exact hheard _ (settlePending_program _ c _) (settlePending_life _ c _)
      · rw [← Option.some.inj hs]
        exact hheard _ (keeps_fail _ c _).program (keeps_fail _ c _).life

theorem programSteps_closeEvent (hs : s.closeEvent c = some s') : ProgramSteps s s' a := by
  unfold State.closeEvent at hs
  split at hs
  · rename_i status hlife
    have hclosed : ∀ s₁ : State, Keeps { s.modify c (fun i => { i with life := .closed status }) with
        processState := s₁.processState } s₁ → ProgramSteps s s₁ a := by
      intro s₁ hk
      refine programSteps_of_eq (fun d => (hk.program d).trans (modify_keeps (·.program) s c
        (f := fun i => { i with life := .closed status }) (fun _ => rfl) d)) fun d hd => ?_
      rw [hk.life d] at hd
      by_cases hdc : d = c
      · subst hdc
        simp at hd
      · simpa [interpreters_modify, hdc] using hd
    dsimp only at hs
    rw [← Option.some.inj hs]
    split
    · refine hclosed _ ?_
      rw [(keeps_rejectPending _ c _).processState]
      exact keeps_rejectPending _ c _
    · refine hclosed _ ?_
      rw [(keeps_rejectPending _ c _).processState]
      exact keeps_rejectPending _ c _
  · cases hs

theorem programSteps_read (hs : s.read c = some s') : ProgramSteps s s' (.read c) := by
  unfold State.read at hs
  split at hs
  · rename_i o rest out hprogram
    split at hs
    · rw [← Option.some.inj hs]
      exact programSteps_modify (.refused o rest out hprogram) (by simp)
    · rw [← Option.some.inj hs]
      exact programSteps_modify (.began o rest out rfl hprogram) fun h => h
  · cases hs

theorem programSteps_pass (hs : s.pass c = some s') : ProgramSteps s s' (.pass c) := by
  unfold State.pass at hs
  split at hs
  · rename_i lines o out hprogram
    rw [← Option.some.inj hs]
    exact programSteps_modify (.passed lines o out rfl hprogram) fun h => h
  · cases hs

theorem Untouched.programSteps (h : Untouched s s') : ProgramSteps s s' a :=
  programSteps_of_eq (fun d => by rw [h.interpreters]) fun d => by
    rw [h.interpreters]
    exact fun hd => hd

theorem programSteps_step (hs : step s a = some s') : ProgramSteps s s' a := by
  cases a with
  | run path directory apply missing =>
    rw [← Option.some.inj (when_eq_some.mp hs).2]
    exact (untouched_callRun s path directory apply missing).programSteps
  | close =>
    rw [← Option.some.inj (when_eq_some.mp hs).2]
    exact (untouched_callClose s).programSteps
  | wake => exact (untouched_wake hs).programSteps
  | timeout => exact (untouched_timeout hs).programSteps
  | giveUp => exact (untouched_giveUp hs).programSteps
  | failed name =>
    rw [← Option.some.inj (when_eq_some.mp hs).2]
    exact fun d => .inl ⟨.same, fun h => h⟩
  | loaded threw =>
    have hs : s.loaded threw = some s' := hs
    unfold State.loaded at hs
    split at hs
    · rename_i w hworker
      rw [← Option.some.inj hs]
      exact programSteps_perform (s := { s with worker := .up }) w threw
    · cases hs
  | importFailed code =>
    have hs : s.importFailed code = some s' := hs
    unfold State.importFailed at hs
    split at hs
    · rw [← Option.some.inj hs]
      exact fun d => .inl ⟨.same, fun h => h⟩
    · cases hs
  | crash => exact (untouched_crash hs).programSteps
  | receive threw =>
    have hs : s.receive threw = some s' := (when_eq_some.mp hs).2
    unfold State.receive at hs
    split at hs
    · cases hs
    · rename_i w rest hmessages
      rw [← Option.some.inj hs]
      exact programSteps_perform (s := { s with messages := rest }) w threw
    · rename_i k rest hmessages
      rw [← Option.some.inj hs]
      exact (keeps_cancel { s with messages := rest } k).programSteps
  | resume threw => exact programSteps_resume (when_eq_some.mp hs).2
  | closeTimer => exact (keeps_closeTimer (when_eq_some.mp hs).2).programSteps
  | line c => exact programSteps_line (when_eq_some.mp hs).2
  | stdoutData c bytes =>
    rw [← Option.some.inj (when_eq_some.mp hs).2]
    exact (keeps_stdoutData s c bytes).programSteps
  | stderrData c text =>
    rw [← Option.some.inj (when_eq_some.mp hs).2]
    exact (keeps_stderrData s c text).programSteps
  | trouble c code =>
    rw [← Option.some.inj (when_eq_some.mp hs).2]
    exact (keeps_fail s c _).programSteps
  | exitEvent c =>
    have hs : s.exitEvent c = some s' := (when_eq_some.mp hs).2
    unfold State.exitEvent at hs
    split at hs
    · rw [← Option.some.inj hs]
      exact programSteps_modify .same (by simp)
    · cases hs
  | closeEvent c => exact programSteps_closeEvent (when_eq_some.mp hs).2
  | read c => exact programSteps_read (when_eq_some.mp hs).2
  | pass c => exact programSteps_pass (when_eq_some.mp hs).2
  | print c =>
    rw [← Option.some.inj (when_eq_some.mp hs).2]
    exact programSteps_modify (s := s) (f := fun i => { i with
      program := { i.program with stdout := i.program.stdout ++ [.other] } }) .printed fun h => h
  | exit c status =>
    rw [← Option.some.inj (when_eq_some.mp hs).2]
    exact programSteps_modify .same (by simp)

end Caveat.Acl
