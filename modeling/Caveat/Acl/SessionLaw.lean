import Caveat.Acl.Session

/-!
# What a handler leaves alone

Most of what the worker hears of a process only kills that process and rejects the answer that is
awaited from it. `Keeps` says what such a handler leaves alone, and every invariant survives it.
-/

namespace Caveat.Acl

open Js Lib
open Hooks (units)

variable {s s' s₁ : State} {a : Action} {c d : Nat} {w w' : AclWork} {o : AclOperation}

/-! ## Single processes -/

theorem interpreters_modify (s : State) (c : Nat) (f : Interpreter → Interpreter) (d : Nat) :
    (s.modify c f).interpreters d = if d = c then f (s.interpreters c) else s.interpreters d := rfl

@[simp] theorem interpreters_modify_self (s : State) (c : Nat) (f : Interpreter → Interpreter) :
    (s.modify c f).interpreters c = f (s.interpreters c) := if_pos rfl

theorem interpreters_modify_of_ne (s : State) (f : Interpreter → Interpreter) (h : d ≠ c) :
    (s.modify c f).interpreters d = s.interpreters d := if_neg h

/-- A change that leaves a part of a process alone leaves it alone in all of them. -/
theorem modify_keeps {β : Type} (p : Interpreter → β) (s : State) (c : Nat)
    {f : Interpreter → Interpreter} (hf : ∀ i, p (f i) = p i) (d : Nat) :
    p ((s.modify c f).interpreters d) = p (s.interpreters d) := by
  rw [interpreters_modify]
  split
  · rename_i hd
    rw [hf, hd]
  · rfl

@[simp] theorem kill_program (i : Interpreter) : i.kill.program = i.program := by
  unfold Interpreter.kill
  split
  · rfl
  · rfl

@[simp] theorem kill_life (i : Interpreter) : i.kill.life = i.life := by
  unfold Interpreter.kill
  split
  · rfl
  · rfl

@[simp] theorem kill_pending (i : Interpreter) : i.kill.pending = i.pending := by
  unfold Interpreter.kill
  split
  · rfl
  · rfl

/-! ## Handlers -/

/-- The answer that is awaited from `c` is rejected. -/
structure Rejects (s s' : State) (c : Nat) : Prop where
  pending : (s.interpreters c).pending.isSome = true
  gone : (s'.interpreters c).pending = none
  active : ∃ error, s'.active = settle (.rejected error) s.active

/-- What a handler of a process leaves alone. -/
structure Keeps (s s' : State) : Prop where
  session : s'.session = s.session
  messages : s'.messages = s.messages
  replies : s'.replies = s.replies
  worker : s'.worker = s.worker
  processState : s'.processState = s.processState
  spawned : s'.spawned = s.spawned
  program : ∀ d, (s'.interpreters d).program = (s.interpreters d).program
  life : ∀ d, (s'.interpreters d).life = (s.interpreters d).life
  /-- No answer becomes awaited. -/
  pending : ∀ d k, (s'.interpreters d).pending = some k → (s.interpreters d).pending = some k
  active : s'.active = s.active ∨ ∃ c, Rejects s s' c

theorem keeps_modify (s : State) (c : Nat) {f : Interpreter → Interpreter}
    (hprogram : ∀ i, (f i).program = i.program) (hlife : ∀ i, (f i).life = i.life)
    (hpending : ∀ i, (f i).pending = i.pending) : Keeps s (s.modify c f) where
  session := rfl
  messages := rfl
  replies := rfl
  worker := rfl
  processState := rfl
  spawned := rfl
  program d := modify_keeps (·.program) s c hprogram d
  life d := modify_keeps (·.life) s c hlife d
  pending d k h := by rw [← modify_keeps (·.pending) s c hpending d]; exact h
  active := .inl rfl

theorem keeps_kill (s : State) (c : Nat) : Keeps s (s.modify c Interpreter.kill) :=
  keeps_modify s c kill_program kill_life kill_pending

@[simp] theorem settlePending_program (s : State) (c : Nat) (p : Perform) (d : Nat) :
    ((s.settlePending c p).interpreters d).program = (s.interpreters d).program :=
  modify_keeps (·.program) s c (f := fun i => { i with pending := none }) (fun _ => rfl) d

@[simp] theorem settlePending_life (s : State) (c : Nat) (p : Perform) (d : Nat) :
    ((s.settlePending c p).interpreters d).life = (s.interpreters d).life :=
  modify_keeps (·.life) s c (f := fun i => { i with pending := none }) (fun _ => rfl) d

@[simp] theorem settlePending_pending_self (s : State) (c : Nat) (p : Perform) :
    ((s.settlePending c p).interpreters c).pending = none := by simp [State.settlePending]

theorem pending_of_settlePending {p : Perform} {k : Nat}
    (h : ((s.settlePending c p).interpreters d).pending = some k) :
    d ≠ c ∧ (s.interpreters d).pending = some k := by
  by_cases hd : d = c
  · subst hd
    simp at h
  · exact ⟨hd, by simpa [State.settlePending, interpreters_modify, hd] using h⟩

theorem keeps_rejectPending (s : State) (c : Nat) (error : AclError) :
    Keeps s (s.rejectPending c error) := by
  unfold State.rejectPending
  split
  · rename_i hpending
    exact ⟨rfl, rfl, rfl, rfl, rfl, rfl, settlePending_program s c _, settlePending_life s c _,
      fun d k h => (pending_of_settlePending h).2,
      .inr ⟨c, hpending, settlePending_pending_self s c _, error, rfl⟩⟩
  · exact ⟨rfl, rfl, rfl, rfl, rfl, rfl, fun _ => rfl, fun _ => rfl, fun _ _ h => h, .inl rfl⟩

/-- What happens to `c` after its answer was rejected does not bring the answer back. -/
theorem Keeps.kill (h : Keeps s s₁) (c : Nat) : Keeps s (s₁.modify c Interpreter.kill) := by
  have hk := keeps_kill s₁ c
  refine ⟨hk.session.trans h.session, hk.messages.trans h.messages, hk.replies.trans h.replies,
    hk.worker.trans h.worker, hk.processState.trans h.processState, hk.spawned.trans h.spawned,
    fun d => (hk.program d).trans (h.program d), fun d => (hk.life d).trans (h.life d),
    fun d k hd => h.pending d k (hk.pending d k hd), ?_⟩
  rcases h.active with hsame | ⟨d, hd⟩
  · exact .inl hsame
  · refine .inr ⟨d, hd.pending, ?_, hd.active⟩
    rw [modify_keeps (·.pending) s₁ c kill_pending d]
    exact hd.gone

theorem keeps_fail (s : State) (c : Nat) (error : AclError) : Keeps s (s.fail c error) :=
  (keeps_rejectPending s c error).kill c

theorem keeps_refl (s : State) : Keeps s s :=
  ⟨rfl, rfl, rfl, rfl, rfl, rfl, fun _ => rfl, fun _ => rfl, fun _ _ h => h, .inl rfl⟩

theorem keeps_cancel (s : State) (n : Nat) : Keeps s (s.cancel n) := by
  unfold State.cancel
  split
  · split
    · exact keeps_kill s _
    · exact keeps_refl s
  · exact keeps_refl s

theorem keeps_closeTimer (h : s.closeTimer = some s') : Keeps s s' := by
  unfold State.closeTimer at h
  split at h
  · rw [← Option.some.inj h]
    exact keeps_kill s _
  · cases h

/-- A change of what is not looked at, and then a handler. -/
theorem Keeps.after (f : Interpreter → Interpreter) (hprogram : ∀ i, (f i).program = i.program)
    (hlife : ∀ i, (f i).life = i.life) (hpending : ∀ i, (f i).pending = i.pending)
    (h : Keeps (s.modify c f) s') : Keeps s s' := by
  have hk := keeps_modify s c hprogram hlife hpending
  refine ⟨h.session, h.messages, h.replies, h.worker, h.processState, h.spawned,
    fun d => (h.program d).trans (hk.program d), fun d => (h.life d).trans (hk.life d),
    fun d k hd => hk.pending d k (h.pending d k hd), ?_⟩
  rcases h.active with hsame | ⟨d, hd⟩
  · exact .inl hsame
  · refine .inr ⟨d, ?_, hd.gone, hd.active⟩
    rw [← modify_keeps (·.pending) s c hpending d]
    exact hd.pending

theorem keeps_stdoutData (s : State) (c bytes : Nat) : Keeps s (s.stdoutData c bytes) := by
  unfold State.stdoutData
  refine Keeps.after (fun i => { i with stdoutBytes := i.stdoutBytes + bytes }) (fun _ => rfl)
    (fun _ => rfl) (fun _ => rfl) (s := s) (c := c) ?_
  dsimp only
  split
  · exact keeps_fail _ c _
  · exact keeps_refl _

theorem keeps_stderrData (s : State) (c : Nat) (text : Units) : Keeps s (s.stderrData c text) := by
  unfold State.stderrData
  split
  · exact keeps_fail s c _
  · exact keeps_modify s c (fun _ => rfl) (fun _ => rfl) (fun _ => rfl)

/-! ## A process by itself -/

theorem exitEvent_modifies (hs : s.exitEvent c = some s') : ∃ f, s' = s.modify c f := by
  unfold State.exitEvent at hs
  split at hs
  · exact ⟨_, (Option.some.inj hs).symm⟩
  · cases hs

theorem read_modifies (hs : s.read c = some s') : ∃ f, s' = s.modify c f := by
  unfold State.read at hs
  split at hs
  · split at hs
    · exact ⟨_, (Option.some.inj hs).symm⟩
    · exact ⟨_, (Option.some.inj hs).symm⟩
  · cases hs

theorem pass_modifies (hs : s.pass c = some s') : ∃ f, s' = s.modify c f := by
  unfold State.pass at hs
  split at hs
  · exact ⟨_, (Option.some.inj hs).symm⟩
  · cases hs

/-! ## The processes of a worker -/

/-- The worker awaits an answer. -/
def State.awaits (s : State) : Prop := ∃ w c, s.active = some (w, .answer c)

structure Inv (s : State) : Prop where
  /-- The process the worker knows is the one that has not closed. -/
  process : ∀ c, s.processState = some c ↔ (s.interpreters c).life.isOpen = true
  pending : ∀ c k, (s.interpreters c).pending = some k →
    ∃ o, s.active = some (.check o, .answer c) ∧ o.sequence = k
  resolved : ∀ w, s.active = some (w, .resolved) → ∃ o, w = .check o
  ending : ∀ w c, s.active = some (w, .ending c) →
    (∃ n, w = .close n) ∧ ∀ d, s.processState = some d → d = c
  /-- Before the worker is up it has not done anything. -/
  early : s.worker = .absent ∨ (∃ w, s.worker = .loading w) →
    s.active = none ∧ s.processState = none

theorem Inv.init : Inv {} where
  process c := by simp [Life.isOpen]
  pending c k h := by simp at h
  resolved w h := by simp at h
  ending w c h := by simp at h
  early _ := ⟨rfl, rfl⟩

/-- The invariant is about the worker's variables and the processes. -/
theorem Inv.congr (h : Inv s) (hactive : s'.active = s.active)
    (hprocess : s'.processState = s.processState) (hinterpreters : s'.interpreters = s.interpreters)
    (hworker : s'.worker = .absent ∨ (∃ w, s'.worker = .loading w) →
      s.worker = .absent ∨ ∃ w, s.worker = .loading w) : Inv s' where
  process c := by rw [hprocess, hinterpreters]; exact h.process c
  pending c k hc := by rw [hactive]; rw [hinterpreters] at hc; exact h.pending c k hc
  resolved w hw := by rw [hactive] at hw; exact h.resolved w hw
  ending w c hw := by rw [hactive] at hw; rw [hprocess]; exact h.ending w c hw
  early hw := by rw [hactive, hprocess]; exact h.early (hworker hw)

theorem Inv.not_pending (h : Inv s) (hawaits : ¬ s.awaits) (c : Nat) :
    (s.interpreters c).pending = none := by
  cases hc : (s.interpreters c).pending with
  | none => rfl
  | some k =>
    obtain ⟨o, ho, -⟩ := h.pending c k hc
    exact absurd ⟨_, _, ho⟩ hawaits

theorem Rejects.active_eq (h : Inv s) (hr : Rejects s s' c) :
    ∃ o error, s.active = some (.check o, .answer c) ∧
      s'.active = some (.check o, .rejected error) := by
  obtain ⟨k, hk⟩ := Option.isSome_iff_exists.mp hr.pending
  obtain ⟨o, ho, -⟩ := h.pending c k hk
  obtain ⟨error, herror⟩ := hr.active
  exact ⟨o, error, ho, by rw [herror, ho]; rfl⟩

theorem Inv.keeps (h : Inv s) (hk : Keeps s s') : Inv s' := by
  have hprocess : ∀ c, s'.processState = some c ↔ (s'.interpreters c).life.isOpen = true := by
    intro c
    rw [hk.processState, hk.life]
    exact h.process c
  rcases hk.active with hsame | ⟨c, hr⟩
  · refine ⟨hprocess, fun d k hd => ?_, fun w hw => ?_, fun w d hw => ?_, fun hw => ?_⟩
    · rw [hsame]
      exact h.pending d k (hk.pending d k hd)
    · exact h.resolved w (hsame ▸ hw)
    · rw [hk.processState]
      exact h.ending w d (hsame ▸ hw)
    · rw [hsame, hk.processState]
      exact h.early (hk.worker ▸ hw)
  · obtain ⟨o, error, ho, herror⟩ := hr.active_eq h
    refine ⟨hprocess, fun d k hd => ?_, fun w hw => ?_, fun w d hw => ?_, fun hw => ?_⟩
    · -- the one answer that was awaited is the one that was rejected
      obtain ⟨o', ho', -⟩ := h.pending d k (hk.pending d k hd)
      rw [ho] at ho'
      obtain ⟨-, hdc⟩ := Prod.mk.inj (Option.some.inj ho')
      rw [← Perform.answer.inj hdc, hr.gone] at hd
      cases hd
    · rw [herror] at hw
      cases hw
    · rw [herror] at hw
      cases hw
    · rw [hk.worker] at hw
      rw [(h.early hw).1] at ho
      cases ho

theorem Inv.setActive (h : Inv s) (hawaits : ¬ s.awaits) (hworker : s.worker = .up)
    {active : Option (AclWork × Perform)}
    (hresolved : ∀ w, active = some (w, .resolved) → ∃ o, w = .check o)
    (hending : ∀ w c, active = some (w, .ending c) →
      (∃ n, w = .close n) ∧ ∀ d, s.processState = some d → d = c) :
    Inv { s with active := active } where
  process := h.process
  pending c k hc := absurd (h.not_pending hawaits c) (by rw [hc]; simp)
  resolved := hresolved
  ending := hending
  early hw := by
    rw [show s.worker = .up from hworker] at hw
    simp at hw

theorem Inv.finish (h : Inv s) (hawaits : ¬ s.awaits) (hworker : s.worker = .up) (w : AclWork)
    (error : Option AclError) : Inv (s.finish w error) := by
  have hnone : Inv { s with active := none } :=
    h.setActive hawaits hworker (by simp) (by simp)
  cases w with
  | check o => exact hnone.congr rfl rfl rfl fun hw => hw
  | close n => exact hnone.congr rfl rfl rfl fun hw => by simp [State.finish] at hw

theorem not_awaits_of_keeps_kill (hawaits : ¬ s.awaits) (c : Nat) :
    ¬ (s.modify c Interpreter.kill).awaits := hawaits

theorem Inv.caught (h : Inv s) (hawaits : ¬ s.awaits) (hworker : s.worker = .up) (w : AclWork)
    (error : AclError) : Inv (s.caught w error) := by
  unfold State.caught
  split
  · exact h.finish hawaits hworker w _
  · rename_i c hc
    exact (h.keeps (keeps_kill s c)).setActive hawaits hworker (by simp) (by simp)

theorem Inv.spawn (h : Inv s) (hnone : s.processState = none) (hawaits : ¬ s.awaits)
    (hworker : s.worker = .up) (hending : ∀ w c, s.active ≠ some (w, .ending c)) :
    Inv s.spawn where
  process c := by
    by_cases hc : c = s.spawned
    · subst hc
      simp [State.spawn, State.set, Life.isOpen]
    · have hclosed : (s.interpreters c).life.isOpen ≠ true := by
        intro hopen
        rw [← h.process c, hnone] at hopen
        cases hopen
      simp [State.spawn, State.set, hc, Ne.symm hc, hclosed]
  pending c k hc := by
    by_cases hd : c = s.spawned
    · simp [State.spawn, State.set, hd] at hc
    · simp only [State.spawn, State.set, hd, if_false] at hc
      exact absurd (h.not_pending hawaits c) (by rw [hc]; simp)
  resolved := h.resolved
  ending w c hw := absurd hw (hending w c)
  early hw := by
    rw [show s.spawn.worker = .up from hworker] at hw
    simp at hw

theorem Inv.write (h : Inv s) (hprocess : s.processState = some c) (hawaits : ¬ s.awaits)
    (hworker : s.worker = .up) (o : AclOperation) : Inv (s.write o c) where
  process d := by
    have hlife := modify_keeps (·.life) s c (f := fun i => i.given o) (fun _ => rfl) d
    exact (h.process d).trans (by rw [← hlife]; rfl)
  pending d k hd := by
    by_cases hdc : d = c
    · subst hdc
      have hk : some o.sequence = some k := by
        simpa [State.write, Interpreter.given] using hd
      exact ⟨o, rfl, Option.some.inj hk⟩
    · have hd' : (s.interpreters d).pending = some k := by
        simpa [State.write, interpreters_modify, hdc] using hd
      exact absurd (h.not_pending hawaits d) (by rw [hd']; simp)
  resolved w hw := by cases hw
  ending w d hw := by cases hw
  early hw := by
    rw [show (s.write o c).worker = .up from hworker] at hw
    simp at hw

theorem Inv.hand (h : Inv s) (hawaits : ¬ s.awaits) (hworker : s.worker = .up)
    (hending : ∀ w c, s.active ≠ some (w, .ending c)) (o : AclOperation) (threw : Option Units) :
    Inv (s.hand o threw) := by
  unfold State.hand
  split
  · rename_i c hc
    exact h.write hc hawaits hworker o
  · rename_i hnone
    split
    · exact h.finish hawaits hworker _ _
    · exact (h.spawn hnone hawaits hworker hending).write rfl hawaits hworker o

theorem Inv.perform (h : Inv s) (hworker : s.worker = .up) (w : AclWork) (threw : Option Units) :
    Inv (s.perform w threw) := by
  unfold State.perform
  split
  · exact h.congr rfl rfl rfl fun hw => hw
  · rename_i hactive
    have hawaits : ¬ s.awaits := by
      intro hawaits
      obtain ⟨w, c, hc⟩ := hawaits
      rw [hactive] at hc
      cases hc
    have hnot : ∀ w c, s.active ≠ some (w, .ending c) := by simp [hactive]
    split
    · exact h.finish hawaits hworker _ _
    · rename_i n c hc
      have hk := keeps_modify s c (f := fun i => { i with ended := true }) (fun _ => rfl)
        (fun _ => rfl) (fun _ => rfl)
      refine (h.keeps hk).setActive hawaits hworker (by simp) fun w d hw => ?_
      obtain ⟨hw, hd⟩ := Prod.mk.inj (Option.some.inj hw)
      refine ⟨⟨n, hw.symm⟩, fun e he => ?_⟩
      rw [← Perform.ending.inj hd]
      exact Option.some.inj (he.symm.trans hc)
    · exact h.hand hawaits hworker hnot _ _
    · split
      · exact h.setActive hawaits hworker (by simp) (by simp)
      · exact h.hand hawaits hworker hnot _ _

theorem Inv.resume (h : Inv s) (hworker : s.worker = .up) {threw : Option Units}
    (hs : s.resume threw = some s') : Inv s' := by
  unfold State.resume at hs
  have hawaits : ∀ {w p}, s.active = some (w, p) → (∀ c, p ≠ .answer c) → ¬ s.awaits := by
    intro w p hp hne hawaits
    obtain ⟨w', c, hc⟩ := hawaits
    rw [hp] at hc
    exact hne c (Prod.mk.inj (Option.some.inj hc)).2
  split at hs
  · rename_i o c hactive
    split at hs
    · rw [← Option.some.inj hs]
      exact h.hand (hawaits hactive (by simp)) hworker (by simp [hactive]) o threw
    · cases hs
  · rename_i w hactive
    rw [← Option.some.inj hs]
    exact h.finish (hawaits hactive (by simp)) hworker w none
  · rename_i w error hactive
    rw [← Option.some.inj hs]
    exact h.caught (hawaits hactive (by simp)) hworker w error
  · rename_i w c hactive
    split at hs
    · split at hs
      · rw [← Option.some.inj hs]
        exact h.finish (hawaits hactive (by simp)) hworker w none
      · rw [← Option.some.inj hs]
        exact h.caught (hawaits hactive (by simp)) hworker w _
    · cases hs
  · rename_i w c error hactive
    split at hs
    · rw [← Option.some.inj hs]
      exact h.finish (hawaits hactive (by simp)) hworker w _
    · cases hs
  · cases hs

/-- An awaited answer comes. -/
theorem Inv.settle (h : Inv s) {k : Nat} (hpending : (s.interpreters c).pending = some k) :
    Inv (s.settlePending c .resolved) := by
  obtain ⟨o, ho, -⟩ := h.pending c k hpending
  have hactive : (s.settlePending c .resolved).active = some (.check o, .resolved) := by
    rw [State.settlePending, ho]
    rfl
  refine ⟨fun d => ?_, fun d k hd => ?_, fun w hw => ?_, fun w d hw => ?_, fun hw => ?_⟩
  · rw [settlePending_life]
    exact h.process d
  · obtain ⟨hne, hd⟩ := pending_of_settlePending hd
    obtain ⟨o', ho', -⟩ := h.pending d k hd
    rw [ho] at ho'
    exact absurd (Perform.answer.inj (Prod.mk.inj (Option.some.inj ho')).2).symm hne
  · rw [hactive] at hw
    exact ⟨o, (Prod.mk.inj (Option.some.inj hw)).1.symm⟩
  · rw [hactive] at hw
    cases hw
  · rw [(h.early hw).1] at ho
    cases ho

/-- A process whose life goes on, or ends without the worker having seen it close. -/
theorem Inv.setLife (h : Inv s) (f : Interpreter → Interpreter)
    (hopen : (s.interpreters c).life.isOpen = (f (s.interpreters c)).life.isOpen)
    (hpending : ∀ i, (f i).pending = i.pending) : Inv (s.modify c f) where
  process d := by
    rw [show (s.modify c f).processState = s.processState from rfl, h.process d, interpreters_modify]
    by_cases hd : d = c
    · subst hd
      rw [if_pos rfl, hopen]
    · rw [if_neg hd]
  pending d k hd := by
    rw [modify_keeps (·.pending) s c hpending d] at hd
    exact h.pending d k hd
  resolved := h.resolved
  ending := h.ending
  early := h.early

theorem Inv.setProgram (h : Inv s) (c : Nat) (f : Program → Program) : Inv (s.setProgram c f) :=
  h.setLife (fun i => { i with program := f i.program }) rfl fun _ => rfl

theorem Inv.line (h : Inv s) (hs : s.line c = some s') : Inv s' := by
  unfold State.line at hs
  split at hs
  · cases hs
  · rename_i l rest hout
    have h₁ := h.setProgram c (fun p => { p with stdout := rest })
    dsimp only at hs
    split at hs
    · rw [← Option.some.inj hs]
      exact h₁.keeps (keeps_fail _ c _)
    · rename_i n hn
      split at hs
      · rw [← Option.some.inj hs]
        exact h₁.settle hn
      · rw [← Option.some.inj hs]
        exact h₁.keeps (keeps_fail _ c _)

theorem Inv.exitEvent (h : Inv s) (hs : s.exitEvent c = some s') : Inv s' := by
  unfold State.exitEvent at hs
  split at hs
  · rename_i status hlife
    rw [← Option.some.inj hs]
    exact h.setLife _ (by rw [hlife]; rfl) fun _ => rfl
  · cases hs

theorem Inv.closeEvent (h : Inv s) (hs : s.closeEvent c = some s') : Inv s' := by
  unfold State.closeEvent at hs
  split at hs
  · rename_i status hlife
    rw [← Option.some.inj hs]
    have hprocess : s.processState = some c := (h.process c).mpr (by rw [hlife]; rfl)
    have h₁ : Inv { s.modify c (fun i => { i with life := .closed status }) with
        processState := none } := by
      refine ⟨fun d => ?_, fun d k hd => ?_, h.resolved, fun w d hw => ?_, fun hw => ?_⟩
      · have hopen : (s.interpreters d).life.isOpen = true → d = c := fun hd =>
          Option.some.inj (((h.process d).mpr hd).symm.trans hprocess)
        by_cases hd : d = c
        · subst hd
          simp [Life.isOpen]
        · simpa [interpreters_modify, hd] using mt hopen hd
      · exact h.pending d k ((modify_keeps (·.pending) s c
          (f := fun i => { i with life := .closed status }) (fun _ => rfl) d).symm.trans hd)
      · exact ⟨(h.ending w d hw).1, fun e he => by cases he⟩
      · rw [(h.early hw).2] at hprocess
        cases hprocess
    rw [show (s.modify c (fun i => { i with life := Life.closed status })).processState = some c
      from hprocess, if_pos rfl]
    exact h₁.keeps (keeps_rejectPending _ c _)
  · cases hs

theorem Inv.read (h : Inv s) (hrunning : s.isRunning c = true) (hs : s.read c = some s') : Inv s' := by
  have hlife : (s.interpreters c).life = .running := by simpa [State.isRunning] using hrunning
  unfold State.read at hs
  split at hs
  · split at hs
    · rw [← Option.some.inj hs]
      exact h.setLife _ (by rw [hlife]; rfl) fun _ => rfl
    · rw [← Option.some.inj hs]
      exact h.setProgram c _
  · cases hs

theorem Inv.pass (h : Inv s) (hs : s.pass c = some s') : Inv s' := by
  unfold State.pass at hs
  split at hs
  · rw [← Option.some.inj hs]
    exact h.setProgram c _
  · cases hs

theorem when_eq_some {p : Bool} {t : Option State} :
    when p t = some s' ↔ p = true ∧ t = some s' := by
  unfold when
  split
  · rename_i hp
    exact (and_iff_right hp).symm
  · rename_i hp
    exact iff_of_false (by simp) (fun h => hp h.1)

/-- A request the main thread makes does not touch the worker. -/
theorem Inv.request (h : Inv s) (missing : Bool) (w : AclWork) : Inv (s.request missing w) := by
  unfold State.request
  dsimp only
  split
  · rename_i hworker
    split
    · exact h.congr rfl rfl rfl fun hw => hw
    · exact h.congr rfl rfl rfl fun _ => .inl hworker
  · exact h.congr rfl rfl rfl fun hw => hw

theorem Inv.callRun (h : Inv s) (path : Units) (directory apply missing : Bool) :
    Inv (s.callRun path directory apply missing) := by
  unfold State.callRun
  split
  · exact h.congr rfl rfl rfl fun hw => hw
  split
  · exact h.congr rfl rfl rfl fun hw => hw
  split
  · exact h.congr rfl rfl rfl fun hw => hw
  · exact h.request missing _

theorem Inv.callClose (h : Inv s) : Inv s.callClose := by
  have hclosed : Inv { s with session := { s.session with closed := true } } :=
    h.congr rfl rfl rfl fun hw => hw
  unfold State.callClose
  split
  · exact h.congr rfl rfl rfl fun hw => hw
  dsimp only
  split
  · exact h.congr rfl rfl rfl fun hw => hw
  · exact hclosed.request false _

theorem Inv.wake (h : Inv s) (hs : s.wake = some s') : Inv s' := by
  unfold State.wake at hs
  split at hs
  · obtain ⟨r, -, rfl⟩ := Option.map_eq_some_iff.mp hs
    unfold State.take
    split
    · exact h.congr rfl rfl rfl fun hw => hw
    dsimp only
    split
    · exact h.congr rfl rfl rfl fun hw => hw
    · exact h.congr rfl rfl rfl fun hw => hw
  · cases hs

theorem Inv.timeout (h : Inv s) (hs : s.timeout = some s') : Inv s' := by
  unfold State.timeout at hs
  split at hs
  · rw [← Option.some.inj hs]
    exact h.congr rfl rfl rfl fun hw => hw
  · cases hs

theorem Inv.giveUp (h : Inv s) (hs : s.giveUp = some s') : Inv s' := by
  unfold State.giveUp at hs
  split at hs
  · rw [← Option.some.inj hs]
    exact h.congr rfl rfl rfl fun hw => hw
  · cases hs

theorem Inv.loaded (h : Inv s) {threw : Option Units} (hs : s.loaded threw = some s') : Inv s' := by
  unfold State.loaded at hs
  split at hs
  · rename_i w hworker
    have hup : Inv { s with worker := .up } := h.congr rfl rfl rfl (by simp)
    rw [← Option.some.inj hs]
    exact hup.perform rfl w threw
  · cases hs

theorem Inv.importFailed (h : Inv s) {code : Units} (hs : s.importFailed code = some s') :
    Inv s' := by
  unfold State.importFailed at hs
  split at hs
  · rw [← Option.some.inj hs]
    exact h.congr rfl rfl rfl (by simp [State.reply])
  · cases hs

theorem Inv.crash (h : Inv s) (hs : s.crash = some s') : Inv s' := by
  unfold State.crash at hs
  split at hs
  · rw [← Option.some.inj hs]
    exact h.congr rfl rfl rfl (by simp)
  · rw [← Option.some.inj hs]
    exact h.congr rfl rfl rfl (by simp)
  · cases hs

theorem Inv.receive (h : Inv s) (hworker : s.worker = .up) {threw : Option Units}
    (hs : s.receive threw = some s') : Inv s' := by
  have hrest : ∀ rest, Inv { s with messages := rest } := fun rest => h.congr rfl rfl rfl fun hw => hw
  unfold State.receive at hs
  split at hs
  · cases hs
  · rename_i w rest _
    rw [← Option.some.inj hs]
    exact (hrest rest).perform hworker w threw
  · rename_i n rest _
    rw [← Option.some.inj hs]
    exact (hrest rest).keeps (keeps_cancel _ n)

theorem Inv.step (h : Inv s) (hs : step s a = some s') : Inv s' := by
  cases a with
  | run path directory apply missing =>
    rw [← Option.some.inj (when_eq_some.mp hs).2]
    exact h.callRun path directory apply missing
  | close =>
    rw [← Option.some.inj (when_eq_some.mp hs).2]
    exact h.callClose
  | wake => exact h.wake hs
  | timeout => exact h.timeout hs
  | giveUp => exact h.giveUp hs
  | failed name =>
    rw [← Option.some.inj (when_eq_some.mp hs).2]
    exact h.congr rfl rfl rfl fun hw => hw
  | loaded threw => exact h.loaded hs
  | importFailed code => exact h.importFailed hs
  | crash => exact h.crash hs
  | receive threw =>
    obtain ⟨hworker, hs⟩ := when_eq_some.mp hs
    exact h.receive (by simpa using hworker) hs
  | resume threw =>
    obtain ⟨hworker, hs⟩ := when_eq_some.mp hs
    exact h.resume (by simpa using hworker) hs
  | closeTimer => exact h.keeps (keeps_closeTimer (when_eq_some.mp hs).2)
  | line c => exact h.line (when_eq_some.mp hs).2
  | stdoutData c bytes =>
    rw [← Option.some.inj (when_eq_some.mp hs).2]
    exact h.keeps (keeps_stdoutData s c bytes)
  | stderrData c text =>
    rw [← Option.some.inj (when_eq_some.mp hs).2]
    exact h.keeps (keeps_stderrData s c text)
  | trouble c code =>
    rw [← Option.some.inj (when_eq_some.mp hs).2]
    exact h.keeps (keeps_fail s c _)
  | exitEvent c => exact h.exitEvent (when_eq_some.mp hs).2
  | closeEvent c => exact h.closeEvent (when_eq_some.mp hs).2
  | read c =>
    obtain ⟨hrunning, hs⟩ := when_eq_some.mp hs
    exact h.read hrunning hs
  | pass c => exact h.pass (when_eq_some.mp hs).2
  | print c =>
    rw [← Option.some.inj (when_eq_some.mp hs).2]
    exact h.setProgram c _
  | exit c status =>
    obtain ⟨hrunning, hs⟩ := when_eq_some.mp hs
    have hlife : (s.interpreters c).life = .running := by simpa [State.isRunning] using hrunning
    rw [← Option.some.inj hs]
    exact h.setLife _ (by rw [hlife]; rfl) fun _ => rfl

end Caveat.Acl
