import Caveat.Acl.SessionLaw

/-!
# Requests and their answers

A request that was sent is at one place until it is answered: with the worker that is being loaded,
in its hands, or among its messages. `Effect` says once what a step does to these places and to the
buffers, and that a request keeps its number to itself follows from it.
-/

namespace Caveat.Acl

open Js Lib

variable {s s' : State} {a : Action} {c d : Nat} {w w' : AclWork} {o : AclOperation}

def Message.work? : Message → Option AclWork
  | .work w => some w
  | .cancel _ => none

def Worker.initial? : Worker → Option AclWork
  | .loading w => some w
  | _ => none

def Main.work? : Main → Option AclWork
  | .idle => none
  | .waiting w => some w
  | .cancelled w => some w

/-- The requests that are not answered, in the order of their numbers. -/
def State.queue (s : State) : List AclWork :=
  s.worker.initial?.toList ++ (s.active.map Prod.fst).toList ++ s.messages.filterMap Message.work?

/-- The worker has stopped, and there is no process left. -/
def State.shut (s : State) : Prop := s.worker = .stopped ∧ s.processState = none

/-- What an answer says. -/
structure Answer (s s' : State) (w : AclWork) (r : AclReply) : Prop where
  ok : r.ok = true → s.active = some (w, .resolved) ∨ (∃ n, w = .close n) ∧ s'.shut
  terminal : r.terminal = true → s'.shut

/-- What a step does to the requests. -/
inductive Effect (s s' : State) : Prop where
  | same (hqueue : s'.queue = s.queue) (hreplies : s'.replies = s.replies)
      (hsequence : s.session.sequence ≤ s'.session.sequence)
      (hmain : ∀ w, s'.session.main.work? = some w →
        s.session.main.work? = some w ∧ s'.session.sequence = s.session.sequence)
  | sent (w : AclWork) (hqueue : s'.queue = s.queue ++ [w]) (hreplies : s'.replies = s.replies)
      (hsequence : s'.session.sequence = s.session.sequence + 1)
      (hnumber : w.sequence = s.session.sequence + 1) (hmain : s'.session.main = .waiting w)
  | answered (w : AclWork) (r : AclReply) (l l' : List AclWork) (hnumber : r.sequence = w.sequence)
      (hanswer : Answer s s' w r)
      (hqueue : s.queue = l ++ w :: l') (hqueue' : s'.queue = l ++ l')
      (hreplies : s'.replies = fun n => if n = w.sequence then some r else s.replies n)
      (hsession : s'.session = s.session)
  | lost (hcrashed : s'.worker = .crashed) (hqueue : s'.queue.Sublist s.queue)
      (hreplies : s'.replies = s.replies) (hsession : s'.session = s.session)

/-- A step that leaves the requests, the buffers and the session alone. -/
theorem Effect.still (hqueue : s'.queue = s.queue) (hreplies : s'.replies = s.replies)
    (hsession : s'.session = s.session) : Effect s s' :=
  .same hqueue hreplies (by rw [hsession]) fun w hw => by rw [hsession] at hw ⊢; exact ⟨hw, rfl⟩

theorem queue_congr (hworker : s'.worker = s.worker)
    (hactive : s'.active.map Prod.fst = s.active.map Prod.fst) (hmessages : s'.messages = s.messages) :
    s'.queue = s.queue := by
  rw [State.queue, State.queue, hworker, hactive, hmessages]

theorem settle_fst (p : Perform) (active : Option (AclWork × Perform)) :
    (settle p active).map Prod.fst = active.map Prod.fst := by
  unfold settle
  split
  · rfl
  · rfl

theorem Keeps.active_fst (h : Keeps s s') : s'.active.map Prod.fst = s.active.map Prod.fst := by
  rcases h.active with hsame | ⟨c, hr⟩
  · rw [hsame]
  · obtain ⟨error, herror⟩ := hr.active
    rw [herror, settle_fst]

theorem Keeps.effect (h : Keeps s s') : Effect s s' :=
  .still (queue_congr h.worker h.active_fst h.messages) h.replies h.session

/-! ## Where a request is answered -/

theorem queue_up (hworker : s.worker = .up) :
    s.queue = (s.active.map Prod.fst).toList ++ s.messages.filterMap Message.work? := by
  rw [State.queue, hworker]
  rfl

theorem answer_error {r : AclReply} (hok : r.ok = false) (hterminal : r.terminal = false) :
    Answer s s' w r where
  ok h := absurd h (by simp [hok])
  terminal h := absurd h (by simp [hterminal])

/-- What `perform` answers in the end. It is a good answer for a check that was resolved, or for a
`close` that has left no process. -/
theorem answer_finish {s₀ : State} (w : AclWork) (error : Option AclError)
    (hgood : error = none →
      s₀.active = some (w, .resolved) ∨ (∃ n, w = .close n) ∧ s.processState = none) :
    Answer s₀ (s.finish w error) w
      { sequence := w.sequence, ok := error.isNone, error := error } := by
  refine ⟨fun hok => ?_, fun h => by cases h⟩
  rcases hgood (Option.isNone_iff_eq_none.mp hok) with hresolved | ⟨⟨n, rfl⟩, hnone⟩
  · exact .inl hresolved
  · exact .inr ⟨⟨n, rfl⟩, rfl, hnone⟩

/-- `perform` ends: its request was the first one. -/
theorem effect_finish (hworker : s.worker = .up) {p : Perform} (hactive : s.active = some (w, p))
    (error : Option AclError)
    (hgood : error = none → p = .resolved ∨ (∃ n, w = .close n) ∧ s.processState = none) :
    Effect s (s.finish w error) := by
  have hqueue : s.queue = [] ++ w :: s.messages.filterMap Message.work? := by
    rw [queue_up hworker, hactive]
    rfl
  have hanswer : Answer s (s.finish w error) w
      { sequence := w.sequence, ok := error.isNone, error := error } :=
    answer_finish w error fun hnone =>
      (hgood hnone).imp (fun hp => by rw [hactive, hp]) fun hclose => hclose
  cases w with
  | check o => exact .answered _ _ _ _ rfl hanswer hqueue (by simp [State.queue, State.finish,
      State.reply, show s.worker = .up from hworker, Worker.initial?]) rfl rfl
  | close n => exact .answered _ _ _ _ rfl hanswer hqueue (by simp [State.queue, State.finish,
      State.reply, Worker.initial?]) rfl rfl

theorem effect_caught (hworker : s.worker = .up) {p : Perform} (hactive : s.active = some (w, p))
    (error : AclError) : Effect s (s.caught w error) := by
  unfold State.caught
  split
  · exact effect_finish hworker hactive _ (by simp)
  · exact .still (queue_congr rfl (by simp [hactive]) rfl) rfl rfl

theorem hand_cases (s : State) (o : AclOperation) (threw : Option Units) :
    (∃ message, s.hand o threw = s.finish (.check o) (some (.spawnThrew message))) ∨
      ((s.hand o threw).active = some (.check o, .answer (s.processState.getD s.spawned)) ∧
        (s.hand o threw).worker = s.worker ∧ (s.hand o threw).messages = s.messages ∧
        (s.hand o threw).replies = s.replies ∧ (s.hand o threw).session = s.session) := by
  unfold State.hand
  split
  · rename_i c hc
    exact .inr ⟨by rw [hc]; rfl, rfl, rfl, rfl, rfl⟩
  · rename_i hc
    split
    · exact .inl ⟨_, rfl⟩
    · exact .inr ⟨by rw [hc]; rfl, rfl, rfl, rfl, rfl⟩

theorem effect_hand (hworker : s.worker = .up) {p : Perform} (hactive : s.active = some (.check o, p))
    (threw : Option Units) : Effect s (s.hand o threw) := by
  rcases hand_cases s o threw with ⟨message, hhand⟩ | ⟨ha, hw, hm, hr, hsession⟩
  · rw [hhand]
    exact effect_finish hworker hactive _ (by simp)
  · exact .still (queue_congr hw (by rw [ha, hactive]; rfl) hm) hr hsession

/-- A request that came in, before it is in anybody's hands. -/
structure Comes (s₀ s : State) (w : AclWork) : Prop where
  worker : s.worker = .up
  queue : s₀.queue = (s.active.map Prod.fst).toList ++ w :: s.messages.filterMap Message.work?
  replies : s.replies = s₀.replies
  session : s.session = s₀.session

theorem Comes.taken {s₀ : State} (h : Comes s₀ s w) (hnone : s.active = none) {s₁ : State}
    {p : Perform} (hactive : s₁.active = some (w, p)) (hworker : s₁.worker = s.worker)
    (hmessages : s₁.messages = s.messages) (hreplies : s₁.replies = s.replies)
    (hsession : s₁.session = s.session) : Effect s₀ s₁ := by
  refine .still ?_ (hreplies.trans h.replies) (hsession.trans h.session)
  rw [h.queue, hnone, queue_up (hworker.trans h.worker), hactive, hmessages]
  rfl

theorem Comes.finish {s₀ : State} (h : Comes s₀ s w) (hnone : s.active = none)
    (error : Option AclError)
    (hgood : error = none → (∃ n, w = .close n) ∧ s.processState = none) :
    Effect s₀ (s.finish w error) := by
  have hqueue : s₀.queue = [] ++ w :: s.messages.filterMap Message.work? := by
    rw [h.queue, hnone]
    rfl
  have hanswer : Answer s₀ (s.finish w error) w
      { sequence := w.sequence, ok := error.isNone, error := error } :=
    answer_finish w error fun hnone => .inr (hgood hnone)
  cases w with
  | check o =>
    refine .answered _ _ _ _ rfl hanswer hqueue ?_ (by rw [← h.replies]; rfl) h.session
    rw [queue_up (s := s.finish (.check o) error) h.worker]
    rfl
  | close n => exact .answered _ _ _ _ rfl hanswer hqueue rfl (by rw [← h.replies]; rfl) h.session

theorem Comes.hand {s₀ : State} (h : Comes s₀ s (.check o)) (hnone : s.active = none)
    (threw : Option Units) : Effect s₀ (s.hand o threw) := by
  rcases hand_cases s o threw with ⟨message, hhand⟩ | ⟨ha, hw, hm, hr, hsession⟩
  · rw [hhand]
    exact h.finish hnone _ (by simp)
  · exact h.taken hnone ha hw hm hr hsession

theorem Comes.perform {s₀ : State} (h : Comes s₀ s w) (threw : Option Units) :
    Effect s₀ (s.perform w threw) := by
  unfold State.perform
  split
  · rename_i active hactive
    refine .answered w _ _ _ rfl (answer_error rfl rfl) h.queue ?_ (by rw [← h.replies]; rfl) h.session
    rw [queue_up (s := s.reply w _) h.worker]
    rfl
  · rename_i hnone
    split
    · rename_i n hprocess
      exact h.finish hnone _ fun _ => ⟨⟨n, rfl⟩, hprocess⟩
    · exact h.taken hnone rfl rfl rfl rfl rfl
    · exact h.hand hnone threw
    · split
      · exact h.taken hnone rfl rfl rfl rfl rfl
      · exact h.hand hnone threw

/-- A process that has closed is not the worker's any more. -/
theorem Inv.processState_ending (h : Inv s) (hactive : s.active = some (w, .ending c))
    {status : ExitStatus} (hlife : (s.interpreters c).life = .closed status) :
    (∃ n, w = .close n) ∧ s.processState = none := by
  obtain ⟨hclose, hsame⟩ := h.ending w c hactive
  refine ⟨hclose, ?_⟩
  cases hprocess : s.processState with
  | none => rfl
  | some d =>
    have hopen := (h.process d).mp hprocess
    rw [hsame d hprocess, hlife] at hopen
    cases hopen

theorem effect_resume (h : Inv s) (hworker : s.worker = .up) {threw : Option Units}
    (hs : s.resume threw = some s') : Effect s s' := by
  unfold State.resume at hs
  split at hs
  · rename_i o c hactive
    split at hs
    · rw [← Option.some.inj hs]
      exact effect_hand hworker hactive threw
    · cases hs
  · rename_i w hactive
    rw [← Option.some.inj hs]
    exact effect_finish hworker hactive none fun _ => .inl rfl
  · rename_i w error hactive
    rw [← Option.some.inj hs]
    exact effect_caught hworker hactive error
  · rename_i w c hactive
    split at hs
    · rename_i status hlife
      split at hs
      · rw [← Option.some.inj hs]
        exact effect_finish hworker hactive none fun _ => .inr (h.processState_ending hactive hlife)
      · rw [← Option.some.inj hs]
        exact effect_caught hworker hactive _
    · cases hs
  · rename_i w c error hactive
    split at hs
    · rw [← Option.some.inj hs]
      exact effect_finish hworker hactive _ (by simp)
    · cases hs
  · cases hs

theorem effect_line (hs : s.line c = some s') : Effect s s' := by
  unfold State.line at hs
  split at hs
  · cases hs
  · rename_i l rest hout
    have hfail : ∀ error, Effect s ((s.setProgram c (fun p => { p with stdout := rest })).fail c error) := by
      intro error
      have hk := keeps_fail (s.setProgram c (fun p => { p with stdout := rest })) c error
      exact .still (queue_congr hk.worker hk.active_fst hk.messages) hk.replies hk.session
    dsimp only at hs
    split at hs
    · rw [← Option.some.inj hs]
      exact hfail _
    · split at hs
      · rw [← Option.some.inj hs]
        exact .still (queue_congr rfl (settle_fst _ _) rfl) rfl rfl
      · rw [← Option.some.inj hs]
        exact hfail _

theorem effect_closeEvent (hs : s.closeEvent c = some s') : Effect s s' := by
  unfold State.closeEvent at hs
  split at hs
  · rename_i status hlife
    dsimp only at hs
    rw [← Option.some.inj hs]
    split
    · have hk := keeps_rejectPending { s.modify c (fun i => { i with life := .closed status }) with
        processState := none } c
        (((s.modify c (fun i => { i with life := .closed status })).interpreters c).exitError status)
      exact .still (queue_congr hk.worker hk.active_fst hk.messages) hk.replies hk.session
    · have hk := keeps_rejectPending (s.modify c (fun i => { i with life := .closed status })) c
        (((s.modify c (fun i => { i with life := .closed status })).interpreters c).exitError status)
      exact .still (queue_congr hk.worker hk.active_fst hk.messages) hk.replies hk.session
  · cases hs

/-! ## Where a request is sent -/

/-- Before there is a worker nothing was sent. -/
theorem queue_absent (h : Inv s) (hmessages : s.worker = .absent → s.messages = [])
    (hworker : s.worker = .absent) : s.queue = [] := by
  rw [State.queue, hworker, (h.early (.inl hworker)).1, hmessages hworker]
  rfl

theorem effect_request (h : Inv s) (hmessages : s.worker = .absent → s.messages = [])
    (missing : Bool) (w : AclWork) (hw : w.sequence = s.session.sequence + 1) :
    Effect s (s.request missing w) := by
  unfold State.request
  dsimp only
  split
  · rename_i hworker
    split
    · exact .same rfl rfl (by rw [show (Session.returns _ _ _).sequence = w.sequence from rfl]; omega)
        fun w hw => by cases hw
    · refine .sent w ?_ rfl hw hw rfl
      rw [queue_absent h hmessages hworker]
      simp [State.queue, Worker.initial?, (h.early (.inl hworker)).1, hmessages hworker]
  · refine .sent w ?_ rfl hw hw rfl
    simp [State.queue, Message.work?]

theorem effect_returns (s : State) (call : Call) (outcome : Except AclError Unit) :
    Effect s (s.returns call outcome) :=
  .same rfl rfl (Nat.le_refl _) fun w hw => by cases hw

theorem effect_callRun (h : Inv s) (hmessages : s.worker = .absent → s.messages = []) (path : Units)
    (directory apply missing : Bool) : Effect s (s.callRun path directory apply missing) := by
  unfold State.callRun
  split
  · exact effect_returns s _ _
  split
  · exact effect_returns s _ _
  split
  · exact effect_returns s _ _
  · exact effect_request h hmessages missing _ rfl

/-- Only the number of a session and its main thread matter to the requests. -/
theorem Effect.congr_left {s₀ : State} (h : Effect s₀ s') (hqueue : s₀.queue = s.queue)
    (hreplies : s₀.replies = s.replies) (hsequence : s₀.session.sequence = s.session.sequence)
    (hmain : s₀.session.main = s.session.main) (hmoved : s'.session ≠ s₀.session) : Effect s s' := by
  cases h with
  | same hq hr hs hm =>
    exact .same (hq.trans hqueue) (hr.trans hreplies) (by omega) fun w hw => by
      rw [← hmain, ← hsequence]
      exact hm w hw
  | sent w hq hr hs hn hm =>
    exact .sent w (by rw [hq, hqueue]) (hr.trans hreplies) (by omega) (by omega) hm
  | answered w r l l' hn ha hq hq' hr hs => exact absurd hs hmoved
  | lost hc hq hr hs => exact absurd hs hmoved

theorem effect_callClose (h : Inv s) (hmessages : s.worker = .absent → s.messages = [])
    (hidle : s.session.main = .idle) : Effect s s.callClose := by
  unfold State.callClose
  split
  · exact effect_returns s _ _
  dsimp only
  split
  · exact .same rfl rfl (Nat.le_refl _) fun w hw => by cases hw
  · rename_i hworker
    have hc : Inv { s with session := { s.session with closed := true } } :=
      h.congr rfl rfl rfl fun hw => hw
    refine (effect_request hc hmessages false
      (.close (s.session.sequence + 1)) rfl).congr_left rfl rfl rfl rfl fun hsame => ?_
    have hmain := congrArg Session.main hsame
    rw [State.request] at hmain
    dsimp only at hmain
    split at hmain
    · rename_i habsent
      exact hworker (.inl habsent)
    · rw [show s.session.main = .idle from hidle] at hmain
      cases hmain

theorem effect_wake (hs : s.wake = some s') : Effect s s' := by
  unfold State.wake at hs
  split at hs
  · obtain ⟨r, -, rfl⟩ := Option.map_eq_some_iff.mp hs
    unfold State.take
    split
    · exact effect_returns s _ _
    dsimp only
    split
    · exact .same rfl rfl (Nat.le_refl _) fun w hw => by cases hw
    · exact .same rfl rfl (Nat.le_refl _) fun w hw => by cases hw
  · cases hs

theorem effect_timeout (hs : s.timeout = some s') : Effect s s' := by
  unfold State.timeout at hs
  split at hs
  · rename_i w hmain
    rw [← Option.some.inj hs]
    refine .same (by simp [State.queue, Message.work?]) rfl (Nat.le_refl _) fun w' hw' => ⟨?_, rfl⟩
    rw [hmain]
    exact hw'
  · cases hs

theorem effect_giveUp (hs : s.giveUp = some s') : Effect s s' := by
  unfold State.giveUp at hs
  split at hs
  · rw [← Option.some.inj hs]
    exact effect_returns s _ _
  · cases hs

theorem effect_loaded (h : Inv s) {threw : Option Units} (hs : s.loaded threw = some s') :
    Effect s s' := by
  unfold State.loaded at hs
  split at hs
  · rename_i w hworker
    have hcomes : Comes s { s with worker := .up } w := by
      refine ⟨rfl, ?_, rfl, rfl⟩
      rw [State.queue, hworker, (h.early (.inr ⟨w, hworker⟩)).1]
      rfl
    rw [← Option.some.inj hs]
    exact hcomes.perform threw
  · cases hs

theorem effect_importFailed (h : Inv s) {code : Units} (hs : s.importFailed code = some s') :
    Effect s s' := by
  unfold State.importFailed at hs
  split at hs
  · rename_i w hworker
    rw [← Option.some.inj hs]
    have hanswer : Answer s ({ s with worker := .stopped }.reply w
        { sequence := w.sequence, ok := false, error := some (.importFailed code), terminal := true })
        w { sequence := w.sequence, ok := false, error := some (.importFailed code),
            terminal := true } :=
      ⟨fun h => absurd h (by simp), fun _ => ⟨rfl, (h.early (.inr ⟨w, hworker⟩)).2⟩⟩
    refine .answered w _ [] ((s.active.map Prod.fst).toList ++ s.messages.filterMap Message.work?)
      rfl hanswer ?_ rfl rfl rfl
    rw [State.queue, hworker]
    rfl
  · cases hs

theorem effect_crash (hs : s.crash = some s') : Effect s s' := by
  unfold State.crash at hs
  split at hs
  · rename_i w hworker
    rw [← Option.some.inj hs]
    refine .lost rfl ?_ rfl rfl
    rw [State.queue, State.queue, hworker]
    exact List.sublist_append_right [w] _
  · rename_i hworker
    rw [← Option.some.inj hs]
    exact .lost rfl (by rw [State.queue, State.queue, hworker]; exact List.Sublist.refl _) rfl rfl
  · cases hs

theorem effect_receive (hworker : s.worker = .up) {threw : Option Units}
    (hs : s.receive threw = some s') : Effect s s' := by
  unfold State.receive at hs
  split at hs
  · cases hs
  · rename_i w rest hmessages
    have hcomes : Comes s { s with messages := rest } w := by
      refine ⟨hworker, ?_, rfl, rfl⟩
      rw [queue_up hworker, hmessages]
      rfl
    rw [← Option.some.inj hs]
    exact hcomes.perform threw
  · rename_i n rest hmessages
    have hk := keeps_cancel { s with messages := rest } n
    rw [← Option.some.inj hs]
    refine .still ?_ hk.replies hk.session
    rw [queue_congr hk.worker hk.active_fst hk.messages, queue_up hworker, hmessages,
      queue_up (s := { s with messages := rest }) hworker]
    rfl

/-- **What a step does to the requests.** -/
theorem effect_step (h : Inv s) (hmessages : s.worker = .absent → s.messages = [])
    (hs : step s a = some s') : Effect s s' := by
  cases a with
  | run path directory apply missing =>
    rw [← Option.some.inj (when_eq_some.mp hs).2]
    exact effect_callRun h hmessages path directory apply missing
  | close =>
    obtain ⟨hidle, hs⟩ := when_eq_some.mp hs
    rw [← Option.some.inj hs]
    exact effect_callClose h hmessages (by simpa using hidle)
  | wake => exact effect_wake hs
  | timeout => exact effect_timeout hs
  | giveUp => exact effect_giveUp hs
  | failed name =>
    rw [← Option.some.inj (when_eq_some.mp hs).2]
    exact .same rfl rfl (Nat.le_refl _) fun w hw => ⟨hw, rfl⟩
  | loaded threw => exact effect_loaded h hs
  | importFailed code => exact effect_importFailed h hs
  | crash => exact effect_crash hs
  | receive threw =>
    obtain ⟨hworker, hs⟩ := when_eq_some.mp hs
    exact effect_receive (by simpa using hworker) hs
  | resume threw =>
    obtain ⟨hworker, hs⟩ := when_eq_some.mp hs
    exact effect_resume h (by simpa using hworker) hs
  | closeTimer => exact (keeps_closeTimer (when_eq_some.mp hs).2).effect
  | line c => exact effect_line (when_eq_some.mp hs).2
  | stdoutData c bytes =>
    rw [← Option.some.inj (when_eq_some.mp hs).2]
    exact (keeps_stdoutData s c bytes).effect
  | stderrData c text =>
    rw [← Option.some.inj (when_eq_some.mp hs).2]
    exact (keeps_stderrData s c text).effect
  | trouble c code =>
    rw [← Option.some.inj (when_eq_some.mp hs).2]
    exact (keeps_fail s c _).effect
  | exitEvent c =>
    obtain ⟨f, rfl⟩ := exitEvent_modifies (when_eq_some.mp hs).2
    exact .still rfl rfl rfl
  | closeEvent c => exact effect_closeEvent (when_eq_some.mp hs).2
  | read c =>
    obtain ⟨f, rfl⟩ := read_modifies (when_eq_some.mp hs).2
    exact .still rfl rfl rfl
  | pass c =>
    obtain ⟨f, rfl⟩ := pass_modifies (when_eq_some.mp hs).2
    exact .still rfl rfl rfl
  | print c =>
    rw [← Option.some.inj (when_eq_some.mp hs).2]
    exact .still rfl rfl rfl
  | exit c status =>
    rw [← Option.some.inj (when_eq_some.mp hs).2]
    exact .still rfl rfl rfl

/-! ## Numbers -/

/-- Every request has a number of its own, and is answered at most once. -/
structure Numbered (s : State) : Prop where
  inv : Inv s
  /-- Without a worker nothing was sent. -/
  unsent : s.worker = .absent → s.messages = [] ∧ s.session.main = .idle
  sorted : s.queue.Pairwise (fun w w' => w.sequence < w'.sequence)
  bound : ∀ w ∈ s.queue, w.sequence ≤ s.session.sequence
  replied : ∀ n r, s.replies n = some r → n ≤ s.session.sequence ∧ r.sequence = n
  unanswered : ∀ w ∈ s.queue, s.replies w.sequence = none
  /-- The main thread waits for the request it has made last. -/
  last : ∀ w, s.session.main.work? = some w → w.sequence = s.session.sequence
  same : ∀ w, s.session.main.work? = some w → ∀ w' ∈ s.queue, w'.sequence = w.sequence → w' = w

theorem Numbered.init : Numbered {} where
  inv := Inv.init
  unsent _ := ⟨rfl, rfl⟩
  sorted := List.Pairwise.nil
  bound w hw := by simp [State.queue, Worker.initial?] at hw
  replied n r h := by cases h
  unanswered w hw := rfl
  last w hw := by cases hw
  same w hw := by cases hw

/-! ### The worker -/

/-- What the worker does itself leaves it up, or stops it. -/
def Stays (s s' : State) : Prop := s'.worker = s.worker ∨ s'.worker = .stopped

theorem stays_finish (s : State) (w : AclWork) (error : Option AclError) :
    Stays s (s.finish w error) := by
  cases w with
  | check o => exact .inl rfl
  | close n => exact .inr rfl

theorem stays_caught (s : State) (w : AclWork) (error : AclError) : Stays s (s.caught w error) := by
  unfold State.caught
  split
  · exact stays_finish s w _
  · exact .inl rfl

theorem stays_hand (s : State) (o : AclOperation) (threw : Option Units) :
    Stays s (s.hand o threw) := by
  rcases hand_cases s o threw with ⟨message, hhand⟩ | ⟨-, hw, -⟩
  · rw [hhand]
    exact stays_finish s _ _
  · exact .inl hw

theorem stays_perform (s : State) (w : AclWork) (threw : Option Units) :
    Stays s (s.perform w threw) := by
  unfold State.perform
  split
  · exact .inl rfl
  · split
    · exact stays_finish s _ _
    · exact .inl rfl
    · exact stays_hand s _ _
    · split
      · exact .inl rfl
      · exact stays_hand s _ _

theorem stays_resume {threw : Option Units} (hs : s.resume threw = some s') : Stays s s' := by
  unfold State.resume at hs
  split at hs
  · split at hs
    · rw [← Option.some.inj hs]
      exact stays_hand s _ _
    · cases hs
  · rw [← Option.some.inj hs]
    exact stays_finish s _ _
  · rw [← Option.some.inj hs]
    exact stays_caught s _ _
  · split at hs
    · split at hs
      · rw [← Option.some.inj hs]
        exact stays_finish s _ _
      · rw [← Option.some.inj hs]
        exact stays_caught s _ _
    · cases hs
  · split at hs
    · rw [← Option.some.inj hs]
      exact stays_finish s _ _
    · cases hs
  · cases hs

theorem stays_receive {threw : Option Units} (hs : s.receive threw = some s') : Stays s s' := by
  unfold State.receive at hs
  split at hs
  · cases hs
  · rw [← Option.some.inj hs]
    exact stays_perform { s with messages := _ } _ threw
  · rw [← Option.some.inj hs]
    exact .inl (keeps_cancel { s with messages := _ } _).worker

theorem worker_line (hs : s.line c = some s') : s'.worker = s.worker := by
  unfold State.line at hs
  split at hs
  · cases hs
  · dsimp only at hs
    split at hs
    · rw [← Option.some.inj hs]
      exact (keeps_fail _ c _).worker
    · split at hs
      · rw [← Option.some.inj hs]
        rfl
      · rw [← Option.some.inj hs]
        exact (keeps_fail _ c _).worker

theorem worker_closeEvent (hs : s.closeEvent c = some s') : s'.worker = s.worker := by
  unfold State.closeEvent at hs
  split at hs
  · dsimp only at hs
    rw [← Option.some.inj hs]
    split
    · exact (keeps_rejectPending _ c _).worker
    · exact (keeps_rejectPending _ c _).worker
  · cases hs

/-- Where a worker can get to from a step. -/
inductive WorkerStep (s s' : State) : Prop where
  | kept (h : s'.worker = s.worker)
  | started (h : s.worker = .absent) (hopen : s.session.closed = false) (w : AclWork)
      (h' : s'.worker = .loading w)
  | moved (h : s.worker = .up ∨ ∃ w, s.worker = .loading w)
      (h' : s'.worker = .up ∨ s'.worker = .stopped ∨ s'.worker = .crashed)

theorem Stays.workerStep (h : Stays s s') (hworker : s.worker = .up) : WorkerStep s s' := by
  rcases h with h | h
  · exact .kept h
  · exact .moved (.inl hworker) (.inr (.inl h))

theorem workerStep_request (missing : Bool) (w : AclWork)
    (hopen : s.worker = .absent → s.session.closed = false) :
    WorkerStep s (s.request missing w) := by
  unfold State.request
  dsimp only
  split
  · rename_i hworker
    split
    · exact .kept rfl
    · exact .started hworker (hopen hworker) w rfl
  · exact .kept rfl

theorem workerStep_step (hs : step s a = some s') : WorkerStep s s' := by
  cases a with
  | run path directory apply missing =>
    rw [← Option.some.inj (when_eq_some.mp hs).2, State.callRun]
    split
    · exact .kept rfl
    rename_i hclosed
    split
    · exact .kept rfl
    split
    · exact .kept rfl
    · exact workerStep_request missing _ fun _ => by simpa using hclosed
  | close =>
    rw [← Option.some.inj (when_eq_some.mp hs).2, State.callClose]
    split
    · exact .kept rfl
    dsimp only
    split
    · exact .kept rfl
    · rename_i hworker
      have hnot : s.worker ≠ .absent := fun h => hworker (.inl h)
      cases workerStep_request (s := { s with session := { s.session with closed := true } }) false
        (.close (s.session.sequence + 1)) fun h => absurd h hnot with
      | kept h => exact .kept h
      | started h hopen w h' => exact absurd h hnot
      | moved h h' => exact .moved h h'
  | wake =>
    have hs : s.wake = some s' := hs
    unfold State.wake at hs
    split at hs
    · obtain ⟨r, -, rfl⟩ := Option.map_eq_some_iff.mp hs
      unfold State.take
      split
      · exact .kept rfl
      dsimp only
      split
      · exact .kept rfl
      · exact .kept rfl
    · cases hs
  | timeout =>
    have hs : s.timeout = some s' := hs
    unfold State.timeout at hs
    split at hs
    · rw [← Option.some.inj hs]
      exact .kept rfl
    · cases hs
  | giveUp =>
    have hs : s.giveUp = some s' := hs
    unfold State.giveUp at hs
    split at hs
    · rw [← Option.some.inj hs]
      exact .kept rfl
    · cases hs
  | failed name =>
    rw [← Option.some.inj (when_eq_some.mp hs).2]
    exact .kept rfl
  | loaded threw =>
    have hs : s.loaded threw = some s' := hs
    unfold State.loaded at hs
    split at hs
    · rename_i w hworker
      rw [← Option.some.inj hs]
      rcases stays_perform { s with worker := .up } w threw with h | h
      · exact .moved (.inr ⟨w, hworker⟩) (.inl h)
      · exact .moved (.inr ⟨w, hworker⟩) (.inr (.inl h))
    · cases hs
  | importFailed code =>
    have hs : s.importFailed code = some s' := hs
    unfold State.importFailed at hs
    split at hs
    · rename_i w hworker
      rw [← Option.some.inj hs]
      exact .moved (.inr ⟨w, hworker⟩) (.inr (.inl rfl))
    · cases hs
  | crash =>
    have hs : s.crash = some s' := hs
    unfold State.crash at hs
    split at hs
    · rename_i w hworker
      rw [← Option.some.inj hs]
      exact .moved (.inr ⟨w, hworker⟩) (.inr (.inr rfl))
    · rename_i hworker
      rw [← Option.some.inj hs]
      exact .moved (.inl hworker) (.inr (.inr rfl))
    · cases hs
  | receive threw =>
    obtain ⟨hworker, hs⟩ := when_eq_some.mp hs
    exact (stays_receive hs).workerStep (by simpa using hworker)
  | resume threw =>
    obtain ⟨hworker, hs⟩ := when_eq_some.mp hs
    exact (stays_resume hs).workerStep (by simpa using hworker)
  | closeTimer => exact .kept (keeps_closeTimer (when_eq_some.mp hs).2).worker
  | line c => exact .kept (worker_line (when_eq_some.mp hs).2)
  | stdoutData c bytes =>
    rw [← Option.some.inj (when_eq_some.mp hs).2]
    exact .kept (keeps_stdoutData s c bytes).worker
  | stderrData c text =>
    rw [← Option.some.inj (when_eq_some.mp hs).2]
    exact .kept (keeps_stderrData s c text).worker
  | trouble c code =>
    rw [← Option.some.inj (when_eq_some.mp hs).2]
    exact .kept (keeps_fail s c _).worker
  | exitEvent c =>
    obtain ⟨f, rfl⟩ := exitEvent_modifies (when_eq_some.mp hs).2
    exact .kept rfl
  | closeEvent c => exact .kept (worker_closeEvent (when_eq_some.mp hs).2)
  | read c =>
    obtain ⟨f, rfl⟩ := read_modifies (when_eq_some.mp hs).2
    exact .kept rfl
  | pass c =>
    obtain ⟨f, rfl⟩ := pass_modifies (when_eq_some.mp hs).2
    exact .kept rfl
  | print c =>
    rw [← Option.some.inj (when_eq_some.mp hs).2]
    exact .kept rfl
  | exit c status =>
    rw [← Option.some.inj (when_eq_some.mp hs).2]
    exact .kept rfl

theorem WorkerStep.absent (h : WorkerStep s s') (h' : s'.worker = .absent) : s.worker = .absent := by
  cases h with
  | kept h => rw [← h, h']
  | started h hopen w h₁ => exact h
  | moved h h₁ =>
    rw [h'] at h₁
    simp at h₁

theorem unsent_request (missing : Bool) (w : AclWork) (hmessages : s.messages = [])
    (hworker : s.worker = .absent) : (s.request missing w).worker = .absent →
      (s.request missing w).messages = [] ∧ (s.request missing w).session.main = .idle := by
  unfold State.request
  rw [hworker]
  cases missing with
  | true => exact fun _ => ⟨hmessages, rfl⟩
  | false => exact fun h => by cases h

theorem unsent_callRun (path : Units) (directory apply missing : Bool) (hmessages : s.messages = [])
    (hworker : s.worker = .absent) : (s.callRun path directory apply missing).worker = .absent →
      (s.callRun path directory apply missing).messages = [] ∧
        (s.callRun path directory apply missing).session.main = .idle := by
  unfold State.callRun
  split
  · exact fun _ => ⟨hmessages, rfl⟩
  split
  · exact fun _ => ⟨hmessages, rfl⟩
  split
  · exact fun _ => ⟨hmessages, rfl⟩
  · exact unsent_request missing _ hmessages hworker

/-- Without a worker there is only the main thread, and what it calls comes to an end at once. -/
theorem unsent_step (hs : step s a = some s') (hidle : s.session.main = .idle)
    (hmessages : s.messages = []) (hworker : s.worker = .absent) (h' : s'.worker = .absent) :
    s'.messages = [] ∧ s'.session.main = .idle := by
  have hnotUp : ¬ s.worker = .up := by simp [hworker]
  have hhears : ∀ c, s.hears c = false := fun c => by simp [State.hears, hworker]
  cases a with
  | run path directory apply missing =>
    have hs := Option.some.inj (when_eq_some.mp hs).2
    rw [← hs] at h' ⊢
    exact unsent_callRun path directory apply missing hmessages hworker h'
  | close =>
    rw [← Option.some.inj (when_eq_some.mp hs).2, State.callClose]
    split
    · exact ⟨hmessages, rfl⟩
    · rw [if_pos (.inl hworker)]
      exact ⟨hmessages, rfl⟩
  | wake =>
    have hs : s.wake = some s' := hs
    rw [State.wake, hidle] at hs
    cases hs
  | timeout =>
    have hs : s.timeout = some s' := hs
    rw [State.timeout, hidle] at hs
    cases hs
  | giveUp =>
    have hs : s.giveUp = some s' := hs
    rw [State.giveUp, hidle] at hs
    cases hs
  | failed name => exact absurd (when_eq_some.mp hs).1 (by simp [hworker])
  | loaded threw =>
    have hs : s.loaded threw = some s' := hs
    rw [State.loaded, hworker] at hs
    cases hs
  | importFailed code =>
    have hs : s.importFailed code = some s' := hs
    rw [State.importFailed, hworker] at hs
    cases hs
  | crash =>
    have hs : s.crash = some s' := hs
    rw [State.crash, hworker] at hs
    cases hs
  | receive threw => exact absurd (by simpa using (when_eq_some.mp hs).1) hnotUp
  | resume threw => exact absurd (by simpa using (when_eq_some.mp hs).1) hnotUp
  | closeTimer => exact absurd (by simpa using (when_eq_some.mp hs).1) hnotUp
  | line c => exact absurd (when_eq_some.mp hs).1 (by simp [hhears])
  | stdoutData c bytes => exact absurd (when_eq_some.mp hs).1 (by simp [hhears])
  | stderrData c text => exact absurd (when_eq_some.mp hs).1 (by simp [hhears])
  | trouble c code => exact absurd (when_eq_some.mp hs).1 (by simp [hhears])
  | exitEvent c => exact absurd (by simpa using (when_eq_some.mp hs).1) hnotUp
  | closeEvent c => exact absurd (by simpa using (when_eq_some.mp hs).1) hnotUp
  | read c =>
    obtain ⟨f, rfl⟩ := read_modifies (when_eq_some.mp hs).2
    exact ⟨hmessages, hidle⟩
  | pass c =>
    obtain ⟨f, rfl⟩ := pass_modifies (when_eq_some.mp hs).2
    exact ⟨hmessages, hidle⟩
  | print c =>
    rw [← Option.some.inj (when_eq_some.mp hs).2]
    exact ⟨hmessages, hidle⟩
  | exit c status =>
    rw [← Option.some.inj (when_eq_some.mp hs).2]
    exact ⟨hmessages, hidle⟩

theorem Numbered.of_effect (h : Numbered s) (hinv : Inv s')
    (hunsent : s'.worker = .absent → s'.messages = [] ∧ s'.session.main = .idle)
    (he : Effect s s') : Numbered s' := by
  cases he with
  | same hqueue hreplies hsequence hmain =>
    refine ⟨hinv, hunsent, hqueue ▸ h.sorted, fun w hw => ?_, fun n r hr => ?_, fun w hw => ?_,
      fun w hw => ?_, fun w hw w' hw' => ?_⟩
    · exact (h.bound w (hqueue ▸ hw)).trans hsequence
    · have := h.replied n r (hreplies ▸ hr)
      omega
    · rw [hreplies]
      exact h.unanswered w (hqueue ▸ hw)
    · obtain ⟨hw, heq⟩ := hmain w hw
      rw [heq]
      exact h.last w hw
    · exact h.same w (hmain w hw).1 w' (hqueue ▸ hw')
  | sent w hqueue hreplies hsequence hnumber hmain =>
    -- the number of the new request is above all others
    refine ⟨hinv, hunsent, ?_, fun w' hw' => ?_, fun n r hr => ?_, fun w' hw' => ?_,
      fun w' hw' => ?_, fun w' hw' w₁ hw₁ hsame => ?_⟩
    · rw [hqueue, List.pairwise_append]
      refine ⟨h.sorted, List.pairwise_singleton _ _, fun w₁ hw₁ w₂ hw₂ => ?_⟩
      rw [List.mem_singleton.mp hw₂]
      have := h.bound w₁ hw₁
      omega
    · rw [hqueue] at hw'
      rcases List.mem_append.mp hw' with hw' | hw'
      · have := h.bound w' hw'
        omega
      · rw [List.mem_singleton.mp hw']
        omega
    · obtain ⟨hn, hr⟩ := h.replied n r (hreplies ▸ hr)
      exact ⟨by omega, hr⟩
    · rw [hqueue] at hw'
      rw [hreplies]
      rcases List.mem_append.mp hw' with hw' | hw'
      · exact h.unanswered w' hw'
      · rw [List.mem_singleton.mp hw']
        cases hr : s.replies w.sequence with
        | none => rfl
        | some r =>
          have := (h.replied _ r hr).1
          omega
    · rw [hmain] at hw'
      rw [← Option.some.inj hw']
      omega
    · rw [hmain] at hw'
      have hww' : w = w' := Option.some.inj hw'
      rw [hqueue] at hw₁
      rcases List.mem_append.mp hw₁ with hw₁ | hw₁
      · have := h.bound w₁ hw₁
        rw [← hww'] at hsame
        omega
      · rw [List.mem_singleton.mp hw₁, hww']
  | answered w r l l' hnumber hanswer hqueue hqueue' hreplies hsession =>
    have hsub : s'.queue.Sublist s.queue := by
      rw [hqueue, hqueue']
      exact (List.sublist_cons_self w l').append_left l
    have hsorted := h.sorted
    rw [hqueue] at hsorted
    refine ⟨hinv, hunsent, h.sorted.sublist hsub, fun w' hw' => ?_, fun n r' hr => ?_,
      fun w' hw' => ?_, fun w' hw' => ?_, fun w' hw' w₁ hw₁ => ?_⟩
    · rw [hsession]
      exact h.bound w' (hsub.subset hw')
    · rw [hsession]
      have hr : (if n = w.sequence then some r else s.replies n) = some r' := by
        rw [hreplies] at hr
        exact hr
      split at hr
      · rename_i hn
        rw [hn, ← Option.some.inj hr]
        exact ⟨h.bound w (by rw [hqueue]; simp), hnumber⟩
      · exact h.replied n r' hr
    · -- the others have other numbers
      have hne : w'.sequence ≠ w.sequence := by
        obtain ⟨-, hl', hbefore⟩ := List.pairwise_append.mp hsorted
        rw [hqueue'] at hw'
        rcases List.mem_append.mp hw' with hw' | hw'
        · have := hbefore w' hw' w List.mem_cons_self
          omega
        · have := (List.pairwise_cons.mp hl').1 w' hw'
          omega
      rw [hreplies]
      exact (if_neg hne).trans (h.unanswered w' (hsub.subset hw'))
    · rw [hsession] at hw' ⊢
      exact h.last w' hw'
    · rw [hsession] at hw'
      exact h.same w' hw' w₁ (hsub.subset hw₁)
  | lost hcrashed hqueue hreplies hsession =>
    refine ⟨hinv, hunsent, h.sorted.sublist hqueue, fun w hw => ?_, fun n r hr => ?_,
      fun w hw => ?_, fun w hw => ?_, fun w hw w' hw' => ?_⟩
    · rw [hsession]
      exact h.bound w (hqueue.subset hw)
    · rw [hsession]
      exact h.replied n r (hreplies ▸ hr)
    · rw [hreplies]
      exact h.unanswered w (hqueue.subset hw)
    · rw [hsession] at hw ⊢
      exact h.last w hw
    · rw [hsession] at hw
      exact h.same w hw w' (hqueue.subset hw')

theorem Numbered.effect (h : Numbered s) (hs : step s a = some s') : Effect s s' :=
  effect_step h.inv (fun hworker => (h.unsent hworker).1) hs

theorem Numbered.step (h : Numbered s) (hs : step s a = some s') : Numbered s' :=
  h.of_effect (h.inv.step hs) (fun hworker =>
    have habsent := (workerStep_step hs).absent hworker
    unsent_step hs (h.unsent habsent).2 (h.unsent habsent).1 habsent hworker) (h.effect hs)

theorem Numbered.reaches {ok : State → Action → Prop} (h : Reaches Acl.step ok Initial s) :
    Numbered s :=
  h.invariant (fun _ hs => by rw [hs]; exact Numbered.init) fun _ _ _ hi _ hs => hi.step hs

/-! ## No request is lost, and none is answered twice -/

/-- A request is open, or it is answered. -/
def Settled (s : State) (w : AclWork) : Prop :=
  s.worker = .crashed ∨ (w ∈ s.queue ↔ s.replies w.sequence = none)

theorem Effect.replies_kept (h : Numbered s) (he : Effect s s') {n : Nat} {r : AclReply}
    (hr : s.replies n = some r) : s'.replies n = some r := by
  cases he with
  | same hqueue hreplies hsequence hmain => rw [hreplies, hr]
  | sent w hqueue hreplies hsequence hnumber hmain => rw [hreplies, hr]
  | answered w r' l l' hnumber hanswer hqueue hqueue' hreplies hsession =>
    have hne : n ≠ w.sequence := by
      intro hn
      rw [hn, h.unanswered w (by rw [hqueue]; simp)] at hr
      cases hr
    rw [hreplies]
    exact (if_neg hne).trans hr
  | lost hcrashed hqueue hreplies hsession => rw [hreplies, hr]

theorem settled_step (h : Numbered s) (hs : step s a = some s')
    (hbound : w.sequence ≤ s.session.sequence) (hw : Settled s w) : Settled s' w := by
  rcases hw with hcrashed | hw
  · cases workerStep_step hs with
    | kept h => exact .inl (h.trans hcrashed)
    | started h hopen w h' =>
      rw [hcrashed] at h
      cases h
    | moved h h' =>
      rw [hcrashed] at h
      simp at h
  · cases h.effect hs with
    | same hqueue hreplies hsequence hmain => exact .inr (by rw [hqueue, hreplies]; exact hw)
    | sent w' hqueue hreplies hsequence hnumber hmain =>
      have hne : w ≠ w' := by
        intro heq
        rw [heq] at hbound
        omega
      refine .inr ?_
      rw [hqueue, hreplies, List.mem_append, List.mem_singleton, or_iff_left hne]
      exact hw
    | answered w' r l l' hnumber hanswer hqueue hqueue' hreplies hsession =>
      have hmem : w' ∈ s.queue := by rw [hqueue]; simp
      have hsorted := h.sorted
      rw [hqueue] at hsorted
      obtain ⟨-, hl', hbefore⟩ := List.pairwise_append.mp hsorted
      refine .inr ?_
      rw [hqueue', hreplies]
      by_cases heq : w.sequence = w'.sequence
      · -- it is the one that is answered
        refine iff_of_false (fun hmem' => ?_) (by simp [heq])
        rcases List.mem_append.mp hmem' with hmem' | hmem'
        · have := hbefore w hmem' w' List.mem_cons_self
          omega
        · have := (List.pairwise_cons.mp hl').1 w hmem'
          omega
      · have hne : w ≠ w' := fun h => heq (h ▸ rfl)
        rw [hqueue] at hw
        simp only [List.mem_append, List.mem_cons, hne, false_or] at hw ⊢
        rw [if_neg heq]
        exact hw
    | lost hcrashed hqueue hreplies hsession => exact .inl hcrashed

/-- A request the main thread begins to wait for was sent. -/
theorem Effect.sent_of_waits (he : Effect s s') (hidle : s.session.main = .idle)
    (hwaits : s'.session.main = .waiting w) : w ∈ s'.queue := by
  have hsession : s'.session ≠ s.session := by
    intro hsame
    rw [hsame, hidle] at hwaits
    cases hwaits
  cases he with
  | same hqueue hreplies hsequence hmain =>
    have hw := (hmain w (by rw [hwaits]; rfl)).1
    rw [hidle] at hw
    cases hw
  | sent w' hqueue hreplies hsequence hnumber hmain =>
    rw [hwaits] at hmain
    rw [hqueue, Main.waiting.inj hmain]
    simp
  | answered w r l l' hnumber hanswer hqueue hqueue' hreplies hs => exact absurd hs hsession
  | lost hcrashed hqueue hreplies hs => exact absurd hs hsession

/-- What is known of the requests of a run. -/
structure Kept (t : Traced State Action) : Prop where
  numbered : Numbered t.state
  sent : ∀ e ∈ t.events, ∀ w, e.before.session.main = .idle → e.after.session.main = .waiting w →
    w.sequence ≤ t.state.session.sequence ∧ Settled t.state w
  replies : ∀ e ∈ t.events, ∀ n r, e.after.replies n = some r → t.state.replies n = some r

theorem Effect.sequence_le (he : Effect s s') : s.session.sequence ≤ s'.session.sequence := by
  cases he with
  | same hqueue hreplies hsequence hmain => exact hsequence
  | sent w hqueue hreplies hsequence hnumber hmain => omega
  | answered w r l l' hnumber hanswer hqueue hqueue' hreplies hsession => rw [hsession]
  | lost hcrashed hqueue hreplies hsession => rw [hsession]

theorem Kept.snoc {t t' : Traced State Action} (h : Kept t) (hs : traced step t a = some t') :
    Kept t' := by
  obtain ⟨s', hs', rfl⟩ := traced_eq_some.mp hs
  have hn := h.numbered.step hs'
  have he := h.numbered.effect hs'
  refine ⟨hn, fun e hmem w hidle hwaits => ?_, fun e hmem n r hr => ?_⟩
  · rcases List.mem_cons.mp hmem with rfl | hmem
    · have hq := he.sent_of_waits hidle hwaits
      exact ⟨hn.bound w hq, .inr (iff_of_true hq (hn.unanswered w hq))⟩
    · obtain ⟨hbound, hsettled⟩ := h.sent e hmem w hidle hwaits
      exact ⟨hbound.trans he.sequence_le, settled_step h.numbered hs' hbound hsettled⟩
  · rcases List.mem_cons.mp hmem with rfl | hmem
    · exact hr
    · exact he.replies_kept h.numbered (h.replies e hmem n r hr)

theorem Kept.reaches {t : Traced State Action}
    (h : Reaches (traced step) (fun _ _ => True) (TracedInit Initial) t) : Kept t := by
  refine h.invariant (fun t ht => ?_) fun _ _ _ hi _ hs => hi.snoc hs
  obtain ⟨hinit, hevents⟩ := ht
  refine ⟨by rw [hinit]; exact Numbered.init, ?_, ?_⟩
  · rw [hevents]
    exact fun e he => absurd he List.not_mem_nil
  · rw [hevents]
    exact fun e he => absurd he List.not_mem_nil

/-- **Every request is accounted for**, as long as the worker has not died: it is open at exactly one
place, or it was answered under its number. An answer that was given never changes. -/
theorem requests_accounted {t : Traced State Action}
    (h : Reaches (traced step) (fun _ _ => True) (TracedInit Initial) t) {e : Event State Action}
    (he : e ∈ t.events) :
    (∀ w, e.before.session.main = .idle → e.after.session.main = .waiting w →
      t.state.worker ≠ .crashed →
        (t.state.queue.count w = 1 ∧ t.state.replies w.sequence = none) ∨
          (w ∉ t.state.queue ∧ ∃ r, t.state.replies w.sequence = some r ∧ r.sequence = w.sequence)) ∧
      ∀ n r, e.after.replies n = some r → t.state.replies n = some r := by
  have hk := Kept.reaches h
  refine ⟨fun w hidle hwaits hup => ?_, hk.replies e he⟩
  rcases (hk.sent e he w hidle hwaits).2 with hcrashed | hsettled
  · exact absurd hcrashed hup
  · cases hr : t.state.replies w.sequence with
    | none =>
      have hnodup : t.state.queue.Nodup := hk.numbered.sorted.imp fun hlt heq => by
        rw [heq] at hlt
        omega
      exact .inl ⟨List.count_eq_one_of_mem hnodup (hsettled.mpr hr), rfl⟩
    | some r =>
      refine .inr ⟨fun hq => ?_, r, rfl, (hk.numbered.replied _ r hr).2⟩
      rw [hsettled.mp hq] at hr
      cases hr

/-! ### A check that passes -/

/-- From the call to its return. -/
def passing : List Action :=
  [.run [] true false false, .loaded none, .read 0, .pass 0, .line 0, .resume none, .wake]

theorem reaches_of_run {as : List Action} {t : Traced State Action}
    (h : run (traced step) ⟨{}, []⟩ as = some t) :
    Reaches (traced step) (fun _ _ => True) (TracedInit Initial) t :=
  (Reaches.init ⟨rfl, rfl⟩).of_run h

theorem requests_accounted_passing : ∃ t e, run (traced step) ⟨{}, []⟩ passing = some t ∧
    e ∈ t.events ∧ e.action = .run [] true false false ∧
    ((∀ w, e.before.session.main = .idle → e.after.session.main = .waiting w →
      t.state.worker ≠ .crashed →
        (t.state.queue.count w = 1 ∧ t.state.replies w.sequence = none) ∨
          (w ∉ t.state.queue ∧ ∃ r, t.state.replies w.sequence = some r ∧ r.sequence = w.sequence)) ∧
      ∀ n r, e.after.replies n = some r → t.state.replies n = some r) := by
  obtain ⟨t, ht, e, he, haction⟩ : ∃ t, run (traced step) ⟨{}, []⟩ passing = some t ∧
      ∃ e ∈ t.events, e.action = .run [] true false false :=
    ⟨_, rfl, _, List.mem_of_getElem? (i := 6) rfl, rfl⟩
  exact ⟨t, e, ht, he, haction, requests_accounted (reaches_of_run ht) he⟩

end Caveat.Acl
