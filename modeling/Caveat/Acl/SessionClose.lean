import Caveat.Acl.SessionChecks

/-!
# What a session leaves behind

A worker answers `close` well only when its process has closed. So a session whose first `close`
returns without an error leaves no process behind, and none is started after it.
-/

namespace Caveat.Acl

open Js Lib

variable {s s' : State} {a : Action} {c d : Nat} {w w' : AclWork} {n : Nat}

/-- No worker will do anything any more. -/
def State.done (s : State) : Prop :=
  (s.worker = .absent ∧ s.session.closed = true ∨ s.worker = .stopped) ∧ s.processState = none

theorem State.shut.done (h : s.shut) : s.done := ⟨.inr h.1, h.2⟩

/-- Only a worker that runs has to do with processes. -/
theorem processState_step (hs : step s a = some s') (hup : s.worker ≠ .up)
    (hloading : ∀ w, s.worker ≠ .loading w) : s'.processState = s.processState := by
  have hhears : ∀ c, s.hears c = false := fun c => by simp [State.hears, hup]
  cases a with
  | run path directory apply missing =>
    rw [← Option.some.inj (when_eq_some.mp hs).2]
    exact (untouched_callRun s path directory apply missing).processState
  | close =>
    rw [← Option.some.inj (when_eq_some.mp hs).2]
    exact (untouched_callClose s).processState
  | wake => exact (untouched_wake hs).processState
  | timeout => exact (untouched_timeout hs).processState
  | giveUp => exact (untouched_giveUp hs).processState
  | failed name =>
    rw [← Option.some.inj (when_eq_some.mp hs).2]
  | loaded threw =>
    have hs : s.loaded threw = some s' := hs
    unfold State.loaded at hs
    split at hs
    · rename_i w hworker
      exact absurd hworker (hloading w)
    · cases hs
  | importFailed code =>
    have hs : s.importFailed code = some s' := hs
    unfold State.importFailed at hs
    split at hs
    · rename_i w hworker
      exact absurd hworker (hloading w)
    · cases hs
  | crash => exact (untouched_crash hs).processState
  | receive threw => exact absurd (by simpa using (when_eq_some.mp hs).1) hup
  | resume threw => exact absurd (by simpa using (when_eq_some.mp hs).1) hup
  | closeTimer => exact absurd (by simpa using (when_eq_some.mp hs).1) hup
  | line c => exact absurd (when_eq_some.mp hs).1 (by simp [hhears])
  | stdoutData c bytes => exact absurd (when_eq_some.mp hs).1 (by simp [hhears])
  | stderrData c text => exact absurd (when_eq_some.mp hs).1 (by simp [hhears])
  | trouble c code => exact absurd (when_eq_some.mp hs).1 (by simp [hhears])
  | exitEvent c => exact absurd (by simpa using (when_eq_some.mp hs).1) hup
  | closeEvent c => exact absurd (by simpa using (when_eq_some.mp hs).1) hup
  | read c =>
    obtain ⟨f, rfl⟩ := read_modifies (when_eq_some.mp hs).2
    rfl
  | pass c =>
    obtain ⟨f, rfl⟩ := pass_modifies (when_eq_some.mp hs).2
    rfl
  | print c =>
    rw [← Option.some.inj (when_eq_some.mp hs).2]
    rfl
  | exit c status =>
    rw [← Option.some.inj (when_eq_some.mp hs).2]
    rfl

theorem shut_step (h : s.shut) (hs : step s a = some s') : s'.shut := by
  refine ⟨?_, ?_⟩
  · cases workerStep_step hs with
    | kept hkept => exact hkept.trans h.1
    | started hworker hopen w hworker' =>
      rw [h.1] at hworker
      cases hworker
    | moved hworker hworker' =>
      rw [h.1] at hworker
      simp at hworker
  · exact (processState_step hs (by simp [h.1]) (by simp [h.1])).trans h.2

/-! ## What the session knows -/

/-- The first `close` has returned without an error. -/
def ClosedWell (outcomes : List (Call × Except AclError Unit)) : Prop :=
  ∃ later earlier, outcomes = later ++ (.close, .ok ()) :: earlier ∧ ∀ x ∈ earlier, x.1 ≠ .close

theorem ClosedWell.of_cons {x : Call × Except AclError Unit}
    {outcomes : List (Call × Except AclError Unit)} (h : ClosedWell (x :: outcomes)) :
    ClosedWell outcomes ∨ (x = (.close, .ok ()) ∧ ∀ y ∈ outcomes, y.1 ≠ .close) := by
  obtain ⟨later, earlier, hsplit, hearlier⟩ := h
  cases later with
  | nil =>
    obtain ⟨hx, hrest⟩ := List.cons.inj hsplit
    exact .inr ⟨hx, by rw [hrest]; exact hearlier⟩
  | cons y later => exact .inl ⟨later, earlier, (List.cons.inj hsplit).2, hearlier⟩

structure Closing (s : State) : Prop where
  terminal : s.session.terminal = true → s.shut
  replied : ∀ n r, s.replies n = some r → r.terminal = true → s.shut
  /-- A good answer to `close`. -/
  closing : ∀ n r, s.session.main.work? = some (.close n) → s.replies n = some r → r.ok = true → s.shut
  asked : ∀ n, s.session.main.work? = some (.close n) → s.session.closed = true
  called : ∀ x ∈ s.session.outcomes, x.1 = .close → s.session.closed = true
  closed : s.session.closed = true →
    (∃ n, s.session.main.work? = some (.close n)) ∨ ∃ x ∈ s.session.outcomes, x.1 = .close
  well : ClosedWell s.session.outcomes → s.done

theorem Closing.init : Closing {} where
  terminal h := by cases h
  replied n r h := by cases h
  closing n r h := by cases h
  asked n h := by cases h
  called x h := absurd h List.not_mem_nil
  closed h := by cases h
  well h := by
    obtain ⟨later, earlier, h, -⟩ := h
    cases later with
    | nil => cases h
    | cons x later => cases h

theorem closed_callRun (s : State) (path : Units) (directory apply missing : Bool) :
    (s.callRun path directory apply missing).session.closed = s.session.closed := by
  unfold State.callRun
  split
  · rfl
  split
  · rfl
  split
  · rfl
  · unfold State.request
    dsimp only
    split
    · split
      · rfl
      · rfl
    · rfl

theorem done_step (h : s.done) (hs : step s a = some s')
    (hclosed : s.session.closed = true → s'.session.closed = true) : s'.done := by
  obtain ⟨⟨hworker, hc⟩ | hworker, hnone⟩ := h
  · refine ⟨.inl ⟨?_, hclosed hc⟩, (processState_step hs (by simp [hworker]) (by simp [hworker])).trans
      hnone⟩
    cases workerStep_step hs with
    | kept hkept => exact hkept.trans hworker
    | started hw hopen w hw' =>
      rw [hc] at hopen
      cases hopen
    | moved hw hw' =>
      rw [hworker] at hw
      simp at hw
  · exact (shut_step ⟨hworker, hnone⟩ hs).done

/-- A step that is not the main thread's. -/
theorem Closing.other (h : Closing s) (hn : Numbered s) (hs : step s a = some s')
    (hsession : s'.session = s.session) : Closing s' := by
  have hreply : ∀ n r, s'.replies n = some r → s.replies n = some r ∨
      ∃ w, w ∈ s.queue ∧ w.sequence = n ∧ Answer s s' w r := by
    intro n r hr
    cases hn.effect hs with
    | same hqueue hreplies hsequence hmain => exact .inl (by rw [← hreplies, hr])
    | sent w hqueue hreplies hsequence hnumber hmain => exact .inl (by rw [← hreplies, hr])
    | lost hcrashed hqueue hreplies hsession => exact .inl (by rw [← hreplies, hr])
    | answered w r' l l' hnumber hanswer hqueue hqueue' hreplies hsession =>
      have hr : (if n = w.sequence then some r' else s.replies n) = some r := by
        rw [hreplies] at hr
        exact hr
      split at hr
      · rename_i hn
        obtain rfl := Option.some.inj hr
        exact .inr ⟨w, by rw [hqueue]; simp, hn.symm, hanswer⟩
      · exact .inl hr
  refine ⟨fun ht => ?_, fun n r hr ht => ?_, fun n r hw hr hok => ?_, ?_, ?_, ?_, fun hwell => ?_⟩
  · rw [hsession] at ht
    exact shut_step (h.terminal ht) hs
  · rcases hreply n r hr with hr | ⟨w, -, -, hanswer⟩
    · exact shut_step (h.replied n r hr ht) hs
    · exact hanswer.terminal ht
  · rw [hsession] at hw
    rcases hreply n r hr with hr | ⟨w, hmem, hnumber, hanswer⟩
    · exact shut_step (h.closing n r hw hr hok) hs
    · rcases hanswer.ok hok with hresolved | ⟨-, hshut⟩
      · -- a request that is resolved is a check, and this one is a `close`
        obtain ⟨o, ho⟩ := hn.inv.resolved w hresolved
        have hsame := hn.same _ hw w hmem hnumber
        rw [ho] at hsame
        cases hsame
      · exact hshut
  · rw [hsession]
    exact h.asked
  · rw [hsession]
    exact h.called
  · rw [hsession]
    exact h.closed
  · rw [hsession] at hwell
    exact done_step (h.well hwell) hs fun hc => by rw [hsession, hc]

/-- A step of the main thread that ends a call, or begins one of `run`. -/
theorem Closing.main (h : Closing s) (hs : step s a = some s') (hreplies : s'.replies = s.replies)
    (hclosed : s'.session.closed = s.session.closed)
    (hterminal : s'.session.terminal = true → s.shut)
    (hwork : ∀ n, s'.session.main.work? = some (.close n) → s.session.main.work? = some (.close n))
    (houtcomes : (s'.session.outcomes = s.session.outcomes ∧
        ∀ n, s.session.main.work? = some (.close n) → s'.session.main.work? = some (.close n)) ∨
      ∃ x, s'.session.outcomes = x :: s.session.outcomes ∧
        (x.1 = .close ∨ ∀ n, s.session.main.work? ≠ some (.close n)) ∧
        (x.1 = .close → s.session.closed = true) ∧
        (x = (.close, .ok ()) → (∀ y ∈ s.session.outcomes, y.1 ≠ .close) → s.shut)) : Closing s' := by
  refine ⟨fun ht => shut_step (hterminal ht) hs, fun n r hr ht => ?_, fun n r hw hr hok => ?_,
    fun n hw => hclosed.trans (h.asked n (hwork n hw)), fun x hx hc => ?_, fun hc => ?_,
    fun hwell => ?_⟩
  · rw [hreplies] at hr
    exact shut_step (h.replied n r hr ht) hs
  · rw [hreplies] at hr
    exact shut_step (h.closing n r (hwork n hw) hr hok) hs
  · rw [hclosed]
    rcases houtcomes with ⟨hsame, -⟩ | ⟨y, hy, -, hcall, -⟩
    · rw [hsame] at hx
      exact h.called x hx hc
    · rw [hy] at hx
      rcases List.mem_cons.mp hx with rfl | hx
      · exact hcall hc
      · exact h.called x hx hc
  · rw [hclosed] at hc
    rcases houtcomes with ⟨hsame, hkept⟩ | ⟨y, hy, hcall, -⟩
    · rw [hsame]
      rcases h.closed hc with ⟨n, hn⟩ | hx
      · exact .inl ⟨n, hkept n hn⟩
      · exact .inr hx
    · rw [hy]
      rcases hcall with hcall | hcall
      · exact .inr ⟨y, List.mem_cons_self, hcall⟩
      · rcases h.closed hc with ⟨n, hn⟩ | ⟨x, hx, hxc⟩
        · exact absurd hn (hcall n)
        · exact .inr ⟨x, List.mem_cons_of_mem _ hx, hxc⟩
  · rcases houtcomes with ⟨hsame, -⟩ | ⟨y, hy, -, -, hshut⟩
    · rw [hsame] at hwell
      exact done_step (h.well hwell) hs fun hc => by rw [hclosed, hc]
    · rw [hy] at hwell
      rcases hwell.of_cons with hwell | ⟨hx, hfirst⟩
      · exact done_step (h.well hwell) hs fun hc => by rw [hclosed, hc]
      · exact (shut_step (hshut hx hfirst) hs).done

/-- What a request does to the session. -/
theorem session_request (s : State) (missing : Bool) (w : AclWork) :
    (s.request missing w).session.closed = s.session.closed ∧
      (s.request missing w).session.terminal = s.session.terminal ∧
      (((s.request missing w).session.outcomes = (w.call, .error .workerMissing) :: s.session.outcomes ∧
          (s.request missing w).session.main = .idle ∧ missing = true) ∨
        ((s.request missing w).session.outcomes = s.session.outcomes ∧
          (s.request missing w).session.main = .waiting w)) := by
  unfold State.request
  dsimp only
  split
  · split
    · rename_i hmissing
      exact ⟨rfl, rfl, .inl ⟨rfl, rfl, hmissing⟩⟩
    · exact ⟨rfl, rfl, .inr ⟨rfl, rfl⟩⟩
  · exact ⟨rfl, rfl, .inr ⟨rfl, rfl⟩⟩

/-- A call of `run` ends with an error, or waits for a check. -/
theorem session_callRun (s : State) (path : Units) (directory apply missing : Bool) :
    (s.callRun path directory apply missing).session.closed = s.session.closed ∧
      (s.callRun path directory apply missing).session.terminal = s.session.terminal ∧
      ((∃ error, (s.callRun path directory apply missing).session.outcomes =
          (.run, .error error) :: s.session.outcomes ∧
          (s.callRun path directory apply missing).session.main = .idle) ∨
        ((s.callRun path directory apply missing).session.outcomes = s.session.outcomes ∧
          ∃ o, (s.callRun path directory apply missing).session.main = .waiting (.check o))) := by
  unfold State.callRun
  split
  · exact ⟨rfl, rfl, .inl ⟨_, rfl, rfl⟩⟩
  split
  · exact ⟨rfl, rfl, .inl ⟨_, rfl, rfl⟩⟩
  split
  · exact ⟨rfl, rfl, .inl ⟨_, rfl, rfl⟩⟩
  · obtain ⟨hclosed, hterminal, hcases⟩ := session_request s missing
      (.check ⟨s.session.sequence + 1, path, directory, apply⟩)
    refine ⟨hclosed, hterminal, ?_⟩
    rcases hcases with ⟨houtcomes, hmain, -⟩ | ⟨houtcomes, hmain⟩
    · exact .inl ⟨_, houtcomes, hmain⟩
    · exact .inr ⟨houtcomes, _, hmain⟩

theorem Closing.callRun (h : Closing s) {path : Units} {directory apply missing : Bool}
    (hs : step s (.run path directory apply missing) = some s') : Closing s' := by
  obtain ⟨hidle, heq⟩ := when_eq_some.mp hs
  have hidle : s.session.main = .idle := by simpa using hidle
  have heq := Option.some.inj heq
  obtain ⟨hclosed, hterminal, hcases⟩ := session_callRun s path directory apply missing
  rw [heq] at hclosed hterminal hcases
  have hreplies := (untouched_callRun s path directory apply missing).replies
  rw [heq] at hreplies
  refine h.main hs hreplies hclosed (fun ht => h.terminal (hterminal ▸ ht)) ?_ ?_
  · intro n hw
    rcases hcases with ⟨error, -, hmain⟩ | ⟨-, o, hmain⟩
    · rw [hmain] at hw
      cases hw
    · rw [hmain] at hw
      cases hw
  · rcases hcases with ⟨error, houtcomes, -⟩ | ⟨houtcomes, -⟩
    · exact .inr ⟨_, houtcomes, .inr (by simp [hidle, Main.work?]), by simp, by simp⟩
    · exact .inl ⟨houtcomes, by simp [hidle, Main.work?]⟩

theorem Closing.callClose (h : Closing s) (hn : Numbered s) (hs : step s .close = some s') :
    Closing s' := by
  obtain ⟨hidle, heq⟩ := when_eq_some.mp hs
  have hidle : s.session.main = .idle := by simpa using hidle
  have heq := Option.some.inj heq
  have hfirst : s.session.closed = false → ∀ y ∈ s.session.outcomes, y.1 ≠ .close := by
    intro hc y hy hcall
    rw [h.called y hy hcall] at hc
    cases hc
  have hkeeps := (untouched_callClose s)
  rw [heq] at hkeeps
  rw [State.callClose] at heq
  split at heq
  · -- the session was closed, so this is not the first call
    rename_i hc
    rw [← heq] at hs ⊢
    refine h.main hs rfl rfl (fun ht => h.terminal ht) (fun n hw => by cases hw)
      (.inr ⟨_, rfl, .inl rfl, fun _ => hc, fun _ hnone => ?_⟩)
    rcases h.closed hc with ⟨n, hn⟩ | ⟨x, hx, hxc⟩
    · rw [hidle] at hn
      cases hn
    · exact absurd hxc (hnone x hx)
  · rename_i hc
    have hc : s.session.closed = false := by simpa using hc
    dsimp only at heq
    split at heq
    · -- there is no worker, or it could not be started
      rename_i hnever
      have hdone : s'.done := by
        rw [← heq]
        rcases hnever with habsent | hterminal
        · exact ⟨.inl ⟨habsent, rfl⟩, (hn.inv.early (.inl habsent)).2⟩
        · exact State.shut.done (h.terminal hterminal)
      have hshut : s.shut → s'.shut := fun hshut => shut_step hshut hs
      refine ⟨fun ht => ?_, fun n r hr ht => ?_, fun n r hw => ?_, fun n hw => ?_, fun _ _ _ => ?_,
        fun _ => ?_, fun _ => hdone⟩
      · rw [← heq] at ht
        exact hshut (h.terminal ht)
      · rw [hkeeps.replies] at hr
        exact hshut (h.replied n r hr ht)
      · rw [← heq] at hw
        cases hw
      · rw [← heq] at hw
        cases hw
      · rw [← heq]
        rfl
      · rw [← heq]
        exact .inr ⟨_, List.mem_cons_self, rfl⟩
    · obtain ⟨hclosed, hterminal, hcases⟩ := session_request
        { s with session := { s.session with closed := true } } false (.close (s.session.sequence + 1))
      rw [heq] at hclosed hterminal hcases
      rcases hcases with ⟨-, -, hmissing⟩ | ⟨houtcomes, hmain⟩
      · cases hmissing
      refine ⟨fun ht => ?_, fun n r hr ht => ?_, fun n r hw hr => ?_, fun _ _ => hclosed,
        fun _ _ _ => hclosed, fun _ => ?_, fun hwell => ?_⟩
      · exact shut_step (h.terminal (hterminal ▸ ht)) hs
      · rw [hkeeps.replies] at hr
        exact shut_step (h.replied n r hr ht) hs
      · -- the request has a number of its own, so its buffer is empty
        rw [hmain] at hw
        rw [hkeeps.replies] at hr
        have hnumber := AclWork.close.inj (Option.some.inj hw)
        have := (hn.replied n r hr).1
        omega
      · exact .inl ⟨_, by rw [hmain]; rfl⟩
      · rw [houtcomes] at hwell
        obtain ⟨later, earlier, hsplit, -⟩ := hwell
        exact absurd rfl (hfirst hc (.close, .ok ()) (by
          rw [show s.session.outcomes = later ++ (.close, .ok ()) :: earlier from hsplit]
          simp))

/-- A call ends with what its buffer says. -/
theorem session_take (s : State) (w : AclWork) (r : AclReply) :
    (s.take w r).session.closed = s.session.closed ∧ (s.take w r).session.main = .idle ∧
      ((s.take w r).session.terminal = true → s.session.terminal = true ∨ r.terminal = true) ∧
      ∃ outcome, (s.take w r).session.outcomes = (w.call, outcome) :: s.session.outcomes ∧
        (outcome = .ok () → r.ok = true) := by
  unfold State.take
  split
  · exact ⟨rfl, rfl, .inl, _, rfl, by simp⟩
  dsimp only
  split
  · rename_i hok
    exact ⟨rfl, rfl, by simp [State.returns, Session.returns], _, rfl, fun _ => hok⟩
  · exact ⟨rfl, rfl, by simp [State.returns, Session.returns], _, rfl, by simp⟩

/-- The end of a call that was waited for. -/
theorem Closing.returned (h : Closing s) (hs : step s a = some s')
    (hreplies : s'.replies = s.replies) (hw : s.session.main.work? = some w)
    (hidle : s'.session.main = .idle) (hclosed : s'.session.closed = s.session.closed)
    (hterminal : s'.session.terminal = true → s.shut) {outcome : Except AclError Unit}
    (houtcomes : s'.session.outcomes = (w.call, outcome) :: s.session.outcomes)
    (hok : outcome = .ok () → ∃ r, s.replies w.sequence = some r ∧ r.ok = true) : Closing s' := by
  have hclose : w.call = .close → ∃ n, w = .close n := by
    intro hc
    cases w with
    | check o => cases hc
    | close n => exact ⟨n, rfl⟩
  refine h.main hs hreplies hclosed hterminal (fun n hn => ?_)
    (.inr ⟨_, houtcomes, ?_, fun hc => ?_, fun hx _ => ?_⟩)
  · rw [hidle] at hn
    cases hn
  · cases w with
    | check o => exact .inr (by simp [hw])
    | close n => exact .inl rfl
  · obtain ⟨n, rfl⟩ := hclose hc
    exact h.asked n hw
  · obtain ⟨n, rfl⟩ := hclose (Prod.mk.inj hx).1
    obtain ⟨r, hr, hgood⟩ := hok (Prod.mk.inj hx).2
    exact h.closing n r hw hr hgood

theorem Closing.keep (h : Closing s) (hn : Numbered s) (hs : step s a = some s') : Closing s' := by
  cases ha : a.isMain with
  | false => exact h.other hn hs (session_step hs ha)
  | true =>
    cases a with
    | run path directory apply missing => exact h.callRun hs
    | close => exact h.callClose hn hs
    | wake =>
      have hwake : s.wake = some s' := hs
      unfold State.wake at hwake
      split at hwake
      · rename_i w hmain
        obtain ⟨r, hr, htake⟩ := Option.map_eq_some_iff.mp hwake
        obtain ⟨hclosed, hidle, hterminal, outcome, houtcomes, hok⟩ := session_take s w r
        rw [htake] at hclosed hidle hterminal houtcomes
        refine h.returned hs (untouched_wake hs).replies (by rw [hmain]; rfl) hidle hclosed
          (fun ht => ?_) houtcomes fun hgood => ⟨r, hr, hok hgood⟩
        rcases hterminal ht with ht | ht
        · exact h.terminal ht
        · exact h.replied _ r hr ht
      · cases hwake
    | timeout =>
      have htimeout : s.timeout = some s' := hs
      unfold State.timeout at htimeout
      split at htimeout
      · rename_i w hmain
        rw [← Option.some.inj htimeout] at hs ⊢
        exact h.main hs rfl rfl h.terminal (fun n hw => by rw [hmain]; exact hw)
          (.inl ⟨rfl, fun n hw => by rw [hmain] at hw; exact hw⟩)
      · cases htimeout
    | giveUp =>
      have hgive : s.giveUp = some s' := hs
      unfold State.giveUp at hgive
      split at hgive
      · rename_i w hmain
        rw [← Option.some.inj hgive] at hs ⊢
        exact h.returned hs rfl (by rw [hmain]; rfl) rfl rfl h.terminal rfl (by simp)
      · cases hgive
    | failed name =>
      have heq := Option.some.inj (when_eq_some.mp hs).2
      rw [← heq] at hs ⊢
      exact h.main hs rfl rfl h.terminal (fun n hw => hw) (.inl ⟨rfl, fun n hw => hw⟩)
    | loaded threw => cases ha
    | importFailed code => cases ha
    | crash => cases ha
    | receive threw => cases ha
    | resume threw => cases ha
    | closeTimer => cases ha
    | line c => cases ha
    | stdoutData c bytes => cases ha
    | stderrData c text => cases ha
    | trouble c code => cases ha
    | exitEvent c => cases ha
    | closeEvent c => cases ha
    | read c => cases ha
    | pass c => cases ha
    | print c => cases ha
    | exit c status => cases ha

theorem initial_empty : Initial {} := rfl

theorem closing_reaches (h : Reaches step (fun _ _ => True) Initial s) : Numbered s ∧ Closing s :=
  h.invariant (I := fun s => Numbered s ∧ Closing s)
    (fun _ hs => by rw [hs]; exact And.intro Numbered.init Closing.init)
    fun _ _ _ hi _ hs => ⟨hi.1.step hs, hi.2.keep hi.1 hs⟩

/-- **One interpreter at a time**: while one has not closed no other one is open. -/
theorem one_interpreter (h : Reaches step (fun _ _ => True) Initial s)
    (hc : (s.interpreters c).life.isOpen = true) (hd : d ≠ c) :
    (s.interpreters d).life.isOpen = false := by
  have hinv := (closing_reaches h).1.inv
  cases hopen : (s.interpreters d).life.isOpen with
  | false => rfl
  | true =>
    have hsame := ((hinv.process d).mpr hopen).symm.trans ((hinv.process c).mpr hc)
    exact absurd (Option.some.inj hsame) hd

/-- The interpreter rejects the first check, and the second one has a new interpreter. -/
def rejecting : List Action :=
  [.run [] true false false, .loaded none, .read 0, .exit 0 ⟨some 42, none⟩, .exitEvent 0,
    .closeEvent 0, .resume none, .wake, .run [] true false false, .receive none]

theorem one_interpreter_rejecting : ∃ s, run step {} rejecting = some s ∧
    (s.interpreters 1).life = .running ∧ (s.interpreters 0).life.isOpen = false := by
  obtain ⟨s, hrun, hlife⟩ : ∃ s, run step {} rejecting = some s ∧
      (s.interpreters 1).life = .running := ⟨_, rfl, rfl⟩
  exact ⟨s, hrun, hlife,
    one_interpreter ((Reaches.init initial_empty).of_run hrun) (by rw [hlife]; rfl) (by simp)⟩

/-- **A session that was closed well leaves no process behind**: once the first `close` has returned
without an error no interpreter is open, in any state that follows. -/
theorem closed_leaves_nothing (h : Reaches step (fun _ _ => True) Initial s)
    (hwell : ClosedWell s.session.outcomes) (c : Nat) :
    (s.interpreters c).life.isOpen = false := by
  obtain ⟨hn, hc⟩ := closing_reaches h
  cases hopen : (s.interpreters c).life.isOpen with
  | false => rfl
  | true =>
    have hprocess := (hn.inv.process c).mpr hopen
    rw [(hc.well hwell).2] at hprocess
    cases hprocess

/-- A check, and then an end without trouble. -/
def closing : List Action :=
  passing ++ [.close, .receive none, .exit 0 ⟨some 0, none⟩, .exitEvent 0, .closeEvent 0,
    .resume none, .wake]

theorem closed_leaves_nothing_closing : ∃ s, run step {} closing = some s ∧
    ClosedWell s.session.outcomes ∧ s.spawned = 1 ∧ (s.interpreters 0).life.isOpen = false := by
  obtain ⟨s, hrun, houtcomes, hspawned⟩ : ∃ s, run step {} closing = some s ∧
      s.session.outcomes = [(.close, .ok ()), (.run, .ok ())] ∧ s.spawned = 1 := ⟨_, rfl, rfl, rfl⟩
  have hwell : ClosedWell s.session.outcomes :=
    ⟨[], [(.run, .ok ())], houtcomes, by simp⟩
  exact ⟨s, hrun, hwell, hspawned,
    closed_leaves_nothing ((Reaches.init initial_empty).of_run hrun) hwell 0⟩

end Caveat.Acl
