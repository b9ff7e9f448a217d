import Caveat.RuntimeErrors.Delivery

/-!
# The time of the last acceptance

A sender finishes with the state it captured when it claimed, so what others have noted since is
overwritten. The time of the last acceptance is right as long as no sender finishes over an
acceptance that it does not know of, or that is later than its own.
-/

namespace Caveat.RuntimeErrors

open Js

variable {sha256 : Text → Text} {st st' : ErrorState}

/-- `last_accepted_at`. -/
def ErrorState.lastAccepted (st : ErrorState) : Option Int :=
  (readReportState st.report).lastAcceptedAt

/-- The stored time is that of the latest accepted send. -/
def AcceptanceSound (st : ErrorState) : Prop := st.lastAccepted = st.acceptances.max?

/-- The time does not move back, and a failure leaves it alone. -/
structure AcceptanceKept (st : ErrorState) (a : ErrorAction) (st' : ErrorState) : Prop where
  forward : ∀ t, st.lastAccepted = some t → ∃ t', st'.lastAccepted = some t' ∧ t ≤ t'
  failure : ∀ sender fault send outcome, a = .finish sender fault →
    st.sends sender = some send → send.phase = .finishing outcome → outcome ≠ .accepted →
    st'.lastAccepted = st.lastAccepted

/--
A sender that failed finishes while the stored time is the one it captured, and a sender that was
accepted while it is not later than its own.
-/
def FinishesInOrder (st : ErrorState) : ErrorAction → Prop
  | .finish sender _ => ∀ send outcome, st.sends sender = some send →
      send.phase = .finishing outcome →
      if outcome = .accepted then ∀ t, st.lastAccepted = some t → t ≤ send.attemptAt
      else send.claim.state.lastAcceptedAt = st.lastAccepted
  | _ => True

theorem nextState_lastAccepted {previous state : ReportState} {outcome : Outcome} {attemptAt : Int}
    (h : nextState previous outcome attemptAt = .ok state) : state.lastAcceptedAt =
      if outcome = .accepted then some attemptAt else previous.lastAcceptedAt := by
  obtain ⟨_, _, h⟩ := Lib.bind_eq_ok.mp h
  cases h
  rfl

/-! ## Steps that leave the time alone -/

/-- Nothing of the deliveries changed. -/
def SameDeliveries (st st' : ErrorState) : Prop :=
  st'.lastAccepted = st.lastAccepted ∧ st'.acceptances = st.acceptances

theorem SameDeliveries.sound (h : SameDeliveries st st') (hs : AcceptanceSound st) :
    AcceptanceSound st' := by
  rw [AcceptanceSound, h.1, h.2]
  exact hs

theorem sameDeliveries_write (st : ErrorState) (fault : WriteFault) (s : Store) :
    SameDeliveries st (st.write fault s) := by
  unfold ErrorState.write
  split <;> exact ⟨rfl, rfl⟩

theorem sameDeliveries_note (st : ErrorState) (fault : WriteFault) (s : Store) (key : Text)
    (n : Nat) : SameDeliveries st ((st.write fault s).note fault key n) := by
  unfold ErrorState.write ErrorState.note
  split <;> exact ⟨rfl, rfl⟩

theorem sameDeliveries_acknowledge (sha256 : Text → Text) (st : ErrorState) (cursor : Nat)
    (fault : WriteFault) : SameDeliveries st (acknowledgeStep sha256 st cursor fault) := by
  unfold acknowledgeStep
  split
  · exact sameDeliveries_write st fault _
  · exact ⟨rfl, rfl⟩

/-- A claim writes the time that it read. -/
theorem sameDeliveries_claim (sha256 : Text → Text) (st : ErrorState) (sender : Nat)
    (attemptAt : Int) (respectRetryWindow : Bool) (fault : WriteFault) : SameDeliveries st
      (claimStep sha256 st sender attemptAt respectRetryWindow fault) := by
  unfold claimStep
  split
  · rename_i c hclaim
    obtain ⟨_, hstate, _⟩ := claimPending_claim hclaim
    have hlast := nextState_lastAccepted hstate
    rw [if_neg (by simp)] at hlast
    split
    · exact ⟨hlast, rfl⟩
    · exact ⟨rfl, rfl⟩
    · exact ⟨hlast, rfl⟩
  · exact ⟨rfl, rfl⟩
  · exact ⟨rfl, rfl⟩
  · exact ⟨rfl, rfl⟩

/-- Only a finish changes what is noted of the deliveries. -/
theorem sameDeliveries_step {a : ErrorAction} (hs : errorStep sha256 st a = some st')
    (ha : ∀ sender fault, a ≠ .finish sender fault) : SameDeliveries st st' := by
  cases a with
  | record enabled o fault =>
      cases hs
      split
      · unfold recordStep
        split
        · exact sameDeliveries_note st fault _ _ _
        · exact ⟨rfl, rfl⟩
      · exact ⟨rfl, rfl⟩
  | setStatus enabled key status time fault =>
      cases hs
      split
      · unfold setStatusStep
        split
        · exact sameDeliveries_note st fault _ _ _
        · exact ⟨rfl, rfl⟩
        · exact ⟨rfl, rfl⟩
      · exact ⟨rfl, rfl⟩
  | compact enabled time fault =>
      cases hs
      split
      · unfold compactStep
        split
        · exact sameDeliveries_write st fault _
        · exact ⟨rfl, rfl⟩
      · exact ⟨rfl, rfl⟩
  | acknowledge enabled cursor fault =>
      cases hs
      split
      · exact sameDeliveries_acknowledge sha256
          { st with explicitCursors := st.explicitCursors ++ [cursor] } cursor fault
      · exact ⟨rfl, rfl⟩
  | claim sender time respectRetryWindow fault =>
      simp only [errorStep] at hs
      split at hs
      · cases hs
        exact sameDeliveries_claim sha256 st sender _ respectRetryWindow fault
      · exact absurd hs (by simp)
  | respond sender outcome =>
      simp only [errorStep] at hs
      split at hs
      · split at hs <;> cases hs <;> exact ⟨rfl, rfl⟩
      · exact absurd hs (by simp)
  | settle sender enabled fault =>
      simp only [errorStep] at hs
      split at hs
      · rename_i attemptAt claim _
        have hack := sameDeliveries_acknowledge sha256 st claim.cursor fault
        split at hs
        · cases hs
          exact hack
        · cases hs
          cases enabled with
          | true => exact hack
          | false => exact ⟨rfl, rfl⟩
      · exact absurd hs (by simp)
  | finish sender fault => exact absurd rfl (ha sender fault)
  | die sender =>
      simp only [errorStep] at hs
      split at hs
      · cases hs
        exact ⟨rfl, rfl⟩
      · exact absurd hs (by simp)

/-! ## Finishes -/

/-- What a finish leaves: everything, or the outcome of its send. -/
theorem finish_cases {sender : Nat} {fault : WriteFault}
    (hs : errorStep sha256 st (.finish sender fault) = some st') : ∃ send outcome,
      st.sends sender = some send ∧ send.phase = .finishing outcome ∧
      (SameDeliveries st st' ∨
        (st'.lastAccepted =
            (if outcome = .accepted then some send.attemptAt else send.claim.state.lastAcceptedAt) ∧
          st'.acceptances =
            if outcome = .accepted then st.acceptances ++ [send.attemptAt] else st.acceptances)) := by
  simp only [errorStep] at hs
  split at hs
  · rename_i attemptAt claim outcome hsend
    refine ⟨_, outcome, hsend, rfl, ?_⟩
    cases hs
    unfold finishStep
    split
    · rename_i state hstate
      split
      · exact .inl ⟨rfl, rfl⟩
      · exact .inr ⟨nextState_lastAccepted hstate, rfl⟩
    · exact .inl ⟨rfl, rfl⟩
  · exact absurd hs (by simp)

/-- The maximum of the acceptances with one more that is not earlier. -/
theorem max?_snoc {ts : List Int} {u : Int} (h : ∀ t, ts.max? = some t → t ≤ u) :
    (ts ++ [u]).max? = some u := by
  rw [List.max?_eq_some_iff]
  refine ⟨by simp, fun b hb => ?_⟩
  rcases List.mem_append.mp hb with hold | hnew
  · obtain ⟨t, ht⟩ := Option.ne_none_iff_exists'.mp
      (mt List.max?_eq_none_iff.mp (List.ne_nil_of_mem hold))
    exact ((List.max?_eq_some_iff.mp ht).2 b hold).trans (h t ht)
  · rw [List.mem_singleton.mp hnew]

/-- **One step** of a run whose finishes are in order. -/
theorem acceptance_step {a : ErrorAction} (h : AcceptanceSound st) (hok : FinishesInOrder st a)
    (hs : errorStep sha256 st a = some st') : AcceptanceSound st' ∧ AcceptanceKept st a st' := by
  by_cases ha : ∃ sender fault, a = .finish sender fault
  · obtain ⟨sender, fault, rfl⟩ := ha
    obtain ⟨send, outcome, hsend, hphase, hcases⟩ := finish_cases hs
    have hok := hok send outcome hsend hphase
    rcases hcases with hsame | ⟨hlast, hacc⟩
    · refine ⟨hsame.sound h, fun t ht => ⟨t, hsame.1.trans ht, le_rfl⟩, ?_⟩
      intro _ _ _ _ _ _ _ _
      exact hsame.1
    · by_cases ho : outcome = .accepted
      · rw [if_pos ho] at hok hlast hacc
        refine ⟨?_, fun t ht => ⟨_, hlast, hok t ht⟩, ?_⟩
        · rw [AcceptanceSound, hlast, hacc]
          exact (max?_snoc fun t ht => hok t (h.trans ht)).symm
        · intro sender' _ send' outcome' he hsend' hphase' hne
          cases he
          rw [hsend] at hsend'
          cases hsend'
          rw [hphase] at hphase'
          cases hphase'
          exact absurd ho hne
      · rw [if_neg ho] at hok hlast hacc
        have hsame : SameDeliveries st st' := ⟨hlast.trans hok, hacc⟩
        refine ⟨hsame.sound h, fun t ht => ⟨t, hsame.1.trans ht, le_rfl⟩, ?_⟩
        intro _ _ _ _ _ _ _ _
        exact hsame.1
  · have hsame := sameDeliveries_step hs fun sender fault he => ha ⟨sender, fault, he⟩
    refine ⟨hsame.sound h, fun t ht => ⟨t, hsame.1.trans ht, le_rfl⟩, ?_⟩
    intro sender fault _ _ he
    exact absurd ⟨sender, fault, he⟩ ha

/--
**The last acceptance is kept when finishes are in order.** In every run in which no sender
finishes over an acceptance it does not know of or that is later than its own, the stored time is
that of the latest accepted send, it never moves back, and a failure leaves it alone.
-/
theorem acceptance_kept_of_inOrder (sha256 : Text → Text) (st : ErrorState)
    (h : Lib.Reaches (errorStep sha256) FinishesInOrder ErrorStart st) :
    AcceptanceSound st ∧ ∀ a st', FinishesInOrder st a → errorStep sha256 st a = some st' →
      AcceptanceKept st a st' := by
  have hsound : AcceptanceSound st := h.invariant (fun _ hst => by rw [hst]; rfl)
    fun _ _ _ hi hok hs => (acceptance_step hi hok hs).1
  exact ⟨hsound, fun _ _ hok hs => (acceptance_step hsound hok hs).2⟩

/-- The condition, as a test. -/
def finishesInOrder (st : ErrorState) : ErrorAction → Bool
  | .finish sender _ => (st.sends sender).all (fun send => match send.phase with
      | .finishing outcome =>
          if outcome = .accepted then st.lastAccepted.all (fun t => t ≤ send.attemptAt)
          else send.claim.state.lastAcceptedAt = st.lastAccepted
      | _ => true)
  | _ => true

theorem finishesInOrder_of_test {a : ErrorAction} (h : finishesInOrder st a = true) :
    FinishesInOrder st a := by
  cases a with
  | finish sender fault =>
      intro send outcome hsend hphase
      simp only [finishesInOrder, hsend, Option.all_some, hphase] at h
      by_cases ho : outcome = .accepted
      · rw [if_pos ho] at h ⊢
        intro t ht
        rw [ht] at h
        simpa using h
      · rw [if_neg ho] at h ⊢
        exact of_decide_eq_true h
  | _ => trivial

/-- One send is accepted and the next one fails: the acceptance stays. -/
theorem acceptance_kept_of_inOrder_twoSends : ∃ st : ErrorState,
    (st.acceptances = [1] ∧ st.report.any (fun r => r.lastOutcome = some .timeout)) ∧
      AcceptanceSound st := by
  obtain ⟨st, hreach, htest⟩ := Lib.Reaches.exists_of_tested_run (errorStep id)
    (fun st a (h : finishesInOrder st a = true) => finishesInOrder_of_test h)
    (.init (show ErrorStart {} from rfl))
    [.record true someError .none, .claim 0 (some 1) false .none, .respond 0 .accepted,
      .settle 0 true .none, .finish 0 .none, .record true someError .none,
      .claim 1 (some 2) false .none, .respond 1 .timeout, .finish 1 .none]
    (fun st => st.acceptances = [1] && st.report.any (fun r => r.lastOutcome = some .timeout))
    (by decide +kernel)
  exact ⟨st, by simpa using htest, (acceptance_kept_of_inOrder id st hreach).1⟩

/--
Two senders claim, the second is accepted and finishes, and the failure of the first overwrites
the acceptance.
-/
theorem acceptance_overwritten : ∃ (sha256 : Text → Text) (st : ErrorState),
    Lib.Reaches (errorStep sha256) (fun _ _ => True) ErrorStart st ∧
      st.acceptances = [2] ∧ st.lastAccepted = none ∧ ¬ AcceptanceSound st := by
  obtain ⟨st, hreach, htest⟩ := Lib.Reaches.exists_of_run (errorStep id)
    (show ErrorStart {} from rfl)
    [.record true someError .none, .claim 0 (some 1) true .none, .claim 1 (some 2) false .none,
      .respond 1 .accepted, .settle 1 true .none, .finish 1 .none, .respond 0 .timeout,
      .finish 0 .none]
    (fun st => st.acceptances = [2] && st.lastAccepted = none) (by decide +kernel)
  rw [Bool.and_eq_true, decide_eq_true_iff, decide_eq_true_iff] at htest
  refine ⟨id, st, hreach, htest.1, htest.2, ?_⟩
  rw [AcceptanceSound, htest.1, htest.2]
  decide

end Caveat.RuntimeErrors
