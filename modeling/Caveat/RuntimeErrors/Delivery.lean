import Caveat.RuntimeErrors.Report
import Caveat.RuntimeErrors.StoreProof

/-!
# No report is lost

A change that was written is reported again and again until a cursor at or above its number is
acknowledged, and only cursors of accepted claims and of explicit calls are. The invariant follows
the number of every change: as long as it is above the cursor, the record it was given to is there
with that number or a later one, because a change only ever moves a record up and compaction takes
none above the cursor.
-/

namespace Caveat.RuntimeErrors

open Js

variable {sha256 : Text → Text} {st st' : ErrorState}

/-! ## The law -/

/-- What holds in every state. -/
structure StoreSound (sha256 : Text → Text) (st : ErrorState) : Prop where
  valid : ∀ s, st.disk = some s → validate sha256 s = true
  /-- The numbers of changes go up, so none is given twice. -/
  numbered : st.events.Pairwise (fun a b => a.2 < b.2)
  below : ∀ e ∈ st.events, e.2 < st.store.nextSequence
  /-- The record of a change that is not acknowledged is present and pending. -/
  pending : ∀ e ∈ st.events, st.store.acknowledgedThrough < e.2 →
    ∃ r ∈ st.store.pending, r.fingerprint = e.1 ∧ e.2 ≤ r.sequence
  acknowledged : st.store.acknowledgedThrough = 0 ∨
    st.store.acknowledgedThrough ∈ st.acceptedCursors ∨
    st.store.acknowledgedThrough ∈ st.explicitCursors

/-- The claim holds the record, as an error or as a resolution. -/
def Claim.Contains (c : Claim) (r : RecordEntry) : Prop :=
  (r.status = .open ∧ r.reportRow ∈ c.rows) ∨
    (r.status = .resolved ∧ r.reportResolution ∈ c.resolutions)

/-- What every step keeps to. -/
structure StepSound (st : ErrorState) (a : ErrorAction) (st' : ErrorState) : Prop where
  cursor : st.store.acknowledgedThrough ≤ st'.store.acknowledgedThrough
  claimed : ∀ sender time respectRetryWindow fault send,
    a = .claim sender time respectRetryWindow fault → st'.sends sender = some send →
    ∀ r ∈ st.store.pending, send.claim.Contains r
  compacted : ∀ enabled time fault, a = .compact enabled time fault →
    ∀ r ∈ st.store.records, r ∉ st'.store.records →
      r.status = .resolved ∧ r.sequence ≤ st.store.acknowledgedThrough

/-! ## The invariant -/

structure ErrorInv (sha256 : Text → Text) (st : ErrorState) : Prop where
  valid : ∀ s, st.disk = some s → Valid sha256 s
  numbered : st.events.Pairwise (fun a b => a.2 < b.2)
  below : ∀ e ∈ st.events, e.2 < st.store.nextSequence
  carried : ∀ e ∈ st.events, st.store.acknowledgedThrough < e.2 →
    ∃ r ∈ st.store.records, r.fingerprint = e.1 ∧ e.2 ≤ r.sequence
  acknowledged : st.store.acknowledgedThrough = 0 ∨
    st.store.acknowledgedThrough ∈ st.acceptedCursors ∨
    st.store.acknowledgedThrough ∈ st.explicitCursors
  /-- A sender that is to acknowledge was accepted. -/
  accepted : ∀ sender send, st.sends sender = some send → send.phase = .acknowledging →
    send.claim.cursor ∈ st.acceptedCursors

theorem ErrorInv.sound (h : ErrorInv sha256 st) : StoreSound sha256 st where
  valid := fun s hs => validate_iff.mpr (h.valid s hs)
  numbered := h.numbered
  below := h.below
  pending := by
    intro e he hlt
    obtain ⟨r, hr, hkey, hle⟩ := h.carried e he hlt
    exact ⟨r, List.mem_filter.mpr ⟨hr, by simpa using lt_of_lt_of_le hlt hle⟩, hkey, hle⟩
  acknowledged := h.acknowledged

/-- A change of a record is written. -/
theorem ErrorInv.change (h : ErrorInv sha256 st) {s : Store} {key : Text} (hs : Valid sha256 s)
    (hc : Changed st.store s key) : ErrorInv sha256 { st with
      disk := some s, events := st.events ++ [(key, st.store.nextSequence)] } where
  valid := fun _ hsome => by cases hsome; exact hs
  numbered := by
    refine List.pairwise_append.mpr ⟨h.numbered, by simp, fun a ha b hb => ?_⟩
    rw [List.mem_singleton.mp hb]
    exact h.below a ha
  below := by
    intro e he
    show e.2 < s.nextSequence
    rw [hc.next]
    rcases List.mem_append.mp he with hold | hnew
    · have := h.below e hold
      omega
    · rw [List.mem_singleton.mp hnew]
      exact Nat.lt_succ_self _
  carried := by
    intro e he hlt
    change s.acknowledgedThrough < e.2 at hlt
    rw [hc.ack] at hlt
    obtain ⟨x, hx, hxkey, hxseq⟩ := hc.there
    rcases List.mem_append.mp he with hold | hnew
    · obtain ⟨r, hr, hkey, hle⟩ := h.carried e hold hlt
      by_cases hk : r.fingerprint = key
      · -- the record itself was changed and has moved up
        have := h.below e hold
        exact ⟨x, hx, hxkey.trans (hk.symm.trans hkey), by omega⟩
      · exact ⟨r, hc.kept r hr hk, hkey, hle⟩
    · rw [List.mem_singleton.mp hnew]
      exact ⟨x, hx, hxkey, le_of_eq hxseq.symm⟩
  acknowledged := by
    show s.acknowledgedThrough = 0 ∨ s.acknowledgedThrough ∈ _ ∨ s.acknowledgedThrough ∈ _
    rw [hc.ack]
    exact h.acknowledged
  accepted := h.accepted

/-- The cursor moves up to one that may be acknowledged. -/
theorem ErrorInv.acknowledge (h : ErrorInv sha256 st) {s : Store} {cursor : Nat}
    (hs : Valid sha256 s) (he : s = { st.store with
      acknowledgedThrough := max st.store.acknowledgedThrough cursor })
    (hcursor : cursor ∈ st.acceptedCursors ∨ cursor ∈ st.explicitCursors) :
    ErrorInv sha256 { st with disk := some s } where
  valid := fun _ hsome => by cases hsome; exact hs
  numbered := h.numbered
  below := by
    intro e hmem
    show e.2 < s.nextSequence
    rw [he]
    exact h.below e hmem
  carried := by
    intro e hmem hlt
    change s.acknowledgedThrough < e.2 at hlt
    rw [he] at hlt
    obtain ⟨r, hr, hkey, hle⟩ := h.carried e hmem (lt_of_le_of_lt (le_max_left ..) hlt)
    refine ⟨r, ?_, hkey, hle⟩
    show r ∈ s.records
    rw [he]
    exact hr
  acknowledged := by
    show s.acknowledgedThrough = 0 ∨ s.acknowledgedThrough ∈ _ ∨ s.acknowledgedThrough ∈ _
    rw [he]
    rcases max_choice st.store.acknowledgedThrough cursor with hm | hm
    · rw [hm]
      exact h.acknowledged
    · rw [hm]
      exact .inr hcursor
  accepted := h.accepted

/-- Resolved records up to the cursor are dropped. -/
theorem ErrorInv.compact (h : ErrorInv sha256 st) {s : Store} (hs : Valid sha256 s)
    (hnext : s.nextSequence = st.store.nextSequence)
    (hack : s.acknowledgedThrough = st.store.acknowledgedThrough)
    (hkept : ∀ r ∈ st.store.records, r ∈ s.records ∨
      (r.status = .resolved ∧ r.sequence ≤ st.store.acknowledgedThrough)) :
    ErrorInv sha256 { st with disk := some s } where
  valid := fun _ hsome => by cases hsome; exact hs
  numbered := h.numbered
  below := fun e he => by
    show e.2 < s.nextSequence
    rw [hnext]
    exact h.below e he
  carried := by
    intro e he hlt
    change s.acknowledgedThrough < e.2 at hlt
    rw [hack] at hlt
    obtain ⟨r, hr, hkey, hle⟩ := h.carried e he hlt
    rcases hkept r hr with hmem | ⟨_, hseq⟩
    · exact ⟨r, hmem, hkey, hle⟩
    · omega
  acknowledged := by
    show s.acknowledgedThrough = 0 ∨ s.acknowledgedThrough ∈ _ ∨ s.acknowledgedThrough ∈ _
    rw [hack]
    exact h.acknowledged
  accepted := h.accepted

/-- The sender moves on, or ends. -/
theorem ErrorInv.setSend (h : ErrorInv sha256 st) (sender : Nat) {send : Option Send}
    (hsend : ∀ x, send = some x → x.phase = .acknowledging → x.claim.cursor ∈ st.acceptedCursors) :
    ErrorInv sha256 (st.setSend sender send) where
  valid := h.valid
  numbered := h.numbered
  below := h.below
  carried := h.carried
  acknowledged := h.acknowledged
  accepted := by
    intro other x hx hphase
    change Function.update st.sends sender send other = some x at hx
    by_cases ho : other = sender
    · subst ho
      rw [Function.update_self] at hx
      exact hsend x hx hphase
    · rw [Function.update_of_ne ho] at hx
      exact h.accepted other x hx hphase

/-- What the report file says, and how often it was written, does not matter here. -/
theorem ErrorInv.setReport (h : ErrorInv sha256 st) (report : Option ReportState)
    (acceptances : List Int) : ErrorInv sha256 { st with report, acceptances } :=
  ⟨h.valid, h.numbered, h.below, h.carried, h.acknowledged, h.accepted⟩

/-- More cursors may be acknowledged. -/
theorem ErrorInv.addCursors (h : ErrorInv sha256 st) (accepted explicit : List Nat) :
    ErrorInv sha256 { st with
      acceptedCursors := st.acceptedCursors ++ accepted
      explicitCursors := st.explicitCursors ++ explicit } where
  valid := h.valid
  numbered := h.numbered
  below := h.below
  carried := h.carried
  acknowledged := h.acknowledged.imp_right
    (Or.imp (List.mem_append_left _) (List.mem_append_left _))
  accepted := fun sender send hs hp => List.mem_append_left _ (h.accepted sender send hs hp)

/-! ## The steps -/

theorem errorInv_record (h : ErrorInv sha256 st) (o : RecordOptions) (fault : WriteFault) :
    ErrorInv sha256 (recordStep sha256 st o fault) := by
  unfold recordStep
  cases hr : recordRuntimeError sha256 st.disk o with
  | error e => exact h
  | ok res =>
      obtain ⟨s, key, n⟩ := res
      obtain ⟨_, hs, rfl, hc⟩ := recordRuntimeError_ok hr
      dsimp only
      unfold ErrorState.write ErrorState.note
      by_cases hf : fault = .before
      · rw [if_pos hf, if_pos hf]
        exact h
      · rw [if_neg hf, if_neg hf]
        exact h.change hs hc

theorem errorInv_setStatus (h : ErrorInv sha256 st) (key : Text) (status : Status)
    (time : Option Int) (fault : WriteFault) :
    ErrorInv sha256 (setStatusStep sha256 st key status time fault) := by
  unfold setStatusStep
  cases hr : setRuntimeErrorStatus sha256 st.disk key status time with
  | error e => exact h
  | ok written =>
      cases written with
      | none => exact h
      | some s =>
          obtain ⟨hs, hc⟩ := (setRuntimeErrorStatus_ok hr).2 s rfl
          dsimp only
          unfold ErrorState.write ErrorState.note
          by_cases hf : fault = .before
          · rw [if_pos hf, if_pos hf]
            exact h
          · rw [if_neg hf, if_neg hf]
            exact h.change hs hc

theorem errorInv_compact (h : ErrorInv sha256 st) (time : Option Int) (fault : WriteFault) :
    ErrorInv sha256 (compactStep sha256 st time fault) := by
  unfold compactStep
  cases hr : compactRuntimeErrors sha256 st.disk time with
  | error e => exact h
  | ok s =>
      obtain ⟨_, hs, hnext, hack, _, hkept⟩ := compactRuntimeErrors_ok hr
      dsimp only
      unfold ErrorState.write
      split
      · exact h
      · exact h.compact hs hnext hack hkept

theorem errorInv_acknowledge (h : ErrorInv sha256 st) {cursor : Nat} (fault : WriteFault)
    (hcursor : cursor ∈ st.acceptedCursors ∨ cursor ∈ st.explicitCursors) :
    ErrorInv sha256 (acknowledgeStep sha256 st cursor fault) := by
  unfold acknowledgeStep
  cases hr : acknowledgeRuntimeErrors sha256 st.disk cursor with
  | error e => exact h
  | ok s =>
      obtain ⟨_, hs, he⟩ := acknowledgeRuntimeErrors_ok hr
      dsimp only
      unfold ErrorState.write
      split
      · exact h
      · exact h.acknowledge hs he hcursor

theorem acknowledgeStep_accepted (sha256 : Text → Text) (st : ErrorState) (cursor : Nat)
    (fault : WriteFault) :
    (acknowledgeStep sha256 st cursor fault).acceptedCursors = st.acceptedCursors := by
  unfold acknowledgeStep ErrorState.write
  split
  · split <;> rfl
  · rfl

theorem errorInv_claim (h : ErrorInv sha256 st) (sender : Nat) (attemptAt : Int)
    (respectRetryWindow : Bool) (fault : WriteFault) :
    ErrorInv sha256 (claimStep sha256 st sender attemptAt respectRetryWindow fault) := by
  unfold claimStep
  split
  · split
    · refine (h.setReport _ st.acceptances).setSend sender fun x hx hphase => ?_
      cases hx
      exact absurd hphase (by simp)
    · exact h
    · exact h.setReport _ st.acceptances
  · exact h
  · exact h
  · exact h

theorem errorInv_finish (h : ErrorInv sha256 st) (sender : Nat) (send : Send) (outcome : Outcome)
    (fault : WriteFault) : ErrorInv sha256 (finishStep st sender send outcome fault) := by
  unfold finishStep
  split
  · split
    · exact h.setSend sender (by simp)
    · exact (h.setReport _ _).setSend sender (by simp)
  · exact h.setSend sender (by simp)

/-- **One step.** -/
theorem errorInv_step (h : ErrorInv sha256 st) {a : ErrorAction}
    (hs : errorStep sha256 st a = some st') : ErrorInv sha256 st' := by
  cases a with
  | record enabled o fault =>
      cases hs
      split
      · exact errorInv_record h o fault
      · exact h
  | setStatus enabled key status time fault =>
      cases hs
      split
      · exact errorInv_setStatus h key status time fault
      · exact h
  | compact enabled time fault =>
      cases hs
      split
      · exact errorInv_compact h time fault
      · exact h
  | acknowledge enabled cursor fault =>
      cases hs
      split
      · have hmore := h.addCursors [] [cursor]
        rw [List.append_nil] at hmore
        exact errorInv_acknowledge hmore fault (.inr (by simp))
      · exact h
  | claim sender time respectRetryWindow fault =>
      simp only [errorStep] at hs
      split at hs
      · cases hs
        exact errorInv_claim h sender _ respectRetryWindow fault
      · exact absurd hs (by simp)
  | respond sender outcome =>
      simp only [errorStep] at hs
      split at hs
      · rename_i attemptAt claim _
        split at hs
        · cases hs
          have hmore := h.addCursors [claim.cursor] []
          rw [List.append_nil] at hmore
          refine hmore.setSend sender fun x hx _ => ?_
          cases hx
          simp
        · cases hs
          refine h.setSend sender fun x hx hphase => ?_
          cases hx
          exact absurd hphase (by simp)
      · exact absurd hs (by simp)
  | settle sender enabled fault =>
      simp only [errorStep] at hs
      split at hs
      · rename_i attemptAt claim hsend
        have hcursor := h.accepted sender _ hsend rfl
        have hack : ErrorInv sha256
            (if enabled then acknowledgeStep sha256 st claim.cursor fault else st) := by
          split
          · exact errorInv_acknowledge h fault (.inl hcursor)
          · exact h
        split at hs
        · rename_i hall
          cases hs
          have henabled : enabled = true := by
            rw [Bool.and_eq_true, Bool.and_eq_true] at hall
            exact hall.1.1
          rw [henabled, if_pos rfl] at hack
          refine hack.setSend sender fun x hx hphase => ?_
          cases hx
          exact absurd hphase (by simp)
        · cases hs
          exact hack.setSend sender (by simp)
      · exact absurd hs (by simp)
  | finish sender fault =>
      simp only [errorStep] at hs
      split at hs
      · cases hs
        exact errorInv_finish h sender _ _ fault
      · exact absurd hs (by simp)
  | die sender =>
      simp only [errorStep] at hs
      split at hs
      · cases hs
        exact h.setSend sender (by simp)
      · exact absurd hs (by simp)

theorem errorInv_init (sha256 : Text → Text) : ErrorInv sha256 {} where
  valid := by simp
  numbered := .nil
  below := by simp
  carried := by simp
  acknowledged := .inl rfl
  accepted := by simp

theorem errorInv_reachable
    (h : Lib.Reaches (errorStep sha256) (fun _ _ => True) ErrorStart st) : ErrorInv sha256 st :=
  h.invariant (fun _ hst => hst ▸ errorInv_init sha256) fun _ _ _ hinv _ hs =>
    errorInv_step hinv hs

/-! ## What a step keeps to -/

/-- How the store can change in a step. -/
inductive StoreChange (sha256 : Text → Text) (s s' : Store) : Prop where
  | same : s' = s → StoreChange sha256 s s'
  | changed (key : Text) : Changed s s' key → StoreChange sha256 s s'
  | acknowledged (cursor : Nat) :
      s' = { s with acknowledgedThrough := max s.acknowledgedThrough cursor } →
      StoreChange sha256 s s'
  | compacted : s'.nextSequence = s.nextSequence →
      s'.acknowledgedThrough = s.acknowledgedThrough → (∀ r ∈ s'.records, r ∈ s.records) →
      StoreChange sha256 s s'

theorem storeChange_record (sha256 : Text → Text) (st : ErrorState) (o : RecordOptions)
    (fault : WriteFault) : StoreChange sha256 st.store (recordStep sha256 st o fault).store := by
  unfold recordStep
  cases hr : recordRuntimeError sha256 st.disk o with
  | error e => exact .same rfl
  | ok res =>
      obtain ⟨s, key, n⟩ := res
      have hc := (recordRuntimeError_ok hr).2.2.2
      dsimp only
      unfold ErrorState.write ErrorState.note
      by_cases hf : fault = .before
      · rw [if_pos hf, if_pos hf]
        exact .same rfl
      · rw [if_neg hf, if_neg hf]
        exact .changed key hc

theorem storeChange_setStatus (sha256 : Text → Text) (st : ErrorState) (key : Text)
    (status : Status) (time : Option Int) (fault : WriteFault) : StoreChange sha256 st.store
      (setStatusStep sha256 st key status time fault).store := by
  unfold setStatusStep
  cases hr : setRuntimeErrorStatus sha256 st.disk key status time with
  | error e => exact .same rfl
  | ok written =>
      cases written with
      | none => exact .same rfl
      | some s =>
          have hc := ((setRuntimeErrorStatus_ok hr).2 s rfl).2
          dsimp only
          unfold ErrorState.write ErrorState.note
          by_cases hf : fault = .before
          · rw [if_pos hf, if_pos hf]
            exact .same rfl
          · rw [if_neg hf, if_neg hf]
            exact .changed key hc

theorem storeChange_compact (sha256 : Text → Text) (st : ErrorState) (time : Option Int)
    (fault : WriteFault) : StoreChange sha256 st.store
      (compactStep sha256 st time fault).store := by
  unfold compactStep
  cases hr : compactRuntimeErrors sha256 st.disk time with
  | error e => exact .same rfl
  | ok s =>
      obtain ⟨_, _, hnext, hack, hmem, _⟩ := compactRuntimeErrors_ok hr
      dsimp only
      unfold ErrorState.write
      split
      · exact .same rfl
      · exact .compacted hnext hack hmem

theorem storeChange_acknowledge (sha256 : Text → Text) (st : ErrorState) (cursor : Nat)
    (fault : WriteFault) : StoreChange sha256 st.store
      (acknowledgeStep sha256 st cursor fault).store := by
  unfold acknowledgeStep
  cases hr : acknowledgeRuntimeErrors sha256 st.disk cursor with
  | error e => exact .same rfl
  | ok s =>
      obtain ⟨_, _, he⟩ := acknowledgeRuntimeErrors_ok hr
      dsimp only
      unfold ErrorState.write
      split
      · exact .same rfl
      · exact .acknowledged cursor he

theorem disk_claimStep (sha256 : Text → Text) (st : ErrorState) (sender : Nat) (attemptAt : Int)
    (respectRetryWindow : Bool) (fault : WriteFault) :
    (claimStep sha256 st sender attemptAt respectRetryWindow fault).disk = st.disk := by
  unfold claimStep
  split
  · split <;> rfl
  · rfl
  · rfl
  · rfl

theorem disk_finishStep (st : ErrorState) (sender : Nat) (send : Send) (outcome : Outcome)
    (fault : WriteFault) : (finishStep st sender send outcome fault).disk = st.disk := by
  unfold finishStep
  split
  · split <;> rfl
  · rfl

/-- **What a step does to the store.** -/
theorem storeChange_step {a : ErrorAction} (hs : errorStep sha256 st a = some st') :
    StoreChange sha256 st.store st'.store := by
  cases a with
  | record enabled o fault =>
      cases hs
      split
      · exact storeChange_record sha256 st o fault
      · exact .same rfl
  | setStatus enabled key status time fault =>
      cases hs
      split
      · exact storeChange_setStatus sha256 st key status time fault
      · exact .same rfl
  | compact enabled time fault =>
      cases hs
      split
      · exact storeChange_compact sha256 st time fault
      · exact .same rfl
  | acknowledge enabled cursor fault =>
      cases hs
      split
      · exact storeChange_acknowledge sha256
          { st with explicitCursors := st.explicitCursors ++ [cursor] } cursor fault
      · exact .same rfl
  | claim sender time respectRetryWindow fault =>
      simp only [errorStep] at hs
      split at hs
      · cases hs
        exact .same (by rw [ErrorState.store, ErrorState.store, disk_claimStep])
      · exact absurd hs (by simp)
  | respond sender outcome =>
      simp only [errorStep] at hs
      split at hs
      · split at hs <;> cases hs <;> exact .same rfl
      · exact absurd hs (by simp)
  | settle sender enabled fault =>
      simp only [errorStep] at hs
      split at hs
      · rename_i attemptAt claim _
        have hack := storeChange_acknowledge sha256 st claim.cursor fault
        split at hs
        · cases hs
          exact hack
        · cases hs
          cases enabled with
          | true => exact hack
          | false => exact .same rfl
      · exact absurd hs (by simp)
  | finish sender fault =>
      simp only [errorStep] at hs
      split at hs
      · cases hs
        exact .same (by rw [ErrorState.store, ErrorState.store, disk_finishStep])
      · exact absurd hs (by simp)
  | die sender =>
      simp only [errorStep] at hs
      split at hs
      · cases hs
        exact .same rfl
      · exact absurd hs (by simp)

/-- The acknowledged cursor never moves back. -/
theorem ack_le_step {a : ErrorAction} (hs : errorStep sha256 st a = some st') :
    st.store.acknowledgedThrough ≤ st'.store.acknowledgedThrough := by
  cases storeChange_step hs with
  | same h => rw [h]
  | changed key h => rw [h.ack]
  | acknowledged cursor h =>
      rw [h]
      exact le_max_left ..
  | compacted _ hack _ => rw [hack]

/-- A claim holds every record that was pending. -/
theorem contains_claimOf {pending : List RecordEntry} {last r : RecordEntry} {state : ReportState}
    (hr : r ∈ pending) : (claimOf pending last state).Contains r := by
  cases hstatus : r.status with
  | «open» =>
      exact .inl ⟨hstatus, List.mem_map_of_mem (List.mem_filter.mpr ⟨hr, by simp [hstatus]⟩)⟩
  | resolved =>
      exact .inr ⟨hstatus, List.mem_map_of_mem (List.mem_filter.mpr ⟨hr, by simp [hstatus]⟩)⟩

theorem claimPending_claim {disk : Option Store} {file : Option ReportState} {attemptAt : Int}
    {respectRetryWindow : Bool} {c : Claim}
    (h : claimPending sha256 disk file attemptAt respectRetryWindow = .ok (.claim c)) :
    ∃ last, nextState (readReportState file) .inFlight attemptAt = .ok c.state ∧
      c = claimOf (disk.getD {}).pending last c.state := by
  cases disk with
  | none => exact absurd h (by simp [claimPending])
  | some d =>
      simp only [claimPending] at h
      split at h
      · exact absurd h (by simp)
      · obtain ⟨s, hread, hclaim⟩ := Lib.bind_eq_ok.mp h
        obtain ⟨rfl, _⟩ := readStore_ok hread
        split at hclaim
        · exact absurd hclaim (by simp [pure, Except.pure])
        · rename_i last _
          obtain ⟨state, hstate, hclaim⟩ := Lib.bind_eq_ok.mp hclaim
          cases hclaim
          exact ⟨last, hstate, rfl⟩

theorem claimStep_contains {sender : Nat} {attemptAt : Int} {respectRetryWindow : Bool}
    {fault : WriteFault} {send : Send} (hnone : st.sends sender = none)
    (h : (claimStep sha256 st sender attemptAt respectRetryWindow fault).sends sender = some send)
    {r : RecordEntry} (hr : r ∈ st.store.pending) : send.claim.Contains r := by
  unfold claimStep at h
  split at h
  · rename_i c hclaim
    obtain ⟨last, _, hc⟩ := claimPending_claim hclaim
    split at h
    · change Function.update st.sends sender _ sender = some send at h
      rw [Function.update_self] at h
      cases h
      dsimp only
      rw [hc]
      exact contains_claimOf hr
    · exact absurd (hnone.symm.trans h) (by simp)
    · exact absurd (hnone.symm.trans h) (by simp)
  · exact absurd (hnone.symm.trans h) (by simp)
  · exact absurd (hnone.symm.trans h) (by simp)
  · exact absurd (hnone.symm.trans h) (by simp)

theorem compactStep_dropped {time : Option Int} {fault : WriteFault} {r : RecordEntry}
    (hr : r ∈ st.store.records) (h : r ∉ (compactStep sha256 st time fault).store.records) :
    r.status = .resolved ∧ r.sequence ≤ st.store.acknowledgedThrough := by
  unfold compactStep at h
  cases hc : compactRuntimeErrors sha256 st.disk time with
  | error e => rw [hc] at h; exact absurd hr h
  | ok s =>
      obtain ⟨_, _, _, _, _, hkept⟩ := compactRuntimeErrors_ok hc
      rw [hc] at h
      dsimp only at h
      unfold ErrorState.write at h
      split at h
      · exact absurd hr h
      · exact (hkept r hr).resolve_left h

theorem stepSound {a : ErrorAction} (hs : errorStep sha256 st a = some st') :
    StepSound st a st' where
  cursor := ack_le_step hs
  claimed := by
    rintro sender time respectRetryWindow fault send rfl hsend r hr
    simp only [errorStep] at hs
    split at hs
    · rename_i hnone _
      cases hs
      exact claimStep_contains hnone hsend hr
    · exact absurd hs (by simp)
  compacted := by
    rintro enabled time fault rfl r hr hnot
    cases hs
    split at hnot
    · exact compactStep_dropped hr hnot
    · exact absurd hr hnot

/--
**No report is lost.** In every state that recording, status changes, compaction, acknowledgements
and any senders reach: the store on disk is valid, no number was given twice, the record of every
change above the acknowledged cursor is present and pending, and the cursor is 0, that of a claim
that was accepted or that of an explicit call. Every step from there moves the cursor forward only,
claims all that is pending, and compacts only acknowledged resolved records.
-/
theorem reports_not_lost (sha256 : Text → Text) (st : ErrorState)
    (h : Lib.Reaches (errorStep sha256) (fun _ _ => True) ErrorStart st) :
    StoreSound sha256 st ∧
      ∀ a st', errorStep sha256 st a = some st' → StepSound st a st' :=
  ⟨(errorInv_reachable h).sound, fun _ _ hs => stepSound hs⟩

/-- A small error report. -/
def someError : RecordOptions :=
  { code := "CAVEAT.INDEX_FAILED".toList, time := some 0, os := "linux".toList
    arch := "x64".toList }

/-- One error is recorded, reported and acknowledged, and then occurs again. -/
theorem reports_not_lost_again : ∃ st : ErrorState,
    (st.store.acknowledgedThrough = 1 ∧ st.events.length = 2) ∧ StoreSound id st := by
  obtain ⟨st, hreach, htest⟩ := Lib.Reaches.exists_of_run (errorStep id)
    (show ErrorStart {} from rfl)
    [.record true someError .none, .claim 0 (some 1) true .none, .respond 0 .accepted,
      .settle 0 true .none, .record true someError .none, .finish 0 .none]
    (fun st => st.store.acknowledgedThrough = 1 && st.events.length = 2) (by decide +kernel)
  exact ⟨st, by simpa using htest, (reports_not_lost id st hreach).1⟩

end Caveat.RuntimeErrors
