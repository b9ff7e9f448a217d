import Caveat.RuntimeErrors.Store
import Caveat.Lib.Transition

/-!
# Sending reports

A sender claims what is pending, posts it, acknowledges it when the receiver's receipt is good, and
finishes by noting the outcome. Claims, acknowledgements and finishes are made under the store
lock, so they are single steps; everything else may happen between them, other senders included.
-/

namespace Caveat.RuntimeErrors

open Js

/-! ## The state of the deliveries -/

/-- `RuntimeErrorReportOutcome`. -/
inductive Outcome where
  | accepted | inFlight | unreachable | timeout | serverError | rateLimited | reportIdConflict
  | responseUnverified | timestampSkew | observedAtSkew | unauthorized | forbidden | invalidReport
  | reportTooLarge | unexpectedStatus | credentialUnavailable | credentialUnsafe
  | credentialInvalid | versionInvalid | storeUnavailable
deriving DecidableEq

def minuteMs : Int := 60000

/-- `OUTCOME_RETRY_MS`. -/
def Outcome.retryMs : Outcome → Int
  | .accepted => 60 * minuteMs
  | .inFlight | .unreachable | .timeout | .serverError | .rateLimited | .reportIdConflict
  | .responseUnverified => 10 * minuteMs
  | .timestampSkew | .observedAtSkew => 60 * minuteMs
  | .unauthorized | .forbidden | .invalidReport | .reportTooLarge | .unexpectedStatus
  | .credentialUnavailable | .credentialUnsafe | .credentialInvalid | .versionInvalid
  | .storeUnavailable => 6 * 60 * minuteMs

structure ReportState where
  lastAttemptAt : Option Int := none
  lastOutcome : Option Outcome := none
  lastAcceptedAt : Option Int := none
  nextAttemptAt : Option Int := none
deriving DecidableEq

/-- `readReportState`: a missing file is an empty history. -/
def readReportState (file : Option ReportState) : ReportState := file.getD {}

/-- `nextState`; the retry time may not be a date. -/
def nextState (previous : ReportState) (outcome : Outcome) (attemptAt : Int) :
    Except StoreError ReportState := do
  let nextAttempt ← now (some (attemptAt + outcome.retryMs))
  return { lastAttemptAt := some attemptAt, lastOutcome := some outcome
           lastAcceptedAt := if outcome = .accepted then some attemptAt else previous.lastAcceptedAt
           nextAttemptAt := some nextAttempt }

/-! ## Claims -/

structure ReportRow where
  fingerprint : Text
  errorCode : Text
  component : Text
  messageTemplate : Text
  severity : Severity
  occurrenceCount : Nat
  firstSeen : Int
  lastSeen : Int
  productVersion : Text
  stateSchemaVersion : Text
deriving DecidableEq

structure ReportResolution where
  fingerprint : Text
  resolvedAt : Option Int
  reasonCode : Option Text
deriving DecidableEq

def RecordEntry.reportRow (r : RecordEntry) : ReportRow :=
  { fingerprint := r.fingerprint, errorCode := r.errorCode, component := r.component
    messageTemplate := r.messageTemplate, severity := r.severity, occurrenceCount := r.count
    firstSeen := r.firstSeen, lastSeen := r.lastSeen, productVersion := r.productVersion
    stateSchemaVersion := r.stateSchemaVersion }

def RecordEntry.reportResolution (r : RecordEntry) : ReportResolution :=
  { fingerprint := r.fingerprint, resolvedAt := r.resolvedAt, reasonCode := r.reasonCode }

structure Claim where
  rows : List ReportRow
  resolutions : List ReportResolution
  cursor : Nat
  state : ReportState
deriving DecidableEq

inductive Claimed where
  | claim (c : Claim)
  | nothingPending
  | waiting
deriving DecidableEq

section Hash

variable (sha256 : Text → Text)

/-- The records above the acknowledged cursor. -/
def Store.pending (s : Store) : List RecordEntry :=
  s.records.filter (fun r => s.acknowledgedThrough < r.sequence)

/-- The claim of some pending records. -/
def claimOf (pending : List RecordEntry) (last : RecordEntry) (state : ReportState) : Claim :=
  { rows := (pending.filter (fun r => r.status = .open)).map RecordEntry.reportRow
    resolutions := (pending.filter (fun r => r.status = .resolved)).map
      RecordEntry.reportResolution
    cursor := last.sequence, state }

/-- The next attempt is due, or the caller does not ask. -/
def retryDue (state : ReportState) (attemptAt : Int) (respectRetryWindow : Bool) : Bool :=
  !(respectRetryWindow && state.nextAttemptAt.any (fun next => attemptAt < next))

/-- `claimPending`; a claim's state is the one it writes. -/
def claimPending (disk : Option Store) (file : Option ReportState) (attemptAt : Int)
    (respectRetryWindow : Bool) : Except StoreError Claimed :=
  match disk with
  | none => .ok .nothingPending
  | some _ =>
      let state := readReportState file
      if !retryDue state attemptAt respectRetryWindow then .ok .waiting
      else do
        let store ← readStore sha256 disk
        match store.pending.getLast? with
        | none => return .nothingPending
        | some last =>
            let claimed ← nextState state .inFlight attemptAt
            return .claim (claimOf store.pending last claimed)

/-! ## Senders and everyone else -/

inductive SendPhase where
  | posting
  /-- The receipt was good; the acknowledgement is next. -/
  | acknowledging
  | finishing (outcome : Outcome)
deriving DecidableEq

structure Send where
  /-- `at`, taken when the sending began. -/
  attemptAt : Int
  claim : Claim
  phase : SendPhase := .posting
deriving DecidableEq

/-- Where a write of a file fails: before the rename or after it. -/
inductive WriteFault where
  | none | before | after
deriving DecidableEq

/-- The files and the senders; the last four fields are ghosts. -/
structure ErrorState where
  disk : Option Store := none
  report : Option ReportState := none
  sends : Nat → Option Send := fun _ => none
  /-- Every occurrence and status change that was written, with its number. -/
  events : List (Text × Nat) := []
  /-- The cursors of claims the receiver accepted. -/
  acceptedCursors : List Nat := []
  /-- The cursors of explicit acknowledgements. -/
  explicitCursors : List Nat := []
  /-- The times of the accepted sends whose finish was written, in order. -/
  acceptances : List Int := []

def ErrorState.store (st : ErrorState) : Store := st.disk.getD {}

inductive ErrorAction where
  | record (enabled : Bool) (o : RecordOptions) (fault : WriteFault)
  | setStatus (enabled : Bool) (key : Text) (status : Status) (time : Option Int)
      (fault : WriteFault)
  | compact (enabled : Bool) (time : Option Int) (fault : WriteFault)
  | acknowledge (enabled : Bool) (cursor : Nat) (fault : WriteFault)
  | claim (sender : Nat) (time : Option Int) (respectRetryWindow : Bool) (fault : WriteFault)
  /-- The response is in, or the attempt failed before it was sent. -/
  | respond (sender : Nat) (outcome : Outcome)
  /-- The acknowledgement of an accepted report. -/
  | settle (sender : Nat) (enabled : Bool) (fault : WriteFault)
  | finish (sender : Nat) (fault : WriteFault)
  /-- The process of a sender dies. -/
  | die (sender : Nat)

/-- The state with a new store on disk, unless the write failed before the rename. -/
def ErrorState.write (st : ErrorState) (fault : WriteFault) (s : Store) : ErrorState :=
  if fault = .before then st else { st with disk := some s }

def ErrorState.setSend (st : ErrorState) (sender : Nat) (send : Option Send) : ErrorState :=
  { st with sends := Function.update st.sends sender send }

/-- A record was given a number and written. -/
def ErrorState.note (st : ErrorState) (fault : WriteFault) (key : Text) (n : Nat) : ErrorState :=
  if fault = .before then st else { st with events := st.events ++ [(key, n)] }

/-- The outcome of a send is written. -/
def ErrorState.noteOutcome (st : ErrorState) (state : ReportState) (outcome : Outcome)
    (attemptAt : Int) : ErrorState :=
  { st with
    report := some state
    acceptances := if outcome = .accepted then st.acceptances ++ [attemptAt] else st.acceptances }

def recordStep (st : ErrorState) (o : RecordOptions) (fault : WriteFault) : ErrorState :=
  match recordRuntimeError sha256 st.disk o with
  | .ok (s, key, n) => (st.write fault s).note fault key n
  | .error _ => st

def setStatusStep (st : ErrorState) (key : Text) (status : Status) (time : Option Int)
    (fault : WriteFault) : ErrorState :=
  match setRuntimeErrorStatus sha256 st.disk key status time with
  | .ok (some s) => (st.write fault s).note fault key st.store.nextSequence
  | .ok none => st
  | .error _ => st

def compactStep (st : ErrorState) (time : Option Int) (fault : WriteFault) : ErrorState :=
  match compactRuntimeErrors sha256 st.disk time with
  | .ok s => st.write fault s
  | .error _ => st

def acknowledgeStep (st : ErrorState) (cursor : Nat) (fault : WriteFault) : ErrorState :=
  match acknowledgeRuntimeErrors sha256 st.disk cursor with
  | .ok s => st.write fault s
  | .error _ => st

/-- `claimPending` in `sendPending`: a claim that was written starts the sender. -/
def claimStep (st : ErrorState) (sender : Nat) (attemptAt : Int) (respectRetryWindow : Bool)
    (fault : WriteFault) : ErrorState :=
  match claimPending sha256 st.disk st.report attemptAt respectRetryWindow with
  | .ok (.claim c) =>
      match fault with
      | .none => { st with report := some c.state }.setSend sender
          (some { attemptAt, claim := c })
      | .before => st
      | .after => { st with report := some c.state }
  | .ok .nothingPending => st
  | .ok .waiting => st
  | .error _ => st

/-- `finish`: the state follows from the one that was captured by the claim. -/
def finishStep (st : ErrorState) (sender : Nat) (send : Send) (outcome : Outcome)
    (fault : WriteFault) : ErrorState :=
  match nextState send.claim.state outcome send.attemptAt with
  | .ok state =>
      if fault = .before then st.setSend sender none
      else (st.noteOutcome state outcome send.attemptAt).setSend sender none
  | .error _ => st.setSend sender none

/-- A step of the system. A call that throws, or that finds the collection disabled, is a step too. -/
def errorStep (st : ErrorState) : ErrorAction → Option ErrorState
  | .record enabled o fault => some (if enabled then recordStep sha256 st o fault else st)
  | .setStatus enabled key status time fault =>
      some (if enabled then setStatusStep sha256 st key status time fault else st)
  | .compact enabled time fault => some (if enabled then compactStep sha256 st time fault else st)
  | .acknowledge enabled cursor fault =>
      some (if enabled then
        acknowledgeStep sha256
          { st with explicitCursors := st.explicitCursors ++ [cursor] } cursor fault
      else st)
  | .claim sender time respectRetryWindow fault =>
      match st.sends sender, now time with
      | none, .ok attemptAt => some (claimStep sha256 st sender attemptAt respectRetryWindow fault)
      | _, _ => none
  | .respond sender outcome =>
      match st.sends sender with
      | some { attemptAt, claim, phase := .posting } =>
          if outcome = .accepted then
            some ({ st with acceptedCursors := st.acceptedCursors ++ [claim.cursor] }.setSend sender
              (some { attemptAt, claim, phase := .acknowledging }))
          else some (st.setSend sender (some { attemptAt, claim, phase := .finishing outcome }))
      | _ => none
  | .settle sender enabled fault =>
      match st.sends sender with
      | some { attemptAt, claim, phase := .acknowledging } =>
          -- with the collection disabled, or after a failed write, the call throws
          if enabled && (acknowledgeRuntimeErrors sha256 st.disk claim.cursor).toBool &&
              fault = .none then
            some ((acknowledgeStep sha256 st claim.cursor fault).setSend sender
              (some { attemptAt, claim, phase := .finishing .accepted }))
          else
            some ((if enabled then acknowledgeStep sha256 st claim.cursor fault else st).setSend
              sender none)
      | _ => none
  | .finish sender fault =>
      match st.sends sender with
      | some { attemptAt, claim, phase := .finishing outcome } =>
          some (finishStep st sender { attemptAt, claim } outcome fault)
      | _ => none
  | .die sender =>
      match st.sends sender with
      | some _ => some (st.setSend sender none)
      | none => none

end Hash

/-- Nothing was ever recorded. -/
def ErrorStart (st : ErrorState) : Prop := st = {}

end Caveat.RuntimeErrors
