import Caveat.Sync.Coalescing

/-!
# Failure accounting and backoff

A cycle counts a failed own sync in the state that it stores at its end, and the count alone decides
whether the next cycle attempts own sync at all. An attempt whose cycle fails behind it (the
reindex, the reminder or the state file) is not counted, so the law holds in the runs in which every
attempt that did not succeed is stored.
-/

namespace Caveat.Sync.Backoff

open Lib Sync

variable (digests : Digests) (context : Context)

/-! ## Attempts -/

/-- An own sync that was attempted and not refused for a dirty or busy worktree. -/
structure Attempt where
  start : Int
  disposition : OwnSyncDisposition
  /-- The code of its failure, `none` for a success. -/
  code : Option String
deriving DecidableEq

/-- The own-sync state that a cycle finds. -/
def ownOf (prev : Option AutoSyncState) : OwnSyncState :=
  (prev.map (·.ownSync)).getD OwnSyncState.clear

/-- The cycle comes as far as own sync. -/
def reachesOwn (i : CycleInput) (prev : Option AutoSyncState) : Bool :=
  !i.disabled && i.syncLock && i.indexLock && !writeCovered digests context i prev &&
    !intervalWait i prev && i.community.isSome

/-- The backoff leaves own sync out. -/
def Suspended (i : CycleInput) (own : OwnSyncState) : Prop :=
  autoSyncSuspendThreshold ≤ own.consecutiveFailureCount ∧
    ¬ autoSyncDegradedRetryMs ≤ i.now - parseTimestamp own.lastAttemptAt

instance (i : CycleInput) (own : OwnSyncState) : Decidable (Suspended i own) :=
  inferInstanceAs (Decidable (_ ∧ _))

/-- A refusal for a dirty or busy worktree. -/
def isRefusal (err : SyncFailure) : Bool :=
  err = .sync .WORKTREE_DIRTY || err = .sync .SYNC_BUSY

/-- The attempt of a cycle. -/
def attemptOf (i : CycleInput) (prev : Option AutoSyncState) : Option Attempt :=
  if reachesOwn digests context i prev = true ∧ ¬ Suspended i (ownOf prev) then
    match i.syncOwn with
    | .ok _ => some { start := i.now, disposition := .success, code := none }
    | .error err =>
        if isRefusal err then none
        else
          some
            { start := i.now, disposition := classifyOwnSyncOutcome err i.lastProbe
              code := some (syncFailureCode err) }
  else none

/-- The stored state and the attempts so far, the latest first. -/
structure World where
  state : Option AutoSyncState
  attempts : List Attempt
deriving DecidableEq

def World.init (w : World) : Prop := w.attempts = []

def cycleStep (w : World) (i : CycleInput) : Option World :=
  some { state := (runAutoSyncCycle digests context i w.state).2
         attempts := (attemptOf digests context i w.state).toList ++ w.attempts }

/-! ## The law -/

/-- A failure with a code. -/
def Attempt.FailedWith (code : String) (a : Attempt) : Prop :=
  a.disposition = .fail ∧ a.code = some code

/-- The attempt does not end a row of failures with a code. -/
def Attempt.Continues (code : String) (a : Attempt) : Prop :=
  a.disposition ≠ .success ∧ (a.disposition = .fail → a.code = some code)

/-- The last k attempts, if all failed with one code, are counted. -/
def FailuresCounted (w : World) : Prop :=
  ∀ k code, 1 ≤ k → k ≤ w.attempts.length → (∀ a ∈ w.attempts.take k, a.FailedWith code) →
    ∃ st, w.state = some st ∧ k ≤ st.ownSync.consecutiveFailureCount

/-- Behind three failures in a row the attempts lie apart, until the row ends. -/
def BackedOff (w : World) : Prop :=
  ∀ later b since f f' f'' earlier code,
    w.attempts = later ++ b :: (since ++ f :: f' :: f'' :: earlier) →
    (∀ a ∈ [f, f', f''], a.FailedWith code) → (∀ a ∈ since, a.Continues code) →
      ∀ a ∈ since ++ [f], a.start + autoSyncDegradedRetryMs ≤ b.start

/-- The cycle tells the user something new. -/
def speaks (i : CycleInput) (prev : Option AutoSyncState) (community : List CommunityPullResult) :
    Bool :=
  let own := (ownSyncStep digests i (ownOf prev)).1
  let lines := autoSyncNotificationLines { community, own } i.managed
  let repeatDue := own.degraded ∧
    autoSyncNoticeRepeatMs ≤ i.now - parseTimestamp (prev.bind (·.lastNotifiedAt))
  !lines.isEmpty && (prev.map (·.signature) ≠ some (digests.lines lines) || repeatDue)

/-- Nothing fails between own sync and the end of the cycle. -/
def Finishes (i : CycleInput) (prev : Option AutoSyncState) : Prop :=
  i.reindexAndMark = true ∧ i.writeState = true ∧ ∀ community, i.community = some community →
    speaks digests i prev community = true → i.appendReminder = true

/-- A cycle whose attempt does not succeed comes to its end. -/
def Stores (w : World) (i : CycleInput) : Prop :=
  ∀ a, attemptOf digests context i w.state = some a → a.disposition ≠ .success →
    Finishes digests i w.state

/-! ## One cycle -/

variable {digests : Digests} {context : Context} {i : CycleInput} {prev : Option AutoSyncState}

theorem runAutoSyncCycle_of_reaches (h : reachesOwn digests context i prev = true) :
    runAutoSyncCycle digests context i prev = runCycleBody digests context i prev := by
  simp only [reachesOwn, Bool.and_eq_true, Bool.not_eq_true'] at h
  obtain ⟨⟨⟨⟨⟨hdisabled, hsync⟩, hindex⟩, hcovered⟩, hwait⟩, _⟩ := h
  unfold runAutoSyncCycle
  simp [hdisabled, hsync, hindex, hcovered, hwait]

/-- A cycle that does not come as far as own sync keeps the state. -/
theorem state_of_not_reaches (h : reachesOwn digests context i prev = false) :
    (runAutoSyncCycle digests context i prev).2 = prev := by
  unfold runAutoSyncCycle
  split
  · rfl
  rename_i hdisabled
  split
  · rfl
  rename_i hsync
  split
  · rfl
  rename_i hindex
  split
  · rfl
  rename_i hcovered
  split
  · rfl
  rename_i hwait
  have hcommunity : i.community = none := by
    simp only [Bool.not_eq_true] at hdisabled hcovered hwait
    simp only [not_not] at hsync hindex
    simpa [reachesOwn, hdisabled, hsync, hindex, hcovered, hwait] using h
  unfold runCycleBody
  rw [hcommunity]
  rfl

theorem ownSyncStep_suspended {own : OwnSyncState} (h : Suspended i own) :
    (ownSyncStep digests i own).2 = own := by
  unfold Suspended at h
  unfold ownSyncStep
  dsimp only
  rw [if_pos h]

/-- What a failure leaves: it is counted on, or counted anew. -/
theorem ownSyncStep_fail {own : OwnSyncState} {err : SyncFailure} (h : ¬ Suspended i own)
    (herr : i.syncOwn = .error err) (hfail : classifyOwnSyncOutcome err i.lastProbe = .fail) :
    (ownSyncStep digests i own).2 =
      { consecutiveFailureSignature := some (digests.text (syncFailureCode err))
        consecutiveFailureCount :=
          if own.consecutiveFailureSignature = some (digests.text (syncFailureCode err)) then
            own.consecutiveFailureCount + 1
          else 1
        lastAttemptAt := some i.now } := by
  unfold Suspended at h
  unfold ownSyncStep
  dsimp only
  rw [if_neg h, herr]
  dsimp only
  rw [if_pos hfail]

/-- What another outcome leaves: only the time of the attempt. -/
theorem ownSyncStep_skip {own : OwnSyncState} {err : SyncFailure} (h : ¬ Suspended i own)
    (herr : i.syncOwn = .error err) (hfail : classifyOwnSyncOutcome err i.lastProbe ≠ .fail) :
    (ownSyncStep digests i own).2 = { own with lastAttemptAt := some i.now } := by
  unfold Suspended at h
  unfold ownSyncStep
  dsimp only
  rw [if_neg h, herr]
  dsimp only
  rw [if_neg hfail]

theorem ownSyncStep_code {own : OwnSyncState} {err : SyncFailure} (h : ¬ Suspended i own)
    (herr : i.syncOwn = .error err) : (ownSyncStep digests i own).1.code =
      if syncFailureCode err = "UNKNOWN" then none else some (syncFailureCode err) := by
  unfold Suspended at h
  unfold ownSyncStep
  dsimp only
  rw [if_neg h, herr]
  dsimp only
  split
  · rfl
  · rfl

/-- A refusal is told by its code. -/
theorem refused_iff {own : OwnSyncState} {err : SyncFailure} (h : ¬ Suspended i own)
    (herr : i.syncOwn = .error err) :
    (ownSyncStep digests i own).1.refused = true ↔ isRefusal err = true := by
  rw [OwnOutcome.refused, ownSyncStep_code h herr]
  cases err with
  | sync code => cases code <;> decide
  | remote phase => cases phase <;> decide
  | recovery => decide
  | other => decide

theorem not_refused_of_ok {own : OwnSyncState} {result : SyncOwnResult}
    (h : ¬ Suspended i own) (hok : i.syncOwn = .ok result) :
    (ownSyncStep digests i own).1.refused = false := by
  have hcode : (ownSyncStep digests i own).1.code = none := by
    unfold Suspended at h
    unfold ownSyncStep
    dsimp only
    rw [if_neg h, hok]
  rw [OwnOutcome.refused, hcode]
  rfl

/-- **A cycle without an attempt** leaves the own-sync state alone. -/
theorem ownOf_of_no_attempt (h : attemptOf digests context i prev = none) :
    ownOf (runAutoSyncCycle digests context i prev).2 = ownOf prev ∧
      ((runAutoSyncCycle digests context i prev).2 = none → prev = none) := by
  by_cases hreach : reachesOwn digests context i prev = true
  · by_cases hsuspended : Suspended i (ownOf prev)
    · rcases runAutoSyncCycle_state digests context i prev with hkeep | hrecords
      · exact ⟨by rw [hkeep], fun hnone => hkeep.symm.trans hnone⟩
      · obtain ⟨st, o, hst, _, _, _, hown⟩ := hrecords
        have hsame : st.ownSync = ownOf prev := hown.trans (ownSyncStep_suspended hsuspended)
        rw [hst]
        exact ⟨hsame, fun hnone => absurd hnone (by simp)⟩
    · -- the attempt was refused, and the cycle ends there
      unfold attemptOf at h
      rw [if_pos ⟨hreach, hsuspended⟩] at h
      cases hsync : i.syncOwn with
      | ok result =>
          rw [hsync] at h
          exact absurd h (by simp)
      | error err =>
          rw [hsync] at h
          dsimp only at h
          by_cases hrefusal : isRefusal err = true
          · have hstate : (runAutoSyncCycle digests context i prev).2 = prev := by
              rw [runAutoSyncCycle_of_reaches hreach]
              unfold runCycleBody
              cases i.community with
              | none => rfl
              | some community =>
                  have hrefused : (ownSyncStep digests i (ownOf prev)).1.refused = true :=
                    (refused_iff hsuspended hsync).mpr hrefusal
                  unfold ownOf at hrefused
                  dsimp only
                  rw [if_pos hrefused]
            rw [hstate]
            exact ⟨rfl, fun hnone => hnone⟩
          · rw [if_neg hrefusal] at h
            exact absurd h (by simp)
  · rw [state_of_not_reaches (Bool.eq_false_iff.mpr hreach)]
    exact ⟨rfl, fun hnone => hnone⟩

/-- What an attempt is made of. -/
theorem attempt_cases {a : Attempt} (h : attemptOf digests context i prev = some a) :
    (reachesOwn digests context i prev = true ∧ ¬ Suspended i (ownOf prev) ∧ a.start = i.now) ∧
      ((∃ result, i.syncOwn = .ok result ∧ a.disposition = .success) ∨
        ∃ err, i.syncOwn = .error err ∧ isRefusal err = false ∧
          a.disposition = classifyOwnSyncOutcome err i.lastProbe ∧
            a.code = some (syncFailureCode err)) := by
  unfold attemptOf at h
  split at h
  · rename_i hreach
    cases hsync : i.syncOwn with
    | ok result =>
        rw [hsync] at h
        obtain rfl := Option.some.inj h
        exact ⟨⟨hreach.1, hreach.2, rfl⟩, Or.inl ⟨result, rfl, rfl⟩⟩
    | error err =>
        rw [hsync] at h
        dsimp only at h
        split at h
        · exact absurd h (by simp)
        · rename_i hrefusal
          obtain rfl := Option.some.inj h
          exact ⟨⟨hreach.1, hreach.2, rfl⟩,
            Or.inr ⟨err, rfl, Bool.eq_false_iff.mpr hrefusal, rfl, rfl⟩⟩
  · exact absurd h (by simp)

/-- **A cycle that comes to its end stores what own sync left.** -/
theorem stored_of_finishes {a : Attempt} (h : attemptOf digests context i prev = some a)
    (hfinishes : Finishes digests i prev) :
    ∃ st, (runAutoSyncCycle digests context i prev).2 = some st ∧
      st.ownSync = (ownSyncStep digests i (ownOf prev)).2 := by
  obtain ⟨⟨hreach, hsuspended, _⟩, hout⟩ := attempt_cases h
  have hrefused : ¬ (ownSyncStep digests i (ownOf prev)).1.refused = true := by
    rcases hout with ⟨result, hok, _⟩ | ⟨err, herr, hrefusal, _⟩
    · rw [not_refused_of_ok hsuspended hok]
      simp
    · rw [refused_iff hsuspended herr, hrefusal]
      simp
  obtain ⟨hreindex, hwrite, hremind⟩ := hfinishes
  rw [runAutoSyncCycle_of_reaches hreach]
  unfold runCycleBody
  cases hcommunity : i.community with
  | none =>
      simp only [reachesOwn, hcommunity, Option.isSome_none, Bool.and_false] at hreach
      exact absurd hreach (by simp)
  | some community =>
      have hspeak := hremind community hcommunity
      unfold speaks ownOf at hspeak
      unfold ownOf at hrefused
      dsimp only at hspeak ⊢
      rw [if_neg hrefused, if_neg (by simp [hreindex])]
      rw [if_neg fun hno => hno.2 (hspeak hno.1), if_neg (by simp [hwrite])]
      exact ⟨_, rfl, rfl⟩

/-! ## Whole runs -/

/-- The own-sync state that a row of failures leaves. -/
structure Counted (digests : Digests) (state : Option AutoSyncState) (code : String) (k : Nat) :
    Prop where
  stored : ∃ st, state = some st
  signature : (ownOf state).consecutiveFailureSignature = some (digests.text code)
  count : k ≤ (ownOf state).consecutiveFailureCount

/-- What the stored state says of the attempts behind it. -/
structure Inv (digests : Digests) (w : World) : Prop where
  counted : ∀ k code, 1 ≤ k → k ≤ w.attempts.length →
    (∀ a ∈ w.attempts.take k, a.FailedWith code) → Counted digests w.state code k
  /-- In a row the last attempt is stored, and none was later. -/
  row : ∀ since f f' f'' earlier code, w.attempts = since ++ f :: f' :: f'' :: earlier →
    (∀ a ∈ [f, f', f''], a.FailedWith code) → (∀ a ∈ since, a.Continues code) →
      Counted digests w.state code autoSyncSuspendThreshold ∧
        ∃ last, (ownOf w.state).lastAttemptAt = some last ∧ ∀ a ∈ since ++ [f], a.start ≤ last
  backedOff : BackedOff w

theorem Inv.init {w : World} (h : w.init) : Inv digests w where
  counted k code hk hle := by
    rw [h] at hle
    exact absurd hle (by simp only [List.length_nil]; omega)
  row since f f' f'' earlier code heq := by
    rw [h] at heq
    exact absurd heq (by simp)
  backedOff later b since f f' f'' earlier code heq := by
    rw [h] at heq
    exact absurd heq (by simp)

/-- A state with the same own-sync state counts the same. -/
theorem Counted.congr {state state' : Option AutoSyncState} {code : String} {k : Nat}
    (h : Counted digests state code k) (hown : ownOf state' = ownOf state)
    (hnone : state' = none → state = none) : Counted digests state' code k where
  stored := by
    cases hstate : state' with
    | some st => exact ⟨st, rfl⟩
    | none =>
        obtain ⟨st, hst⟩ := h.stored
        exact absurd (hst.symm.trans (hnone hstate)) (by simp)
  signature := hown ▸ h.signature
  count := hown ▸ h.count

/-- The own-sync state behind an attempt that did not succeed and is stored. -/
theorem ownOf_of_stored {a : Attempt} (ha : attemptOf digests context i prev = some a)
    (hfinishes : Finishes digests i prev) (hsuccess : a.disposition ≠ .success) :
    (∃ st, (runAutoSyncCycle digests context i prev).2 = some st) ∧
      ((∃ code, a.FailedWith code ∧ ownOf (runAutoSyncCycle digests context i prev).2 =
        { consecutiveFailureSignature := some (digests.text code)
          consecutiveFailureCount :=
            if (ownOf prev).consecutiveFailureSignature = some (digests.text code) then
              (ownOf prev).consecutiveFailureCount + 1
            else 1
          lastAttemptAt := some i.now }) ∨
      a.disposition ≠ .fail ∧ ownOf (runAutoSyncCycle digests context i prev).2 =
        { ownOf prev with lastAttemptAt := some i.now }) := by
  obtain ⟨st, hst, hown⟩ := stored_of_finishes ha hfinishes
  obtain ⟨⟨_, hsuspended, _⟩, hout⟩ := attempt_cases ha
  refine ⟨⟨st, hst⟩, ?_⟩
  rw [hst]
  rcases hout with ⟨result, _, hsucceeded⟩ | ⟨err, herr, _, hdisposition, hcode⟩
  · exact absurd hsucceeded hsuccess
  · by_cases hfail : a.disposition = .fail
    · refine Or.inl ⟨syncFailureCode err, ⟨hfail, hcode⟩, ?_⟩
      exact hown.trans (ownSyncStep_fail hsuspended herr (hdisposition.symm.trans hfail))
    · exact Or.inr ⟨hfail, hown.trans (ownSyncStep_skip hsuspended herr (hdisposition ▸ hfail))⟩

/-- One failure more in a row. -/
theorem counted_of_stored {w : World} {a : Attempt} {code : String} {k : Nat} (h : Inv digests w)
    (ha : attemptOf digests context i w.state = some a) (hfinishes : Finishes digests i w.state)
    (hk : k ≤ w.attempts.length) (hrow : ∀ a ∈ w.attempts.take k, a.FailedWith code)
    (hfail : a.FailedWith code) :
    Counted digests (runAutoSyncCycle digests context i w.state).2 code (k + 1) ∧
      (ownOf (runAutoSyncCycle digests context i w.state).2).lastAttemptAt = some i.now := by
  obtain ⟨hstored, hafter⟩ := ownOf_of_stored ha hfinishes (by rw [hfail.1]; simp)
  rcases hafter with ⟨code', hfail', hafter⟩ | ⟨hno, _⟩
  · obtain rfl : code' = code := Option.some.inj (hfail'.2.symm.trans hfail.2)
    refine ⟨⟨hstored, by rw [hafter], ?_⟩, by rw [hafter]⟩
    rw [hafter]
    dsimp only
    by_cases hzero : k = 0
    · split
      · omega
      · omega
    · have hcounted := h.counted k code' (by omega) hk hrow
      have hcount := hcounted.count
      rw [if_pos hcounted.signature]
      omega
  · exact absurd hfail.1 hno

/-- An attempt that does not end the row keeps the count. -/
theorem counted_of_continues {a : Attempt} {code : String} {k : Nat}
    (h : Counted digests prev code k) (ha : attemptOf digests context i prev = some a)
    (hfinishes : Finishes digests i prev) (hcontinues : a.Continues code) :
    Counted digests (runAutoSyncCycle digests context i prev).2 code k ∧
      (ownOf (runAutoSyncCycle digests context i prev).2).lastAttemptAt = some i.now := by
  obtain ⟨hstored, hafter⟩ := ownOf_of_stored ha hfinishes hcontinues.1
  rcases hafter with ⟨code', hfail, hafter⟩ | ⟨_, hafter⟩
  · obtain rfl : code' = code :=
      Option.some.inj (hfail.2.symm.trans (hcontinues.2 hfail.1))
    refine ⟨⟨hstored, by rw [hafter], ?_⟩, by rw [hafter]⟩
    rw [hafter]
    dsimp only
    have hcount := h.count
    rw [if_pos h.signature]
    omega
  · refine ⟨⟨hstored, ?_, ?_⟩, by rw [hafter]⟩
    · rw [hafter]
      exact h.signature
    · rw [hafter]
      exact h.count

/-- An attempt in a row comes no sooner than the backoff lets it. -/
theorem apart_of_attempt {w : World} {a f : Attempt} {since : List Attempt} {code : String}
    {last : Int} (ha : attemptOf digests context i w.state = some a)
    (hcounted : Counted digests w.state code autoSyncSuspendThreshold)
    (hlast : (ownOf w.state).lastAttemptAt = some last)
    (hle : ∀ a ∈ since ++ [f], a.start ≤ last) :
    last + autoSyncDegradedRetryMs ≤ a.start ∧
      ∀ b ∈ since ++ [f], b.start + autoSyncDegradedRetryMs ≤ a.start := by
  obtain ⟨⟨_, hsuspended, hstart⟩, _⟩ := attempt_cases ha
  have hdue : last + autoSyncDegradedRetryMs ≤ a.start := by
    by_contra hsoon
    refine hsuspended ⟨hcounted.count, ?_⟩
    rw [hlast, parseTimestamp, Option.getD_some]
    rw [hstart] at hsoon
    omega
  refine ⟨hdue, fun b hb => ?_⟩
  have := hle b hb
  omega

/-- **`Inv` is preserved by every cycle that stores its failures.** -/
theorem inv_cycleStep {w w' : World} (h : Inv digests w) (hok : Stores digests context w i)
    (hs : cycleStep digests context w i = some w') : Inv digests w' := by
  obtain rfl := Option.some.inj hs
  cases ha : attemptOf digests context i w.state with
  | none =>
      obtain ⟨hown, hnone⟩ := ownOf_of_no_attempt ha
      rw [Option.toList_none, List.nil_append]
      constructor
      case counted =>
        intro k code hk hle hrow
        exact (h.counted k code hk hle hrow).congr hown hnone
      case row =>
        intro since f f' f'' earlier code heq hfail hsince
        obtain ⟨hcounted, last, hlast, hle⟩ := h.row since f f' f'' earlier code heq hfail hsince
        refine ⟨hcounted.congr hown hnone, last, ?_, hle⟩
        show (ownOf (runAutoSyncCycle digests context i w.state).2).lastAttemptAt = _
        rw [hown, hlast]
      case backedOff =>
        exact h.backedOff
  | some a =>
      rw [Option.toList_some, List.singleton_append]
      constructor
      case counted =>
        intro k code hk hle hrow
        obtain ⟨k, rfl⟩ : ∃ n, k = n + 1 := ⟨k - 1, by omega⟩
        rw [List.take_succ_cons] at hrow
        have hfail := hrow a List.mem_cons_self
        have hsuccess : a.disposition ≠ .success := by rw [hfail.1]; simp
        have hlength : k ≤ w.attempts.length := by
          rw [List.length_cons] at hle
          omega
        exact (counted_of_stored h ha (hok a ha hsuccess) hlength
          (fun b hb => hrow b (List.mem_cons_of_mem _ hb)) hfail).1
      case row =>
        intro since f f' f'' earlier code heq hfail hsince
        have hstart := (attempt_cases ha).1.2.2
        cases since with
        | nil =>
            -- the third failure in a row
            obtain ⟨rfl, hattempts⟩ := List.cons.inj heq
            have hlast := hfail a (by simp)
            have hsuccess : a.disposition ≠ .success := by rw [hlast.1]; simp
            have hlength : 2 ≤ w.attempts.length := by
              rw [hattempts]
              simp only [List.length_cons]
              omega
            have hpair : ∀ b ∈ w.attempts.take 2, b.FailedWith code := by
              intro b hb
              rw [hattempts] at hb
              exact hfail b (List.mem_cons_of_mem _ (by simpa using hb))
            obtain ⟨hcounted, hnow⟩ :=
              counted_of_stored h ha (hok a ha hsuccess) hlength hpair hlast
            refine ⟨hcounted, i.now, hnow, fun b hb => ?_⟩
            rw [List.mem_singleton.mp hb, hstart]
        | cons b since =>
            obtain ⟨rfl, hattempts⟩ := List.cons.inj heq
            have hcontinues := hsince a List.mem_cons_self
            obtain ⟨hcounted, last, hlast, hle⟩ := h.row since f f' f'' earlier code hattempts hfail
              fun b hb => hsince b (List.mem_cons_of_mem _ hb)
            obtain ⟨hcounted', hnow⟩ :=
              counted_of_continues hcounted ha (hok a ha hcontinues.1) hcontinues
            refine ⟨hcounted', i.now, hnow, fun b hb => ?_⟩
            rcases List.mem_cons.mp hb with rfl | hb
            · rw [hstart]
            · have hsoon := (apart_of_attempt ha hcounted hlast hle).2 b hb
              have hpos : 0 ≤ autoSyncDegradedRetryMs := by decide
              omega
      case backedOff =>
        intro later b since f f' f'' earlier code heq hfail hsince
        cases later with
        | nil =>
            obtain ⟨rfl, hattempts⟩ := List.cons.inj heq
            obtain ⟨hcounted, last, hlast, hle⟩ :=
              h.row since f f' f'' earlier code hattempts hfail hsince
            exact (apart_of_attempt ha hcounted hlast hle).2
        | cons c later =>
            obtain ⟨rfl, hattempts⟩ := List.cons.inj heq
            exact h.backedOff later b since f f' f'' earlier code hattempts hfail hsince

/-- **Failures are counted and retries backed off** in every run that stores its failures. -/
theorem counted_of_stores {w : World}
    (h : Reaches (cycleStep digests context) (Stores digests context) World.init w) :
    FailuresCounted w ∧ BackedOff w := by
  have hinv := h.invariant (I := Inv digests) (fun _ => Inv.init)
    fun _ _ _ hi hok hs => inv_cycleStep hi hok hs
  refine ⟨fun k code hk hle hrow => ?_, hinv.backedOff⟩
  have hcounted := hinv.counted k code hk hle hrow
  obtain ⟨st, hst⟩ := hcounted.stored
  have hcount := hcounted.count
  rw [hst] at hcount
  exact ⟨st, hst, hcount⟩

/-! ## A cycle that fails behind own sync -/

def emptyWorld : World := { state := none, attempts := [] }

/-- A cycle whose pull fails, and its reindex as well. -/
def brokenCycle (now : Int) : CycleInput :=
  { plainCycle now (.error (.remote .pull)) none with reindexAndMark := false }

/-- Three stored failures are counted. -/
theorem counted_of_stores_three : ∃ w,
    Reaches (cycleStep plainDigests plainContext) (Stores plainDigests plainContext) World.init w ∧
      w.attempts.length = 3 ∧ FailuresCounted w ∧ BackedOff w := by
  have hstores : ∀ now w, Stores plainDigests plainContext w
      (plainCycle now (.error (.remote .pull)) none) :=
    fun now w a _ _ => ⟨rfl, rfl, fun _ _ _ => rfl⟩
  have h0 : Reaches (cycleStep plainDigests plainContext) (Stores plainDigests plainContext)
      World.init emptyWorld := .init rfl
  have h1 := h0.act _ (hstores 0 _) rfl
  have h2 := h1.act _ (hstores 1 _) rfl
  have h3 := h2.act _ (hstores 2 _) rfl
  exact ⟨_, h3, by decide +kernel, counted_of_stores h3⟩

def failedPull (now : Int) : Attempt :=
  { start := now, disposition := .fail, code := some "REMOTE_PULL_FAILED" }

/-- A pull that fails every minute while the reindex fails is neither counted nor backed off. -/
theorem failures_not_counted : ∃ w,
    Reaches (cycleStep plainDigests plainContext) (fun _ _ => True) World.init w ∧
      ¬ FailuresCounted w ∧ ¬ BackedOff w := by
  have h0 : Reaches (cycleStep plainDigests plainContext) (fun _ _ => True) World.init emptyWorld :=
    .init rfl
  have h1 : Reaches (cycleStep plainDigests plainContext) (fun _ _ => True) World.init
      ⟨none, [failedPull 0]⟩ := h0.act (brokenCycle 0) trivial (by decide +kernel)
  have h2 : Reaches (cycleStep plainDigests plainContext) (fun _ _ => True) World.init
      ⟨none, [failedPull 60000, failedPull 0]⟩ :=
    h1.act (brokenCycle 60000) trivial (by decide +kernel)
  have h3 : Reaches (cycleStep plainDigests plainContext) (fun _ _ => True) World.init
      ⟨none, [failedPull 120000, failedPull 60000, failedPull 0]⟩ :=
    h2.act (brokenCycle 120000) trivial (by decide +kernel)
  have h4 : Reaches (cycleStep plainDigests plainContext) (fun _ _ => True) World.init
      ⟨none, [failedPull 180000, failedPull 120000, failedPull 60000, failedPull 0]⟩ :=
    h3.act (brokenCycle 180000) trivial (by decide +kernel)
  have hfailed : ∀ now, (failedPull now).FailedWith "REMOTE_PULL_FAILED" := fun _ => ⟨rfl, rfl⟩
  refine ⟨_, h4, fun h => ?_, fun h => ?_⟩
  · obtain ⟨st, hst, _⟩ := h 1 "REMOTE_PULL_FAILED" (by omega) (by simp) (by simp [hfailed])
    exact absurd hst (by simp)
  · have hapart := h [] (failedPull 180000) [] (failedPull 120000) (failedPull 60000)
      (failedPull 0) [] "REMOTE_PULL_FAILED" rfl (by simp [hfailed])
      (fun a ha => absurd ha (by simp)) (failedPull 120000) (by simp)
    exact absurd hapart (by decide)

end Caveat.Sync.Backoff
