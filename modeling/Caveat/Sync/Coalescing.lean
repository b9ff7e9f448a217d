import Caveat.Lib.Transition
import Caveat.Sync.AutoSync

/-!
# Coalescing of writes

A call that carries a write is dropped as `write_already_synced` when the stored start lies after
the write. Every completed cycle stores its start, whether its own sync succeeded, failed, was
skipped or was suspended, so the stored start alone does not show that anything was synced. What
does show it is the stored own-sync state: a success clears it, and every other outcome leaves
`lastAttemptAt` behind until the next success.
-/

namespace Caveat.Sync

open Lib

variable (digests : Digests) (context : Context)

/-- A finished cycle: what it was called with and what it returned. -/
structure Cycle where
  input : CycleInput
  result : RunAutoSyncResult

/-- The stored state and the cycles so far, the latest first. -/
structure World where
  state : Option AutoSyncState
  cycles : List Cycle

def World.init (w : World) : Prop := w.state = none ∧ w.cycles = []

/-- Cycles are serialized by their locks; a refused one is a cycle that changes nothing. -/
def cycleStep (w : World) (i : CycleInput) : Option World :=
  let (result, state) := runAutoSyncCycle digests context i w.state
  some { state := state, cycles := { input := i, result := result } :: w.cycles }

/-- A cycle that started after `t` and whose own sync succeeded. -/
def Cycle.syncedAfter (t : Nat) (c : Cycle) : Prop :=
  (t : Int) < c.input.now ∧ ∃ o, c.result.outcome = some o ∧ o.own.disposition = .success

/--
No write is dropped unsynced: a call with a write at `t` that returns `write_already_synced`
comes after a cycle that started after `t` and synced.
-/
def NoWriteDropped (w : World) : Prop :=
  ∀ later c earlier, w.cycles = later ++ c :: earlier →
    ∀ t r, c.input.writeRequestedAt = some t → callResult c.input c.result = some r →
      r.skipReason = some .writeAlreadySynced → ∃ d ∈ earlier, d.syncedAfter t

/-- A call whose write the stored start covers finds the own-sync state a success leaves. -/
def CoversSuccess (w : World) (i : CycleInput) : Prop :=
  writeCovered digests context i w.state = true →
    ∀ st, w.state = some st → st.ownSync.lastAttemptAt = none

/-- What the stored state says about the cycles behind it. -/
structure Inv (w : World) : Prop where
  /-- A state without a pending attempt was stored by a cycle that synced. -/
  synced : ∀ st s, w.state = some st → st.ownSync.lastAttemptAt = none → st.startedAt = some s →
    ∃ c ∈ w.cycles, c.input.now = s ∧
      ∃ o, c.result.outcome = some o ∧ o.own.disposition = .success
  /-- Only a failed attempt counts as a failure. -/
  count : ∀ st, w.state = some st → st.ownSync.lastAttemptAt = none →
    st.ownSync.consecutiveFailureCount = 0
  noDrop : NoWriteDropped w

/-! ## One cycle -/

variable {digests : Digests} {context : Context}

/-- **Only a success clears the attempt.** -/
theorem ownSyncStep_cleared {i : CycleInput} {prev : OwnSyncState}
    (hcount : prev.lastAttemptAt = none → prev.consecutiveFailureCount = 0)
    (h : (ownSyncStep digests i prev).2.lastAttemptAt = none) :
    (ownSyncStep digests i prev).1.disposition = .success ∧
      (ownSyncStep digests i prev).2.consecutiveFailureCount = 0 := by
  unfold ownSyncStep at h ⊢
  dsimp only at h ⊢
  split at h
  · -- suspended: the state is kept, and it counts failures
    rename_i hsusp
    have hzero := hcount h
    have hdeg := hsusp.1
    rw [hzero] at hdeg
    exact absurd hdeg (by decide)
  · rename_i hsusp
    rw [if_neg hsusp]
    split at h
    · exact ⟨rfl, rfl⟩
    · split at h <;> cases h

/-- The stored state is new, and it is the one that own sync left at the start of the cycle. -/
def Records (digests : Digests) (i : CycleInput) (prev : Option AutoSyncState)
    (out : RunAutoSyncResult × Option AutoSyncState) : Prop :=
  ∃ st o, out.2 = some st ∧ out.1.outcome = some o ∧ st.startedAt = some i.now ∧
    o.own = (ownSyncStep digests i ((prev.map (·.ownSync)).getD OwnSyncState.clear)).1 ∧
    st.ownSync = (ownSyncStep digests i ((prev.map (·.ownSync)).getD OwnSyncState.clear)).2

/-- A cycle that gets as far as the pulls reports no skip, and stores a new state or none. -/
theorem runCycleBody_cases {i : CycleInput} {prev : Option AutoSyncState} :
    (runCycleBody digests context i prev).1.skipReason = none ∧
      ((runCycleBody digests context i prev).2 = prev ∨
        Records digests i prev (runCycleBody digests context i prev)) := by
  unfold runCycleBody
  split
  · exact ⟨rfl, .inl rfl⟩
  dsimp only
  split
  · exact ⟨rfl, .inl rfl⟩
  split
  · exact ⟨rfl, .inl rfl⟩
  split
  · exact ⟨rfl, .inl rfl⟩
  split
  · exact ⟨rfl, .inl rfl⟩
  · exact ⟨rfl, .inr ⟨_, _, rfl, rfl, rfl, rfl, rfl⟩⟩

variable (digests context) in
/-- **What a cycle leaves in the state file.** -/
theorem runAutoSyncCycle_state (i : CycleInput) (prev : Option AutoSyncState) :
    (runAutoSyncCycle digests context i prev).2 = prev ∨
      Records digests i prev (runAutoSyncCycle digests context i prev) := by
  unfold runAutoSyncCycle
  split
  · exact .inl rfl
  split
  · exact .inl rfl
  split
  · exact .inl rfl
  split
  · exact .inl rfl
  split
  · exact .inl rfl
  · exact runCycleBody_cases.2

/-- Only the check of the stored start drops a write as already synced. -/
theorem writeCovered_of_skipReason {i : CycleInput} {prev : Option AutoSyncState}
    (h : (runAutoSyncCycle digests context i prev).1.skipReason = some .writeAlreadySynced) :
    writeCovered digests context i prev = true := by
  unfold runAutoSyncCycle at h
  split at h
  · cases h
  split at h
  · cases h
  split at h
  · cases h
  split at h
  · assumption
  split at h
  · cases h
  · rw [runCycleBody_cases.1] at h; cases h

/-- A call returns `write_already_synced` only when its last cycle does. -/
theorem skipReason_of_callResult {i : CycleInput} {r r' : RunAutoSyncResult}
    (h : callResult i r = some r') (hs : r'.skipReason = some .writeAlreadySynced) :
    r.skipReason = some .writeAlreadySynced := by
  unfold callResult at h
  split at h
  · cases h; exact hs
  split at h
  · cases h; exact hs
  split at h
  · cases h; cases hs
  · cases h

/-- What a covered write says about the stored state. -/
theorem started_of_writeCovered {i : CycleInput} {prev : Option AutoSyncState} {t : Nat}
    (h : writeCovered digests context i prev = true) (ht : i.writeRequestedAt = some t) :
    ∃ st s, prev = some st ∧ st.startedAt = some s ∧ (t : Int) < s := by
  unfold writeCovered at h
  rw [ht] at h
  cases prev with
  | none => cases h
  | some st =>
      simp only [Bool.and_eq_true, decide_eq_true_eq] at h
      obtain ⟨⟨hs, _⟩, hlt⟩ := h
      obtain ⟨s, hs⟩ := Option.isSome_iff_exists.mp hs
      refine ⟨st, s, rfl, hs, ?_⟩
      rw [hs] at hlt
      exact hlt

/-! ## Whole histories -/

theorem inv_init {w : World} (h : w.init) : Inv w where
  synced st s hst := by rw [h.1] at hst; cases hst
  count st hst := by rw [h.1] at hst; cases hst
  noDrop later c earlier hc := by
    rw [h.2] at hc
    exact absurd hc (by simp)

/-- **`Inv` is preserved by every cycle that covers only successes.** -/
theorem inv_cycleStep {w w' : World} {i : CycleInput} (h : Inv w)
    (hok : CoversSuccess digests context w i) (hs : cycleStep digests context w i = some w') :
    Inv w' := by
  have hprev : ((w.state.map (·.ownSync)).getD OwnSyncState.clear).lastAttemptAt = none →
      ((w.state.map (·.ownSync)).getD OwnSyncState.clear).consecutiveFailureCount = 0 := by
    intro hn
    cases hw : w.state with
    | none => rfl
    | some st => rw [hw] at hn; exact h.count st hw hn
  cases hs
  constructor
  case synced =>
    intro st s hst hnone hstart
    rcases runAutoSyncCycle_state digests context i w.state with
      hkeep | ⟨st', o, hst', ho, hnow, hown, hownSync⟩
    · obtain ⟨c, hc, hrest⟩ := h.synced st s (hkeep ▸ hst) hnone hstart
      exact ⟨c, List.mem_cons_of_mem _ hc, hrest⟩
    · obtain rfl : st' = st := Option.some.inj (hst'.symm.trans hst)
      have hclear := ownSyncStep_cleared hprev (hownSync ▸ hnone)
      refine ⟨_, List.mem_cons_self, ?_, o, ho, hown ▸ hclear.1⟩
      exact Option.some.inj (hnow.symm.trans hstart)
  case count =>
    intro st hst hnone
    rcases runAutoSyncCycle_state digests context i w.state with
      hkeep | ⟨st', o, hst', ho, hnow, hown, hownSync⟩
    · exact h.count st (hkeep ▸ hst) hnone
    · obtain rfl : st' = st := Option.some.inj (hst'.symm.trans hst)
      rw [hownSync]
      exact (ownSyncStep_cleared hprev (hownSync ▸ hnone)).2
  case noDrop =>
    intro later c earlier hc t r ht hcall hskip
    cases later with
    | cons d later =>
        injection hc with _ hc
        exact h.noDrop later c earlier hc t r ht hcall hskip
    | nil =>
        -- the new cycle itself: the start it found was stored by a cycle that synced
        injection hc with hc hearlier
        subst hc
        subst hearlier
        have hcov := writeCovered_of_skipReason (skipReason_of_callResult hcall hskip)
        obtain ⟨st, s, hst, hstart, hlt⟩ := started_of_writeCovered hcov ht
        obtain ⟨c, hc, hnow, o, ho, hsucc⟩ := h.synced st s hst (hok hcov st hst) hstart
        exact ⟨c, hc, hnow ▸ hlt, o, ho, hsucc⟩

/--
**No write is coalesced away unsynced**, in every history whose covered calls find the state of a
successful own sync.
-/
theorem noWriteDropped_of_coversSuccess {w : World}
    (h : Reaches (cycleStep digests context) (CoversSuccess digests context) World.init w) :
    NoWriteDropped w :=
  (h.invariant (fun _ => inv_init) (fun _ _ _ hi hok hs => inv_cycleStep hi hok hs)).noDrop

/-! ## A failed cycle covers a write -/

/-- A cycle at `now` that gets its locks and meets no failure but the given own-sync outcome. -/
def plainCycle (now : Int) (syncOwn : Except SyncFailure SyncOwnResult)
    (writeRequestedAt : Option Nat) : CycleInput where
  disabled := false
  syncLock := true
  indexLock := true
  now := now
  writeRequestedAt := writeRequestedAt
  debounceMs := none
  managed := false
  community := some []
  syncOwn := syncOwn
  lastProbe := none
  reindexAndMark := true
  appendReminder := true
  writeState := true
  deadlinePassed := false

def emptyWorld : World := { state := none, cycles := [] }

theorem emptyWorld_init : emptyWorld.init := ⟨rfl, rfl⟩

def plainDigests : Digests where
  text s := s
  context c := c.ownDir
  lines ls := String.join ls

def plainContext : Context where
  ownDir := "own"
  dbPath := "db"
  entriesDir := "entries"
  communityDir := "community"
  githubUser := none

/-- A cycle that synced at 10 covers a write at 5. -/
theorem noWriteDropped_of_coversSuccess_synced : ∃ w,
    Reaches (cycleStep plainDigests plainContext) (CoversSuccess plainDigests plainContext)
      World.init w ∧
    (w.cycles.head?.bind (·.result.skipReason)) = some .writeAlreadySynced ∧
    NoWriteDropped w := by
  have h0 : Reaches (cycleStep plainDigests plainContext) (CoversSuccess plainDigests plainContext)
      World.init emptyWorld := .init emptyWorld_init
  have h1 := h0.act (plainCycle 10 (.ok { pulled := false, changedFiles := 1 }) none)
    (fun hc => by cases hc) rfl
  have h2 := h1.act (plainCycle 20 (.ok { pulled := false, changedFiles := 0 }) (some 5))
    (fun _ st hst => by cases hst; rfl) rfl
  exact ⟨_, h2, rfl, noWriteDropped_of_coversSuccess h2⟩

/-- A pull that failed at 10 covers a write at 5, and nothing was ever synced. -/
theorem noWriteDropped_fails : ∃ w,
    Reaches (cycleStep plainDigests plainContext) (fun _ _ => True) World.init w ∧
    ¬ NoWriteDropped w := by
  have h0 : Reaches (cycleStep plainDigests plainContext) (fun _ _ => True) World.init emptyWorld :=
    .init emptyWorld_init
  have h1 := h0.act (plainCycle 10 (.error (.remote .pull)) none) trivial rfl
  have h2 := h1.act (plainCycle 20 (.ok { pulled := false, changedFiles := 1 }) (some 5)) trivial rfl
  refine ⟨_, h2, fun h => ?_⟩
  obtain ⟨d, hd, _, o, ho, hs⟩ := h [] _ _ rfl 5 _ rfl rfl rfl
  cases List.mem_singleton.mp hd
  cases ho
  cases hs

end Caveat.Sync
