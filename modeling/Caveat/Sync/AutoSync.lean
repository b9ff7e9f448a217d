import Mathlib.Data.List.Sort

/-!
# The auto-sync cycle

`runAutoSync` and `runAutoSyncCycle` of `autoSync.ts`. A cycle holds the auto-sync and the reindex
lock, pulls the subscribed communities, tries to sync the own repository unless repeated failures
have put it on the backoff schedule, reindexes, and records itself in `.last-autosync.json`.

Everything the cycle learns from outside (the clock, the locks, what the pulls, `syncOwn`, the
reindex and the writes did) is a field of `CycleInput`; the rest is computed as in the source.
The state file is read back as it was written, so it is modelled by its value: `toISOString` and
`Date.parse` are inverse on the instants the code writes, and instants are milliseconds.
-/

namespace Caveat.Sync

def autoSyncDebounceMs : Int := 15 * 60 * 1000
def autoSyncSuspendThreshold : Nat := 3
def autoSyncDegradedRetryMs : Int := 6 * 60 * 60 * 1000
def autoSyncNoticeRepeatMs : Int := 24 * 60 * 60 * 1000

/-! ## Failures of `syncOwn` -/

inductive SyncErrorCode where
  | CAVEAT_GIT_ENV_UNSAFE
  | NOT_A_REPO
  | EXTERNAL_TOPLEVEL
  | DETACHED_HEAD
  | NO_REMOTE
  | REMOTE_PUBLIC
  | REMOTE_VISIBILITY_INDETERMINATE
  | SYNC_CONFLICT
  | REBASE_IN_PROGRESS
  | OWN_REPO_EXISTS
  | BOTH_HAVE_ENTRIES
  | WORKTREE_DIRTY
  | SYNC_BUSY
  | CAVEAT_GITHUB_CONFIG_UNSUPPORTED
  | CAVEAT_GITHUB_USER_INVALID
  | CAVEAT_GITHUB_USER_UNAVAILABLE
  | CAVEAT_GITHUB_USERNAME_MISMATCH
  | CAVEAT_GITHUB_TARGET_UNSUPPORTED
  | CAVEAT_GITHUB_CREDENTIAL_UNAVAILABLE
  | CAVEAT_GITHUB_CLI_UNAVAILABLE
  | CAVEAT_GITHUB_CLI_UNSUPPORTED
  | CAVEAT_GITHUB_CREDENTIAL_EXPIRED
deriving DecidableEq, Repr

def SyncErrorCode.text : SyncErrorCode → String
  | .CAVEAT_GIT_ENV_UNSAFE => "CAVEAT_GIT_ENV_UNSAFE"
  | .NOT_A_REPO => "NOT_A_REPO"
  | .EXTERNAL_TOPLEVEL => "EXTERNAL_TOPLEVEL"
  | .DETACHED_HEAD => "DETACHED_HEAD"
  | .NO_REMOTE => "NO_REMOTE"
  | .REMOTE_PUBLIC => "REMOTE_PUBLIC"
  | .REMOTE_VISIBILITY_INDETERMINATE => "REMOTE_VISIBILITY_INDETERMINATE"
  | .SYNC_CONFLICT => "SYNC_CONFLICT"
  | .REBASE_IN_PROGRESS => "REBASE_IN_PROGRESS"
  | .OWN_REPO_EXISTS => "OWN_REPO_EXISTS"
  | .BOTH_HAVE_ENTRIES => "BOTH_HAVE_ENTRIES"
  | .WORKTREE_DIRTY => "WORKTREE_DIRTY"
  | .SYNC_BUSY => "SYNC_BUSY"
  | .CAVEAT_GITHUB_CONFIG_UNSUPPORTED => "CAVEAT_GITHUB_CONFIG_UNSUPPORTED"
  | .CAVEAT_GITHUB_USER_INVALID => "CAVEAT_GITHUB_USER_INVALID"
  | .CAVEAT_GITHUB_USER_UNAVAILABLE => "CAVEAT_GITHUB_USER_UNAVAILABLE"
  | .CAVEAT_GITHUB_USERNAME_MISMATCH => "CAVEAT_GITHUB_USERNAME_MISMATCH"
  | .CAVEAT_GITHUB_TARGET_UNSUPPORTED => "CAVEAT_GITHUB_TARGET_UNSUPPORTED"
  | .CAVEAT_GITHUB_CREDENTIAL_UNAVAILABLE => "CAVEAT_GITHUB_CREDENTIAL_UNAVAILABLE"
  | .CAVEAT_GITHUB_CLI_UNAVAILABLE => "CAVEAT_GITHUB_CLI_UNAVAILABLE"
  | .CAVEAT_GITHUB_CLI_UNSUPPORTED => "CAVEAT_GITHUB_CLI_UNSUPPORTED"
  | .CAVEAT_GITHUB_CREDENTIAL_EXPIRED => "CAVEAT_GITHUB_CREDENTIAL_EXPIRED"

inductive RemotePhase where
  | inspect
  | pull
  | push
  | fetch
deriving DecidableEq, Repr

/-- `phase.toUpperCase()`. -/
def RemotePhase.upper : RemotePhase → String
  | .inspect => "INSPECT"
  | .pull => "PULL"
  | .push => "PUSH"
  | .fetch => "FETCH"

/-- What `syncOwn` may throw: its three error classes, or anything else. -/
inductive SyncFailure where
  | sync (code : SyncErrorCode)
  | remote (phase : RemotePhase)
  | recovery
  | other
deriving DecidableEq, Repr

/-- `REMOTE_<phase>_FAILED`, `RECOVERY_FAILED` and `UNKNOWN` stand beside the codes. -/
def syncFailureCode : SyncFailure → String
  | .sync code => code.text
  | .remote phase => "REMOTE_" ++ phase.upper ++ "_FAILED"
  | .recovery => "RECOVERY_FAILED"
  | .other => "UNKNOWN"

inductive OwnSyncDisposition where
  | success
  | skip
  | networkSkip
  | fail
deriving DecidableEq, Repr

inductive RemoteAccess where
  | anonymousReadable
  | denied (status : Nat)
  | indeterminate (reason : String)
deriving DecidableEq, Repr

def probeRequestFailedReason : String := "anonymous read probe request failed"

def classifyOwnSyncOutcome (err : SyncFailure) (lastProbe : Option RemoteAccess) :
    OwnSyncDisposition :=
  match err with
  | .sync code =>
      match code with
      | .NOT_A_REPO | .NO_REMOTE | .EXTERNAL_TOPLEVEL | .DETACHED_HEAD | .OWN_REPO_EXISTS
      | .BOTH_HAVE_ENTRIES | .WORKTREE_DIRTY | .SYNC_BUSY => .skip
      | .REMOTE_PUBLIC | .SYNC_CONFLICT | .REBASE_IN_PROGRESS | .CAVEAT_GIT_ENV_UNSAFE
      | .CAVEAT_GITHUB_CONFIG_UNSUPPORTED | .CAVEAT_GITHUB_USER_INVALID
      | .CAVEAT_GITHUB_USER_UNAVAILABLE | .CAVEAT_GITHUB_USERNAME_MISMATCH
      | .CAVEAT_GITHUB_TARGET_UNSUPPORTED | .CAVEAT_GITHUB_CREDENTIAL_UNAVAILABLE
      | .CAVEAT_GITHUB_CLI_UNAVAILABLE | .CAVEAT_GITHUB_CLI_UNSUPPORTED
      | .CAVEAT_GITHUB_CREDENTIAL_EXPIRED => .fail
      | .REMOTE_VISIBILITY_INDETERMINATE =>
          if lastProbe = some (.indeterminate probeRequestFailedReason) then .networkSkip else .fail
  | _ => .fail

/-! ## The stored state -/

structure OwnSyncState where
  consecutiveFailureSignature : Option String
  consecutiveFailureCount : Nat
  lastAttemptAt : Option Int
deriving DecidableEq, Repr

/-- The state of a home that never synced, and what a successful own sync leaves. -/
def OwnSyncState.clear : OwnSyncState :=
  { consecutiveFailureSignature := none, consecutiveFailureCount := 0, lastAttemptAt := none }

structure AutoSyncState where
  finishedAt : Int
  startedAt : Option Int
  contextSha256 : Option String
  signature : String
  lastNotifiedAt : Option Int
  ownSync : OwnSyncState
deriving DecidableEq, Repr

/-- The five values that identify what a cycle syncs. -/
structure Context where
  ownDir : String
  dbPath : String
  entriesDir : String
  communityDir : String
  githubUser : Option String
deriving DecidableEq, Repr

/-- SHA-256 of a text, and of the `JSON.stringify` of a context and of the notification lines. -/
structure Digests where
  text : String → String
  context : Context → String
  lines : List String → String

/-! ## One cycle -/

structure CommunityPullResult where
  handle : String
  /-- `status === 'failed'`. -/
  failed : Bool
deriving DecidableEq, Repr

structure SyncOwnResult where
  pulled : Bool
  changedFiles : Nat
deriving DecidableEq, Repr

/-- What a cycle is called with and what it meets. -/
structure CycleInput where
  /-- `CAVEAT_AUTO_SYNC=off`. -/
  disabled : Bool
  /-- Whether `acquireFileLock` gave the auto-sync lock and the reindex lock. -/
  syncLock : Bool
  indexLock : Bool
  now : Int
  writeRequestedAt : Option Nat
  debounceMs : Option Int
  /-- `usesManagedGuidance(userHome)`. -/
  managed : Bool
  /-- What `communityPull` returns; `none` when it throws. -/
  community : Option (List CommunityPullResult)
  syncOwn : Except SyncFailure SyncOwnResult
  /-- The answer of the last visibility probe `syncOwn` made. -/
  lastProbe : Option RemoteAccess
  /-- Whether `reindexAndMark`, the pending reminder and the state file went through. -/
  reindexAndMark : Bool
  appendReminder : Bool
  writeState : Bool
  /-- No time is left to wait for a busy cycle. -/
  deadlinePassed : Bool

structure OwnOutcome where
  disposition : OwnSyncDisposition
  code : Option String := none
  pulled : Option Bool := none
  changedFiles : Option Nat := none
  suspended : Bool := false
  escalated : Bool := false
  degraded : Bool := false
deriving DecidableEq, Repr

structure AutoSyncOutcome where
  community : List CommunityPullResult
  own : OwnOutcome
deriving DecidableEq, Repr

inductive SkipReason where
  | disabled
  | syncBusy
  | indexBusy
  | intervalWait
  | writeAlreadySynced
  | writeLockTimeout
deriving DecidableEq, Repr

structure RunAutoSyncResult where
  ran : Bool
  outcome : Option AutoSyncOutcome := none
  notified : Option Bool := none
  skipReason : Option SkipReason := none
  /-- `errorCode: 'cycle_failed'`. -/
  cycleFailed : Bool := false
deriving DecidableEq, Repr

def autoSyncNotificationLines (outcome : AutoSyncOutcome) (managed : Bool) : List String :=
  let retry :=
    if managed then
      "call the Caveat MCP tool caveat_sync with \x7b\x7d. If unavailable, stop; do not use a PATH command or another context"
    else "run `caveat sync`"
  let pulled :=
    if outcome.own.pulled = some true then
      ["autosync: pulled updates from your private remote"]
    else []
  let own :=
    if outcome.own.degraded then
      ["autosync: own sync keeps failing; auto-retry is backed off to every 6h. " ++ retry ++
        " to resolve now."]
    else if outcome.own.disposition = .fail then
      ["autosync: own sync failed (" ++ outcome.own.code.getD "UNKNOWN" ++ "). " ++ retry ++
        " to resolve."]
    else []
  let failedHandles := ((outcome.community.filter (·.failed)).map (·.handle)).insertionSort (· ≤ ·)
  let community :=
    if failedHandles.isEmpty then []
    else ["autosync: community pull failed: " ++ String.intercalate ", " failedHandles]
  pulled ++ own ++ community

/-- `parseTimestamp`: an absent instant reads as "never". -/
def parseTimestamp (value : Option Int) : Int := value.getD 0

variable (digests : Digests) (context : Context)

/-- The own-sync part of a cycle: its outcome and the own-sync state to store. -/
def ownSyncStep (i : CycleInput) (prev : OwnSyncState) : OwnOutcome × OwnSyncState :=
  let degraded := autoSyncSuspendThreshold ≤ prev.consecutiveFailureCount
  let retryDue := autoSyncDegradedRetryMs ≤ i.now - parseTimestamp prev.lastAttemptAt
  let (own, state) : OwnOutcome × OwnSyncState :=
    if degraded ∧ ¬ retryDue then ({ disposition := .skip, suspended := true }, prev)
    else
      let attempted := { prev with lastAttemptAt := some i.now }
      match i.syncOwn with
      | .ok result =>
          ({ disposition := .success, pulled := some result.pulled,
             changedFiles := some result.changedFiles }, OwnSyncState.clear)
      | .error err =>
          let disposition := classifyOwnSyncOutcome err i.lastProbe
          let code := syncFailureCode err
          let own : OwnOutcome :=
            { disposition := disposition, code := if code = "UNKNOWN" then none else some code }
          if disposition = .fail then
            let signature := digests.text code
            let count :=
              if attempted.consecutiveFailureSignature = some signature then
                attempted.consecutiveFailureCount + 1
              else 1
            ({ own with escalated := count = autoSyncSuspendThreshold },
             { consecutiveFailureSignature := some signature, consecutiveFailureCount := count,
               lastAttemptAt := some i.now })
          else (own, attempted)
  ({ own with degraded := autoSyncSuspendThreshold ≤ state.consecutiveFailureCount }, state)

/-- A dirty or busy refusal stops the cycle before the reindex and the state write. -/
def OwnOutcome.refused (own : OwnOutcome) : Bool :=
  own.code = some SyncErrorCode.WORKTREE_DIRTY.text || own.code = some SyncErrorCode.SYNC_BUSY.text

/-- `try … catch` around a cycle: the warning is logged and no state is written. -/
def failedCycle (prev : Option AutoSyncState) : RunAutoSyncResult × Option AutoSyncState :=
  ({ ran := true, cycleFailed := true }, prev)

/-- The cycle from `communityPull` on, once neither the write check nor the interval ended it. -/
def runCycleBody (i : CycleInput) (prev : Option AutoSyncState) :
    RunAutoSyncResult × Option AutoSyncState :=
  match i.community with
  | none => failedCycle prev
  | some community =>
      let (own, ownSync) :=
        ownSyncStep digests i ((prev.map (·.ownSync)).getD OwnSyncState.clear)
      if own.refused then
        ({ ran := true, outcome := some { community, own }, notified := some false }, prev)
      else if ¬ i.reindexAndMark then failedCycle prev
      else
        let outcome : AutoSyncOutcome := { community, own }
        let lines := autoSyncNotificationLines outcome i.managed
        let signature := digests.lines lines
        let repeatDue := own.degraded ∧
          autoSyncNoticeRepeatMs ≤ i.now - parseTimestamp (prev.bind (·.lastNotifiedAt))
        let notified := !lines.isEmpty && (prev.map (·.signature) ≠ some signature || repeatDue)
        if notified ∧ ¬ i.appendReminder then failedCycle prev
        else if ¬ i.writeState then failedCycle prev
        else
          ({ ran := true, outcome := some outcome, notified := some notified },
           some
            { finishedAt := i.now
              startedAt := some i.now
              contextSha256 := some (digests.context context)
              signature := signature
              lastNotifiedAt := if notified then some i.now else prev.bind (·.lastNotifiedAt)
              ownSync := ownSync })

/-- `writeRequestedAt` lies before the start the state records for this context. -/
def writeCovered (i : CycleInput) (prev : Option AutoSyncState) : Bool :=
  match i.writeRequestedAt, prev with
  | some t, some st =>
      st.startedAt.isSome && st.contextSha256 = some (digests.context context) &&
        (t : Int) < parseTimestamp st.startedAt
  | _, _ => false

/-- The interval of a scheduled run has not passed. -/
def intervalWait (i : CycleInput) (prev : Option AutoSyncState) : Bool :=
  match i.writeRequestedAt, i.debounceMs, prev with
  | none, some debounce, some st => i.now - parseTimestamp (some st.finishedAt) < debounce
  | _, _, _ => false

def runAutoSyncCycle (i : CycleInput) (prev : Option AutoSyncState) :
    RunAutoSyncResult × Option AutoSyncState :=
  if i.disabled then ({ ran := false, skipReason := some .disabled }, prev)
  else if ¬ i.syncLock then ({ ran := false, skipReason := some .syncBusy }, prev)
  else if ¬ i.indexLock then ({ ran := false, skipReason := some .indexBusy }, prev)
  else if writeCovered digests context i prev then
    ({ ran := false, skipReason := some .writeAlreadySynced }, prev)
  else if intervalWait i prev then ({ ran := false, skipReason := some .intervalWait }, prev)
  else runCycleBody digests context i prev

/-- `runAutoSync` tries again after such a result when it carries a write. -/
def RunAutoSyncResult.busy (r : RunAutoSyncResult) : Bool :=
  r.skipReason = some .syncBusy || r.skipReason = some .indexBusy ||
    r.outcome.bind (·.own.code) = some SyncErrorCode.SYNC_BUSY.text

/-- What `runAutoSync` returns after a cycle, or `none` when it waits and cycles again. -/
def callResult (i : CycleInput) (r : RunAutoSyncResult) : Option RunAutoSyncResult :=
  if i.writeRequestedAt.isNone then some r
  else if ¬ r.busy then some r
  else if i.deadlinePassed then some { r with skipReason := some .writeLockTimeout }
  else none

end Caveat.Sync
