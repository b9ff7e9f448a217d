import Caveat.Git.Repo
import Caveat.Lib.Effect
import Caveat.Sync.Remote

/-!
# Syncing the own repository

`sync.ts` as programs over the own directory, the remotes, the commits and the index. What is probed
and pushed is written to a trace. Every command may fail, before it has done anything, after it has
done all, or on the way. Locks are free or not; their files are left out.
-/

namespace Caveat.Sync.Own

open Js Lib Entry Git

/-! ## The world -/

structure GitDir where
  repo : Repo
  /-- The branch that is being rebased, and its commit. -/
  rebasing : Option (Text × Nat) := none
deriving DecidableEq

structure OwnDir where
  /-- The files outside of `.git`. -/
  files : Files
  git : Option GitDir
deriving DecidableEq

inductive OwnPath where
  | missing
  | file
  | directory (dir : OwnDir)
deriving DecidableEq

inductive Event where
  | probed (url : Option Text) (access : RemoteAccess)
  | pushed (urls : List Text)
deriving DecidableEq

structure World where
  own : OwnPath
  remotes : Nat → Remote
  commits : List Commit
  /-- The files of the own directory that the index was built from. -/
  indexed : Option Files
  marker : Option Files
  trace : List Event

/-- Where a command may fail. -/
inductive Command where
  | createGit (site : Nat) | checkIsRepo | commonDir | lockStatus | toplevel | gitPath | symbolicRef
  | pushUrls | remotes | getUrl | probe (i : Nat) | status | add | commit | lsRemote | pullGitPath
  | pull | abort | abortGitPath | receivedStatus | prewarm | openDb | reindex | marker | push
  | mkdir | lsGetUrl | countEntries | init | addRemote | mkdirEntries | writeGitignore | revparse
  | symref | heads | fetch | removeScaffold | checkout | removeGitDir
deriving DecidableEq

/-- What a rebase leaves. -/
structure Rebased where
  commits : List Commit
  files : Files
  index : Files
  branches : Refs
  tracking : Refs

inductive PullOutcome where
  | done (out : Rebased)
  | stopped (out : Rebased)
  | failed

/-- What the outside decides. -/
structure Env where
  parseUrl : Text → Option Url
  /-- What the probe says of the n-th push URL. -/
  probe : Nat → Option Text → RemoteAccess
  /-- `remote get-url --push --all origin`, for the URL that the repository has for `origin`. -/
  pushUrls : Option Units → Option (List PushUrl)
  /-- The URL that git fetches from. -/
  fetchUrl : Units → Text
  /-- The repositories that URLs name. -/
  fetchRepository : Units → Nat
  pushRepository : Text → Nat
  ignored : Files → Text → Bool
  initialBranch : Text
  /-- The own directory lies in another repository. -/
  outerRepo : Bool
  outerClean : Bool
  externalRoot : Bool
  gitEnvironment : Option Text → Option SyncErrorCode
  credentialFailure : Command → Option SyncErrorCode
  reindexLockFree : Bool
  repoLockFree : Bool
  pull : OwnDir → List Commit → Remote → PullOutcome
  fault : Command → Option (Fault (Nat → Bool))

/-- `PreflightSyncOptions`. -/
structure PreflightSyncOptions where
  githubUser : Option Text
  trustRemotePrivate : Bool

structure SyncOwnOptions extends PreflightSyncOptions where
  dryRun : Bool
  /-- `dirtyPolicy === 'refuse'`. -/
  refuseDirty : Bool
  heldReindexLock : Bool

structure InitOwnSyncOptions extends PreflightSyncOptions where
  url : Text

structure SyncPreflight where
  branch : Text
  pushUrls : List Text
  probe : RemoteAccess

structure SyncOwnResult extends SyncPreflight where
  committed : Bool
  pulled : Bool
  pushed : Bool
  dryRun : Bool
  changedFiles : Nat

structure InitOwnSyncResult where
  branch : Text
  remoteWasEmpty : Bool
deriving DecidableEq

abbrev Program := EStateM SyncFailure World

def World.dir? (w : World) : Option OwnDir :=
  match w.own with
  | .directory dir => some dir
  | _ => none

def World.git? (w : World) : Option GitDir := w.dir?.bind OwnDir.git

def World.files (w : World) : Files := (w.dir?.map OwnDir.files).getD []

/-- The URL of `origin`. -/
def World.origin (w : World) : Option Units := w.git?.bind (fun git => git.repo.origin)

/-- A change of the own directory, if it is one. -/
def World.onDir (f : OwnDir → Option OwnDir) (w : World) : Option World :=
  (w.dir?.bind f).map (fun dir => { w with own := .directory dir })

def OwnDir.copy? (dir : OwnDir) : Option Copy :=
  dir.git.map (fun git => { files := dir.files, repo := git.repo })

/-- A change of the working copy. -/
def World.onCopy (f : Copy → Option Copy) (w : World) : Option World :=
  w.onDir (fun dir => dir.git.bind (fun git =>
    (f { files := dir.files, repo := git.repo }).map (fun copy =>
      { files := copy.files, git := some { git with repo := copy.repo } })))

section Syncing

variable (env : Env)

/-! ## Commands -/

/-- A command that may fail. -/
def run (c : Command) (effect : World → Option World) : Program Unit :=
  command .other (env.fault c) (fun _ w => w) effect

/-- A question that may fail. -/
def ask {α : Type} (c : Command) (read : World → Option α) : Program α :=
  query .other (env.fault c).isSome read

def record (event : Event) : Program Unit := modify (fun w => { w with trace := w.trace ++ [event] })

/-- `SyncRemoteError`, or what a named account is told. -/
def remoteFailure (phase : RemotePhase) (c : Command) : SyncFailure :=
  match env.credentialFailure c with
  | some code => .sync code
  | none => .remote phase

def remoteOperation {α : Type} (phase : RemotePhase) (c : Command) (x : Program α) : Program α :=
  tryCatch x (fun _ => throw (remoteFailure env phase c))

def assertTargets (urls : List Text) (user : Option Text) : Program Unit :=
  match assertNamedGithubTargets env.parseUrl urls user with
  | .ok () => return ()
  | .error code => throw (.sync code)

def createGit (site : Nat) (user : Option Text) : Program Unit := do
  assertTargets env [] user
  match env.gitEnvironment user with
  | some code => throw (.sync code)
  | none => run env (.createGit site) some

def isRepo (w : World) : Bool := w.git?.isSome || env.outerRepo

def requireOwnDirectory : Program Unit := do
  let w ← get
  throwIf (.sync .NOT_A_REPO) (w.dir? = none)

def activeRebase (c : Command) : Program Bool :=
  ask env c (fun w => some (w.git?.any (fun git => git.rebasing.isSome)))

/-! ## The gate -/

/-- What git delivers to. -/
def World.pushUrls (w : World) : Option (List PushUrl) := env.pushUrls w.origin

def effectivePushUrls : Program (List Text) := do
  match ← optional (ask env .pushUrls (fun w => (w.pushUrls env).map listed)) with
  | none => do
      ask env .remotes (fun _ => some ())
      throw (.sync .NO_REMOTE)
  | some raw => do
      throwIf (.sync .NO_REMOTE) (parsePushUrls raw = [])
      return parsePushUrls raw

/-- Probe one URL. -/
def probe (i : Nat) (remoteUrl : Text) : Program RemoteAccess := do
  run env (.probe i) some
  let access := env.probe i (deriveAnonymousProbeUrl env.parseUrl remoteUrl)
  record (.probed (deriveAnonymousProbeUrl env.parseUrl remoteUrl) access)
  return access

/-- `assertPrivateRemotes`, from the i-th URL on. -/
def assertPrivateRemotes (trustRemotePrivate : Bool) :
    Nat → List Text → RemoteAccess → Program RemoteAccess
  | _, [], worst => return worst
  | i, remoteUrl :: rest, worst => do
      match ← probe env i remoteUrl with
      | .anonymousReadable => throw (.sync .REMOTE_PUBLIC)
      | .indeterminate reason => do
          throwIf (.sync .REMOTE_VISIBILITY_INDETERMINATE) (trustRemotePrivate = false)
          assertPrivateRemotes trustRemotePrivate (i + 1) rest (.indeterminate reason)
      | .denied _ => assertPrivateRemotes trustRemotePrivate (i + 1) rest worst

/-- The URLs of a named account, the one that is fetched from among them. -/
def assertOwnTargets (opts : PreflightSyncOptions) (pushUrls : List Text) : Program Unit :=
  doIf (opts.githubUser.isSome = true) (do
    let url ← ask env .getUrl (fun w => w.origin.map env.fetchUrl)
    assertTargets env (pushUrls ++ [url]) opts.githubUser)

def preflightSync (opts : PreflightSyncOptions) : Program SyncPreflight := do
  requireOwnDirectory
  createGit env 1 opts.githubUser
  let repo ← ask env .checkIsRepo (fun w => some (isRepo env w))
  throwIf (.sync .NOT_A_REPO) (repo = false)
  let external ← ask env .toplevel (fun w => some (w.git?.isNone || env.externalRoot))
  throwIf (.sync .EXTERNAL_TOPLEVEL) (external = true)
  let rebasing ← activeRebase env .gitPath
  throwIf (.sync .REBASE_IN_PROGRESS) (rebasing = true)
  match ← optional (ask env .symbolicRef (fun w => w.git?.bind (fun git =>
      match git.repo.head with
      | .branch name => some name
      | .detached _ => none))) with
  | none => throw (.sync .DETACHED_HEAD)
  | some branch => do
      let pushUrls ← effectivePushUrls env
      assertOwnTargets env opts pushUrls
      let probe ← assertPrivateRemotes env opts.trustRemotePrivate 0 pushUrls (.denied 0)
      return { branch, pushUrls, probe }

/-! ## Pushing -/

/-- The commit that a branch of the own repository has. -/
def World.branchCommit (w : World) (branch : Text) : Option Nat :=
  w.git?.bind (fun git => git.repo.branches.get? branch)

/-- Push to a URL that takes the branch. -/
def World.deliverTo (w : World) (branch : Text) (url : PushUrl) : World :=
  let repository := env.pushRepository url.text
  match w.branchCommit branch with
  | none => w
  | some id =>
      if fastForwards w.commits (w.remotes repository) branch id then
        { w with
          remotes := Function.update w.remotes repository
            { w.remotes repository with
              branches := (w.remotes repository).branches.set branch id } }
      else w

/-- Push to every URL that is reached; a refusal does not stop the others. -/
def World.deliver (branch : Text) (reached : Nat → Bool) (w : World) : World :=
  (((w.pushUrls env).getD []).zipIdx.filter (fun url => reached url.2)).foldl
    (fun w url => w.deliverTo env branch url.1) w

/-- Some remote does not take the branch, or there is nothing to push. -/
def World.pushFails (w : World) (branch : Text) : Bool :=
  match w.pushUrls env, w.branchCommit branch with
  | some urls, some id => urls.isEmpty || !urls.all (fun url =>
      fastForwards w.commits (w.remotes (env.pushRepository url.text)) branch id)
  | _, _ => true

/-- `git push origin <branch> -u`. -/
def pushOrigin (branch : Text) : Program Unit := do
  let w ← get
  record (.pushed (((w.pushUrls env).getD []).map PushUrl.text))
  command .other (env.fault .push) (World.deliver env branch)
    (fun w => some (w.deliver env branch (fun _ => true)))
  throwIf .other (w.pushFails env branch = true)

/-! ## Syncing -/

/-- `reindexAndMark`: failures of the prewarming are only logged. -/
def reindexAndMark : Program Unit := do
  run env .prewarm some
  run env .openDb some
  run env .reindex (fun w => some { w with indexed := some w.files })
  run env .marker (fun w => some { w with marker := some w.files })

/-- The paths that `git status` lists. -/
def statusFiles (w : World) : List Text :=
  match w.dir?.bind OwnDir.copy? with
  | some copy => copy.status (env.ignored copy.files) w.commits
  | none => []

def isClean (w : World) : Bool := if w.git?.isSome then statusFiles env w = [] else env.outerClean

/-- The refusal to touch uncommitted changes. -/
def refuseDirty (opts : SyncOwnOptions) (c : Command) : Program Unit :=
  doIf (opts.refuseDirty = true) (do
    let clean ← ask env c (fun w => some (isClean env w))
    throwIf (.sync .WORKTREE_DIRTY) (clean = false))

def addAll : Program Unit :=
  run env .add (fun w => w.onCopy (fun copy => some (copy.addAll (env.ignored copy.files))))

def World.commit (w : World) : Option World :=
  w.git?.bind (fun git =>
    let (commits, repo) := commitIndex w.commits git.repo
    (w.onCopy (fun copy => some { copy with repo })).map (fun w => { w with commits }))

def commitAll : Program Unit := do
  addAll env
  run env .commit World.commit

/-- What a rebase leaves in the own directory. -/
def World.rebased (out : Rebased) (rebasing : Option (Text × Nat)) (w : World) : World :=
  match w.dir? with
  | some { files := _, git := some git } =>
      { w with
        own := .directory
          { files := out.files
            git := some
              { repo := { git.repo with
                  branches := out.branches, index := out.index, tracking := out.tracking }
                rebasing } }
        commits := w.commits ++ out.commits }
  | _ => w

/-- `pull --rebase`. -/
def pullRebase : Program Unit := fun w =>
  match w.dir?, w.git?, w.origin with
  | some dir, some git, some url =>
      match env.pull dir w.commits (w.remotes (env.fetchRepository url)) with
      | .done out => .ok () (w.rebased out none)
      | .stopped out => .error .other (w.rebased out (match git.repo.head with
          | .branch name => (git.repo.branches.get? name).map (fun id => (name, id))
          | .detached _ => none))
      | .failed => .error .other w
  | _, _, _ => .error .other w

/-- `rebase --abort`. -/
def abortRebase : Program Unit :=
  run env .abort (fun w => w.git?.bind (fun git => git.rebasing.bind (fun (branch, id) =>
    (w.commits[id]?).bind (fun commit => w.onDir (fun dir =>
      let out := Copy.checkoutTree { files := dir.files, repo := git.repo } commit.tree
      some
        { files := out.files
          git := some { repo := { out.repo with
            head := .branch branch, branches := out.repo.branches.set branch id } } })))))

/-- After a failed pull: a rebase that is active is aborted. -/
def recoverPull : Program Bool := do
  let rebasing ← tryCatch (activeRebase env .pullGitPath) (fun _ => throw .recovery)
  if rebasing = false then throw (remoteFailure env .pull .pull)
  else do
    tryCatch (do
      abortRebase env
      let still ← activeRebase env .abortGitPath
      throwIf .other (still = true)) (fun _ => throw .recovery)
    throw (.sync .SYNC_CONFLICT)

/-- Pull, if the remote has the branch. -/
def pullOwn (branch : Text) : Program Bool := do
  let heads ← remoteOperation env .inspect .lsRemote (ask env .lsRemote (fun w =>
    w.origin.map (fun url => (w.remotes (env.fetchRepository url)).heads branch)))
  if heads = [] then return false
  else tryCatch (do pullRebase env; return true) (fun _ => recoverPull env)

/-- Everything behind the gate. -/
def syncOwnGated (opts : SyncOwnOptions) (preflight : SyncPreflight) (changed : List Text) :
    Program SyncOwnResult := do
  doIf (changed ≠ []) (commitAll env)
  let pulled ← pullOwn env preflight.branch
  refuseDirty env opts .receivedStatus
  reindexAndMark env
  remoteOperation env .push .push (pushOrigin env preflight.branch)
  return { preflight with
    committed := changed ≠ [], pulled, pushed := true, dryRun := false
    changedFiles := changed.length }

def syncOwnLocked (opts : SyncOwnOptions) : Program SyncOwnResult := do
  let preflight ← preflightSync env opts.toPreflightSyncOptions
  createGit env 2 opts.githubUser
  let changed ← ask env .status (fun w => some (statusFiles env w))
  throwIf (.sync .WORKTREE_DIRTY) (opts.refuseDirty = true ∧ changed ≠ [])
  if opts.dryRun then
    return { preflight with
      committed := false, pulled := false, pushed := false, dryRun := true
      changedFiles := changed.length }
  else syncOwnGated env opts preflight changed

def lockRepository (opts : SyncOwnOptions) : Program Unit := do
  run env .commonDir some
  throwIf (.sync .SYNC_BUSY) (env.repoLockFree = false)
  refuseDirty env opts .lockStatus

def syncOwn (opts : SyncOwnOptions) : Program SyncOwnResult := do
  throwIf (.sync .SYNC_BUSY) (opts.heldReindexLock = false ∧ env.reindexLockFree = false)
  requireOwnDirectory
  createGit env 0 opts.githubUser
  let repo ← ask env .checkIsRepo (fun w => some (isRepo env w))
  doIf (repo = true) (lockRepository env opts)
  syncOwnLocked env opts

end Syncing

end Caveat.Sync.Own
