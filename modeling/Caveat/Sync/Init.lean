import Caveat.Sync.Own

/-!
# Initialising the own repository

`initOwnSync` of `sync.ts`. What it has made of `.git` is removed when it throws; the files outside
of `.git` and what has been pushed stay.
-/

namespace Caveat.Sync.Own

open Js Lib Entry Git

def gitignorePath : Text := ".gitignore".toList
def entriesPath : Text := "entries".toList

/-- `KNOWLEDGE_GITIGNORE`. -/
def knowledgeGitignore : Text := joinLines
  ["# Private entries DO sync to your private remote (Caveat-Private) — that is the".toList,
    "# intended sharing boundary. The public boundary is enforced by \x60caveat publish\x60.".toList,
    [],
    "# Obsidian per-user config: workspace layout, theme, plugin state, cache.".toList,
    ".obsidian/".toList,
    [],
    "# Editor / OS scratch files that should never sync.".toList,
    ".DS_Store".toList,
    "*.swp".toList,
    "*~".toList,
    []]

/-- A Markdown file below `entries`. -/
def isEntryPath (path : Text) : Bool :=
  (entriesPath ++ ['/']).isPrefixOf path && (".md".toList).isSuffixOf path

/-- `countMarkdownEntries`. -/
def countMarkdownEntries (files : Files) : Nat := (files.filter (fun f => isEntryPath f.1)).length

section Initialising

variable (env : Env) (opts : InitOwnSyncOptions)

/-- `mkdirSync(ownDir, { recursive: true })`. -/
def makeOwnDir : Program Unit :=
  run env .mkdir (fun w =>
    match w.own with
    | .missing => some { w with own := .directory { files := [], git := none } }
    | .file => none
    | .directory _ => some w)

def scaffold : Program Unit := do
  run env .mkdirEntries (fun w => if w.files.has entriesPath then none else some w)
  let w ← get
  doIf (w.files.has gitignorePath = false) (run env .writeGitignore (fun w => w.onDir (fun dir =>
    some { dir with files := dir.files.write gitignorePath (encodeUtf8 knowledgeGitignore) })))

def isCanonicalScaffold (files : Files) : Bool :=
  (files.get? gitignorePath).any (fun bytes => decodeUtf8 bytes = knowledgeGitignore)

def removeCanonicalScaffoldBeforeCheckout : Program Unit := do
  let w ← get
  doIf (isCanonicalScaffold w.files = true) (run env .removeScaffold (fun w => w.onDir (fun dir =>
    some { dir with files := dir.files.filter (fun f => f.1 ≠ gitignorePath) })))

/-- The repository that `opts.url` is fetched from. -/
def World.remote (w : World) : Remote := w.remotes (env.fetchRepository (unitsOf opts.url))

/-- The branch that HEAD names, if it has a commit, or the first one. -/
def defaultRemoteBranch : Program Text := do
  let symref ← remoteOperation env .inspect .symref (ask env .symref (fun w =>
    let remote := w.remote env opts
    some ((remote.branches.get? remote.head).map (fun _ => remote.head))))
  match symref with
  | some branch => return branch
  | none => do
      let first ← remoteOperation env .inspect .heads (ask env .heads (fun w =>
        some (w.remote env opts).firstHead))
      match first with
      | some branch => return branch
      | none => throw .other

/-- The remote is empty: commit what is there and push it. -/
def importOwn : Program InitOwnSyncResult := do
  scaffold env
  commitAll env
  let branch ← ask env .revparse (fun w => w.git?.bind (fun git =>
    match git.repo.head with
    | .branch name => git.repo.headCommit.map (fun _ => name)
    | .detached _ => git.repo.headCommit.map (fun _ => "HEAD".toList)))
  remoteOperation env .push .push (pushOrigin env branch)
  reindexAndMark env
  return { branch, remoteWasEmpty := true }

/-- Files of a tree that a checkout has written on the way. -/
def World.written (branch : Text) (reached : Nat → Bool) (w : World) : World :=
  let tree := (((w.git?.bind (fun git => git.repo.tracking.get? branch)).bind (w.commits[·]?)).map
    Commit.tree).getD []
  (w.onCopy (fun copy =>
    if copy.inTheWay (env.ignored copy.files) tree = [] then
      let reachedFiles := (tree.zipIdx.filter (fun f => reached f.2)).map Prod.fst
      some { copy with files :=
        reachedFiles ++ copy.files.filter (fun f => !Files.has reachedFiles f.1) }
    else none)).getD w

/-- The remote has branches: check one of them out. -/
def checkoutOwn : Program InitOwnSyncResult := do
  let branch ← defaultRemoteBranch env opts
  remoteOperation env .fetch .fetch (run env .fetch (fun w => w.onCopy (fun copy =>
    (copy.repo.fetch branch (w.remote env opts)).map (fun repo => { copy with repo }))))
  removeCanonicalScaffoldBeforeCheckout env
  command .other (env.fault .checkout) (World.written env branch) (fun w => w.onCopy (fun copy =>
    copy.checkoutTrack (env.ignored copy.files) w.commits branch))
  reindexAndMark env
  return { branch, remoteWasEmpty := false }

/-- The part that is rolled back. -/
def initialise (refs : Refs) : Program InitOwnSyncResult := do
  run env .addRemote (fun w => w.onCopy (fun copy =>
    some { copy with repo := { copy.repo with origin := some (unitsOf opts.url) } }))
  let pushUrls ← effectivePushUrls env
  assertTargets env pushUrls opts.githubUser
  let _ ← assertPrivateRemotes env opts.trustRemotePrivate 0 pushUrls (.denied 0)
  if refs = [] then importOwn env else checkoutOwn env opts

/-- Remove the new `.git`, and throw again. -/
def rollback (e : SyncFailure) : Program InitOwnSyncResult := do
  tryCatch (run env .removeGitDir (fun w => w.onDir (fun dir => some { dir with git := none })))
    (fun _ => throw .recovery)
  throw e

/-- The URL that git fetches from is one of the named account. -/
def assertFetchTarget : Program Unit :=
  doIf (opts.githubUser.isSome = true) (do
    let url ← ask env .lsGetUrl (fun _ => some (env.fetchUrl (unitsOf opts.url)))
    assertTargets env [url] opts.githubUser)

/-- The branches of the remote, if the own directory may be synced with it. -/
def inspectOwn : Program Refs := do
  let refs ← remoteOperation env .inspect .lsRemote (ask env .lsRemote (fun w =>
    some (w.remote env opts).branches))
  let entryCount ← ask env .countEntries (fun w =>
    if w.files.has entriesPath then none else some (countMarkdownEntries w.files))
  throwIf (.sync .BOTH_HAVE_ENTRIES) (refs ≠ [] ∧ 0 < entryCount)
  return refs

def initOwnSync : Program InitOwnSyncResult := do
  assertTargets env [opts.url] opts.githubUser
  makeOwnDir env
  createGit env 0 opts.githubUser
  let repo ← ask env .checkIsRepo (fun w => some (isRepo env w))
  throwIf (.sync .OWN_REPO_EXISTS) (repo = true)
  createGit env 1 opts.githubUser
  assertFetchTarget env opts
  let refs ← inspectOwn env opts
  createGit env 2 opts.githubUser
  run env .init (fun w => w.onDir (fun dir =>
    some { dir with git := some { repo := { head := .branch env.initialBranch } } }))
  tryCatch (initialise env opts refs) (rollback env)

end Initialising

end Caveat.Sync.Own
