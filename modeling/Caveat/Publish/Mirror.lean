import Caveat.Git.Repo
import Caveat.Lib.Effect
import Caveat.Publish.Collect

/-!
# Publishing to the mirror

`publishOwn` as a program over the mirror, the remote, the commits and the file of allowed digests.
Every command to git and every write to the mirror may fail, before it has done anything, after it
has done all, or on the way with any files left in the mirror. What is only logged is left out.
-/

namespace Caveat.Publish

open Js Lib Entry Sealed Git

def bundleRelPath : Text := "bundle/entries.caveat".toList
def readmeRelPath : Text := "README.md".toList
def tmpBranch : Text := "caveat-publish-tmp".toList

/-! ## The world -/

/-- `.caveat-publish-allow.json`: the strings of its `allow` array, if it has one. -/
inductive AllowFile where
  | absent
  | malformed
  | allow (digests : List Units)
deriving DecidableEq

structure World where
  mirror : Option Copy
  remote : Remote
  commits : List Commit
  allowFile : AllowFile

/-- Where a command may fail. -/
inductive Command where
  | clone | getUrl | fetch | originHead | resolveHead | resetHard | clean | localBranch | remoteHead
  | remoteSha | localSha | detach | deleteTmp | orphan | removeItems | writeReadme | writeBundle
  | readTree | addAll | commit | renameBranch | revList | push | gc | saveAllow
deriving DecidableEq

inductive PublishError where
  | noTarget
  | noKeyserver
  | invalidEntries (invalid : List PublishInvalid)
  | allowFile
  | blocked (findings : List ScanFinding)
  | keyserverUrl
  | key
  | sealing (e : SealedBundleError)
  | entry (e : EntryError)
  | command (c : Command)
  | otherTarget (url : Units)
  | notInteractive
  | cancelled
  | mirrorTree (files : List Text)
  | readmeChanged
  | bundleChanged
  | notPublic (relPaths : List Units)
  | history (count : Nat)

structure PublishOwnOptions where
  publishTarget : Units
  sealedKeyserverUrl : Units
  sealedKeyId : Units
  isTty : Bool
  confirm : Bool
  dryRun : Bool
  yes : Bool
  allow : List Units
  saveAllow : Bool

structure PublishResult where
  fileCount : Nat
  changed : Bool
  dryRun : Bool
deriving DecidableEq

/-- What the outside decides. -/
structure Env where
  host : Host
  doubles : Doubles
  crypto : Crypto
  round : Rat → JsNumber
  sha256 : Bytes → Units
  normalizeKeyserverUrl : Units → Option Units
  /-- The content key for a key id and a keyserver, if it can be had. -/
  key : Units → Units → Option Bytes
  selfIdentity : List Units
  ignored : Text → Bool
  fault : Command → Option (Fault Files)

abbrev Program := EStateM PublishError World

/-- `Except` in a program. -/
def ofExcept {ε α : Type} (wrap : ε → PublishError) : Except ε α → Program α
  | .ok a => pure a
  | .error e => throw (wrap e)

def ofOption {α : Type} (e : PublishError) : Option α → Program α
  | some a => pure a
  | none => throw e

/-- Other files in the mirror. -/
def World.withFiles (files : Files) (w : World) : World :=
  { w with mirror := w.mirror.map (fun copy => { copy with files }) }

/-- A change of the mirror, if there is one. -/
def World.onMirror (f : Copy → Option Copy) (w : World) : Option World :=
  (w.mirror.bind f).map (fun copy => { w with mirror := some copy })

section Publishing

variable (env : Env)

/-- A command that may fail. -/
def run (c : Command) (effect : World → Option World) : Program Unit :=
  command (.command c) (env.fault c) World.withFiles effect

/-- A question that may fail. -/
def ask {α : Type} (c : Command) (read : World → Option α) : Program α :=
  query (.command c) (env.fault c).isSome read

/-- A question whose failure is no answer. -/
def askOr {α : Type} (c : Command) (read : World → Option α) : Program (Option α) :=
  tryCatch (do let a ← ask env c read; return some a) (fun _ => return none)

/-- `command.catch(() => '')`. -/
def attempt (x : Program Unit) : Program Unit := tryCatch x (fun _ => return ())

/-! ## Approvals -/

/-- `DIGEST_RE`. -/
def isDigest (s : Units) : Bool :=
  s.length = 64 && s.all (fun u => isDigitUnit u || between 'a' 'f' u)

def loadPublishAllow : Program (List Units) := do
  match (← get).allowFile with
  | .absent => return []
  | .malformed => throw .allowFile
  | .allow digests => return digests.filter isDigest

/-- The order of strings by their code units. -/
def unitsLe : Units → Units → Bool
  | [], _ => true
  | _ :: _, [] => false
  | a :: as, b :: bs => a.toNat < b.toNat || (a = b && unitsLe as bs)

def sortUnits (strings : List Units) : List Units :=
  strings.insertionSort (fun a b => unitsLe a b = true)

def savePublishAllow (digests : List Units) : Program Unit := do
  let existing ← loadPublishAllow
  let merged := (digests.filter isDigest).foldl
    (fun all digest => if all.contains digest then all else all ++ [digest]) existing.eraseDups
  command (.command .saveAllow) (env.fault .saveAllow) (fun _ w => { w with allowFile := .malformed })
    (fun w => some { w with allowFile := .allow (sortUnits merged) })

/-! ## The mirror -/

/-- Clone the target, or see that the mirror is a clone of it. -/
def openMirror (target : Units) : Program Unit := do
  let w ← get
  if w.mirror.isNone then
    run env .clone (fun w => some { w with mirror := some (cloneOf w.commits w.remote target) })
  else do
    let old ← ask env .getUrl (fun w => w.mirror.bind (fun copy => copy.repo.origin))
    throwIf (.otherTarget old) (old ≠ target)

/-- `reset --hard`, if there is something to reset to. -/
def resetMirror : Option Nat → Program Unit
  | none => return ()
  | some id =>
      run env .resetHard (fun w => w.onMirror (fun copy => (w.commits[id]?).map (fun commit =>
        let reset := copy.checkoutTree commit.tree
        { reset with repo := reset.repo.moveHead id })))

def preparePublishMirror (target : Units) : Program Unit := do
  openMirror env target
  run env .fetch (fun w => w.onMirror (fun copy =>
    some { copy with repo := { copy.repo with tracking := w.remote.branches } }))
  let head ← askOr env .originHead (fun w => w.mirror.bind (fun copy => copy.repo.trackingHead))
  let resolved ← askOr env .resolveHead (fun w => w.mirror.bind (fun copy =>
    head.bind (fun name => copy.repo.tracking.get? name)))
  resetMirror env resolved
  run env .clean (fun w => w.onMirror (fun copy => some copy.clean))

/-- The branch that the remote's HEAD names. -/
def remoteHeadBranch : Program Text := do
  let name ← askOr env .remoteHead (fun w =>
    (w.remote.branches.get? w.remote.head).map (fun _ => w.remote.head))
  return name.getD "main".toList

def currentBranch : Program Text := do
  let name ← askOr env .localBranch (fun w => w.mirror.bind (fun copy =>
    match copy.repo.head with
    | .branch name => some name
    | .detached _ => none))
  match name with
  | some name => if name ≠ tmpBranch then return name else remoteHeadBranch env
  | none => remoteHeadBranch env

/-- The commit of the first ref of the remote that a name matches. -/
def lsRemote (remote : Remote) (name : Text) : Option Nat :=
  (remote.branches.find? (fun r => r.1 = name || ('/' :: name).isSuffixOf r.1)).map Prod.snd

structure ExistingMirror where
  readme : Option Units
  bundle : Option Bytes

def readExistingMirror : Program ExistingMirror := do
  let files := ((← get).mirror.map Copy.files).getD []
  return { readme := (files.get? readmeRelPath).map (fun bytes => unitsOf (decodeUtf8 bytes))
           bundle := files.get? bundleRelPath }

def checkoutOrphan : Program Unit := do
  attempt (run env .detach (fun w => w.onMirror (fun copy => copy.repo.headCommit.map (fun id =>
    { copy with repo := { copy.repo with head := .detached id } }))))
  attempt (run env .deleteTmp (fun w => w.onMirror (fun copy =>
    if copy.repo.head = .branch tmpBranch || (copy.repo.branches.get? tmpBranch).isNone then none
    else some { copy with repo :=
      { copy.repo with branches := copy.repo.branches.delete tmpBranch } })))
  run env .orphan (fun w => w.onMirror (fun copy =>
    if (copy.repo.branches.get? tmpBranch).isSome then none
    else some { copy with repo := { copy.repo with head := .branch tmpBranch } }))

def writeSealedMirror (bundle : Bytes) (readme : Units) : Program Unit := do
  run env .removeItems (fun w => w.onMirror (fun copy => some { copy with files := [] }))
  run env .writeReadme (fun w => w.onMirror (fun copy =>
    some { copy with files := copy.files.write readmeRelPath (toUtf8 readme) }))
  run env .writeBundle (fun w => w.onMirror (fun copy =>
    some { copy with files := copy.files.write bundleRelPath bundle }))

/-- The files of the mirror with `/` for `\`, sorted. -/
def mirrorTree (files : Files) : List Units :=
  sortUnits (files.map (fun f => unitsOf (f.1.map (fun c => if c = '\\' then '/' else c))))

/-- The files of a bundle that are not public entries. -/
def notPublic (files : List BundleFile) : List Units :=
  (files.filter (fun file =>
    match parseMarkdown env.host (decodeUtf8 file.content) with
    | .ok parsed =>
        classifyVisibility (parsed.frontmatter.get "visibility".toList) ≠ .pub
    | .error _ => true)).map BundleFile.relPath

def verifySealedMirror (bundle contentKey : Bytes) (expectedFileCount : Nat) (readme : Units) :
    Program Nat := do
  let files ← ask env .readTree (fun w => w.mirror.map Copy.files)
  throwIf (.mirrorTree (files.map Prod.fst))
    (mirrorTree files ≠ [unitsOf readmeRelPath, unitsOf bundleRelPath])
  let diskReadme ← ofOption (.command .readTree) (files.get? readmeRelPath)
  throwIf .readmeChanged (unitsOf (decodeUtf8 diskReadme) ≠ readme)
  let diskBundle ← ofOption (.command .readTree) (files.get? bundleRelPath)
  throwIf .bundleChanged (diskBundle ≠ bundle)
  let unsealed ← ofExcept .sealing (unsealBundle env.crypto env.round diskBundle contentKey)
  throwIf (.notPublic (notPublic env unsealed.files))
    (notPublic env unsealed.files ≠ [] ∨ unsealed.files.length ≠ expectedFileCount)
  return unsealed.files.length

def commitSealedMirror (branch : Text) : Program Unit := do
  run env .addAll (fun w => w.onMirror (fun copy => some (copy.addAll env.ignored)))
  run env .commit (fun w => w.mirror.map (fun copy =>
    let (commits, repo) := commitIndex w.commits copy.repo
    { w with commits, mirror := some { copy with repo } }))
  run env .renameBranch (fun w => w.onMirror (fun copy =>
    (copy.repo.renameBranch branch).map (fun repo => { copy with repo })))
  let count ← ask env .revList (fun w => w.mirror.bind (fun copy =>
    revisionCount w.commits copy.repo))
  throwIf (.history count) (count ≠ 1)
  run env .push (fun w => w.mirror.bind (fun copy =>
    (pushBranch copy.repo branch w.remote).map (fun remote => { w with remote })))
  attempt (run env .gc some)

/-! ## Publishing -/

variable (opts : PublishOwnOptions)

/-- The files to publish, once the scan finds nothing that blocks them. -/
def publishableFiles (walk : List EntryFile) : Program (List PublishFile) := do
  throwIf .noTarget (opts.publishTarget = [])
  throwIf .noKeyserver (opts.sealedKeyserverUrl = [])
  let collected := collectPublishSet env.host walk
  throwIf (.invalidEntries collected.invalid) (collected.invalid ≠ [])
  let stored ← loadPublishAllow
  let scan := scanPublishFiles env.doubles env.sha256 env.selfIdentity (stored ++ opts.allow)
    collected.files
  doIf (opts.saveAllow = true ∧ opts.allow ≠ []) (savePublishAllow env opts.allow)
  throwIf (.blocked scan.blocking) (scan.blocking ≠ [])
  return collected.files

/-- What is written to the mirror, and the key it is sealed with. -/
structure SealedMirror where
  contentKey : Bytes
  bundle : Bytes
  readme : Units

/-- `keyserver:${sealedKeyId}`. -/
def keyIdOf : Units := unitsOf "keyserver:".toList ++ opts.sealedKeyId

def sealFiles (files : List PublishFile) : Program SealedMirror := do
  let keyserverUrl ← ofOption .keyserverUrl (env.normalizeKeyserverUrl opts.sealedKeyserverUrl)
  let contentKey ← ofOption .key (env.key (keyIdOf opts) keyserverUrl)
  let bundle ← ofExcept .sealing
    (sealBundle env.crypto (files.map PublishFile.bundled) contentKey (keyIdOf opts) keyserverUrl)
  let readme ← ofExcept .entry (buildSealedReadme env.host files.length files)
  return { contentKey, bundle, readme }

/-- Ask before anything is written. -/
def confirmPublish : Program Unit := doIf (opts.yes = false) (do
  throwIf .notInteractive (opts.isTty = false)
  throwIf .cancelled (opts.confirm = false))

/-- Replace the mirror by one commit and push it. -/
def publishSealed (branch : Text) (fileCount : Nat) (out : SealedMirror) : Program PublishResult := do
  confirmPublish opts
  checkoutOrphan env
  writeSealedMirror env out.bundle out.readme
  let verified ← verifySealedMirror env out.bundle out.contentKey fileCount out.readme
  commitSealedMirror env branch
  return { fileCount := verified, changed := true, dryRun := false }

def publishOwn (walk : List EntryFile) : Program PublishResult := do
  let files ← publishableFiles env opts walk
  let out ← sealFiles env opts files
  preparePublishMirror env opts.publishTarget
  let branch ← currentBranch env
  let existing ← readExistingMirror
  let contentChanged := existing.bundle ≠ some out.bundle || existing.readme ≠ some out.readme
  let remoteSha ← askOr env .remoteSha (fun w => lsRemote w.remote branch)
  let localSha ← askOr env .localSha (fun w => w.mirror.bind (fun copy => copy.repo.headCommit))
  let remoteMatchesLocal := remoteSha.isSome && remoteSha = localSha
  if !contentChanged && remoteMatchesLocal then
    return { fileCount := files.length, changed := false, dryRun := opts.dryRun }
  else if opts.dryRun then return { fileCount := files.length, changed := true, dryRun := true }
  else publishSealed env opts branch files.length out

end Publishing

end Caveat.Publish
