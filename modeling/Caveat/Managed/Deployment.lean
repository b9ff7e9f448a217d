import Caveat.Lib.Crash
import Caveat.Managed.Installer

/-!
# Staging and activating a release

A release is a directory below `releases`: a manifest, and a package whose files the manifest lists.
`stage` copies a package next to the releases and renames it there; `activate` writes a pointer to a
release next to the active pointer and renames it over that. Both work under the installer's lock, and
both look at the files before and after.

Every call of the file system is done, fails, or is the last thing that the process does. What is only
looked at (owners, modes, links, access lists) may fail in every look.
-/

namespace Caveat.Managed.Deployment

open Js Lib

/-! ## Releases -/

/-- A file of a package, by its path below the package's root. -/
structure PackageFile where
  path : Units
  content : Bytes
deriving DecidableEq

/-- A directory below `releases`; a package is listed in the order in which it is walked. -/
structure ReleaseDirectory where
  manifest : Option Bytes
  package : List PackageFile
deriving DecidableEq

structure FileRecord where
  path : Units
  sha256 : Units
  bytes : Nat
deriving DecidableEq

inductive DeploymentError where
  | installerBusy
  | invalidManifestPath
  | payloadTooLarge
  | payloadChanged
  | invalidPackage
  | entrySourceChanged
  | entryUpgradeRequiresMigration
  | entryPackageChanged
  | stageCopyChanged
  | invalidRelease
  | invalidPointer
  | manifestTooLarge
  | manifestChanged
  | invalidManifest
  | pointerChanged
  /-- An owner or a mode that is refused, or the error of a call. -/
  | outside
deriving DecidableEq

structure Pointer where
  release : Units
  manifestSha256 : Units
deriving DecidableEq

structure Manifest where
  version : Units
  files : List Json

def maxFiles : Nat := 4096

def maxBytes : Nat := 128 * 1024 * 1024

def maxManifestBytes : Nat := 1024 * 1024

def isDigitUnit (u : UInt16) : Bool := 48 ≤ u.toNat && u.toNat ≤ 57

/-- `/^\d+\.\d+\.\d+$/`. -/
def isVersion (s : Units) : Bool :=
  let parts := s.splitOn (unitOf '.')
  parts.length = 3 && parts.all (fun part => part ≠ [] && part.all isDigitUnit)

/-- `/^\d+\.\d+\.\d+-[a-f0-9]{20}$/`. -/
def isRelease (s : Units) : Bool :=
  let rest := s.dropWhile (· ≠ unitOf '-')
  isVersion (s.takeWhile (· ≠ unitOf '-')) && rest.head? = some (unitOf '-') &&
    rest.tail.length = 20 && rest.tail.all isHexUnit

/-- `safeRelative`. -/
def isSafeRelative (path : Units) : Bool :=
  path ≠ [] && path.head? ≠ some (unitOf '/') && !path.contains (unitOf '\\') &&
    (path.splitOn (unitOf '/')).all (fun part =>
      part ≠ [] && part ≠ [unitOf '.'] && part ≠ [unitOf '.', unitOf '.'])

section Contents

variable (doubles : Doubles) (sha : Sha256)

/-- `inventory`, after the files in `done`. -/
def inventoryFrom (done : List FileRecord) (bytes : Nat) :
    List PackageFile → Except DeploymentError (List FileRecord)
  | [] => .ok done
  | file :: files =>
      let bytes := bytes + file.content.length
      if maxFiles ≤ done.length || maxBytes < bytes then .error .payloadTooLarge
      else if !isSafeRelative file.path then .error .invalidManifestPath
      else inventoryFrom
        (done ++ [⟨file.path, sha.hash file.content, file.content.length⟩]) bytes files

def inventory (package : List PackageFile) : Except DeploymentError (List FileRecord) :=
  inventoryFrom sha [] 0 package

def FileRecord.json (r : FileRecord) : Json :=
  .object [unitsField "path".toList r.path, unitsField "sha256".toList r.sha256,
    (unitsOf "bytes".toList, .number (.finite r.bytes))]

/-- `JSON.stringify(files)`. -/
def filesText (files : List Json) : Text := stringify doubles (.array files)

def recordsText (records : List FileRecord) : Text := filesText doubles (records.map FileRecord.json)

/-- `JSON.stringify(manifest) + '\n'`. -/
def manifestBytes (version : Units) (files : List FileRecord) : Bytes :=
  line doubles
    [(unitsOf "schema".toList, .number (.finite (1 : Nat))), unitsField "version".toList version,
      (unitsOf "files".toList, .array (files.map FileRecord.json))]

/-- `JSON.stringify(pointer) + '\n'`. -/
def pointerObject (pointer : Pointer) : JsObject :=
  [(unitsOf "schema".toList, .number (.finite (1 : Nat))),
    unitsField "release".toList pointer.release,
    unitsField "manifestSha256".toList pointer.manifestSha256]

def pointerBytes (pointer : Pointer) : Bytes := line doubles (pointerObject pointer)

/-- An object, as `JSON.parse` gives it. -/
def readObject (bytes : Bytes) : Option JsObject :=
  match parseJson doubles.round (decodeUtf8 bytes) with
  | some (.object members) => some (properties members)
  | _ => none

def pointerNames : List Text := ["manifestSha256".toList, "release".toList, "schema".toList]

/-- A pointer of the right fields; one whose values are no strings is refused when it is checked. -/
def readPointer (bytes : Bytes) : Except DeploymentError Pointer :=
  match readObject doubles bytes with
  | none => .error .invalidPointer
  | some value =>
      if !value.hasKeys pointerNames then .error .invalidPointer
      else if !value.isNat "schema".toList 1 then .error .invalidPointer
      else
        match value.string "release".toList, value.string "manifestSha256".toList with
        | some release, some manifestSha256 => .ok ⟨release, manifestSha256⟩
        | _, _ => .error .invalidPointer

def JsObject.array (v : JsObject) (name : Text) : Option (List Json) :=
  match v.get name with
  | some (.array items) => some items
  | _ => none

/-- The manifest of a release, for a pointer's release. -/
def readManifest (release : Units) (bytes : Bytes) : Except DeploymentError Manifest :=
  match readObject doubles bytes with
  | none => .error .invalidManifest
  | some value =>
      match value.string "version".toList, JsObject.array value "files".toList with
      | some version, some files =>
          if value.isNat "schema".toList 1 && isVersion version &&
              (version ++ [unitOf '-']).isPrefixOf release && files.length ≤ maxFiles then
            .ok ⟨version, files⟩
          else .error .invalidManifest
      | _, _ => .error .invalidManifest

def packageName : Units := unitsOf "caveat-cli".toList

def cliPath : Units := unitsOf "dist/caveat.js".toList

def packageJson : Units := unitsOf "package.json".toList

def fileAt (package : List PackageFile) (path : Units) : Option Bytes :=
  (package.find? (fun file => file.path = path)).map (·.content)

/-- `pkg.version`, where the package is the CLI's. -/
def readPackage (bytes : Bytes) : Except DeploymentError Units :=
  match readObject doubles bytes with
  | none => .error .invalidPackage
  | some value =>
      match value.string "name".toList, value.string "version".toList, value.get "bin".toList with
      | some name, some version, some (.object bin) =>
          let bin : JsObject := properties bin
          if name = packageName && bin.string "caveat".toList = some cliPath then .ok version
          else .error .invalidPackage
      | _, _, _ => .error .invalidPackage

/-- `checkReleaseMetadata`. -/
def checkReleaseMetadata (dir : ReleaseDirectory) (pointer : Pointer) :
    Except DeploymentError Manifest :=
  if !(isRelease pointer.release && isDigest pointer.manifestSha256) then .error .invalidPointer
  else
    match dir.manifest with
    | none => .error .outside
    | some bytes =>
        if maxManifestBytes < bytes.length then .error .manifestTooLarge
        else if sha.hash bytes ≠ pointer.manifestSha256 then .error .manifestChanged
        else
          match readManifest doubles pointer.release bytes with
          | .error e => .error e
          | .ok manifest =>
              if (fileAt dir.package cliPath).isNone then .error .outside else .ok manifest

/-- `checkRelease`. -/
def checkRelease (dir : ReleaseDirectory) (pointer : Pointer) : Except DeploymentError Manifest := do
  let manifest ← checkReleaseMetadata doubles sha dir pointer
  let records ← inventory sha dir.package
  if recordsText doubles records ≠ filesText doubles manifest.files then .error .payloadChanged
  else
    match fileAt dir.package packageJson with
    | none => .error .outside
    | some bytes =>
        match readPackage doubles bytes with
        | .error e => .error e
        | .ok version =>
            if version ≠ manifest.version then .error .invalidPackage else .ok manifest

end Contents

/-! ## The root -/

/-- The files below the managed root. -/
structure Disk where
  entry : Text → Option Bytes
  releases : Units → Option ReleaseDirectory
  pointer : Option Bytes
  lock : Option Bytes
  /-- Pointers that are being written, and invalid ones that were kept. -/
  temporaries : Units → Option Bytes

inductive Call where
  | capability
  | source
  | root
  | openLock
  | writeLock
  | inspectEntry
  | lookEntry (name : Text)
  | writeEntry (name : Text)
  | makeStaging
  | copyPackage
  | sealCopy
  | inspectCopy
  | writeManifest
  | sealTree
  | publish
  | removeStaging
  | readManifest
  | check
  | readPointer
  | checkPrevious
  | keepInvalid
  | openTemporary
  | writeTemporary
  | verifyRoot
  | readPointerAgain
  | commit
  | removeTemporary
  | removeLock
deriving DecidableEq

/-- A process that stages or activates, and what becomes of its calls. -/
structure Session where
  pid : Installer.Pid
  startedAt : Units
  /-- `randomBytes(8).toString('hex')`. -/
  token : Units
  fate : Call → Fate Nat

abbrev Deploy := Process DeploymentError Disk

def Session.look (p : Session) (c : Call) (read : Disk → Except DeploymentError α) : Deploy α :=
  Lib.look .outside (p.fate c) read

def Session.call (p : Session) (c : Call) (leave : Nat → Disk → Disk)
    (effect : Disk → Option Disk) : Deploy Unit :=
  Lib.call .outside (p.fate c) leave effect

/-- A look in which only something from outside can be wrong. -/
def Session.ensure (p : Session) (c : Call) : Deploy Unit := p.look c (fun _ => .ok ())

/-- `<prefix><pid>-<token>`. -/
def Session.named (p : Session) (start : Text) : Units :=
  unitsOf (start ++ ofNat p.pid.val ++ ['-']) ++ p.token

section Programs

variable (doubles : Doubles) (sha : Sha256) (p : Session)

/-- `withInstallerLock`. -/
def withInstallerLock (body : Deploy α) : Deploy α := do
  p.ensure .root
  let d ← get
  atomic (if d.lock.isSome then .installerBusy else .outside) (p.fate .openLock)
    (fun d => if d.lock.isSome then none else some { d with lock := some [] })
  finallyDo
    (do
      let bytes := Installer.lockBytes doubles p.pid p.startedAt
      p.call .writeLock (fun n d => { d with lock := some (bytes.take n) })
        (fun d => some { d with lock := some bytes })
      body)
    (p.call .removeLock (fun _ d => d)
      (fun d => if d.lock.isSome then some { d with lock := none } else none))

/-- `checkRelease`, of what is on the disk. -/
def Disk.check (d : Disk) (pointer : Pointer) : Except DeploymentError Manifest :=
  match d.releases pointer.release with
  | none => .error .outside
  | some dir => checkRelease doubles sha dir pointer

/-! ### Staging -/

/-- What is read of a package that is staged: in the inventory, and again where it is copied. -/
structure StageSource where
  package : List PackageFile
  entryPackage : List PackageFile
  asset : Text → Option Bytes
  copied : List PackageFile

/-- What `readStageSource` returns. -/
structure Staging where
  files : List FileRecord
  version : Units
  assets : List (Text × Bytes)

def entrySources : List (Text × Text) :=
  [("caveat.mjs".toList, "stable-entry.mjs".toList),
    ("managed-deployment.js".toList, "managed-deployment.js".toList)]

def moduleType : Text := "package.json".toList

def moduleTypeBytes : Bytes := encodeUtf8 "\x7b\"type\":\"module\"\x7d\n".toList

/-- The files below `entry`. -/
def entryNames : List Text := entrySources.map Prod.fst ++ [moduleType]

def readAsset (source : StageSource) (entryFiles : List FileRecord) (names : Text × Text) :
    Except DeploymentError (Text × Bytes) :=
  match source.asset names.2 with
  | none => .error .outside
  | some bytes =>
      let path := unitsOf ("dist/".toList ++ names.2)
      let record := entryFiles.find? (fun file => file.path = path)
      if record.map (·.sha256) ≠ some (sha.hash bytes) then .error .entrySourceChanged
      else .ok (names.1, bytes)

/-- `readStageSource`. -/
def readStageSource (source : StageSource) : Except DeploymentError Staging := do
  let files ← inventory sha source.package
  let entryFiles ← inventory sha source.entryPackage
  match fileAt source.package packageJson with
  | none => .error .outside
  | some bytes =>
      let version ← readPackage doubles bytes
      if !isVersion version then .error .invalidPackage
      else
        let assets ← entrySources.mapM (readAsset sha source entryFiles)
        .ok ⟨files, version, assets⟩

def Staging.manifest (s : Staging) : Bytes := manifestBytes doubles s.version s.files

/-- `<version>-<the start of the manifest's hash>`. -/
def Staging.release (s : Staging) : Units :=
  s.version ++ unitOf '-' :: (sha.hash (s.manifest doubles)).take 20

def legacyEntryHashes : List (Text × Units) :=
  [("caveat.mjs".toList,
      unitsOf "6e39713485eec74d8348f9a20d6b720c8a47ea5b7c485348953ca96031f284d8".toList),
    ("managed-deployment.js".toList,
      unitsOf "553762cc5e180c0da3ef856150530e9b7ba225ed0a6537afd1fd6e07aceab738".toList)]

/-- `usesPublishedLegacyEntry`, for a root that is the legacy one or not. -/
def Disk.keepsLegacy (legacyRoot : Bool) (d : Disk) : Bool :=
  legacyRoot && legacyEntryHashes.all (fun row =>
    (d.entry row.1).any (fun bytes => sha.hash bytes = row.2))

def assetKept (keep : Bool) (d : Disk) (asset : Text × Bytes) : Except DeploymentError Unit :=
  if keep || (d.entry asset.1).all (fun bytes => bytes = asset.2) then .ok ()
  else .error .entryUpgradeRequiresMigration

def typeKept (d : Disk) : Except DeploymentError Unit :=
  if (d.entry moduleType).all (fun bytes => bytes = moduleTypeBytes) then .ok ()
  else .error .entryPackageChanged

/-- `inspectEntryProtocol`. -/
def inspectEntryProtocol (legacyRoot : Bool) (assets : List (Text × Bytes)) (d : Disk) :
    Except DeploymentError Bool := do
  let keep := d.keepsLegacy sha legacyRoot
  for asset in assets do
    assetKept keep d asset
  typeKept d
  return keep

def Disk.setEntry (d : Disk) (name : Text) (bytes : Bytes) : Disk :=
  { d with entry := Function.update d.entry name (some bytes) }

@[simp] theorem setEntry_self (d : Disk) (name : Text) (bytes : Bytes) :
    (d.setEntry name bytes).entry name = some bytes := Function.update_self ..

theorem setEntry_of_ne (d : Disk) {name n : Text} (h : n ≠ name) (bytes : Bytes) :
    (d.setEntry name bytes).entry n = d.entry n := Function.update_of_ne h ..

/-- A file below `entry`: it is kept as it is, or written. -/
def provideEntry (kept : Disk → Except DeploymentError Unit) (name : Text) (bytes : Bytes) :
    Deploy Unit := do
  let d ← get
  if (d.entry name).isSome then p.look (.lookEntry name) kept
  else
    p.call (.writeEntry name) (fun n d => d.setEntry name (bytes.take n))
      (fun d => some (d.setEntry name bytes))

def Disk.setRelease (d : Disk) (name : Units) (dir : Option ReleaseDirectory) : Disk :=
  { d with releases := Function.update d.releases name dir }

@[simp] theorem setRelease_self (d : Disk) (name : Units) (dir : Option ReleaseDirectory) :
    (d.setRelease name dir).releases name = dir := Function.update_self ..

theorem setRelease_of_ne (d : Disk) {name n : Units} (h : n ≠ name)
    (dir : Option ReleaseDirectory) : (d.setRelease name dir).releases n = d.releases n :=
  Function.update_of_ne h ..

/-- A change of a directory below `releases`, where it is there. -/
def Disk.inRelease (d : Disk) (name : Units) (f : ReleaseDirectory → ReleaseDirectory) : Disk :=
  d.setRelease name ((d.releases name).map f)

def stagingName : Units := p.named ".stage-".toList

def copyChecked (files : List FileRecord) (staging : Units) (d : Disk) :
    Except DeploymentError Unit :=
  match d.releases staging with
  | none => .error .outside
  | some dir =>
      match inventory sha dir.package with
      | .error e => .error e
      | .ok records =>
          if recordsText doubles records ≠ recordsText doubles files then .error .stageCopyChanged
          else .ok ()

/-- The copy of a package, and its way to its place. -/
def copyRelease (source : StageSource) (s : Staging) : Deploy Unit := do
  let staging := stagingName p
  p.call .makeStaging (fun _ d => d) (fun d =>
    if (d.releases staging).isSome then none else some (d.setRelease staging (some ⟨none, []⟩)))
  finallyDo
    (do
      p.call .copyPackage
        (fun n d => d.inRelease staging (fun dir => { dir with package := source.copied.take n }))
        (fun d => some (d.inRelease staging (fun dir => { dir with package := source.copied })))
      p.ensure .sealCopy
      p.look .inspectCopy (copyChecked doubles sha s.files staging)
      p.call .writeManifest
        (fun n d => d.inRelease staging (fun dir =>
          { dir with manifest := some ((s.manifest doubles).take n) }))
        (fun d => some (d.inRelease staging (fun dir =>
          { dir with manifest := some (s.manifest doubles) })))
      p.ensure .sealTree
      atomic .outside (p.fate .publish) (fun d =>
        (d.releases staging).map (fun dir =>
          (d.setRelease (s.release doubles sha) (some dir)).setRelease staging none)))
    (p.call .removeStaging
      (fun n d => d.inRelease staging (fun dir => { dir with package := dir.package.drop n }))
      (fun d => some (d.setRelease staging none)))

/-- What staging does under the lock. -/
def stageRelease (legacyRoot : Bool) (source : StageSource) (s : Staging) : Deploy Units := do
  let keep ← p.look .inspectEntry (inspectEntryProtocol sha legacyRoot s.assets)
  forEach (fun asset => provideEntry p (fun d => assetKept keep d asset) asset.1 asset.2) s.assets
  provideEntry p typeKept moduleType moduleTypeBytes
  let d ← get
  doIf ((d.releases (s.release doubles sha)).isNone = true) (copyRelease doubles sha p source s)
  let _ ← p.look .check (fun d =>
    d.check doubles sha ⟨s.release doubles sha, sha.hash (s.manifest doubles)⟩)
  return s.release doubles sha

/-- `stageManagedDeployment`. -/
def stageManagedDeployment (legacyRoot : Bool) (source : StageSource) : Deploy Units := do
  p.ensure .capability
  let s ← p.look .source (fun _ => readStageSource doubles sha source)
  withInstallerLock doubles p (stageRelease doubles sha p legacyRoot source s)

/-! ### Activation -/

def Disk.setTemporary (d : Disk) (name : Units) (bytes : Option Bytes) : Disk :=
  { d with temporaries := Function.update d.temporaries name bytes }

/-- `writeFileSync(.., { flag: 'wx' })` of a file beside the pointer. -/
def Session.create (c : Call) (name : Units) (bytes : Bytes) : Deploy Unit :=
  p.call c (fun n d => d.setTemporary name (some (bytes.take n)))
    (fun d => if (d.temporaries name).isSome then none else some (d.setTemporary name (some bytes)))

def invalidName : Units := unitsOf ".invalid-active-".toList ++ p.token ++ unitsOf ".json".toList

/-- What was active: its pointer must be in order, or it is kept aside. -/
def inspectPrevious (recoverInvalidPointer : Bool) : Deploy (Option Pointer) := do
  let d ← get
  match d.pointer with
  | none => return none
  | some bytes =>
      p.ensure .readPointer
      tryCatch
        (p.look .checkPrevious (fun d => do
          let previous ← readPointer doubles bytes
          let _ ← d.check doubles sha previous
          return some previous))
        (fun stop =>
          match stop with
          | .died => throw .died
          | .threw e =>
              if recoverInvalidPointer then do
                p.create .keepInvalid (invalidName p) bytes
                return none
              else throw (.threw e))

/-- What `activateManagedDeployment` returns. -/
structure Activation where
  release : Units
  version : Units
  previousRelease : Option Units

def temporaryName : Units := p.named ".active-".toList

/-- The pointer is written next to the active one and renamed over it. -/
def commitPointer (previousBytes : Option Bytes) (next : Pointer) : Deploy Unit :=
  let temporary := temporaryName p
  finallyDo
    (do
      p.create .openTemporary temporary []
      p.call .writeTemporary
        (fun n d => d.setTemporary temporary (some ((pointerBytes doubles next).take n)))
        (fun d => some (d.setTemporary temporary (some (pointerBytes doubles next))))
      p.ensure .verifyRoot
      p.look .readPointerAgain (fun d =>
        if d.pointer ≠ previousBytes then .error .pointerChanged else .ok ())
      atomic .outside (p.fate .commit) (fun d =>
        (d.temporaries temporary).map (fun bytes =>
          { d.setTemporary temporary none with pointer := some bytes })))
    (p.call .removeTemporary (fun _ d => d) (fun d => some (d.setTemporary temporary none)))

def readManifestBytes (release : Units) (d : Disk) : Except DeploymentError Bytes :=
  match (d.releases release).bind (·.manifest) with
  | none => .error .outside
  | some bytes => .ok bytes

/-- What activation does under the lock. -/
def activateRelease (release : Units) (recoverInvalidPointer : Bool) : Deploy Activation := do
  throwIf (.threw .invalidRelease) (isRelease release = false)
  let bytes ← p.look .readManifest (readManifestBytes release)
  let next : Pointer := ⟨release, sha.hash bytes⟩
  let manifest ← p.look .check (fun d => d.check doubles sha next)
  let d ← get
  let previous ← inspectPrevious doubles sha p recoverInvalidPointer
  commitPointer doubles p d.pointer next
  return ⟨release, manifest.version, previous.map (·.release)⟩

/-- `activateManagedDeployment`. -/
def activateManagedDeployment (release : Units) (recoverInvalidPointer : Bool) :
    Deploy Activation := do
  p.ensure .capability
  withInstallerLock doubles p (activateRelease doubles sha p release recoverInvalidPointer)

end Programs

end Caveat.Managed.Deployment
