import Caveat.Managed.Journal
import Caveat.Managed.Tree
import Caveat.Lib.Agenda

/-!
# The model of a global recovery

A recovery takes what a migration left back to the originals: it retires the generated files, then
the working copies, and restores the originals, the package first. `nextAction` says what comes next.
A record of a confirmed move is applied to the model when it is the record of that action.

A list of generated files has the shell's manifest at its end, and is kept as the files and the
manifest. What is due is asked of a subject, which is a place in one of the lists.
-/

namespace Caveat.Managed.Recovery

open Js Lib

/-! ## Evidence -/

inductive Role where
  | package
  | npmManagement
  | leaf
deriving DecidableEq

inductive ObjectState where
  | original
  | preserved
  | restored
  | unknown
deriving DecidableEq

inductive WorkingStatus where
  | known
  | afterKnown
  | absent
  | quarantined
  | unknown
  | released
deriving DecidableEq

structure Working where
  status : WorkingStatus
  rows : Option Rows
  stagingName : Text
deriving DecidableEq

/-- An object of the original manifest. -/
structure EvidenceObject where
  step : Text
  role : Role
  directory : Text
  name : Text
  backupDirectory : Text
  backupName : Text
  state : ObjectState
  working : Option Working
  rows : Rows

inductive GeneratedStatus where
  | absent
  | installed
  | quarantined
  | unknown
deriving DecidableEq

/-- An object of the shell state. -/
structure ShellObject where
  name : Text
  backupName : Text
  status : GeneratedStatus
  rows : Option Rows

structure ShellState where
  files : List ShellObject
  manifest : ShellObject

structure Leaf where
  name : Text
  identity : Option GlobalGuardIdentity

/-- What a recovery uses of a migration plan. -/
structure MigrationPlan where
  root : Text
  globalRoot : Text
  binDirectory : Text
  leaves : List Leaf
  /-- The plan lists the original objects. -/
  originalObjects : Bool

structure GlobalMigrationEvidence where
  plan : MigrationPlan
  evidenceSha256 : Text
  objects : List EvidenceObject
  shell : Option ShellState

/-- `name.replaceAll('.', '-')`. -/
def dashed (name : Text) : Text := name.map (fun c => if c = '.' then '-' else c)

def leafNames : List Text := ["caveat".toList, "caveat.cmd".toList, "caveat.ps1".toList]

/-- The scope of an original object. -/
inductive InScope (plan : MigrationPlan) (o : EvidenceObject) : Prop where
  | package : o.role = .package → o.name = "caveat-cli".toList → o.step = "package".toList →
      o.backupName = "original-package".toList → o.directory = plan.globalRoot → InScope plan o
  | npmManagement : o.role = .npmManagement → o.name = ".package-lock.json".toList →
      o.step = "management".toList → o.backupName = "original-management".toList →
      o.directory = plan.globalRoot → InScope plan o
  | leaf : o.role = .leaf → (∃ row ∈ plan.leaves, row.name = o.name ∧ row.identity.isSome) →
      o.step = dashed o.name → o.backupName = "original-".toList ++ o.name →
      o.directory = plan.binDirectory → InScope plan o

/-- What is asserted of a working copy of a recovery's source. -/
structure WorkingChecked (runId step : Text) (working : Working) : Prop where
  staging : working.stagingName = "work-".toList ++ runId ++ "-".toList ++ step
  rows : working.rows = none → working.status = .absent ∨ working.status = .unknown ∨
    working.status = .released

/-- What is asserted of a generated object. -/
structure ShellChecked (name backupName : Text) (o : ShellObject) : Prop where
  name : o.name = name
  backupName : o.backupName = backupName
  status : o.status ≠ .unknown

def generatedName (index : Nat) : Text := "generated-".toList ++ ofNat index

def shellName : Text := "shell".toList

def shellBackup : Text := "generated-shell".toList

/-- What `withGlobalMigrationEvidence` asserts, before a recovery may use what it has read. -/
structure Checked (source : GlobalMigrationEvidence) (runDirectory runId : Text) : Prop where
  leafNames : ∀ row ∈ source.plan.leaves, row.name ∈ leafNames
  leavesDistinct : (source.plan.leaves.map (·.name)).Nodup
  steps : (source.objects.map (·.step)).Nodup
  scope : ∀ o ∈ source.objects, InScope source.plan o
  backup : ∀ o ∈ source.objects, o.backupDirectory = runDirectory
  working : ∀ o ∈ source.objects, ∀ working ∈ o.working, WorkingChecked runId o.step working
  files : ∀ shell ∈ source.shell, shell.files.length = source.plan.leaves.length
  file : ∀ shell ∈ source.shell, ∀ i o leaf, shell.files[i]? = some o →
    source.plan.leaves[i]? = some leaf → ShellChecked leaf.name (generatedName i) o
  manifest : ∀ shell ∈ source.shell, ShellChecked shellName shellBackup shell.manifest

/-! ## The model -/

structure RecoveryLocation where
  directory : Text
  name : Text
  rows : Rows
deriving DecidableEq

/-- Where an object is. -/
def RecoveryLocation.place (l : RecoveryLocation) : Text × Text := (l.directory, l.name)

structure RecoveryObject where
  step : Text
  role : Role
  state : ObjectState
  original : RecoveryLocation
  working : Option Working
  workingEntry : Option RecoveryLocation
deriving DecidableEq

structure GeneratedObject where
  name : Text
  status : GeneratedStatus
  entry : Option RecoveryLocation
deriving DecidableEq

structure RecoveryModel where
  sourceEvidenceSha256 : Text
  confirmed : Bool
  objects : List RecoveryObject
  files : List GeneratedObject
  manifest : GeneratedObject
deriving DecidableEq

inductive RecoveryError where
  | reviewedOriginalsRequired
  | modelUnknown
  | modelConflictingWorking
  | restoreOrder
  | modelNotTerminal
  | recordUnconfirmed
  | transitionOutOfScope
  | moveResultUnknown
  | rowsInvalid
  | moveSourceChanged
  | moveBeforeChanged
  | moveIdentityChanged
  | moveAfterChanged
  | recordPathsOrStateChanged
  /-- A `TypeError`. -/
  | type
deriving DecidableEq

def usedName (name : Text) : Text := "used-".toList ++ name

/-- Where an object of the evidence is, and its working copy. -/
def objectOf (root : Text) (o : EvidenceObject) : Except RecoveryError RecoveryObject :=
  if o.state = .unknown || o.working.any (fun w => w.status = .unknown || w.status = .released) then
    .error .modelUnknown
  else if !(o.state = .preserved || o.working.all (fun w =>
      w.status = .absent || w.status = .quarantined)) then .error .modelConflictingWorking
  else .ok
    { step := o.step
      role := o.role
      state := o.state
      original :=
        if o.state = .preserved then ⟨root, o.backupName, o.rows⟩
        else ⟨o.directory, o.name, o.rows⟩
      working := o.working
      workingEntry := o.working.bind (fun w =>
        if w.status = .absent then none
        else if w.status = .quarantined then some ⟨root, usedName w.stagingName, w.rows.getD []⟩
        else some ⟨o.directory, o.name, w.rows.getD []⟩) }

/-- Where a generated object is. -/
def generatedOf (root home : Text) (o : ShellObject) : GeneratedObject where
  name := o.name
  status := o.status
  entry :=
    if o.status = .absent then none
    else if o.status = .quarantined then some ⟨root, usedName o.backupName, o.rows.getD []⟩
    else some ⟨home, o.name, o.rows.getD []⟩

/-- The generated objects, where there is no shell state: none is there. -/
def ShellState.none (leaves : List Leaf) : ShellState where
  files := leaves.map (fun leaf => ⟨leaf.name, [], .absent, Option.none⟩)
  manifest := ⟨shellName, [], .absent, Option.none⟩

/-- `recoveryModelFromMigration`. -/
def recoveryModelFromMigration (source : GlobalMigrationEvidence) (root : Text) :
    Except RecoveryError RecoveryModel :=
  if !source.plan.originalObjects then .error .reviewedOriginalsRequired
  else
    match source.objects.mapM (objectOf root) with
    | .error e => .error e
    | .ok objects =>
        let shell := source.shell.getD (ShellState.none source.plan.leaves)
        .ok
          { sourceEvidenceSha256 := source.evidenceSha256
            confirmed := true
            objects
            files := shell.files.map (generatedOf root source.plan.binDirectory)
            manifest := generatedOf root source.plan.root shell.manifest }

/-! ## The next action -/

/-- What an action is about. -/
inductive Subject where
  | manifest
  | file (index : Nat)
  | working (index : Nat)
  | original (index : Nat)
deriving DecidableEq

def Working.isKnown (w : Working) : Bool := w.status = .known || w.status = .afterKnown

/-- The subject is not where the recovery leaves it. -/
def RecoveryModel.due (m : RecoveryModel) : Subject → Bool
  | .manifest => m.manifest.status = .installed
  | .file i => m.files[i]?.any (fun row => row.status = .installed)
  | .working i => m.objects[i]?.any (fun row => row.working.any Working.isKnown)
  | .original i => m.objects[i]?.any (fun row => row.state = .preserved)

def RecoveryModel.entryOf (m : RecoveryModel) : Subject → Option RecoveryLocation
  | .manifest => m.manifest.entry
  | .file i => m.files[i]?.bind (·.entry)
  | .working i => m.objects[i]?.bind (·.workingEntry)
  | .original i => m.objects[i]?.map (·.original)

structure Action where
  subject : Subject
  step : Text
  operation : GlobalJournalOperation
  entry : Option RecoveryLocation
  directory : Text
  name : Text
deriving DecidableEq

def ObjectState.isOriginal (state : ObjectState) : Bool := state = .original || state = .restored

/-- `assertGlobalRestoreOrder`. -/
def restoreOrdered (objects : List (Role × ObjectState)) (role : Role) : Bool :=
  (role = .package ||
      (objects.filter (fun row => row.1 = .package)).all (fun row => row.2.isOriginal)) &&
    (role ≠ .leaf ||
      (objects.filter (fun row => row.1 = .npmManagement)).all (fun row => row.2.isOriginal))

def restoreRoles : List Role := [.package, .npmManagement, .leaf]

def RecoveryModel.generatedSubjects (m : RecoveryModel) : List Subject :=
  .manifest :: (List.range m.files.length).map .file

def RecoveryModel.workingSubjects (m : RecoveryModel) : List Subject :=
  (List.range m.objects.length).map .working

def RecoveryModel.hasRole (m : RecoveryModel) (role : Role) (i : Nat) : Bool :=
  m.objects[i]?.any (fun row => row.role = role)

/-- The originals of a role. -/
def RecoveryModel.roleSubjects (m : RecoveryModel) (role : Role) : List Subject :=
  ((List.range m.objects.length).filter (m.hasRole role)).map .original

/-- A generated object at a place of the list goes to the target. -/
def retireRow (target : Text) (subject : Subject) (index : Nat) (row : GeneratedObject) : Action where
  subject
  step := "retire.generated.".toList ++ row.name
  operation := if row.name = shellName then .manifest else .wrapper
  entry := row.entry
  directory := target
  name := usedName (if row.name = shellName then shellBackup else generatedName index)

def retireGenerated (m : RecoveryModel) (target : Text) : Subject → Except RecoveryError Action
  | .manifest => .ok (retireRow target .manifest m.files.length m.manifest)
  | .file i =>
      match m.files[i]? with
      | some row => .ok (retireRow target (.file i) i row)
      | none => .error .type
  | _ => .error .type

def usedWorking (step : Text) : Text := usedName ("working-".toList ++ step)

/-- A working copy goes to the target. -/
def retireCopy (target : Text) (index : Nat) (row : RecoveryObject) : Action where
  subject := .working index
  step := "retire.working.".toList ++ row.step
  operation := .workingCopy
  entry := row.workingEntry
  directory := target
  name := usedWorking row.step

def retireWorking (m : RecoveryModel) (target : Text) : Subject → Except RecoveryError Action
  | .working i =>
      match m.objects[i]? with
      | some row => .ok (retireCopy target i row)
      | none => .error .type
  | _ => .error .type

/-- An original goes home. -/
def restoreRow (directory name : Text) (index : Nat) (row : RecoveryObject) : Action where
  subject := .original index
  step := "restore.".toList ++ row.step
  operation := .restore
  entry := some row.original
  directory
  name

def restoreOriginal (m : RecoveryModel) (origin : GlobalMigrationEvidence) (role : Role) :
    Subject → Except RecoveryError Action
  | .original i =>
      match m.objects[i]? with
      | some row =>
          if !restoreOrdered (m.objects.map (fun row => (row.role, row.state))) role then
            .error .restoreOrder
          else
            match origin.objects.find? (fun value => value.step = row.step) with
            | some spec => .ok (restoreRow spec.directory spec.name i row)
            | none => .error .type
      | none => .error .type
  | _ => .error .type

/-- The loops over the roles. -/
def nextRestore (m : RecoveryModel) (origin : GlobalMigrationEvidence) :
    List Role → Except RecoveryError (Option Action)
  | [] =>
      if m.objects.all (fun row => row.state.isOriginal) then .ok none
      else .error .modelNotTerminal
  | role :: roles =>
      match (m.roleSubjects role).find? m.due with
      | some subject => (restoreOriginal m origin role subject).map some
      | none => nextRestore m origin roles

/-- `nextAction`. -/
def nextAction (m : RecoveryModel) (origin : GlobalMigrationEvidence) (target : Text) :
    Except RecoveryError (Option Action) :=
  match m.generatedSubjects.find? m.due with
  | some subject => (retireGenerated m target subject).map some
  | none =>
      match m.workingSubjects.find? m.due with
      | some subject => (retireWorking m target subject).map some
      | none => nextRestore m origin restoreRoles

/-! ## Confirmed records -/

/-- The result of a move of a tree; only one that moved has the fields. -/
inductive MoveResult where
  | moved (renameIssued automaticRecovery : Bool) (before after : GlobalGuardIdentity)
      (treeBefore treeAfter : Rows)
  | other

structure RecoveryRecord where
  schema : Text
  sourceEvidenceSha256 : Text
  step : Text
  operation : GlobalJournalOperation
  state : RecoveryModel
  renameAttempted : Bool
  renameIssued : Option Bool
  result : Option MoveResult
  errorSha256 : Option Text

def recordSchema : Text := "caveat.global_recovery_state.v1".toList

/-- The update of an action, at the object's new location. -/
def RecoveryModel.moved (m : RecoveryModel) (location : RecoveryLocation) : Subject → RecoveryModel
  | .manifest => { m with
      manifest := { m.manifest with status := .quarantined, entry := some location } }
  | .file i => { m with
      files := m.files.modify i (fun row =>
        { row with status := .quarantined, entry := some location }) }
  | .working i => { m with
      objects := m.objects.modify i (fun row => { row with
        working := row.working.map (fun w =>
          { w with status := .quarantined, rows := some location.rows })
        workingEntry := some location }) }
  | .original i => { m with
      objects := m.objects.modify i (fun row =>
        { row with state := .restored, original := location }) }

/-- The rows after a move, where the result is that of a move of these rows. -/
def checkMoved (rows : Rows) : MoveResult → Except RecoveryError Rows
  | .other => .error .moveResultUnknown
  | .moved renameIssued automaticRecovery before after treeBefore treeAfter =>
      if !(renameIssued && !automaticRecovery) then .error .moveResultUnknown
      else if !(globalRecoveryRows treeBefore && globalRecoveryRows treeAfter) then
        .error .rowsInvalid
      else if treeBefore ≠ rows then .error .moveSourceChanged
      else if some before ≠ rows.root? then .error .moveBeforeChanged
      else if (treeAfter.root?.bind (fun root => rows.retimed root.ctime)) ≠ some treeAfter then
        .error .moveIdentityChanged
      else if some after ≠ treeAfter.root? then .error .moveAfterChanged
      else .ok treeAfter

/-- `applyConfirmedRecoveryRecord`. -/
def applyConfirmedRecoveryRecord (m : RecoveryModel) (record : RecoveryRecord)
    (origin : GlobalMigrationEvidence) (target : Text) : Except RecoveryError RecoveryModel :=
  if !(record.schema = recordSchema && record.sourceEvidenceSha256 = m.sourceEvidenceSha256 &&
      record.renameAttempted && record.renameIssued = some true && record.errorSha256 = none) then
    .error .recordUnconfirmed
  else
    match nextAction m origin target, record.result with
    | .error e, _ => .error e
    | .ok none, _ => .error .transitionOutOfScope
    | .ok (some _), none => .error .recordUnconfirmed
    | .ok (some action), some result =>
        if !(record.step = action.step && record.operation = action.operation) then
          .error .transitionOutOfScope
        else
          match action.entry with
          | none => .error .type
          | some entry =>
              match checkMoved entry.rows result with
              | .error e => .error e
              | .ok rows =>
                  let next := m.moved ⟨action.directory, action.name, rows⟩ action.subject
                  if record.state ≠ next then .error .recordPathsOrStateChanged
                  else .ok next

end Caveat.Managed.Recovery
