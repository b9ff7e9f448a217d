import Caveat.Lib.Effect
import Caveat.Managed.Recovery

/-!
# The mutations of a global migration

A migration moves the originals to a private directory, puts working copies in their places, lets npm
uninstall them and publishes the generated files. The engine does so for the originals and their copies,
the shell for the generated files; they have one journal. The guard, the checks before each mutation,
npm and the writing of evidence are given: any of them may fail at any time, or answer what it likes.

Each mutation that is asked for is noted with the journal, the objects and the shell at that time.
-/

namespace Caveat.Managed.Preservation

open Js Lib Recovery

/-! ## What is given -/

inductive Failure where
  | assertion (message : Text)
  | journal (e : AppendError)
  | outside (message : Text) (readOnlyCheckFailed : Bool)
  /-- A `TypeError`. -/
  | type

def Failure.readOnlyCheckFailed : Failure → Bool
  | .outside _ readOnly => readOnly
  | _ => false

/-- What is persisted beside a result. -/
structure Evidence where
  step : Text
  operation : GlobalJournalOperation
  objects : List EvidenceObject
  shell : Option ShellState
  error : Option Failure

/-- `GlobalNpmReceipt`. -/
structure GlobalNpmReceipt where
  completed : Bool
  spawned : Bool
  exitObserved : Bool
  closeObserved : Bool
  signal : Option Text
  terminationRequested : Bool

/-- What the engine and the shell ask. -/
structure Host where
  World : Type
  /-- A tree that the guard holds. -/
  Tree : Type
  /-- A file that the guard has created. -/
  File : Type
  doubles : Doubles
  sha : Sha256
  plan : Units
  /-- The hashes of a state as it is written as JSON. -/
  manifestSha256 : List EvidenceObject → Units
  shellSha256 : ShellState → Units
  completeSha256 : List EvidenceObject → ShellState → Units
  readTree : Tree → EStateM Failure World Rows
  retainTree : Text → Text → EStateM Failure World Tree
  releaseWorkingTree : Tree → EStateM Failure World Unit
  observe : Text → Text → EStateM Failure World (Option GlobalGuardIdentity)
  directoryIdentity : Text → EStateM Failure World GlobalGuardIdentity
  /-- Whether the tree was moved; else its place is unknown. -/
  moveTreeNoReplace : Tree → Text → Text → EStateM Failure World Bool
  /-- The copy, if it was made. -/
  copyTreeNoReplace : Tree → Text → Text → Text → Text → EStateM Failure World (Option (Tree × Rows))
  createJournal : Text → Text → Text → EStateM Failure World File
  sealJournalFile : File → Bool → EStateM Failure World (Option Tree)
  createPrivateDirectory : Text → Text → EStateM Failure World Text
  sealPrivateDirectory : Text → EStateM Failure World (Option Tree)
  /-- The guard's read of the journal's file. -/
  readJournal : EStateM Failure World Unit
  /-- How the guard's next append ends. -/
  appendFault : World → AppendFault × World
  /-- The check of the persisted originals. -/
  originalEvidence : EStateM Failure World Unit
  writeGlobalPrivateEvidence : Text → Evidence → EStateM Failure World Units
  /-- What is protected, before the generated files are looked at and after it. -/
  protectedBefore : EStateM Failure World Unit
  protectedAfter : EStateM Failure World Unit
  processCheck : EStateM Failure World Unit
  runNpm : EStateM Failure World GlobalNpmReceipt

/-- What a migration has reviewed. -/
structure Reviewed where
  runId : Text
  runDirectory : Text
  root : Text
  binDirectory : Text
  /-- The texts of the generated files. -/
  contents : List Text
  manifestText : ShellState → GlobalGuardIdentity → Text

/-! ## The state -/

/-- An original, and the trees of it and of its working copy. -/
structure Saved (host : Host) where
  object : EvidenceObject
  tree : host.Tree
  workingTree : Option host.Tree := none

/-- A generated tree that was confirmed, at its place. -/
structure Confirmed (host : Host) where
  directory : Text
  name : Text
  tree : host.Tree
  rows : Rows

/-- What is asked of the guard or of npm. -/
inductive Mutation where
  | retain (object : EvidenceObject)
  | restore (object : EvidenceObject)
  | copy (object : EvidenceObject)
  | uninstall
  | retire (object : EvidenceObject)
  | publish (generated : ShellObject)
  | withdraw (generated : ShellObject)

/-- A mutation that was asked for. -/
structure Issue where
  mutation : Mutation
  step : Text
  journal : JournalFile
  objects : List EvidenceObject
  shell : ShellState
  /-- The answer was that it is done. -/
  done : Bool

structure State (host : Host) where
  world : host.World
  journal : JournalFile
  saved : List (Saved host)
  generated : List (Confirmed host)
  stopped : Bool
  shell : ShellState
  held : List (Text × host.Tree)
  attempted : Bool
  uncertain : Bool
  issued : List Issue

variable {host : Host}

def State.objects (s : State host) : List EvidenceObject := s.saved.map (·.object)

abbrev Program (host : Host) := EStateM Failure (State host)

/-! ## Calls -/

def assert (c : Prop) [Decidable c] (message : String) : Program host Unit :=
  throwIf (.assertion message.toList) (¬ c)

/-- What is there, or a `TypeError`. -/
def given {α : Type} : Option α → Program host α
  | none => throw .type
  | some a => return a

/-- What a program returns or throws. -/
def attempt {α : Type} (x : Program host α) : Program host (Except Failure α) :=
  tryCatch (do let a ← x; return .ok a) (fun e => return .error e)

/-- A call that mutates nothing. -/
def outside {α : Type} (x : EStateM Failure host.World α) : Program host α := fun s =>
  match x s.world with
  | .ok a w => .ok a { s with world := w }
  | .error e w => .error e { s with world := w }

/-- A call that mutates. -/
def mutate {α : Type} (mutation : Mutation) (step : Text) (isDone : α → Bool)
    (x : EStateM Failure host.World α) : Program host α := fun s =>
  let issue (done : Bool) : Issue := ⟨mutation, step, s.journal, s.objects, s.shell, done⟩
  match x s.world with
  | .ok a w => .ok a { s with world := w, issued := s.issued ++ [issue (isDone a)] }
  | .error e w => .error e { s with world := w, issued := s.issued ++ [issue false] }

/-- `journal.read`. -/
def readJournal : Program host ParsedJournal := do
  outside host.readJournal
  let s ← get
  if s.journal.failed then throw (.journal .failedToken)
  else
    match parseGlobalMutationJournal host.doubles host.sha s.journal.bytes host.plan with
    | .error e => throw (.journal (.parse e))
    | .ok j => return j

/-- `append`. -/
def append (event : JournalEvent) : Program host Unit := fun s =>
  let (fault, w) := host.appendFault s.world
  match appendEvent host.doubles host.sha host.plan s.journal event fault with
  | (.ok _, f) => .ok () { s with world := w, journal := f }
  | (.error e, f) => .error (.journal e) { s with world := w, journal := f }

def intent (step : Text) (operation : GlobalJournalOperation) (stateSha256 : Units) :
    Program host Unit := append (.intent (unitsOf step) operation stateSha256)

variable (r : Reviewed)

/-- `record`, of the engine and of the shell. -/
def record (step : Text) (operation : GlobalJournalOperation) (outcome : JournalOutcome)
    (ofShell : Bool) (error : Option Failure) : Program host Unit := do
  let j ← readJournal
  let s ← get
  let name := "state-".toList ++ r.runId ++ "-".toList ++ ofNat j.nextSequence ++ ".json".toList
  let evidence ← outside (host.writeGlobalPrivateEvidence name
    ⟨step, operation, s.objects, if ofShell then some s.shell else none, error⟩)
  append (.result (unitsOf step) operation outcome (some evidence))

/-! ## Checks -/

/-- The rows of a tree that is held. -/
def readTree (tree : Option host.Tree) : Program host Rows := do
  let tree ← given tree
  outside (host.readTree tree)

/-- `known`, `after-known` and `quarantined`. -/
def WorkingStatus.isHeld (status : WorkingStatus) : Bool :=
  status = .known || status = .afterKnown || status = .quarantined

def verifySaved (row : Saved host) : Program host Unit := do
  let rows ← readTree row.tree
  assert (rows = row.object.rows) "global_preservation_original_changed"
  match row.object.working with
  | none => return ()
  | some working =>
      doIf (WorkingStatus.isHeld working.status = true) (do
        let rows ← readTree row.workingTree
        assert (some rows = working.rows) "global_preservation_working_changed")

def verifyRetained : Program host Unit := do
  outside host.originalEvidence
  let s ← get
  forEach verifySaved s.saved

def State.tree (s : State host) (name : Text) : Option host.Tree :=
  (s.held.find? (fun row => row.1 = name)).map Prod.snd

def verifyGenerated (row : ShellObject) : Program host Unit :=
  doIf (row.status = .installed ∨ row.status = .quarantined) (do
    let s ← get
    let rows ← readTree (s.tree row.name)
    assert (some rows = row.rows) "global_shell_owned_object_changed")

def verifyOwned : Program host Unit := do
  let s ← get
  assert (s.uncertain = false) "global_shell_uncertain"
  forEach verifyGenerated (s.shell.files ++ [s.shell.manifest])

def verifyProtected : Program host Unit := do
  outside host.protectedBefore
  verifyOwned
  outside host.protectedAfter

/-- `verify` of the migration, which is `verifyBeforeMutation` of the engine. -/
def verifyBeforeMutation : Program host Unit := do
  verifyProtected
  outside host.processCheck
  verifyProtected

/-- `verify` of the engine. -/
def verify : Program host Unit := do
  verifyBeforeMutation
  verifyRetained

def stop : Program host Unit := modify (fun s => { s with stopped := true })

/-- `verifyCurrent` of the engine, which is `verify` of the shell. -/
def verifyCurrent : Program host Unit := do
  let s ← get
  assert (s.stopped = false) "global_preservation_not_known"
  match ← attempt verify with
  | .ok _ => return ()
  | .error e =>
      stop
      throw e

/-! ## The engine -/

inductive Status where
  | confirmed
  | unknown
  | stopped
  | preserved
  | working
  | removed
  | failedKnown
  | installed
  | quarantined
deriving DecidableEq

/-- What a call returns, less the state that goes with it. -/
structure Returned where
  status : Status
  resultRecorded : Option Bool := none
  error : Option Failure := none
  /-- `recovery: 'fresh-known-only-plan-required'` -/
  recovery : Bool := false

/-- How the recording of a result ends. -/
inductive Settled where
  | unrecorded (e : Failure)
  | unknown
  | unverified (e : Failure)
  | confirmed

/-- What the engine does behind each of its mutations. -/
def settle (step : Text) (operation : GlobalJournalOperation) (outcome : JournalOutcome)
    (error : Option Failure) : Program host Settled := do
  match ← attempt (record r step operation outcome false error) with
  | .error e =>
      stop
      return .unrecorded e
  | .ok _ =>
      if outcome = .unknown then return .unknown
      else
        match ← attempt verify with
        | .ok _ => return .confirmed
        | .error e =>
            stop
            return .unverified e

def setSaved (i : Nat) (f : Saved host → Saved host) : Program host Unit :=
  modify (fun s => { s with saved := s.saved.modify i f })

def setObject (i : Nat) (f : EvidenceObject → EvidenceObject) : Program host Unit :=
  setSaved i (fun row => { row with object := f row.object })

def setWorking (i : Nat) (status : WorkingStatus) (rows : Option Rows) : Program host Unit :=
  setObject i (fun o => { o with working := o.working.map (fun w => { w with status, rows }) })

def savedAt (i : Nat) : Program host (Saved host) := do
  let s ← get
  given s.saved[i]?

/-- How a mutation ends: as asked, or with something unknown behind it. -/
def conclude (leave : Program host Unit) (x : Program host Bool) :
    Program host (JournalOutcome × Option Failure) := do
  match ← attempt x with
  | .ok true => return (.confirmed, none)
  | .ok false =>
      leave
      return (.unknown, none)
  | .error e =>
      leave
      return (.unknown, some e)

/-- The place of an original after a move. -/
def target (restore : Bool) (o : EvidenceObject) : Text × Text :=
  if restore then (o.directory, o.name) else (o.backupDirectory, o.backupName)

/-- The move of an original, and what it makes of it. -/
def moveSaved (i : Nat) (restore : Bool) (step : Text) : Program host Bool := do
  let row ← savedAt i
  let place := target restore row.object
  let moved ← mutate (if restore then .restore row.object else .retain row.object) step id
    (host.moveTreeNoReplace row.tree place.1 place.2)
  doIf (moved = true) (do
    let rows ← readTree row.tree
    setObject i (fun o => { o with rows, state := if restore then .restored else .preserved }))
  return moved

def moveStep (restore : Bool) (o : EvidenceObject) : Text :=
  (if restore then "restore.".toList else "retain.".toList) ++ o.step

/-- `move` -/
def move (i : Nat) (restore : Bool) : Program host Returned := do
  let s ← get
  let row ← savedAt i
  assert (s.stopped = false ∧ row.object.state = if restore then .preserved else .original)
    "global_preservation_not_known"
  match ← attempt verify with
  | .error e =>
      stop
      return { status := .stopped, error := some e }
  | .ok _ =>
      let step := moveStep restore row.object
      let operation : GlobalJournalOperation := if restore then .restore else .retain
      let s ← get
      intent step operation (host.manifestSha256 s.objects)
      let outcome ← conclude (do stop; setObject i (fun o => { o with state := .unknown }))
        (moveSaved i restore step)
      match ← settle r step operation outcome.1 outcome.2 with
      | .unrecorded e => return { status := .unknown, resultRecorded := some false, error := some e }
      | .unknown => return { status := .unknown, resultRecorded := some true, error := outcome.2 }
      | .unverified e => return { status := .stopped, resultRecorded := some true, error := some e, recovery := true }
      | .confirmed => return { status := .confirmed, resultRecorded := some true }

/-- A loop that may return. -/
def untilReturned {α : Type} (body : α → Program host (Option Returned)) (last : Returned) :
    List α → Program host Returned
  | [] => return last
  | a :: as => do
      match ← body a with
      | some returned => return returned
      | none => untilReturned body last as

def indices (s : State host) : List Nat := List.range s.saved.length

def preserveAll : Program host Returned := do
  let s ← get
  assert (s.stopped = false ∧ s.objects.all (fun o => o.state = .original) = true)
    "global_preservation_not_fresh"
  untilReturned (fun i => do
      let returned ← move r i false
      return if returned.status = .confirmed then none else some returned)
    { status := .preserved } (indices s)

/-- The copy of an original to its place. -/
def copySaved (i : Nat) (step stagingName : Text) : Program host Bool := do
  let row ← savedAt i
  let o := row.object
  let copied ← mutate (.copy o) step Option.isSome
    (host.copyTreeNoReplace row.tree o.directory o.name o.backupDirectory stagingName)
  match copied with
  | none => return false
  | some (tree, rows) =>
      setSaved i (fun row => { row with
        object := { row.object with working := some ⟨.known, some rows, stagingName⟩ }
        workingTree := some tree })
      return true

def createWorkingCopy (i : Nat) : Program host (Option Returned) := do
  let row ← savedAt i
  match ← attempt verify with
  | .error e =>
      stop
      return some { status := .stopped, error := some e }
  | .ok _ =>
      let step := "copy.".toList ++ row.object.step
      let stagingName := "work-".toList ++ r.runId ++ "-".toList ++ row.object.step
      let s ← get
      intent step .workingCopy (host.manifestSha256 s.objects)
      let outcome ← conclude (do
          stop
          setObject i (fun o => { o with working := some ⟨.unknown, none, stagingName⟩ }))
        (copySaved i step stagingName)
      match ← settle r step .workingCopy outcome.1 outcome.2 with
      | .unrecorded e => return some { status := .unknown, resultRecorded := some false, error := some e }
      | .unknown => return some { status := .unknown }
      | .unverified e => return some { status := .stopped, error := some e, recovery := true }
      | .confirmed => return none

def createWorkingCopies : Program host Returned := do
  let s ← get
  assert (s.stopped = false ∧
      s.objects.all (fun o => o.state = .preserved && o.working.isNone) = true)
    "global_preservation_not_ready_for_working_copy"
  untilReturned (createWorkingCopy r) { status := .working } (indices s)

/-! ### npm -/

def releaseWorking (i : Nat) : Program host Unit := do
  let row ← savedAt i
  let tree ← given row.workingTree
  outside (host.releaseWorkingTree tree)
  setSaved i (fun row => { row with
    object := { row.object with working := row.object.working.map (fun w => { w with status := .released }) }
    workingTree := none })

/-- What npm must leave of an identity. -/
def stable (identity : GlobalGuardIdentity) : GlobalGuardIdentity :=
  if identity.kind = .directory then { identity with ctime := [], mtime := [], links := [], size := [] }
  else { identity with ctime := [] }

/-- The paths of some rows, each once. -/
def pathCount (rows : Rows) : Nat := (rows.map (·.relativePath)).dedup.length

/-- What is there after npm was there before. -/
def assertAfter (before rows : Rows) : Program host Unit := do
  assert (rows.length ≤ pathCount before) "global_preservation_npm_new_object"
  forEach (fun value => do
    match before.reverse.find? (fun row => row.relativePath = value.relativePath) with
    | none => assert False "global_preservation_npm_new_object"
    | some expected =>
        assert (stable value.identity = stable expected.identity) "global_preservation_npm_unknown_after") rows

def observeAfter (i : Nat) : Program host Unit := do
  let row ← savedAt i
  match ← outside (host.observe row.object.directory row.object.name) with
  | none => setWorking i .absent none
  | some _ =>
      let tree ← outside (host.retainTree row.object.directory row.object.name)
      let rows ← readTree tree
      let working ← given row.object.working
      let before ← given working.rows
      assertAfter before rows
      setSaved i (fun row => { row with workingTree := some tree })
      setWorking i .afterKnown (some rows)

/-- npm has ended by itself. -/
def GlobalNpmReceipt.isTerminal (receipt : GlobalNpmReceipt) : Bool :=
  receipt.spawned && receipt.exitObserved && receipt.closeObserved && !receipt.terminationRequested &&
    receipt.signal.all List.isEmpty

def uninstallStep : Text := "npm-uninstall".toList

def uninstallCopies (is : List Nat) : Program host GlobalNpmReceipt := do
  forEach releaseWorking is
  let receipt ← mutate .uninstall uninstallStep GlobalNpmReceipt.isTerminal host.runNpm
  assert (receipt.isTerminal = true) "global_preservation_npm_terminal_unknown"
  forEach observeAfter is
  return receipt

/-- Copies that were released, and not seen again. -/
def forgetReleased : Program host Unit :=
  modify (fun s => { s with saved := s.saved.map (fun row => { row with
    object := { row.object with working := row.object.working.map (fun w =>
      if w.status = .released then { w with status := .unknown } else w) } }) })

/-- No working copy is left, but of what npm manages. -/
def removed (objects : List EvidenceObject) : Bool :=
  objects.all (fun o => o.role = .npmManagement || o.working.any (fun w => w.status = .absent))

def uninstallWorking : Program host Returned := do
  let s ← get
  assert (s.stopped = false ∧ s.objects.all (fun o =>
      o.state = .preserved && o.working.any (fun w => w.status = .known)) = true)
    "global_preservation_uninstall_not_ready"
  match ← attempt verify with
  | .error e =>
      stop
      return { status := .stopped, error := some e }
  | .ok _ =>
      let s ← get
      intent uninstallStep .uninstall (host.manifestSha256 s.objects)
      let ran ← attempt (uninstallCopies (indices s))
      let outcome : JournalOutcome × Option Failure ← (do
        match ran with
        | .ok _ => return (.confirmed, none)
        | .error e =>
            stop
            forgetReleased
            return (.unknown, some e))
      match ← settle r uninstallStep .uninstall outcome.1 outcome.2 with
      | .unrecorded e => return { status := .unknown, resultRecorded := some false, error := some e }
      | .unknown => return { status := .unknown, error := outcome.2 }
      | .unverified e => return { status := .stopped, error := some e, recovery := true }
      | .confirmed =>
          let s ← get
          let completed := match ran with
            | .ok receipt => receipt.completed
            | .error _ => false
          return { status := if completed && removed s.objects then .removed else .failedKnown }

/-! ### Back -/

def indexOf (s : State host) (step : Text) : Option Nat :=
  s.saved.findIdx? (fun row => row.object.step = step)

/-- The move of a working copy out of its place. -/
def retireSaved (i : Nat) (step : Text) : Program host Bool := do
  let row ← savedAt i
  let working ← given row.object.working
  let tree ← given row.workingTree
  let moved ← mutate (.retire row.object) step id
    (host.moveTreeNoReplace tree row.object.backupDirectory (usedName working.stagingName))
  doIf (moved = true) (do
    let rows ← readTree tree
    setWorking i .quarantined (some rows))
  return moved

/-- What is known of a working copy when it cannot be said where it is. -/
def setWorkingUnknown (i : Nat) : Program host Unit :=
  setObject i (fun o => { o with working := o.working.map (fun w => { w with status := .unknown }) })

def quarantineWorking (step : Text) : Program host Returned := do
  let s ← get
  let known := (indexOf s step).bind (fun i => (s.saved[i]?).bind (fun row =>
    if row.object.working.any (fun w => w.status = .known || w.status = .afterKnown) then some i
    else none))
  assert (s.stopped = false ∧ known.isSome = true) "global_preservation_no_known_working_copy"
  let i ← given known
  match ← attempt verify with
  | .error e =>
      stop
      return { status := .stopped, error := some e }
  | .ok _ =>
      let action := "retire.".toList ++ step
      let s ← get
      intent action .workingCopy (host.manifestSha256 s.objects)
      let outcome ← conclude (do stop; setWorkingUnknown i) (retireSaved i action)
      match ← settle r action .workingCopy outcome.1 outcome.2 with
      | .unrecorded e => return { status := .unknown, resultRecorded := some false, error := some e }
      | .unknown => return { status := .unknown }
      | .unverified e => return { status := .stopped, error := some e, recovery := true }
      | .confirmed => return { status := .confirmed }

/-- An untouched original is where a restored one is. -/
def isBack (o : EvidenceObject) : Bool := o.state = .original || o.state = .restored

/-- `assertGlobalRestoreOrder` -/
def assertGlobalRestoreOrder (objects : List EvidenceObject) (role : Role) : Program host Unit := do
  doIf (role ≠ .package) (assert ((objects.filter (fun o => o.role = .package)).all isBack = true)
    "global_preservation_package_restore_required")
  doIf (role = .leaf) (assert ((objects.filter (fun o => o.role = .npmManagement)).all isBack = true)
    "global_preservation_management_restore_required")

def restoreKnown (step : Text) : Program host Returned := do
  let s ← get
  assert ((indexOf s step).isSome = true) "global_preservation_unknown_step"
  let i ← given (indexOf s step)
  let row ← savedAt i
  assert (row.object.working.all (fun w => w.status = .quarantined || w.status = .absent) = true)
    "global_preservation_working_copy_present"
  assertGlobalRestoreOrder s.objects row.object.role
  move r i true

end Caveat.Managed.Preservation
