import Caveat.Managed.Preservation

/-!
# The generated files of a global migration

The shell publishes the generated files, and takes them back. It has the journal of the engine, looks at
the engine before each mutation, and the engine looks at it. A run is any sequence of the calls of both.
-/

namespace Caveat.Managed.Preservation

open Js Lib Recovery

variable {host : Host} (r : Reviewed)

/-! ## The shell -/

/-- A generated file, or the manifest of them all. -/
inductive Generated where
  | file (index : Nat)
  | manifest
deriving DecidableEq

def Generated.operation : Generated → GlobalJournalOperation
  | .file _ => .wrapper
  | .manifest => .manifest

def Generated.of (shell : ShellState) : Generated → Option ShellObject
  | .file i => shell.files[i]?
  | .manifest => some shell.manifest

/-- The directory that it is published in. -/
def Generated.home : Generated → Text
  | .file _ => r.binDirectory
  | .manifest => r.root

def generatedAt (g : Generated) : Program host ShellObject := do
  let s ← get
  given (g.of s.shell)

def setGenerated (g : Generated) (f : ShellObject → ShellObject) : Program host Unit :=
  modify (fun s => { s with shell :=
    match g with
    | .file i => { s.shell with files := s.shell.files.modify i f }
    | .manifest => { s.shell with manifest := f s.shell.manifest } })

/-- What was made is held under its name. -/
def hold (name : Text) (tree : host.Tree) : Program host Unit :=
  modify (fun s => { s with held := (name, tree) :: s.held })

def doubt : Program host Unit := modify (fun s => { s with uncertain := true })

/-- `requireOutcome` -/
def required {α : Type} (message : String) : Option α → Program host α
  | none => throw (.assertion message.toList)
  | some a => return a

/-- The last record is a confirmed result of a generated object. -/
def confirmsGenerated (j : ParsedJournal) : Bool :=
  j.records.getLast?.any (fun row =>
    row.string "kind".toList = some (unitsOf "result".toList) &&
      row.string "outcome".toList = some outcomeConfirmed &&
      (row.string "operation".toList = some (unitsOf GlobalJournalOperation.wrapper.text) ||
        row.string "operation".toList = some (unitsOf GlobalJournalOperation.manifest.text)))

/-- `confirmGeneratedTree` of the engine. -/
def confirmGeneratedTree (place : Text × Text) (tree : Option host.Tree)
    (previous : Option (Text × Text)) : Program host Unit := do
  let j ← readJournal
  assert (j.status = .ready ∧ confirmsGenerated j = true) "global_preservation_generated_unconfirmed"
  let s ← get
  assert (previous.all (fun place => s.generated.any (fun g => (g.directory, g.name) = place)) = true)
    "global_preservation_generated_location_invalid"
  let tree ← given tree
  let rows ← readTree tree
  let others := s.generated.filter (fun g =>
    previous ≠ some (g.directory, g.name) && (g.directory, g.name) ≠ place)
  modify (fun s => { s with generated := ⟨place.1, place.2, tree, rows⟩ :: others })

/-- What is done behind a confirmed result of a generated object. -/
def confirm (g : Generated) (restore : Bool) : Program host Unit := do
  let row ← generatedAt g
  let s ← get
  let original := (g.home r, row.name)
  let current := if restore then (r.runDirectory, usedName row.backupName) else original
  confirmGeneratedTree current (s.tree row.name) (if restore then some original else none)
  verifyCurrent
  verifyOwned

/-- A look that changes nothing, whatever it brings. -/
def look (directory name : Text) : Program host Unit := do
  let _ ← attempt (outside (host.observe directory name))

/-- What is looked at where a generated object may be. -/
def lookAround (g : Generated) : Program host Unit := do
  let row ← generatedAt g
  look (g.home r) row.name
  look r.runDirectory (if g = .manifest then "new-shell".toList else row.backupName)
  look r.runDirectory (usedName row.backupName)

def generatedStep (restore : Bool) (name : Text) : Text :=
  (if restore then "retire.generated.".toList else "publish.generated.".toList) ++ name

/-- `perform` -/
def perform (g : Generated) (restore : Bool) (body : Text → Program host Unit) :
    Program host Returned := do
  let s ← get
  assert (s.uncertain = false) "global_shell_uncertain_or_interrupted"
  let j ← readJournal
  assert (j.status = .ready) "global_shell_uncertain_or_interrupted"
  let row ← generatedAt g
  match ← attempt (do verifyCurrent; verifyOwned) with
  | .error e => return { status := .stopped, error := some e }
  | .ok _ =>
      let step := generatedStep restore row.name
      let s ← get
      intent step g.operation (host.shellSha256 s.shell)
      let outcome ← conclude (do
          doubt
          setGenerated g (fun o => { o with status := .unknown })
          lookAround r g)
        (do body step; verifyRetained; verifyOwned; return true)
      match ← attempt (record r step g.operation outcome.1 true outcome.2) with
      | .error e =>
          doubt
          return { status := .unknown, resultRecorded := some false, error := some e }
      | .ok _ =>
          if outcome.1 = .unknown then return { status := .unknown }
          else
            match ← attempt (confirm r g restore) with
            | .ok _ => return { status := .confirmed }
            | .error e =>
                doubt
                if e.readOnlyCheckFailed then
                  return { status := .stopped, resultRecorded := some true, error := some e, recovery := true }
                else
                  setGenerated g (fun o => { o with status := .unknown })
                  let check := "verify.".toList ++ step
                  let s ← get
                  intent check g.operation (host.shellSha256 s.shell)
                  record r check g.operation .unknown true (some e)
                  return { status := .unknown, resultRecorded := some true, error := some e, recovery := true }

/-- `guard.observe` finds nothing. -/
def assertVacant (directory name : Text) (message : String) : Program host Unit := do
  let observed ← outside (host.observe directory name)
  assert (observed = none) message

/-- A sealed tree goes to its place. -/
def publish (g : Generated) (name : Text) (tree : host.Tree) (step : Text) : Program host Unit := do
  let row ← generatedAt g
  let moved ← mutate (.publish row) step id (host.moveTreeNoReplace tree (g.home r) name)
  assert (moved = true) "global_shell_moved_unconfirmed"
  hold name tree
  let rows ← readTree tree
  setGenerated g (fun o => { o with rows := some rows, status := .installed })

def publishFile (i : Nat) (step : Text) : Program host Unit := do
  let row ← generatedAt (.file i)
  assertVacant r.binDirectory row.name "global_shell_destination_exists"
  let content ← given r.contents[i]?
  let token ← outside (host.createJournal r.runDirectory row.backupName content)
  let sealedTree ← outside (host.sealJournalFile token true)
  let tree ← required "global_shell_sealed_unconfirmed" sealedTree
  publish r (.file i) row.name tree step

def publishManifest (step : Text) : Program host Unit := do
  let directory ← outside (host.createPrivateDirectory r.runDirectory "new-shell".toList)
  let s ← get
  let identity ← outside (host.directoryIdentity r.binDirectory)
  forEach (fun row : ShellObject => do let _ ← given (row.rows.bind Rows.root?)) s.shell.files
  let token ← outside (host.createJournal directory "manifest.json".toList (r.manifestText s.shell identity))
  let sealedFile ← outside (host.sealJournalFile token false)
  let file ← required "global_shell_sealed_unconfirmed" sealedFile
  outside (host.releaseWorkingTree file)
  let sealedTree ← outside (host.sealPrivateDirectory directory)
  let tree ← required "global_shell_sealed_unconfirmed" sealedTree
  publish r .manifest "shell".toList tree step

/-- A generated object goes back to the private directory. -/
def withdraw (g : Generated) (step : Text) : Program host Unit := do
  let row ← generatedAt g
  let s ← get
  let tree ← given (s.tree row.name)
  let moved ← mutate (.withdraw row) step id
    (host.moveTreeNoReplace tree r.runDirectory (usedName row.backupName))
  assert (moved = true) "global_shell_moved_unconfirmed"
  let rows ← readTree tree
  setGenerated g (fun o => { o with rows := some rows, status := .quarantined })

/-- A confirmed turn of a loop goes on. -/
def goOn (returned : Returned) : Option Returned :=
  if returned.status = .confirmed then none else some returned

def files (s : State host) : List Generated := (List.range s.shell.files.length).map .file

def install : Program host Returned := do
  let s ← get
  assert (s.attempted = false) "global_shell_install_already_attempted"
  modify (fun s => { s with attempted := true })
  assert (s.objects.all (fun o => o.role = .npmManagement ||
      (o.state = .preserved && o.working.any (fun w => w.status = .absent))) = true)
    "global_shell_known_absent_required"
  forEach (fun row : ShellObject =>
    assertVacant r.binDirectory row.name "global_shell_destination_exists") s.shell.files
  assertVacant r.root "shell".toList "global_shell_manifest_destination_exists"
  let published ← untilReturned (fun i => do
      let returned ← perform r (.file i) false (publishFile r i)
      return goOn returned) { status := .confirmed } (List.range s.shell.files.length)
  match goOn published with
  | some returned => return returned
  | none =>
      let returned ← perform r .manifest false (publishManifest r)
      return if returned.status = .confirmed then { status := .installed } else returned

def quarantineKnown : Program host Returned := do
  let s ← get
  assert (s.uncertain = false) "global_shell_uncertain_or_interrupted"
  let j ← readJournal
  assert (j.status = .ready) "global_shell_uncertain_or_interrupted"
  untilReturned (fun g => do
      let row ← generatedAt g
      if row.status = .installed then
        let returned ← perform r g true (withdraw r g)
        return goOn returned
      else return none) { status := .quarantined } (.manifest :: files s)

/-- `status() === 'ready'` -/
def assertReady : Program host Unit := do
  let s ← get
  assert (s.uncertain = false) "global_migration_shell_unconfirmed"
  verifyOwned
  assert ((s.shell.files ++ [s.shell.manifest]).all (fun o => o.status = .installed) = true)
    "global_migration_shell_unconfirmed"

/-- The checkpoint of the coordinator. -/
def checkpoint : Program host Returned := do
  verifyCurrent
  assertReady
  let s ← get
  append (.complete (host.completeSha256 s.objects s.shell))
  return { status := .confirmed }

/-! ## Runs -/

inductive Call where
  | verifyCurrent
  | preserveAll
  | createWorkingCopies
  | uninstallWorking
  | quarantineWorking (step : Text)
  | restoreKnown (step : Text)
  | install
  | quarantineKnown
  | checkpoint

def programOf : Call → Program host Returned
  | .verifyCurrent => do
      verifyCurrent
      return { status := .confirmed }
  | .preserveAll => preserveAll r
  | .createWorkingCopies => createWorkingCopies r
  | .uninstallWorking => uninstallWorking r
  | .quarantineWorking step => quarantineWorking r step
  | .restoreKnown step => restoreKnown r step
  | .install => install r
  | .quarantineKnown => quarantineKnown r
  | .checkpoint => checkpoint

/-- One call after the other, whether they return or throw. -/
def step (s : State host) (c : Call) : Option (State host) := some (stateAfter (programOf r c s))

/-- What `prepareGlobalObjectPreservation` and `prepareGlobalShellInstallation` leave. -/
structure Initial (s : State host) : Prop where
  journal : JournalStart host.doubles host.plan s.journal
  objects : ∀ o ∈ s.objects, o.state = .original ∧ o.working = none
  files : ∀ o ∈ s.shell.files, o.status = .absent
  manifest : s.shell.manifest.status = .absent
  stopped : s.stopped = false
  attempted : s.attempted = false
  uncertain : s.uncertain = false
  generated : s.generated = []
  held : s.held = []
  issued : s.issued = []

end Caveat.Managed.Preservation
