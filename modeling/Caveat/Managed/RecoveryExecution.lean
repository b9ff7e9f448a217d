import Caveat.Lib.Effect
import Caveat.Managed.RecoveryPlaces

/-!
# The execution of a recovery

An attempt has its own copy of what the source says: of every object where it is and where it belongs.
It goes over the generated objects, the working copies, and the originals of each role, and moves what
is not where the recovery leaves it. What a move does is given: it may be refused before the rename is
asked for, or stay unconfirmed; a confirmed one may be the last because a check after it fails. The
checks that an attempt makes before a move can only refuse it.
-/

namespace Caveat.Managed.Recovery

open Js Lib

/-! ## Attempts -/

structure AttemptObject where
  step : Text
  role : Role
  directory : Text
  name : Text
  state : ObjectState
  original : RecoveryLocation
  working : Option Working
  workingEntry : Option RecoveryLocation
deriving DecidableEq

structure AttemptGenerated where
  name : Text
  backupName : Text
  status : GeneratedStatus
  entry : Option RecoveryLocation
deriving DecidableEq

structure Attempt where
  objects : List AttemptObject
  files : List AttemptGenerated
  manifest : AttemptGenerated
deriving DecidableEq

inductive AttemptError where
  | originalUnknown
  | workingUnknown
  | conflictingWorkingState
  | knownObjectRequired
  | chainOriginalStateInvalid
  | moveRefused
  | moveUnknown
  | restoreOrder
  | originalsNotRestored
  /-- A `TypeError`. -/
  | type
deriving DecidableEq

def AttemptObject.row (o : AttemptObject) : RecoveryObject :=
  ⟨o.step, o.role, o.state, o.original, o.working, o.workingEntry⟩

def AttemptGenerated.row (o : AttemptGenerated) : GeneratedObject := ⟨o.name, o.status, o.entry⟩

/-- `snapshot`, while the attempt is not poisoned. -/
def Attempt.snapshot (a : Attempt) (evidenceSha256 : Text) : RecoveryModel where
  sourceEvidenceSha256 := evidenceSha256
  confirmed := true
  objects := a.objects.map AttemptObject.row
  files := a.files.map AttemptGenerated.row
  manifest := a.manifest.row

/-- `entry`, of a binding. -/
def knownEntry : Option RecoveryLocation → Except AttemptError RecoveryLocation
  | none => .error .knownObjectRequired
  | some l => .ok l

/-- The entry of an object's working copy, where there is one. -/
def workingKnown (binding : Option RecoveryLocation) (working : Option Working) :
    Except AttemptError (Option RecoveryLocation) :=
  if working.all (fun w => w.status = .absent) then .ok none
  else (knownEntry binding).map some

/-- An object of the source, with its bindings. -/
def attemptObject (original working : Option RecoveryLocation) (o : EvidenceObject) :
    Except AttemptError AttemptObject :=
  if o.state = .unknown then .error .originalUnknown
  else if o.working.any (fun w => w.status = .unknown || w.status = .released) then
    .error .workingUnknown
  else if !(o.state = .preserved || o.working.all (fun w =>
      w.status = .absent || w.status = .quarantined)) then .error .conflictingWorkingState
  else do
    let original ← knownEntry original
    let workingEntry ← workingKnown working o.working
    .ok ⟨o.step, o.role, o.directory, o.name, o.state, original, o.working, workingEntry⟩

/-- A generated object of the source, with its binding. -/
def attemptGenerated (name backupName : Text) (status : GeneratedStatus)
    (binding : Option RecoveryLocation) : Except AttemptError AttemptGenerated :=
  if status = .absent then .ok ⟨name, backupName, status, none⟩
  else (knownEntry binding).map (fun l => ⟨name, backupName, status, some l⟩)

/-! ### The bindings of a migration -/

def originalBinding (root : Text) (o : EvidenceObject) : Option RecoveryLocation :=
  if o.state = .unknown then none
  else if o.state = .preserved then some ⟨root, o.backupName, o.rows⟩
  else some ⟨o.directory, o.name, o.rows⟩

/-- A working copy at home is bound where no generated file was installed over it. -/
def workingBinding (root : Text) (files : List ShellObject) (o : EvidenceObject) :
    Option RecoveryLocation :=
  o.working.bind (fun w =>
    if w.status = .quarantined then w.rows.map (⟨root, usedName w.stagingName, ·⟩)
    else if o.state = .preserved &&
        !files.any (fun row => row.name = o.name && row.status = .installed) then
      w.rows.map (⟨o.directory, o.name, ·⟩)
    else none)

def generatedBinding (root home : Text) (o : ShellObject) : Option RecoveryLocation :=
  if o.status = .quarantined then o.rows.map (⟨root, usedName o.backupName, ·⟩)
  else o.rows.map (⟨home, o.name, ·⟩)

def migrationGenerated (root home : Text) (o : ShellObject) : Except AttemptError AttemptGenerated :=
  attemptGenerated o.name o.backupName o.status (generatedBinding root home o)

/-- The generated objects of an attempt, where there is no shell state. -/
def ShellState.fresh (leaves : List Leaf) : ShellState where
  files := leaves.mapIdx (fun i leaf => ⟨leaf.name, generatedName i, .absent, .none⟩)
  manifest := ⟨shellName, shellBackup, .absent, .none⟩

/-- An attempt whose source is a migration. -/
def attemptFromMigration (source : GlobalMigrationEvidence) (root : Text) :
    Except AttemptError Attempt := do
  let shell := source.shell.getD (ShellState.fresh source.plan.leaves)
  let objects ← source.objects.mapM (fun o =>
    attemptObject (originalBinding root o) (workingBinding root shell.files o) o)
  let files ← shell.files.mapM (migrationGenerated root source.plan.binDirectory)
  let manifest ← migrationGenerated root source.plan.root shell.manifest
  .ok ⟨objects, files, manifest⟩

/-! ### The bindings of a chain -/

/-- The object of the origin, as the model has it. -/
def chainObject (m : RecoveryModel) (o : EvidenceObject) : Except AttemptError AttemptObject :=
  match m.objects.find? (fun row => row.step = o.step) with
  | none => .error .type
  | some row =>
      if row.state = .unknown then .error .chainOriginalStateInvalid
      else attemptObject (some row.original) row.workingEntry
        { o with state := row.state, rows := row.original.rows, working := row.working }

def chainGenerated (index : Nat) (row : GeneratedObject) : Except AttemptError AttemptGenerated :=
  attemptGenerated row.name (if row.name = shellName then shellBackup else generatedName index)
    row.status row.entry

/-- An attempt whose source is a model that was replayed. -/
def attemptFromChain (origin : GlobalMigrationEvidence) (m : RecoveryModel) :
    Except AttemptError Attempt := do
  let objects ← origin.objects.mapM (chainObject m)
  let files ← m.files.zipIdx.mapM (fun row => chainGenerated row.2 row.1)
  let manifest ← chainGenerated m.files.length m.manifest
  .ok ⟨objects, files, manifest⟩

/-! ## Moves -/

/-- What becomes of a move that an attempt is about to make. -/
inductive MoveOutcome where
  /-- A check fails before the rename is asked for. -/
  | refused
  /-- The rename was asked for, and it is not known what became of it. -/
  | unconfirmed
  | confirmed (rows : Rows)
  /-- The move is confirmed, and a check after it fails. -/
  | unfinished (rows : Rows)

structure Execution where
  attempt : Attempt
  /-- The moves for which a rename was asked. -/
  issued : List Action
  /-- What becomes of the next moves. -/
  outcomes : List MoveOutcome

abbrev Recover := EStateM AttemptError Execution

/-- The update of a move, at the object's new location. -/
def Attempt.moved (a : Attempt) (l : RecoveryLocation) : Subject → Attempt
  | .manifest => { a with manifest := { a.manifest with status := .quarantined, entry := some l } }
  | .file i => { a with
      files := a.files.modify i (fun row => { row with status := .quarantined, entry := some l }) }
  | .working i => { a with
      objects := a.objects.modify i (fun row => { row with
        working := row.working.map (fun w =>
          { w with status := .quarantined, rows := some l.rows })
        workingEntry := some l }) }
  | .original i => { a with
      objects := a.objects.modify i (fun row => { row with state := .restored, original := l }) }

def Execution.issue (run : Execution) (action : Action) : Execution :=
  { run with issued := run.issued ++ [action] }

def Execution.confirm (run : Execution) (action : Action) (rows : Rows) : Execution :=
  { run.issue action with
    attempt := run.attempt.moved ⟨action.directory, action.name, rows⟩ action.subject
    outcomes := run.outcomes.tail }

/-- `move`. -/
def move (action : Action) : Recover Unit := fun run =>
  match action.entry, run.outcomes.head? with
  -- nothing can be asked of an object that is not held
  | none, _ => .error .type run
  | some _, none => .error .moveRefused run
  | some _, some .refused => .error .moveRefused run
  | some _, some .unconfirmed => .error .moveUnknown (run.issue action)
  | some _, some (.confirmed rows) => .ok () (run.confirm action rows)
  | some _, some (.unfinished rows) => .error .moveUnknown (run.confirm action rows)

def quarantineRow (target : Text) (subject : Subject) (row : AttemptGenerated) : Action where
  subject
  step := "retire.generated.".toList ++ row.name
  operation := if row.name = shellName then .manifest else .wrapper
  entry := row.entry
  directory := target
  name := usedName row.backupName

def moveGenerated (target : Text) (s : Subject) (row : AttemptGenerated) : Recover Unit :=
  doIf (row.status = .installed) (move (quarantineRow target s row))

/-- The loop over the generated objects, the manifest first. -/
def quarantineGenerated (target : Text) (s : Subject) : Recover Unit := do
  let run ← get
  match s with
  | .manifest => moveGenerated target s run.attempt.manifest
  | .file i =>
      match run.attempt.files[i]? with
      | some row => moveGenerated target s row
      | none => pure ()
  | _ => pure ()

/-- The loop over the working copies. -/
def quarantineWorking (target : Text) (s : Subject) : Recover Unit := do
  let run ← get
  match s with
  | .working i =>
      match run.attempt.objects[i]? with
      | some row =>
          doIf (row.working.any Working.isKnown = true) (move (retireCopy target i row.row))
      | none => pure ()
  | _ => pure ()

def Attempt.restoreOrdered (a : Attempt) (role : Role) : Bool :=
  Recovery.restoreOrdered (a.objects.map (fun row => (row.role, row.state))) role

/-- The loop over the originals of a role. -/
def restoreRole (role : Role) (s : Subject) : Recover Unit := do
  let run ← get
  match s with
  | .original i =>
      match run.attempt.objects[i]? with
      | some row =>
          doIf (row.state = .preserved) (do
            throwIf .restoreOrder (run.attempt.restoreOrdered role = false)
            move (restoreRow row.directory row.name i row.row))
      | none => pure ()
  | _ => pure ()

def Attempt.generatedSubjects (a : Attempt) : List Subject :=
  .manifest :: (List.range a.files.length).map .file

def Attempt.workingSubjects (a : Attempt) : List Subject :=
  (List.range a.objects.length).map .working

/-- `objects.filter(value => value.role === role)`. -/
def Attempt.roleSubjects (a : Attempt) (role : Role) : List Subject :=
  ((List.range a.objects.length).filter (fun i =>
    a.objects[i]?.any (fun row => row.role = role))).map .original

/-- The moves of `recoverGlobalMigration`. -/
def recoverGlobalMigration (target : Text) : Recover Unit := do
  let run ← get
  forEach (quarantineGenerated target) run.attempt.generatedSubjects
  forEach (quarantineWorking target) run.attempt.workingSubjects
  forEach (fun role => forEach (restoreRole role) (run.attempt.roleSubjects role)) restoreRoles
  let run ← get
  throwIf .originalsNotRestored
    (run.attempt.objects.all (fun row => row.state.isOriginal) = false)

/-! ## What is prescribed -/

/-- Moves, each of which `nextAction` prescribes for the model that the ones before it left. -/
inductive Prescribed (origin : GlobalMigrationEvidence) (target : Text) (m₀ : RecoveryModel) :
    List Action → RecoveryModel → Prop where
  | start : Prescribed origin target m₀ [] m₀
  | next {done : List Action} {m : RecoveryModel} {a : Action} (rows : Rows) :
      Prescribed origin target m₀ done m → nextAction m origin target = .ok (some a) →
      Prescribed origin target m₀ (done ++ [a]) (m.moved ⟨a.directory, a.name, rows⟩ a.subject)

/-- Moves that were prescribed, but that it is not known what became of the last one. -/
def Interrupted (origin : GlobalMigrationEvidence) (target : Text) (m₀ : RecoveryModel)
    (issued : List Action) (m : RecoveryModel) : Prop :=
  Prescribed origin target m₀ issued m ∨ ∃ done a, issued = done ++ [a] ∧
    Prescribed origin target m₀ done m ∧ nextAction m origin target = .ok (some a)

variable {m m₀ : RecoveryModel} {origin : GlobalMigrationEvidence} {target root runId e : Text}
  {a : Attempt} {run : Execution} {s : Subject} {done rest : List Subject} {action : Action}

/-! ## The snapshot -/

theorem snapshot_object (i : Nat) :
    (a.snapshot e).objects[i]? = a.objects[i]?.map AttemptObject.row := List.getElem?_map ..

theorem snapshot_file (i : Nat) :
    (a.snapshot e).files[i]? = a.files[i]?.map AttemptGenerated.row := List.getElem?_map ..

theorem snapshot_moved (l : RecoveryLocation) :
    (a.moved l s).snapshot e = (a.snapshot e).moved l s := by
  have hmodify : ∀ {α β : Type} {f : α → β} {g : α → α} {g' : β → β} (as : List α) (i : Nat),
      (∀ x, f (g x) = g' (f x)) → (as.modify i g).map f = (as.map f).modify i g' := by
    intro α β f g g' as i hfg
    refine List.ext_getElem? fun j => ?_
    rw [List.getElem?_map, List.getElem?_modify, List.getElem?_modify, List.getElem?_map]
    cases as[j]? with
    | none => rfl
    | some x =>
        by_cases hij : i = j
        · simp [hij, hfg]
        · simp [hij]
  cases s with
  | manifest => rfl
  | file i | working i | original i =>
      simp only [Attempt.moved, Attempt.snapshot, RecoveryModel.moved, RecoveryModel.mk.injEq,
        true_and, and_true]
      exact hmodify _ _ fun row => rfl

theorem snapshot_generatedSubjects : (a.snapshot e).generatedSubjects = a.generatedSubjects := by
  rw [RecoveryModel.generatedSubjects, Attempt.snapshot, List.length_map]
  rfl

theorem snapshot_workingSubjects : (a.snapshot e).workingSubjects = a.workingSubjects := by
  rw [RecoveryModel.workingSubjects, Attempt.snapshot, List.length_map]
  rfl

theorem snapshot_roleSubjects (role : Role) :
    (a.snapshot e).roleSubjects role = a.roleSubjects role := by
  have hrole : (a.snapshot e).hasRole role =
      fun i => a.objects[i]?.any (fun row => row.role = role) := by
    funext i
    rw [RecoveryModel.hasRole, snapshot_object]
    cases a.objects[i]? <;> rfl
  rw [RecoveryModel.roleSubjects, hrole, Attempt.snapshot, List.length_map]
  rfl

/-! ## What an attempt keeps of its source -/

/-- Where the objects belong, and the names of the generated backups. -/
structure Attempt.Fixed (origin : GlobalMigrationEvidence) (a : Attempt) : Prop where
  objects : ∀ (i : Nat) row, a.objects[i]? = some row → ∃ o, origin.objects[i]? = some o ∧
    row.step = o.step ∧ row.directory = o.directory ∧ row.name = o.name
  files : ∀ (i : Nat) row, a.files[i]? = some row → row.backupName = generatedName i
  manifest : a.manifest.backupName = shellBackup

theorem fixed_moved (h : a.Fixed origin) (l : RecoveryLocation) : (a.moved l s).Fixed origin := by
  cases s with
  | manifest => exact ⟨h.objects, h.files, h.manifest⟩
  | file i =>
      refine ⟨h.objects, fun j row hrow => ?_, h.manifest⟩
      rcases getElem?_modify_cases hrow with ⟨rfl, row₀, hrow₀, rfl⟩ | ⟨_, hrow⟩
      · exact h.files j row₀ hrow₀
      · exact h.files j row hrow
  | working i | original i =>
      refine ⟨fun j row hrow => ?_, h.files, h.manifest⟩
      rcases getElem?_modify_cases hrow with ⟨rfl, row₀, hrow₀, rfl⟩ | ⟨_, hrow⟩
      · exact h.objects j row₀ hrow₀
      · exact h.objects j row hrow

/-- **An attempt's own action is the model's.** -/
theorem quarantineRow_eq (index : Nat) {row : AttemptGenerated}
    (hbackup : row.backupName = if row.name = shellName then shellBackup else generatedName index) :
    quarantineRow target s row = retireRow target s index row.row := by
  rw [quarantineRow, hbackup]
  rfl

/-! ## The loops -/

/-- What holds when the subjects before a place of the agenda are done. -/
structure Following (origin : GlobalMigrationEvidence) (runId target e : Text) (m₀ : RecoveryModel)
    (done : List Subject) (run : Execution) : Prop where
  fixed : run.attempt.Fixed origin
  sound : Sound origin runId (run.attempt.snapshot e)
  prescribed : Prescribed origin target m₀ run.issued (run.attempt.snapshot e)
  subjects : (run.attempt.snapshot e).subjects = m₀.subjects
  roles : ∀ (i : Nat), (run.attempt.snapshot e).objects[i]?.map (fun row => (row.step, row.role)) =
    m₀.objects[i]?.map (fun row => (row.step, row.role))
  settled : ∀ s ∈ done, (run.attempt.snapshot e).due s = false

/-- What an execution that was stopped leaves. -/
def Halted (origin : GlobalMigrationEvidence) (target e : Text) (m₀ : RecoveryModel)
    (run : Execution) : Prop :=
  Interrupted origin target m₀ run.issued (run.attempt.snapshot e)

theorem Following.halted (h : Following origin runId target e m₀ done run) :
    Halted origin target e m₀ run := .inl h.prescribed

theorem Following.skip (h : Following origin runId target e m₀ done run)
    (hdue : (run.attempt.snapshot e).due s = false) :
    Following origin runId target e m₀ (done ++ [s]) run where
  fixed := h.fixed
  sound := h.sound
  prescribed := h.prescribed
  subjects := h.subjects
  roles := h.roles
  settled t ht := by
    rcases List.mem_append.mp ht with ht | ht
    · exact h.settled t ht
    · rw [List.mem_singleton.mp ht]
      exact hdue

/-- The first subject that is due is the one that the loops have come to. -/
theorem Following.find (h : Following origin runId target e m₀ done run)
    (hsplit : m₀.subjects = done ++ s :: rest) (hdue : (run.attempt.snapshot e).due s = true) :
    (run.attempt.snapshot e).subjects.find? (run.attempt.snapshot e).due = some s := by
  have hnone : done.find? (run.attempt.snapshot e).due = none := by
    refine List.find?_eq_none.mpr fun t ht => ?_
    rw [h.settled t ht]
    simp
  rw [h.subjects, hsplit, List.find?_append, hnone, Option.none_or, List.find?_cons_of_pos hdue]

theorem Following.confirm (husable : Usable origin)
    (h : Following origin runId target e m₀ done run) (hsplit : m₀.subjects = done ++ s :: rest)
    (hdue : (run.attempt.snapshot e).due s = true)
    (haction : actionOf (run.attempt.snapshot e) origin target s = .ok action)
    (hnext : nextAction (run.attempt.snapshot e) origin target = .ok (some action))
    (hsubject : action.subject = s) (rows : Rows) :
    Following origin runId target e m₀ (done ++ [s]) (run.confirm action rows) := by
  have hsnapshot : (run.confirm action rows).attempt.snapshot e =
      (run.attempt.snapshot e).moved ⟨action.directory, action.name, rows⟩ action.subject :=
    snapshot_moved _
  have hsettles := settles_moved (run.attempt.snapshot e) ⟨action.directory, action.name, rows⟩ s
  constructor
  case fixed => exact fixed_moved h.fixed _
  case sound =>
    rw [hsnapshot, hsubject]
    exact sound_moved husable.steps husable.leaves h.sound (h.find hsplit hdue) haction rows
  case prescribed =>
    rw [hsnapshot]
    exact .next rows h.prescribed hnext
  case subjects =>
    rw [hsnapshot, subjects_moved]
    exact h.subjects
  case roles =>
    intro i
    rw [hsnapshot, object_moved]
    exact h.roles i
  case settled =>
    rw [hsnapshot, hsubject]
    intro t ht
    by_cases hts : t = s
    · rw [hts]
      exact hsettles.done
    · rw [hsettles.others t hts]
      rcases List.mem_append.mp ht with ht | ht
      · exact h.settled t ht
      · exact absurd (List.mem_singleton.mp ht) hts

/-- **A move** of the first subject that is due is the prescribed one. -/
theorem move_follows (husable : Usable origin) (h : Following origin runId target e m₀ done run)
    (hsplit : m₀.subjects = done ++ s :: rest) (hdue : (run.attempt.snapshot e).due s = true)
    (haction : actionOf (run.attempt.snapshot e) origin target s = .ok action) :
    Meets (· = run) (move action) (fun _ => Following origin runId target e m₀ (done ++ [s]))
      (fun _ => Halted origin target e m₀) := by
  obtain ⟨a, ha, hsound⟩ := actionOf_ok target husable.steps h.sound (h.find hsplit hdue)
  obtain rfl : action = a := Except.ok.inj (haction.symm.trans ha)
  have hnext : nextAction (run.attempt.snapshot e) origin target = .ok (some action) := by
    rw [nextAction_eq, h.find hsplit hdue]
    dsimp only
    rw [haction]
    rfl
  have hconfirm := fun rows => h.confirm husable hsplit hdue haction hnext hsound.subject rows
  intro run' hrun
  rw [hrun, move]
  cases action.entry with
  | none => exact h.halted
  | some l =>
      cases run.outcomes.head? with
      | none => exact h.halted
      | some outcome =>
          cases outcome with
          | refused => exact h.halted
          | unconfirmed => exact .inr ⟨_, _, rfl, h.prescribed, hnext⟩
          | confirmed rows => exact hconfirm rows
          | unfinished rows => exact (hconfirm rows).halted

/-- A subject of the agenda: where it is due, its own move comes; where it is not, nothing. -/
theorem doIf_follows (husable : Usable origin) (h : Following origin runId target e m₀ done run)
    (hsplit : m₀.subjects = done ++ s :: rest) {c : Prop} [Decidable c]
    (hc : (run.attempt.snapshot e).due s = true ↔ c)
    (haction : c → actionOf (run.attempt.snapshot e) origin target s = .ok action) :
    Meets (· = run) (doIf c (move action))
      (fun _ => Following origin runId target e m₀ (done ++ [s]))
      (fun _ => Halted origin target e m₀) := by
  refine Meets.doIf (fun hpos => move_follows husable h hsplit (hc.mpr hpos) (haction hpos)) ?_
  intro run' hrun hneg
  rw [hrun]
  refine h.skip ?_
  cases hdue : (run.attempt.snapshot e).due s with
  | false => rfl
  | true => exact absurd (hc.mp hdue) hneg

theorem pure_follows (h : Following origin runId target e m₀ done run)
    (hdue : (run.attempt.snapshot e).due s = false) :
    Meets (· = run) (pure () : Recover Unit)
      (fun _ => Following origin runId target e m₀ (done ++ [s]))
      (fun _ => Halted origin target e m₀) :=
  Meets.pure fun run' hrun => by
    rw [hrun]
    exact h.skip hdue

theorem quarantineGenerated_follows (husable : Usable origin)
    (hsplit : m₀.subjects = done ++ s :: rest) (hs : s.isGenerated = true) :
    Meets (Following origin runId target e m₀ done) (quarantineGenerated target s)
      (fun _ => Following origin runId target e m₀ (done ++ [s]))
      (fun _ => Halted origin target e m₀) := by
  refine Meets.get_bind fun run h => ?_
  cases s with
  | manifest =>
      have hname : run.attempt.manifest.name = shellName := h.sound.manifest.named
      refine doIf_follows husable h hsplit ?_ fun _ => ?_
      · rw [RecoveryModel.due, decide_eq_true_eq]
        rfl
      · rw [quarantineRow_eq run.attempt.files.length (by
          rw [h.fixed.manifest, if_pos hname])]
        simp [actionOf, retireGenerated, Attempt.snapshot]
  | file i =>
      dsimp only
      cases hrow : run.attempt.files[i]? with
      | none =>
          exact pure_follows h (by simp [RecoveryModel.due, snapshot_file, hrow])
      | some row =>
          have hrow' : (run.attempt.snapshot e).files[i]? = some row.row := by
            rw [snapshot_file, hrow]
            rfl
          obtain ⟨leaf, hleaf, hsound⟩ := h.sound.files i row.row hrow'
          have hname : row.name ≠ shellName := by
            rw [show row.name = leaf.name from hsound.named]
            exact leafName_ne_shell (husable.leaves leaf (List.mem_of_getElem? hleaf))
          refine doIf_follows husable h hsplit ?_ fun _ => ?_
          · rw [RecoveryModel.due, hrow', Option.any_some, decide_eq_true_eq]
            rfl
          · rw [quarantineRow_eq i (by rw [h.fixed.files i row hrow, if_neg hname])]
            rw [actionOf, retireGenerated, hrow']
  | working i | original i => exact absurd hs (by simp [Subject.isGenerated])

theorem quarantineWorking_follows (husable : Usable origin) {i : Nat}
    (hsplit : m₀.subjects = done ++ .working i :: rest) :
    Meets (Following origin runId target e m₀ done) (quarantineWorking target (.working i))
      (fun _ => Following origin runId target e m₀ (done ++ [.working i]))
      (fun _ => Halted origin target e m₀) := by
  refine Meets.get_bind fun run h => ?_
  dsimp only
  cases hrow : run.attempt.objects[i]? with
  | none => exact pure_follows h (by simp [RecoveryModel.due, snapshot_object, hrow])
  | some row =>
      have hrow' : (run.attempt.snapshot e).objects[i]? = some row.row := by
        rw [snapshot_object, hrow]
        rfl
      refine doIf_follows husable h hsplit ?_ fun _ => ?_
      · rw [RecoveryModel.due, hrow', Option.any_some]
        rfl
      · rw [actionOf, retireWorking, hrow']

/-- The order that the attempt asserts is the model's. -/
theorem restoreOrdered_snapshot (role : Role) : a.restoreOrdered role =
    restoreOrdered ((a.snapshot e).objects.map (fun row => (row.role, row.state))) role := by
  rw [Attempt.restoreOrdered, Attempt.snapshot, List.map_map]
  rfl

theorem restoreRole_follows (husable : Usable origin) {role : Role}
    (hsplit : m₀.subjects = done ++ s :: rest) (hs : s ∈ m₀.roleSubjects role) :
    Meets (Following origin runId target e m₀ done) (restoreRole role s)
      (fun _ => Following origin runId target e m₀ (done ++ [s]))
      (fun _ => Halted origin target e m₀) := by
  obtain ⟨i, row₀, rfl, hrow₀, hrole⟩ := mem_roleSubjects.mp hs
  refine Meets.get_bind fun run h => ?_
  dsimp only
  cases hrow : run.attempt.objects[i]? with
  | none => exact pure_follows h (by simp [RecoveryModel.due, snapshot_object, hrow])
  | some row =>
      have hrow' : (run.attempt.snapshot e).objects[i]? = some row.row := by
        rw [snapshot_object, hrow]
        rfl
      have hsame : row.role = role := by
        have hroles := h.roles i
        rw [hrow', hrow₀] at hroles
        rw [← hrole]
        exact congrArg Prod.snd (Option.some.inj hroles)
      obtain ⟨o, ho, hstep, hdirectory, hname⟩ := h.fixed.objects i row hrow
      have hdue : (run.attempt.snapshot e).due (.original i) = true ↔ row.state = .preserved :=
        original_due hrow'
      refine Meets.doIf (fun hpreserved => ?_) fun run' hrun hneg => ?_
      · have hordered : run.attempt.restoreOrdered role = true := by
          rw [restoreOrdered_snapshot, ← hsame]
          exact restoreOrdered_of_find h.sound (h.find hsplit (hdue.mpr hpreserved)) hrow'
        refine Meets.throwIf_bind (fun run' hrun hfalse => ?_) fun _ => ?_
        · rw [hordered] at hfalse
          exact absurd hfalse (by simp)
        · refine move_follows husable h hsplit (hdue.mpr hpreserved) ?_
          rw [actionOf, hrow']
          dsimp only
          rw [restoreOriginal, hrow']
          dsimp only
          rw [show row.row.role = role from hsame, ← restoreOrdered_snapshot, hordered,
            show row.row.step = o.step from hstep, find_step husable.steps ho, hdirectory, hname]
          rfl
      · rw [hrun]
        refine h.skip ?_
        cases hcases : (run.attempt.snapshot e).due (.original i) with
        | false => rfl
        | true => exact absurd (hdue.mp hcases) hneg

/-! ## The whole execution -/

/-- A loop over a part of the agenda. -/
theorem loop_follows {body : Subject → Recover Unit} (before : List Subject) {part after : List Subject}
    (hsplit : m₀.subjects = before ++ (part ++ after))
    (hbody : ∀ s ∈ part, ∀ done rest, m₀.subjects = done ++ s :: rest →
      Meets (Following origin runId target e m₀ done) (body s)
        (fun _ => Following origin runId target e m₀ (done ++ [s]))
        (fun _ => Halted origin target e m₀)) :
    Meets (Following origin runId target e m₀ before) (forEach body part)
      (fun _ => Following origin runId target e m₀ (before ++ part))
      (fun _ => Halted origin target e m₀) := by
  refine (Meets.forEach (I := fun done => Following origin runId target e m₀ (before ++ done))
    fun done s rest hpart => ?_).pre fun run hrun => ?_
  · rw [← List.append_assoc]
    refine hbody s (by simp [hpart]) (before ++ done) (rest ++ after) ?_
    rw [hsplit, hpart]
    simp only [List.append_assoc, List.cons_append]
  · rw [List.append_nil]
    exact hrun

/-- **The execution follows the schedule**, whatever becomes of its moves. -/
theorem recoverGlobalMigration_follows (husable : Usable origin) (target : Text)
    (outcomes : List MoveOutcome) (hfixed : a.Fixed origin) (hsound : Sound origin runId (a.snapshot e)) :
    Meets (· = ⟨a, [], outcomes⟩) (recoverGlobalMigration target)
      (fun _ run => Prescribed origin target (a.snapshot e) run.issued (run.attempt.snapshot e) ∧
        nextAction (run.attempt.snapshot e) origin target = .ok none)
      (fun _ => Halted origin target e (a.snapshot e)) := by
  have hsubjects : (a.snapshot e).subjects = a.generatedSubjects ++
      (a.workingSubjects ++ restoreRoles.flatMap a.roleSubjects) := by
    rw [RecoveryModel.subjects, snapshot_generatedSubjects, snapshot_workingSubjects,
      funext snapshot_roleSubjects]
  have hfollowing : Following origin runId target e (a.snapshot e) [] ⟨a, [], outcomes⟩ :=
    ⟨hfixed, hsound, .start, rfl, fun _ => rfl, fun s hs => absurd hs (by simp)⟩
  refine Meets.get_bind fun start hstart => ?_
  rw [hstart]
  refine Meets.bind (Q := fun _ => Following origin runId target e (a.snapshot e)
    a.generatedSubjects) ?_ fun _ => ?_
  · refine (loop_follows [] hsubjects fun s hs done rest hsplit =>
      quarantineGenerated_follows husable hsplit ?_).pre fun run hrun => hrun ▸ hfollowing
    rcases List.mem_cons.mp hs with rfl | hs
    · rfl
    · obtain ⟨i, _, rfl⟩ := List.mem_map.mp hs
      rfl
  refine Meets.bind (Q := fun _ => Following origin runId target e (a.snapshot e)
    (a.generatedSubjects ++ a.workingSubjects)) ?_ fun _ => ?_
  · refine loop_follows _ hsubjects fun s hs done rest hsplit => ?_
    obtain ⟨i, _, rfl⟩ := List.mem_map.mp hs
    exact quarantineWorking_follows husable hsplit
  refine Meets.bind (Q := fun _ => Following origin runId target e (a.snapshot e)
    (a.generatedSubjects ++ a.workingSubjects ++ restoreRoles.flatMap a.roleSubjects)) ?_ fun _ => ?_
  · refine (Meets.forEach (I := fun roles => Following origin runId target e (a.snapshot e)
      (a.generatedSubjects ++ a.workingSubjects ++ roles.flatMap a.roleSubjects))
      fun done role rest hroles => ?_).pre fun run hrun => ?_
    · have hsplit : (a.snapshot e).subjects =
          (a.generatedSubjects ++ a.workingSubjects ++ done.flatMap a.roleSubjects) ++
            (a.roleSubjects role ++ rest.flatMap a.roleSubjects) := by
        rw [hsubjects, hroles, List.flatMap_append, List.flatMap_cons]
        simp only [List.append_assoc]
      refine (loop_follows _ hsplit fun s hs done rest hsplit => restoreRole_follows husable hsplit
        ((snapshot_roleSubjects role).symm ▸ hs)).post fun _ run hrun => ?_
      rw [List.flatMap_append, List.flatMap_singleton, ← List.append_assoc]
      exact hrun
    · rw [List.flatMap_nil, List.append_nil]
      exact hrun
  refine Meets.get_bind fun last h => ?_
  rw [List.append_assoc, ← hsubjects] at h
  -- nothing is due, so the search ends
  have hnone : nextAction (last.attempt.snapshot e) origin target = .ok none ∧
      ∀ row ∈ (last.attempt.snapshot e).objects, row.state = .original ∨ row.state = .restored := by
    rcases nextAction_cases husable.steps h.sound target with ⟨s, _, hfind, _⟩ | ⟨hnone, _, hall⟩
    · have hdue := List.find?_some hfind
      rw [h.settled s (h.subjects ▸ List.mem_of_find?_eq_some hfind)] at hdue
      exact absurd hdue (by simp)
    · exact ⟨hnone, hall⟩
  refine Meets.ite (fun hfalse => ?_) fun _ => Meets.pure fun run hrun => hrun ▸ ⟨h.prescribed, hnone.1⟩
  refine absurd hfalse ?_
  rw [Bool.not_eq_false, List.all_eq_true]
  intro row hrow
  rcases hnone.2 row.row (List.mem_map_of_mem hrow) with hstate | hstate
  · rw [show row.state = .original from hstate]
    rfl
  · rw [show row.state = .restored from hstate]
    rfl

end Caveat.Managed.Recovery
