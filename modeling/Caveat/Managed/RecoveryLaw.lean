import Caveat.Managed.RecoveryExecution

/-!
# The law of a recovery

Every replay of confirmed records goes down the schedule of the model that the migration left, and
ends when the originals are in place. An attempt starts from such a model, and makes the moves that
`nextAction` prescribes.
-/

namespace Caveat.Managed.Recovery

open Js Lib

variable {m m₀ : RecoveryModel} {origin : GlobalMigrationEvidence}
  {target root runId e : Text} {a : Attempt}

/-! ## How an attempt starts -/

theorem knownEntry_ok {binding : Option RecoveryLocation} {l : RecoveryLocation}
    (h : knownEntry binding = .ok l) : binding = some l := by
  cases binding with
  | none => exact absurd h (by simp [knownEntry])
  | some l' => rw [Except.ok.inj h]

/-- An object of an attempt is as its bindings say. -/
theorem attemptObject_ok {original working : Option RecoveryLocation} {o : EvidenceObject}
    {b : AttemptObject} (h : attemptObject original working o = .ok b) :
    o.state ≠ .unknown ∧ ∃ l entry, original = some l ∧
      (entry = none ∧ o.working.all (fun w => w.status = .absent) = true ∨
        entry = working ∧ working.isSome = true ∧
          o.working.all (fun w => w.status = .absent) = false) ∧
      b = ⟨o.step, o.role, o.directory, o.name, o.state, l, o.working, entry⟩ := by
  unfold attemptObject at h
  split at h
  · exact absurd h (by simp)
  rename_i hstate
  split at h
  · exact absurd h (by simp)
  split at h
  · exact absurd h (by simp)
  obtain ⟨l, hl, h⟩ := bind_eq_ok.mp h
  obtain ⟨entry, hentry, h⟩ := bind_eq_ok.mp h
  refine ⟨hstate, l, entry, knownEntry_ok hl, ?_, (Except.ok.inj h).symm⟩
  unfold workingKnown at hentry
  split at hentry
  · rename_i hall
    exact .inl ⟨(Except.ok.inj hentry).symm, hall⟩
  · rename_i hall
    refine .inr ?_
    cases working with
    | none => exact absurd hentry (by simp [knownEntry, Except.map])
    | some l' => exact ⟨(Except.ok.inj hentry).symm, rfl, by simpa using hall⟩

theorem attemptGenerated_ok {name backupName : Text} {status : GeneratedStatus}
    {binding : Option RecoveryLocation} {b : AttemptGenerated}
    (h : attemptGenerated name backupName status binding = .ok b) : b.backupName = backupName ∧
      (status = .absent ∧ b.row = ⟨name, status, none⟩ ∨
        status ≠ .absent ∧ ∃ l, binding = some l ∧ b.row = ⟨name, status, some l⟩) := by
  unfold attemptGenerated at h
  split at h
  · rename_i habsent
    obtain rfl := Except.ok.inj h
    exact ⟨rfl, .inl ⟨habsent, rfl⟩⟩
  · rename_i hpresent
    cases binding with
    | none => exact absurd h (by simp [knownEntry, Except.map])
    | some l =>
        obtain rfl := Except.ok.inj h
        exact ⟨rfl, .inr ⟨hpresent, l, rfl, rfl⟩⟩

/-- What a migration binds is what the model has. -/
theorem migrationObject_row {files : List ShellObject} {o : EvidenceObject} {row : RecoveryObject}
    {b : AttemptObject} (hrow : objectOf root o = .ok row)
    (h : attemptObject (originalBinding root o) (workingBinding root files o) o = .ok b) :
    b.row = row := by
  obtain ⟨hstate, l, entry, hl, hentry, rfl⟩ := attemptObject_ok h
  have horiginal : l = if o.state = .preserved then ⟨root, o.backupName, o.rows⟩
      else ⟨o.directory, o.name, o.rows⟩ := by
    rw [originalBinding, if_neg hstate] at hl
    split at hl
    · rename_i hpreserved
      rw [if_pos hpreserved, Option.some.inj hl]
    · rename_i hpreserved
      rw [if_neg hpreserved, Option.some.inj hl]
  have hworking : entry = o.working.bind (fun w =>
      if w.status = .absent then none
      else if w.status = .quarantined then some ⟨root, usedName w.stagingName, w.rows.getD []⟩
      else some ⟨o.directory, o.name, w.rows.getD []⟩) := by
    rcases hentry with ⟨rfl, hall⟩ | ⟨rfl, hsome, hall⟩
    · cases hw : o.working with
      | none => rfl
      | some w =>
          rw [hw] at hall
          rw [Option.bind_some, if_pos (of_decide_eq_true hall)]
    · cases hw : o.working with
      | none =>
          rw [hw] at hall
          exact absurd hall (by simp)
      | some w =>
          rw [hw] at hall
          rw [workingBinding, hw, Option.bind_some] at hsome ⊢
          rw [Option.bind_some, if_neg (of_decide_eq_false hall)]
          split
          · rename_i hquarantined
            rw [if_pos hquarantined] at hsome
            cases hrows : w.rows with
            | none =>
                rw [hrows] at hsome
                exact absurd hsome (by simp)
            | some rows => rfl
          · rename_i hquarantined
            rw [if_neg hquarantined] at hsome
            split at hsome
            · rename_i hhome
              rw [if_pos hhome]
              cases hrows : w.rows with
              | none =>
                  rw [hrows] at hsome
                  exact absurd hsome (by simp)
              | some rows => rfl
            · exact absurd hsome (by simp)
  unfold objectOf at hrow
  split at hrow
  · exact absurd hrow (by simp)
  split at hrow
  · exact absurd hrow (by simp)
  rw [← Except.ok.inj hrow, ← horiginal, ← hworking]
  rfl

theorem migrationGenerated_row {home : Text} {o : ShellObject} {b : AttemptGenerated}
    (h : migrationGenerated root home o = .ok b) :
    b.row = generatedOf root home o ∧ b.backupName = o.backupName := by
  obtain ⟨hbackup, ⟨habsent, hrow⟩ | ⟨hpresent, l, hl, hrow⟩⟩ := attemptGenerated_ok h
  · exact ⟨by rw [hrow, generatedOf, if_pos habsent], hbackup⟩
  · refine ⟨?_, hbackup⟩
    rw [hrow, generatedOf, if_neg hpresent]
    rw [generatedBinding] at hl
    cases hrows : o.rows with
    | none =>
        rw [hrows] at hl
        exact absurd hl (by simp)
    | some rows =>
        rw [hrows] at hl
        split at hl
        · rename_i hquarantined
          rw [if_pos hquarantined, ← Option.some.inj hl]
          rfl
        · rename_i hquarantined
          rw [if_neg hquarantined, ← Option.some.inj hl]
          rfl

/-- **An attempt from a migration** has the model of the migration. -/
theorem attemptFromMigration_ok (hchecked : Checked origin root runId)
    (hm : recoveryModelFromMigration origin root = .ok m) (h : attemptFromMigration origin root = .ok a) :
    a.Fixed origin ∧ a.snapshot e = { m with sourceEvidenceSha256 := e } := by
  unfold attemptFromMigration at h
  obtain ⟨objects, hobjects, h⟩ := bind_eq_ok.mp h
  obtain ⟨files, hfiles, h⟩ := bind_eq_ok.mp h
  obtain ⟨manifest, hmanifest, h⟩ := bind_eq_ok.mp h
  obtain rfl := Except.ok.inj h
  unfold recoveryModelFromMigration at hm
  split at hm
  · exact absurd hm (by simp)
  split at hm
  · exact absurd hm (by simp)
  rename_i rows hrows
  obtain rfl := Except.ok.inj hm
  have hobject : objects.map AttemptObject.row = rows := by
    refine map_eq_of_mapM hobjects (mapM_length hrows) fun i o b ho hb => ?_
    have hi : i < rows.length := by
      rw [mapM_length hrows]
      exact (List.getElem?_eq_some_iff.mp ho).1
    obtain ⟨o', ho', hrow⟩ := mapM_getElem? hrows i rows[i] (List.getElem?_eq_getElem hi)
    obtain rfl : o = o' := Option.some.inj (ho.symm.trans ho')
    rw [List.getElem?_eq_getElem hi, migrationObject_row hrow hb]
  have hfixed : ∀ (i : Nat) row, objects[i]? = some row → ∃ o, origin.objects[i]? = some o ∧
      row.step = o.step ∧ row.directory = o.directory ∧ row.name = o.name := by
    intro i row hrow
    obtain ⟨o, ho, hb⟩ := mapM_getElem? hobjects i row hrow
    obtain ⟨_, l, entry, _, _, rfl⟩ := attemptObject_ok hb
    exact ⟨o, ho, rfl, rfl, rfl⟩
  cases hshell : origin.shell with
  | none =>
      rw [hshell] at hfiles hmanifest
      have hleaf : ∀ (i : Nat) o, (ShellState.fresh origin.plan.leaves).files[i]? = some o →
          ∃ leaf, origin.plan.leaves[i]? = some leaf ∧ o = ⟨leaf.name, generatedName i, .absent, none⟩ := by
        intro i o ho
        rw [ShellState.fresh, List.getElem?_mapIdx] at ho
        obtain ⟨leaf, hleaf, rfl⟩ := Option.map_eq_some_iff.mp ho
        exact ⟨leaf, hleaf, rfl⟩
      refine ⟨⟨hfixed, fun i row hrow => ?_, (migrationGenerated_row hmanifest).2⟩, ?_⟩
      · obtain ⟨o, ho, hb⟩ := mapM_getElem? hfiles i row hrow
        obtain ⟨leaf, _, rfl⟩ := hleaf i o ho
        exact (migrationGenerated_row hb).2
      · have hfile : files.map AttemptGenerated.row = (ShellState.none origin.plan.leaves).files.map
            (generatedOf root origin.plan.binDirectory) := by
          refine map_eq_of_mapM hfiles (by simp [ShellState.none, ShellState.fresh]) fun i o b ho hb => ?_
          obtain ⟨leaf, hleaf, rfl⟩ := hleaf i o ho
          rw [(migrationGenerated_row hb).1, ShellState.none, List.getElem?_map, List.getElem?_map,
            hleaf]
          rfl
        rw [Attempt.snapshot, hobject, hfile, (migrationGenerated_row hmanifest).1]
        rfl
  | some shell =>
      rw [hshell] at hfiles hmanifest
      have hlength := hchecked.files shell hshell
      refine ⟨⟨hfixed, fun i row hrow => ?_, ?_⟩, ?_⟩
      · obtain ⟨o, ho, hb⟩ := mapM_getElem? hfiles i row hrow
        obtain ⟨leaf, hleaf⟩ : ∃ leaf, origin.plan.leaves[i]? = some leaf :=
          ⟨_, List.getElem?_eq_getElem (hlength ▸ (List.getElem?_eq_some_iff.mp ho).1)⟩
        rw [(migrationGenerated_row hb).2]
        exact (hchecked.file shell hshell i o leaf ho hleaf).backupName
      · rw [(migrationGenerated_row hmanifest).2]
        exact (hchecked.manifest shell hshell).backupName
      · have hfile : files.map AttemptGenerated.row =
            shell.files.map (generatedOf root origin.plan.binDirectory) := by
          refine map_eq_of_mapM hfiles (List.length_map ..) fun i o b ho hb => ?_
          rw [List.getElem?_map, show shell.files[i]? = some o from ho, (migrationGenerated_row hb).1]
          rfl
        rw [Attempt.snapshot, hobject, hfile, (migrationGenerated_row hmanifest).1]
        rfl

/-- What a chain binds is what its model has. -/
theorem chainObject_row {o : EvidenceObject} {b : AttemptObject} (h : chainObject m o = .ok b) :
    ∃ row, m.objects.find? (fun row => row.step = o.step) = some row ∧
      b.step = o.step ∧ b.role = o.role ∧ b.directory = o.directory ∧ b.name = o.name ∧
      b.state = row.state ∧ b.original = row.original ∧ b.working = row.working ∧
      (b.workingEntry = none ∧ row.working.all (fun w => w.status = .absent) = true ∨
        b.workingEntry = row.workingEntry) := by
  unfold chainObject at h
  cases hfind : m.objects.find? (fun row => row.step = o.step) with
  | none =>
      rw [hfind] at h
      exact absurd h (by simp)
  | some row =>
      rw [hfind] at h
      dsimp only at h
      split at h
      · exact absurd h (by simp)
      obtain ⟨_, l, entry, hl, hentry, rfl⟩ := attemptObject_ok h
      refine ⟨row, rfl, rfl, rfl, rfl, rfl, rfl, (Option.some.inj hl).symm, rfl, ?_⟩
      rcases hentry with ⟨rfl, hall⟩ | ⟨rfl, _⟩
      · exact .inl ⟨rfl, hall⟩
      · exact .inr rfl

theorem chainGenerated_row {directory name : Text} {index : Nat} {row : GeneratedObject}
    {b : AttemptGenerated}
    (hsound : GeneratedSound directory name
      (if name = shellName then shellBackup else generatedName index) row)
    (h : chainGenerated index row = .ok b) :
    b.row = row ∧ b.backupName = if name = shellName then shellBackup else generatedName index := by
  obtain ⟨hbackup, ⟨habsent, hrow⟩ | ⟨_, l, hl, hrow⟩⟩ := attemptGenerated_ok h
  · rw [hsound.named] at hbackup
    refine ⟨?_, hbackup⟩
    rw [hrow, ← hsound.absent habsent]
  · rw [hsound.named] at hbackup
    refine ⟨?_, hbackup⟩
    rw [hrow, ← hl]

/-- **An attempt from a chain** has the model of the chain. -/
theorem attemptFromChain_ok (husable : Usable origin) (hsound : Sound origin runId m)
    (hconfirmed : m.confirmed = true) (h : attemptFromChain origin m = .ok a) :
    a.Fixed origin ∧ a.snapshot e = { m with sourceEvidenceSha256 := e } := by
  unfold attemptFromChain at h
  obtain ⟨objects, hobjects, h⟩ := bind_eq_ok.mp h
  obtain ⟨files, hfiles, h⟩ := bind_eq_ok.mp h
  obtain ⟨manifest, hmanifest, h⟩ := bind_eq_ok.mp h
  obtain rfl := Except.ok.inj h
  have hat : ∀ (i : Nat) o b, origin.objects[i]? = some o → chainObject m o = .ok b →
      m.objects[i]? = some b.row := by
    intro i o b ho hb
    obtain ⟨row, hfind, hstep, hrole, _, _, hstate, horiginal, hworking, hentry⟩ := chainObject_row hb
    obtain ⟨j, hj⟩ := List.mem_iff_getElem?.mp (List.mem_of_find?_eq_some hfind)
    obtain ⟨o', ho', hrow⟩ := hsound.objects j row hj
    have hsteps : row.step = o.step := by simpa using List.find?_some hfind
    -- the row of an object is at the object's place
    obtain rfl : j = i := index_of_nodup_map husable.steps ho' ho (hrow.step.symm.trans hsteps)
    obtain rfl : o' = o := Option.some.inj (ho'.symm.trans ho)
    have hentry : b.workingEntry = row.workingEntry := by
      rcases hentry with ⟨hnone, hall⟩ | hsame
      · rw [hnone]
        cases hw : row.working with
        | none => exact (hrow.none hw).symm
        | some w =>
            rw [hw] at hall
            exact (hrow.absent w hw (of_decide_eq_true hall)).symm
      · exact hsame
    rw [hj, AttemptObject.row, hstep, hrole, hstate, horiginal, hworking, hentry, ← hrow.step,
      ← hrow.role]
  have hlength : m.objects.length = origin.objects.length := by
    refine le_antisymm ?_ ?_
    · by_contra hlt
      obtain ⟨o, ho, _⟩ := hsound.objects origin.objects.length
        m.objects[origin.objects.length] (List.getElem?_eq_getElem (by omega))
      exact absurd (List.getElem?_eq_some_iff.mp ho).1 (by omega)
    · by_contra hlt
      have hi : m.objects.length < objects.length := by
        rw [mapM_length hobjects]
        omega
      obtain ⟨o, ho, hb⟩ := mapM_getElem? hobjects m.objects.length objects[m.objects.length]
        (List.getElem?_eq_getElem hi)
      exact absurd (List.getElem?_eq_some_iff.mp (hat _ o _ ho hb)).1 (by omega)
  have hobject : objects.map AttemptObject.row = m.objects :=
    map_eq_of_mapM hobjects hlength hat
  have hfileSound : ∀ (i : Nat) row, m.files[i]? = some row → ∃ leaf : Leaf,
      leaf.name ≠ shellName ∧ GeneratedSound origin.plan.binDirectory leaf.name
        (if leaf.name = shellName then shellBackup else generatedName i) row := by
    intro i row hrow
    obtain ⟨leaf, hleaf, hfile⟩ := hsound.files i row hrow
    have hname := leafName_ne_shell (husable.leaves leaf (List.mem_of_getElem? hleaf))
    exact ⟨leaf, hname, by rwa [if_neg hname]⟩
  have hzip : ∀ (i : Nat) p, m.files.zipIdx[i]? = some p → m.files[i]? = some p.1 ∧ p.2 = i := by
    intro i p hp
    rw [List.getElem?_zipIdx] at hp
    obtain ⟨row, hrow, rfl⟩ := Option.map_eq_some_iff.mp hp
    exact ⟨hrow, Nat.zero_add i⟩
  have hfile : files.map AttemptGenerated.row = m.files := by
    refine map_eq_of_mapM hfiles List.length_zipIdx.symm fun i p b hp hb => ?_
    obtain ⟨hrow, hindex⟩ := hzip i p hp
    obtain ⟨leaf, _, hfileSound⟩ := hfileSound i p.1 hrow
    rw [hindex] at hb
    rw [hrow, (chainGenerated_row hfileSound hb).1]
  have hmanifestSound : GeneratedSound origin.plan.root shellName
      (if shellName = shellName then shellBackup else generatedName m.files.length) m.manifest := by
    rw [if_pos rfl]
    exact hsound.manifest
  obtain ⟨hmanifestRow, hmanifestBackup⟩ := chainGenerated_row hmanifestSound hmanifest
  refine ⟨⟨fun i row hrow => ?_, fun i row hrow => ?_, hmanifestBackup⟩, ?_⟩
  · obtain ⟨o, ho, hb⟩ := mapM_getElem? hobjects i row hrow
    obtain ⟨_, _, hstep, _, hdirectory, hname, _⟩ := chainObject_row hb
    exact ⟨o, ho, hstep, hdirectory, hname⟩
  · obtain ⟨p, hp, hb⟩ := mapM_getElem? hfiles i row hrow
    obtain ⟨hrow, hindex⟩ := hzip i p hp
    obtain ⟨leaf, hname, hfileSound⟩ := hfileSound i p.1 hrow
    rw [hindex] at hb
    rw [(chainGenerated_row hfileSound hb).2, if_neg hname]
  · rw [Attempt.snapshot, hobject, hfile, hmanifestRow, ← hconfirmed]

/-! ## The law -/

theorem confirmed_of_replay (hm : m₀.confirmed = true) {done : List Action}
    (h : Replay origin m₀ done m) : m.confirmed = true := by
  induction h with
  | nil => exact hm
  | record _ _ happly ih =>
      obtain ⟨a, rows, _, _, _, rfl⟩ := applyConfirmed_ok happly
      cases a.subject <;> exact ih
  | attempt _ _ ih => exact ih

/-- A record that is accepted does the next subject, so fewer are left. -/
theorem remaining_lt (husable : Usable origin) (hsound : Sound origin runId m)
    {record : RecoveryRecord} {m' : RecoveryModel}
    (h : applyConfirmedRecoveryRecord m record origin target = .ok m') :
    m'.remaining < m.remaining := by
  obtain ⟨a, rows, hnext, _, _, rfl⟩ := applyConfirmed_ok h
  rcases nextAction_cases husable.steps hsound target with ⟨s, a', hfind, hok, _, haction⟩ | ⟨hnone, _⟩
  · obtain rfl : a = a' := Option.some.inj (Except.ok.inj (hnext.symm.trans hok))
    rw [haction.subject, RecoveryModel.remaining, subjects_moved]
    exact (settles_moved m _ s).schedule_length_lt (subjects_nodup m)
      (find?_eq_head?_schedule ▸ hfind)
  · rw [hnext] at hnone
    exact absurd (Except.ok.inj hnone) (by simp)

/-- How an execution may end. -/
def Executed (origin : GlobalMigrationEvidence) (target e : Text) (m : RecoveryModel) :
    EStateM.Result AttemptError Execution Unit → Prop
  | .ok _ run => Prescribed origin target m run.issued (run.attempt.snapshot e) ∧
      nextAction (run.attempt.snapshot e) origin target = .ok none
  | .error _ run => Interrupted origin target m run.issued (run.attempt.snapshot e)

/--
What holds of every replay of confirmed records, from the model that a migration left.

Objects have distinct places in the sense that no record brings two of them together: two that are at
one place were there when the model was built.
-/
structure RecoveryLaw (origin : GlobalMigrationEvidence) (root : Text) (m₀ : RecoveryModel) :
    Prop where
  /-- A confirmed record brings the measure down. -/
  descends : ∀ done m target record m', Replay origin m₀ done m →
    applyConfirmedRecoveryRecord m record origin target = .ok m' → m'.remaining < m.remaining
  /-- The search for the next action ends, and without one only when the originals are in place. -/
  ends : ∀ done m target, Replay origin m₀ done m →
    (∃ a, nextAction m origin target = .ok (some a)) ∨ nextAction m origin target = .ok none ∧
      ∀ row ∈ m.objects, row.state = .original ∨ row.state = .restored
  /-- The actions are in the order of their phases. -/
  ordered : ∀ done m, Replay origin m₀ done m →
    done.Pairwise (fun a b => m₀.phase a.subject ≤ m₀.phase b.subject)
  distinct : ∀ done m s t, Replay origin m₀ done m → s ≠ t → SamePlace m s t →
    SamePlace m₀ s t ∧ s.isGenerated ≠ t.isGenerated
  /-- An attempt from the migration issues the moves that are prescribed. -/
  migrationExecuted : ∀ a e target outcomes, attemptFromMigration origin root = .ok a →
    Executed origin target e { m₀ with sourceEvidenceSha256 := e }
      (recoverGlobalMigration target ⟨a, [], outcomes⟩)
  /-- So does one from a chain. -/
  chainExecuted : ∀ done m a e target outcomes, Replay origin m₀ done m →
    attemptFromChain origin m = .ok a →
      Executed origin target e { m with sourceEvidenceSha256 := e }
        (recoverGlobalMigration target ⟨a, [], outcomes⟩)

theorem executed_of_fixed (husable : Usable origin) {outcomes : List MoveOutcome}
    (hfixed : a.Fixed origin) (hsnapshot : a.snapshot e = { m with sourceEvidenceSha256 := e })
    (hsound : Sound origin runId m) :
    Executed origin target e { m with sourceEvidenceSha256 := e }
      (recoverGlobalMigration target ⟨a, [], outcomes⟩) := by
  have hstart : Sound origin runId (a.snapshot e) := by
    rw [hsnapshot]
    exact ⟨hsound.objects, hsound.files, hsound.manifest⟩
  have hrun := recoverGlobalMigration_follows husable target outcomes hfixed hstart _ rfl
  rw [hsnapshot] at hrun
  cases hresult : recoverGlobalMigration target ⟨a, [], outcomes⟩ with
  | ok _ run =>
      rw [hresult] at hrun
      exact hrun
  | error _ run =>
      rw [hresult] at hrun
      exact hrun

/-- **The law of a recovery**, for every model that is built from checked evidence. -/
theorem recovery_law (hchecked : Checked origin root runId)
    (hm : recoveryModelFromMigration origin root = .ok m₀) : RecoveryLaw origin root m₀ := by
  have husable := hchecked.usable
  have hsound := sound_of_migration hchecked hm
  have hreplayed : ∀ {done m}, Replay origin m₀ done m → Replayed origin runId m₀ done m :=
    fun h => replayed_of_replay husable hsound h
  constructor
  case descends =>
    intro done m target record m' h happly
    exact remaining_lt husable (hreplayed h).sound happly
  case ends =>
    intro done m target h
    rcases nextAction_cases husable.steps (hreplayed h).sound target with
      ⟨_, a, _, hnext, _⟩ | ⟨hnone, _, hall⟩
    · exact .inl ⟨a, hnext⟩
    · exact .inr ⟨hnone, hall⟩
  case ordered =>
    intro done m h
    have hsublist := (hreplayed h).course.sublist (subjects_nodup m₀)
    exact (List.pairwise_map (f := fun a : Action => a.subject)).mp
      ((subjects_phases m₀).sublist hsublist)
  case distinct =>
    intro done m s t h hne hplace
    exact samePlace_of_replayed hchecked (hreplayed h) hne hplace
  case migrationExecuted =>
    intro a e target outcomes ha
    obtain ⟨hfixed, hsnapshot⟩ := attemptFromMigration_ok (e := e) hchecked hm ha
    exact executed_of_fixed husable hfixed hsnapshot hsound
  case chainExecuted =>
    intro done m a e target outcomes h ha
    have hconfirmed : m₀.confirmed = true := by
      unfold recoveryModelFromMigration at hm
      split at hm
      · exact absurd hm (by simp)
      split at hm
      · exact absurd hm (by simp)
      rw [← Except.ok.inj hm]
    obtain ⟨hfixed, hsnapshot⟩ := attemptFromChain_ok (e := e) husable (hreplayed h).sound
      (confirmed_of_replay hconfirmed h) ha
    exact executed_of_fixed husable hfixed hsnapshot (hreplayed h).sound

/-! ### A migration that stopped with the package preserved -/

def sampleRows : Rows :=
  [{ relativePath := []
     identity :=
      { dev := "1".toList, ino := "2".toList, kind := .directory, size := "0".toList
        links := "1".toList, mtime := "0".toList, ctime := "0".toList, owner := "0".toList
        group := "0".toList, mode := 0 } }]

def sampleRun : Text := "/r/global-migration-1".toList

def sampleEvidence : GlobalMigrationEvidence where
  plan :=
    { root := "/r".toList
      globalRoot := "/g".toList
      binDirectory := "/b".toList
      leaves := [⟨"caveat".toList, none⟩]
      originalObjects := true }
  evidenceSha256 := []
  objects :=
    [{ step := "package".toList
       role := .package
       directory := "/g".toList
       name := "caveat-cli".toList
       backupDirectory := sampleRun
       backupName := "original-package".toList
       state := .preserved
       working := some ⟨.known, some sampleRows, "work-1-package".toList⟩
       rows := sampleRows }]
  shell := none

theorem sampleEvidence_checked : Checked sampleEvidence sampleRun "1".toList where
  leafNames := by decide
  leavesDistinct := by decide
  steps := by decide
  scope o ho := by
    obtain rfl := List.mem_singleton.mp ho
    exact .package rfl rfl rfl rfl rfl
  backup o ho := by
    obtain rfl := List.mem_singleton.mp ho
    rfl
  working o ho w hw := by
    obtain rfl := List.mem_singleton.mp ho
    obtain rfl := Option.some.inj hw
    exact ⟨rfl, fun h => absurd h (by simp)⟩
  files _ h := absurd h (by simp [sampleEvidence])
  file _ h := absurd h (by simp [sampleEvidence])
  manifest _ h := absurd h (by simp [sampleEvidence])

def sampleModel : RecoveryModel where
  sourceEvidenceSha256 := []
  confirmed := true
  objects :=
    [⟨"package".toList, .package, .preserved, ⟨sampleRun, "original-package".toList, sampleRows⟩,
      some ⟨.known, some sampleRows, "work-1-package".toList⟩,
      some ⟨"/g".toList, "caveat-cli".toList, sampleRows⟩⟩]
  files := [⟨"caveat".toList, .absent, none⟩]
  manifest := ⟨shellName, .absent, none⟩

theorem recovery_law_package : RecoveryLaw sampleEvidence sampleRun sampleModel :=
  recovery_law sampleEvidence_checked (by decide +kernel)

end Caveat.Managed.Recovery
