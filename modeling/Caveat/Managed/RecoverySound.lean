import Caveat.Lib.Loop
import Caveat.Managed.RecoveryOrder

/-!
# What a model of a recovery holds

A row of the model belongs to an object of the evidence. Where it says that an object is at home, it
is at the object's own place, and where it says that it was moved, it has the name of that move. With
this every search for the next action ends: with the action of the first subject that is due, or with
the originals in place.
-/

namespace Caveat.Managed.Recovery

open Js Lib

variable {m m' m₀ : RecoveryModel} {origin : GlobalMigrationEvidence} {target root runId : Text}
  {s t : Subject} {a : Action}

/-- What the model holds of an original object. -/
structure ObjectSound (runId : Text) (o : EvidenceObject) (row : RecoveryObject) : Prop where
  step : row.step = o.step
  role : row.role = o.role
  state : row.state ≠ .unknown
  backup : row.state = .preserved → row.original.name = o.backupName
  home : row.state ≠ .preserved → row.original.place = (o.directory, o.name)
  known : ∀ w, row.working = some w → w.isKnown = true → row.state = .preserved ∧
    ∃ l, row.workingEntry = some l ∧ l.place = (o.directory, o.name)
  used : ∀ w l, row.working = some w → w.isKnown = false → row.workingEntry = some l →
    l.name = usedName w.stagingName ∨ l.name = usedWorking o.step
  staging : ∀ w, row.working = some w →
    w.stagingName = "work-".toList ++ runId ++ "-".toList ++ o.step
  none : row.working = none → row.workingEntry = none
  absent : ∀ w, row.working = some w → w.status = .absent → row.workingEntry = .none

/-- What the model holds of a generated object. -/
structure GeneratedSound (directory name backup : Text) (row : GeneratedObject) : Prop where
  named : row.name = name
  status : row.status ≠ .unknown
  installed : row.status = .installed → ∃ l, row.entry = some l ∧ l.place = (directory, name)
  used : ∀ l, row.status = .quarantined → row.entry = some l → l.name = usedName backup
  absent : row.status = .absent → row.entry = none

/-- What a model holds of the evidence that it was built from. -/
structure Sound (origin : GlobalMigrationEvidence) (runId : Text) (m : RecoveryModel) : Prop where
  objects : ∀ (i : Nat) row, m.objects[i]? = some row →
    ∃ o, origin.objects[i]? = some o ∧ ObjectSound runId o row
  files : ∀ (i : Nat) row, m.files[i]? = some row → ∃ leaf, origin.plan.leaves[i]? = some leaf ∧
    GeneratedSound origin.plan.binDirectory leaf.name (generatedName i) row
  manifest : GeneratedSound origin.plan.root shellName shellBackup m.manifest

/-! ## The model as it is built -/

theorem objectSound_of {o : EvidenceObject} {row : RecoveryObject}
    (hchecked : ∀ w ∈ o.working, WorkingChecked runId o.step w) (h : objectOf root o = .ok row) :
    ObjectSound runId o row := by
  unfold objectOf at h
  split at h
  · exact absurd h (by simp)
  rename_i hstate
  split at h
  · exact absurd h (by simp)
  rename_i hconflict
  simp only [Bool.not_eq_true', Bool.not_eq_false] at hstate hconflict
  obtain rfl := Except.ok.inj h
  have hknown : ∀ w, o.working = some w → w.isKnown = true → o.state = .preserved := by
    intro w hw hk
    rw [hw] at hconflict
    rw [Working.isKnown] at hk
    rcases Bool.or_eq_true _ _ |>.mp hconflict with hp | hq
    · exact of_decide_eq_true hp
    · simp only [Option.all_some, Bool.or_eq_true, decide_eq_true_eq] at hk hq
      rcases hk with hk | hk <;> rcases hq with hq | hq <;> rw [hk] at hq <;>
        exact absurd hq (by simp)
  constructor
  case step => rfl
  case role => rfl
  case state =>
    intro hu
    dsimp only at hu
    exact hstate (by simp [hu])
  case backup =>
    intro hp
    dsimp only at hp ⊢
    rw [if_pos hp]
  case home =>
    intro hp
    dsimp only at hp ⊢
    rw [if_neg hp]
    rfl
  case known =>
    intro w hw hk
    dsimp only at hw ⊢
    refine ⟨hknown w hw hk, ?_⟩
    rw [Working.isKnown] at hk
    have hnot : w.status ≠ .absent ∧ w.status ≠ .quarantined := by
      simp only [Bool.or_eq_true, decide_eq_true_eq] at hk
      rcases hk with hk | hk <;> rw [hk] <;> simp
    rw [hw, Option.bind_some, if_neg hnot.1, if_neg hnot.2]
    exact ⟨_, rfl, rfl⟩
  case used =>
    intro w l hw hk hl
    dsimp only at hw hl
    rw [hw, Option.bind_some] at hl
    split at hl
    · exact absurd hl (by simp)
    split at hl
    · rw [← Option.some.inj hl]
      exact .inl rfl
    · -- the other states are refused
      rename_i habsent hquarantined
      rw [hw] at hstate
      rw [Working.isKnown] at hk
      cases hs : w.status <;> simp [hs] at hk habsent hquarantined hstate
  case staging => exact fun w hw => (hchecked w hw).staging
  case none =>
    intro hw
    dsimp only at hw ⊢
    rw [hw]
    rfl
  case absent =>
    intro w hw hs
    dsimp only at hw ⊢
    rw [hw, Option.bind_some, if_pos hs]

theorem generatedSound_of {o : ShellObject} {home name backup : Text}
    (h : ShellChecked name backup o) : GeneratedSound home name backup (generatedOf root home o) := by
  constructor
  case named => exact h.name
  case status => exact h.status
  case installed =>
    intro hs
    have hs' : o.status = .installed := hs
    refine ⟨⟨home, o.name, o.rows.getD []⟩, ?_, congrArg (Prod.mk home) h.name⟩
    simp [generatedOf, hs']
  case used =>
    intro l hs hl
    have hs' : o.status = .quarantined := hs
    simp only [generatedOf, hs'] at hl
    rw [← Option.some.inj hl, ← h.backupName]
  case absent =>
    intro hs
    have hs' : o.status = .absent := hs
    simp [generatedOf, hs']

theorem generatedSound_none {home name : Text} (backup : Text) :
    GeneratedSound home name backup (generatedOf root home ⟨name, [], .absent, none⟩) where
  named := rfl
  status := by simp [generatedOf]
  installed h := absurd h (by simp [generatedOf])
  used _ h := absurd h (by simp [generatedOf])
  absent _ := rfl

/-- A model that is built from checked evidence is sound. -/
theorem sound_of_migration (hchecked : Checked origin root runId)
    (h : recoveryModelFromMigration origin root = .ok m) : Sound origin runId m := by
  unfold recoveryModelFromMigration at h
  split at h
  · exact absurd h (by simp)
  split at h
  · exact absurd h (by simp)
  rename_i objects hobjects
  obtain rfl := Except.ok.inj h
  constructor
  case objects =>
    intro i row hrow
    obtain ⟨o, ho, hrow⟩ := mapM_getElem? hobjects i row hrow
    have hmem := List.mem_of_getElem? ho
    exact ⟨o, ho, objectSound_of (hchecked.working o hmem) hrow⟩
  case files =>
    intro i row hrow
    dsimp only at hrow
    rw [List.getElem?_map] at hrow
    obtain ⟨o, ho, rfl⟩ := Option.map_eq_some_iff.mp hrow
    cases hshell : origin.shell with
    | none =>
        rw [hshell] at ho
        have hrows : (origin.plan.leaves.map
            (fun leaf => (⟨leaf.name, [], .absent, none⟩ : ShellObject)))[i]? = some o := ho
        rw [List.getElem?_map] at hrows
        obtain ⟨leaf, hleaf, rfl⟩ := Option.map_eq_some_iff.mp hrows
        exact ⟨leaf, hleaf, generatedSound_none _⟩
    | some shell =>
        rw [hshell] at ho
        have hlen := hchecked.files shell hshell
        have hi := (List.getElem?_eq_some_iff.mp ho).1
        obtain ⟨leaf, hleaf⟩ : ∃ leaf, origin.plan.leaves[i]? = some leaf :=
          ⟨_, List.getElem?_eq_getElem (hlen ▸ hi)⟩
        exact ⟨leaf, hleaf, generatedSound_of (hchecked.file shell hshell i o leaf ho hleaf)⟩
  case manifest =>
    dsimp only
    cases hshell : origin.shell with
    | none => exact generatedSound_none _
    | some shell => exact generatedSound_of (hchecked.manifest shell hshell)

/-! ## The next action -/

/-- The action about a subject. -/
def actionOf (m : RecoveryModel) (origin : GlobalMigrationEvidence) (target : Text) :
    Subject → Except RecoveryError Action
  | .original i =>
      match m.objects[i]? with
      | some row => restoreOriginal m origin row.role (.original i)
      | none => .error .type
  | .working i => retireWorking m target (.working i)
  | .file i => retireGenerated m target (.file i)
  | .manifest => retireGenerated m target .manifest

theorem nextRestore_eq (roles : List Role) : nextRestore m origin roles =
    match (roles.flatMap m.roleSubjects).find? m.due with
    | some s => (actionOf m origin target s).map some
    | none => nextRestore m origin [] := by
  induction roles with
  | nil => rfl
  | cons role roles ih =>
      rw [List.flatMap_cons, List.find?_append]
      conv_lhs => rw [nextRestore]
      cases hfind : (m.roleSubjects role).find? m.due with
      | none => exact ih
      | some s =>
          obtain ⟨i, row, rfl, hrow, rfl⟩ := mem_roleSubjects.mp (List.mem_of_find?_eq_some hfind)
          dsimp only [Option.some_or]
          rw [actionOf, hrow]

/-- **The search for the next action** is a search for the first subject that is due. -/
theorem nextAction_eq : nextAction m origin target =
    match m.subjects.find? m.due with
    | some s => (actionOf m origin target s).map some
    | none => nextRestore m origin [] := by
  rw [nextAction, RecoveryModel.subjects, List.find?_append]
  cases hgenerated : m.generatedSubjects.find? m.due with
  | some s =>
      dsimp only [Option.some_or]
      rcases List.mem_cons.mp (List.mem_of_find?_eq_some hgenerated) with rfl | hs
      · rfl
      · obtain ⟨i, _, rfl⟩ := List.mem_map.mp hs
        rfl
  | none =>
      dsimp only [Option.none_or]
      rw [List.find?_append]
      cases hworking : m.workingSubjects.find? m.due with
      | some s =>
          dsimp only [Option.some_or]
          obtain ⟨i, _, rfl⟩ := List.mem_map.mp (List.mem_of_find?_eq_some hworking)
          rfl
      | none => exact nextRestore_eq restoreRoles

theorem original_mem_subjects {i : Nat} {row : RecoveryObject} (hrow : m.objects[i]? = some row) :
    .original i ∈ m.subjects := by
  refine List.mem_append_right _ (List.mem_append_right _ (List.mem_flatMap.mpr ⟨row.role, ?_, ?_⟩))
  · cases row.role <;> decide
  · exact mem_roleSubjects.mpr ⟨i, row, rfl, hrow, rfl⟩

theorem working_mem_subjects {i : Nat} {row : RecoveryObject} (hrow : m.objects[i]? = some row) :
    .working i ∈ m.subjects := by
  refine List.mem_append_right _ (List.mem_append_left _ (List.mem_map_of_mem ?_))
  exact List.mem_range.mpr (List.getElem?_eq_some_iff.mp hrow).1

theorem file_mem_subjects {i : Nat} {row : GeneratedObject} (hrow : m.files[i]? = some row) :
    .file i ∈ m.subjects := by
  refine List.mem_append_left _ (List.mem_cons_of_mem _ (List.mem_map_of_mem ?_))
  exact List.mem_range.mpr (List.getElem?_eq_some_iff.mp hrow).1

theorem manifest_mem_subjects : .manifest ∈ m.subjects :=
  List.mem_append_left _ List.mem_cons_self

/-- What is due has a phase that is not before that of the next action. -/
theorem phase_le_of_due (hfind : m.subjects.find? m.due = some s) (ht : t ∈ m.subjects)
    (hdue : m.due t = true) : m.phase s ≤ m.phase t := by
  rcases find?_first (subjects_phases m) hfind ht hdue with rfl | hle
  · exact le_refl _
  · exact hle

theorem original_due {i : Nat} {row : RecoveryObject} (hrow : m.objects[i]? = some row) :
    m.due (.original i) = true ↔ row.state = .preserved := by
  simp [RecoveryModel.due, hrow]

theorem ObjectSound.isOriginal {o : EvidenceObject} {row : RecoveryObject}
    (h : ObjectSound runId o row) (hstate : row.state ≠ .preserved) : row.state.isOriginal = true := by
  have hunknown := h.state
  cases hs : row.state with
  | original | restored => rfl
  | preserved => exact absurd hs hstate
  | unknown => exact absurd hs hunknown

/-- The roles that come before the next restored one are restored. -/
theorem restoreOrdered_of_find (h : Sound origin runId m) {i : Nat} {row : RecoveryObject}
    (hfind : m.subjects.find? m.due = some (.original i)) (hrow : m.objects[i]? = some row) :
    restoreOrdered (m.objects.map (fun row => (row.role, row.state))) row.role = true := by
  have hall : ∀ role : Role, role.phase < row.role.phase →
      ((m.objects.map (fun row => (row.role, row.state))).filter (fun r => r.1 = role)).all
        (fun r => r.2.isOriginal) = true := by
    intro role hlt
    rw [List.all_eq_true]
    intro r hr
    obtain ⟨hmem, hrole⟩ := List.mem_filter.mp hr
    obtain ⟨other, hother, rfl⟩ := List.mem_map.mp hmem
    obtain ⟨j, hj⟩ := List.mem_iff_getElem?.mp hother
    obtain ⟨o, _, hsound⟩ := h.objects j other hj
    refine hsound.isOriginal fun hpreserved => ?_
    -- it would be due, and earlier
    have hle := phase_le_of_due hfind (original_mem_subjects hj) ((original_due hj).mpr hpreserved)
    simp only [RecoveryModel.phase, hrow, hj] at hle
    have hother : other.role = role := of_decide_eq_true hrole
    rw [hother] at hle
    omega
  rw [restoreOrdered, Bool.and_eq_true, Bool.or_eq_true, Bool.or_eq_true]
  cases hrole : row.role with
  | package => exact ⟨.inl rfl, .inl rfl⟩
  | npmManagement =>
      exact ⟨.inr (hall .package (by rw [hrole]; decide)), .inl rfl⟩
  | leaf =>
      exact ⟨.inr (hall .package (by rw [hrole]; decide)),
        .inr (hall .npmManagement (by rw [hrole]; decide))⟩

/-- The object of the evidence that has a row's step is the row's own. -/
theorem find_step (hsteps : (origin.objects.map (·.step)).Nodup) {i : Nat} {o : EvidenceObject}
    (ho : origin.objects[i]? = some o) :
    origin.objects.find? (fun value => value.step = o.step) = some o := by
  have hmem := List.mem_of_getElem? ho
  cases hfind : origin.objects.find? (fun value => value.step = o.step) with
  | none => exact absurd (List.find?_eq_none.mp hfind o hmem) (by simp)
  | some o' =>
      have hstep : o'.step = o.step := by simpa using List.find?_some hfind
      exact congrArg some (List.inj_on_of_nodup_map hsteps (List.mem_of_find?_eq_some hfind) hmem hstep)

/-- What the next action is like, about its subject. -/
structure ActionSound (m : RecoveryModel) (s : Subject) (a : Action) : Prop where
  subject : a.subject = s
  entry : a.entry = m.entryOf s
  found : a.entry.isSome = true

theorem GeneratedSound.found {directory name backup : Text} {row : GeneratedObject}
    (h : GeneratedSound directory name backup row) (hinstalled : row.status = .installed) :
    row.entry.isSome = true := by
  obtain ⟨l, hl, _⟩ := h.installed hinstalled
  rw [hl]
  rfl

variable (target) in
/-- **An action is found for the first subject that is due.** -/
theorem actionOf_ok (hsteps : (origin.objects.map (·.step)).Nodup) (h : Sound origin runId m)
    (hfind : m.subjects.find? m.due = some s) :
    ∃ a, actionOf m origin target s = .ok a ∧ ActionSound m s a := by
  have hdue := List.find?_some hfind
  cases s with
  | manifest =>
      have hinstalled : m.manifest.status = .installed := by simpa [RecoveryModel.due] using hdue
      exact ⟨_, rfl, rfl, rfl, h.manifest.found hinstalled⟩
  | file i =>
      rw [RecoveryModel.due] at hdue
      obtain ⟨row, hrow, hinstalled⟩ := Option.any_eq_true _ _ |>.mp hdue
      obtain ⟨leaf, _, hsound⟩ := h.files i row hrow
      refine ⟨retireRow target (.file i) i row, ?_, rfl, ?_, hsound.found (of_decide_eq_true hinstalled)⟩
      · rw [actionOf, retireGenerated, hrow]
      · simp [retireRow, RecoveryModel.entryOf, hrow]
  | working i =>
      rw [RecoveryModel.due] at hdue
      obtain ⟨row, hrow, hknown⟩ := Option.any_eq_true _ _ |>.mp hdue
      obtain ⟨w, hw, hknown⟩ := Option.any_eq_true _ _ |>.mp hknown
      obtain ⟨o, _, hsound⟩ := h.objects i row hrow
      obtain ⟨_, l, hl, _⟩ := hsound.known w hw hknown
      refine ⟨retireCopy target i row, ?_, rfl, ?_, ?_⟩
      · rw [actionOf, retireWorking, hrow]
      · simp [retireCopy, RecoveryModel.entryOf, hrow]
      · rw [retireCopy, hl]
        rfl
  | original i =>
      rw [RecoveryModel.due] at hdue
      obtain ⟨row, hrow, _⟩ := Option.any_eq_true _ _ |>.mp hdue
      obtain ⟨o, ho, hsound⟩ := h.objects i row hrow
      refine ⟨restoreRow o.directory o.name i row, ?_, rfl, ?_, rfl⟩
      · rw [actionOf, hrow]
        dsimp only
        rw [restoreOriginal, hrow]
        dsimp only
        rw [restoreOrdered_of_find h hfind hrow, hsound.step, find_step hsteps ho]
        rfl
      · simp [restoreRow, RecoveryModel.entryOf, hrow]

/-- **The search ends**: with the action of the first subject that is due, or with everything in
place. -/
theorem nextAction_cases (hsteps : (origin.objects.map (·.step)).Nodup) (h : Sound origin runId m)
    (target : Text) :
    (∃ s a, m.subjects.find? m.due = some s ∧ nextAction m origin target = .ok (some a) ∧
        actionOf m origin target s = .ok a ∧ ActionSound m s a) ∨
      (nextAction m origin target = .ok none ∧ m.subjects.find? m.due = none ∧
        ∀ row ∈ m.objects, row.state = .original ∨ row.state = .restored) := by
  rw [nextAction_eq]
  cases hfind : m.subjects.find? m.due with
  | some s =>
      obtain ⟨a, ha, hsound⟩ := actionOf_ok target hsteps h hfind
      refine .inl ⟨s, a, rfl, ?_, ha, hsound⟩
      dsimp only
      rw [ha]
      rfl
  | none =>
      have hall : ∀ row ∈ m.objects, row.state.isOriginal = true := by
        intro row hmem
        obtain ⟨i, hrow⟩ := List.mem_iff_getElem?.mp hmem
        obtain ⟨o, _, hsound⟩ := h.objects i row hrow
        refine hsound.isOriginal fun hpreserved => ?_
        have hnot := not_due_of_find?_eq_none hfind (original_mem_subjects hrow)
        rw [(original_due hrow).mpr hpreserved] at hnot
        exact absurd hnot (by simp)
      refine .inr ⟨?_, rfl, fun row hmem => ?_⟩
      · rw [nextRestore, if_pos (List.all_eq_true.mpr hall)]
      · have hstate := hall row hmem
        rw [ObjectState.isOriginal] at hstate
        simpa using hstate

end Caveat.Managed.Recovery
