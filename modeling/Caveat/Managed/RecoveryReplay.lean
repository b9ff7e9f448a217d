import Caveat.Managed.RecoverySound

/-!
# Replaying a recovery

A replay applies the records of confirmed moves, over any number of attempts, each with its own
target. Every record does the first subject that is due, so the actions are the schedule of the first
model, and fewer are due after each of them.
-/

namespace Caveat.Managed.Recovery

open Js Lib

variable {m m' m₀ : RecoveryModel} {origin : GlobalMigrationEvidence} {target root runId : Text}
  {s t : Subject} {a : Action}

/-! ## The model after an action -/

theorem files_moved (l : RecoveryLocation) (hs : ∀ i, s ≠ .file i) :
    (m.moved l s).files = m.files := by
  cases s with
  | file i => exact absurd rfl (hs i)
  | _ => rfl

theorem manifest_moved (l : RecoveryLocation) (hs : s ≠ .manifest) :
    (m.moved l s).manifest = m.manifest := by
  cases s with
  | manifest => exact absurd rfl hs
  | _ => rfl

theorem GeneratedSound.moved {directory name backup : Text} {row : GeneratedObject}
    (h : GeneratedSound directory name backup row) {l : RecoveryLocation}
    (hl : l.name = usedName backup) :
    GeneratedSound directory name backup { row with status := .quarantined, entry := some l } where
  named := h.named
  status := by simp
  installed hs := absurd hs (by simp)
  used l' _ hl' := by rw [← Option.some.inj hl', hl]
  absent hs := absurd hs (by simp)

/-- A working copy that was moved has the name of the move. -/
theorem ObjectSound.workingMoved {o : EvidenceObject} {row : RecoveryObject}
    (h : ObjectSound runId o row) {w : Working} (hw : row.working = some w) {l : RecoveryLocation}
    (hl : l.name = usedWorking o.step) :
    ObjectSound runId o { row with
      working := row.working.map (fun w => { w with status := .quarantined, rows := some l.rows })
      workingEntry := some l } := by
  constructor
  case step => exact h.step
  case role => exact h.role
  case state => exact h.state
  case backup => exact h.backup
  case home => exact h.home
  case known =>
    intro w' hw' hk
    rw [hw, Option.map_some] at hw'
    rw [← Option.some.inj hw'] at hk
    exact absurd hk (by simp [Working.isKnown])
  case used =>
    intro w' l' _ _ hl'
    rw [← Option.some.inj hl']
    exact .inr hl
  case staging =>
    intro w' hw'
    rw [hw, Option.map_some] at hw'
    rw [← Option.some.inj hw']
    exact h.staging w hw
  case none =>
    intro hnone
    rw [hw] at hnone
    exact absurd hnone (by simp)
  case absent =>
    intro w' hw' hs
    rw [hw, Option.map_some] at hw'
    rw [← Option.some.inj hw'] at hs
    exact absurd hs (by simp)

/-- An original that went home is there. -/
theorem ObjectSound.restored {o : EvidenceObject} {row : RecoveryObject}
    (h : ObjectSound runId o row) (hknown : ∀ w, row.working = some w → w.isKnown = false)
    {l : RecoveryLocation} (hl : l.place = (o.directory, o.name)) :
    ObjectSound runId o { row with state := .restored, original := l } where
  step := h.step
  role := h.role
  state := by simp
  backup hp := absurd hp (by simp)
  home _ := hl
  known w hw hk := absurd hk (by rw [hknown w hw]; simp)
  used := h.used
  staging := h.staging
  none := h.none
  absent := h.absent

theorem leafName_ne_shell {name : Text} (h : name ∈ leafNames) : name ≠ shellName := by
  rintro rfl
  exact absurd h (by decide)

/-- A modified list holds the old elements, but for the one that was modified. -/
theorem getElem?_modify_cases {α : Type} {as : List α} {f : α → α} {i j : Nat} {b : α}
    (h : (as.modify i f)[j]? = some b) :
    (j = i ∧ ∃ a, as[i]? = some a ∧ f a = b) ∨ j ≠ i ∧ as[j]? = some b := by
  by_cases hij : i = j
  · rw [hij, List.getElem?_modify_eq] at h
    obtain ⟨a, ha, hb⟩ := Option.map_eq_some_iff.mp h
    exact .inl ⟨hij.symm, a, hij ▸ ha, hb⟩
  · rw [List.getElem?_modify_ne _ _ hij] at h
    exact .inr ⟨fun heq => hij heq.symm, h⟩

/-- **An action keeps a model sound.** -/
theorem sound_moved (hsteps : (origin.objects.map (·.step)).Nodup)
    (hleaves : ∀ row ∈ origin.plan.leaves, row.name ∈ leafNames) (h : Sound origin runId m)
    (hfind : m.subjects.find? m.due = some s) (ha : actionOf m origin target s = .ok a)
    (rows : Rows) : Sound origin runId (m.moved ⟨a.directory, a.name, rows⟩ s) := by
  have hdue := List.find?_some hfind
  cases s with
  | manifest =>
      obtain rfl := Except.ok.inj ha
      exact ⟨h.objects, h.files, h.manifest.moved (congrArg usedName (if_pos h.manifest.named))⟩
  | file i =>
      rw [actionOf, retireGenerated] at ha
      refine ⟨h.objects, fun j row hrow => ?_, h.manifest⟩
      rcases getElem?_modify_cases hrow with ⟨rfl, row₀, hrow₀, rfl⟩ | ⟨hne, hrow⟩
      · obtain ⟨leaf, hleaf, hsound⟩ := h.files j row₀ hrow₀
        rw [hrow₀] at ha
        obtain rfl := Except.ok.inj ha
        have hname : row₀.name ≠ shellName := by
          rw [hsound.named]
          exact leafName_ne_shell (hleaves leaf (List.mem_of_getElem? hleaf))
        exact ⟨leaf, hleaf, hsound.moved (congrArg usedName (if_neg hname))⟩
      · exact h.files j row hrow
  | working i =>
      rw [actionOf, retireWorking] at ha
      rw [RecoveryModel.due] at hdue
      refine ⟨fun j row hrow => ?_, h.files, h.manifest⟩
      rcases getElem?_modify_cases hrow with ⟨rfl, row₀, hrow₀, rfl⟩ | ⟨hne, hrow⟩
      · obtain ⟨o, ho, hsound⟩ := h.objects j row₀ hrow₀
        rw [hrow₀] at ha
        rw [hrow₀, Option.any_some] at hdue
        obtain rfl := Except.ok.inj ha
        obtain ⟨w, hw, _⟩ := Option.any_eq_true _ _ |>.mp hdue
        refine ⟨o, ho, hsound.workingMoved hw ?_⟩
        rw [retireCopy, hsound.step]
      · exact h.objects j row hrow
  | original i =>
      rw [actionOf] at ha
      refine ⟨fun j row hrow => ?_, h.files, h.manifest⟩
      rcases getElem?_modify_cases hrow with ⟨rfl, row₀, hrow₀, rfl⟩ | ⟨hne, hrow⟩
      · obtain ⟨o, ho, hsound⟩ := h.objects j row₀ hrow₀
        rw [hrow₀] at ha
        dsimp only at ha
        rw [restoreOriginal, hrow₀] at ha
        dsimp only at ha
        rw [restoreOrdered_of_find h hfind hrow₀, hsound.step, find_step hsteps ho] at ha
        obtain rfl := Except.ok.inj ha
        refine ⟨o, ho, hsound.restored (fun w hw => ?_) rfl⟩
        -- a known working copy would come first
        by_contra hknown
        have hle := phase_le_of_due hfind (working_mem_subjects hrow₀) (by
          simp [RecoveryModel.due, hrow₀, hw, hknown])
        simp only [RecoveryModel.phase, hrow₀] at hle
        cases hrole : row₀.role <;> rw [hrole] at hle <;> simp [Role.phase] at hle
      · exact h.objects j row hrow

/-! ## Replays -/

/-- What an accepted record does. -/
theorem applyConfirmed_ok {record : RecoveryRecord}
    (h : applyConfirmedRecoveryRecord m record origin target = .ok m') :
    ∃ a rows, nextAction m origin target = .ok (some a) ∧ record.step = a.step ∧
      record.operation = a.operation ∧ m' = m.moved ⟨a.directory, a.name, rows⟩ a.subject := by
  unfold applyConfirmedRecoveryRecord at h
  split at h
  · exact absurd h (by simp)
  split at h
  · exact absurd h (by simp)
  · exact absurd h (by simp)
  · exact absurd h (by simp)
  rename_i action result hnext _
  split at h
  · exact absurd h (by simp)
  rename_i hsame
  split at h
  · exact absurd h (by simp)
  split at h
  · exact absurd h (by simp)
  rename_i rows _
  dsimp only at h
  split at h
  · exact absurd h (by simp)
  simp only [Bool.not_eq_true', Bool.not_eq_false, Bool.and_eq_true, decide_eq_true_eq] at hsame
  exact ⟨action, rows, hnext, hsame.1, hsame.2, (Except.ok.inj h).symm⟩

/-- The records that are applied to a model, in any number of attempts. -/
inductive Replay (origin : GlobalMigrationEvidence) (m₀ : RecoveryModel) :
    List Action → RecoveryModel → Prop where
  | nil : Replay origin m₀ [] m₀
  | record {done : List Action} {m m' : RecoveryModel} {a : Action} {record : RecoveryRecord}
      {target : Text} : Replay origin m₀ done m → nextAction m origin target = .ok (some a) →
      applyConfirmedRecoveryRecord m record origin target = .ok m' →
      Replay origin m₀ (done ++ [a]) m'
  | attempt {done : List Action} {m : RecoveryModel} (evidenceSha256 : Text) :
      Replay origin m₀ done m →
      Replay origin m₀ done { m with sourceEvidenceSha256 := evidenceSha256 }

/-- How many actions are due. -/
def RecoveryModel.remaining (m : RecoveryModel) : Nat :=
  (schedule RecoveryModel.due m.subjects m).length

theorem entryOf_moved (l : RecoveryLocation) (hst : t ≠ s) :
    (m.moved l s).entryOf t = m.entryOf t := by
  cases s with
  | manifest => cases t <;> first | exact absurd rfl hst | rfl
  | file i =>
      cases t with
      | file j =>
          have hne : i ≠ j := fun heq => hst (heq ▸ rfl)
          simp [RecoveryModel.entryOf, RecoveryModel.moved, hne]
      | _ => rfl
  | working i =>
      cases t with
      | working j =>
          have hne : i ≠ j := fun heq => hst (heq ▸ rfl)
          simp [RecoveryModel.entryOf, RecoveryModel.moved, hne]
      | original j =>
          simp only [RecoveryModel.entryOf, RecoveryModel.moved, List.getElem?_modify]
          cases m.objects[j]? with
          | none => rfl
          | some row => by_cases hj : i = j <;> simp [hj]
      | _ => rfl
  | original i =>
      cases t with
      | original j =>
          have hne : i ≠ j := fun heq => hst (heq ▸ rfl)
          simp [RecoveryModel.entryOf, RecoveryModel.moved, hne]
      | working j =>
          simp only [RecoveryModel.entryOf, RecoveryModel.moved, List.getElem?_modify]
          cases m.objects[j]? with
          | none => rfl
          | some row => by_cases hj : i = j <;> simp [hj]
      | _ => rfl

theorem phase_moved (l : RecoveryLocation) : (m.moved l s).phase = m.phase := by
  have hphase : ∀ (m : RecoveryModel) i, m.phase (.original i) =
      ((m.objects[i]?.map (fun row => (row.step, row.role))).map (fun row => row.2.phase)).getD 4 := by
    intro m i
    rw [RecoveryModel.phase]
    cases m.objects[i]? <;> rfl
  funext t
  cases t with
  | original i => rw [hphase, hphase, object_moved]
  | _ => rfl

/--
Where an object is, since the model was built: unmoved, or its action is done, and if that was the
restoring of an original, nothing generated and no working copy was left.
-/
def Since (m₀ m : RecoveryModel) (s : Subject) : Prop :=
  m.entryOf s = m₀.entryOf s ∨ m.due s = false ∧ ∀ i, s = .original i →
    ∀ t ∈ m.subjects, m.phase t < 2 → m.due t = false

/-- What holds after a replay. -/
structure Replayed (origin : GlobalMigrationEvidence) (runId : Text) (m₀ : RecoveryModel)
    (done : List Action) (m : RecoveryModel) : Prop where
  sound : Sound origin runId m
  subjects : m.subjects = m₀.subjects
  phase : m.phase = m₀.phase
  course : Course RecoveryModel.due m₀.subjects m₀ (done.map (·.subject)) m
  since : ∀ s, Since m₀ m s

theorem since_moved (hsince : Since m₀ m t) (hfind : m.subjects.find? m.due = some s)
    (l : RecoveryLocation) : Since m₀ (m.moved l s) t := by
  have hsettles := settles_moved m l s
  by_cases hts : t = s
  · rw [hts]
    refine .inr ⟨hsettles.done, fun i hi t' ht' hphase => ?_⟩
    rw [subjects_moved] at ht'
    rw [phase_moved] at hphase
    by_cases hts' : t' = s
    · rw [hts']
      exact hsettles.done
    · rw [hsettles.others t' hts']
      -- it would have come first
      by_contra hdue
      have hle := phase_le_of_due hfind ht' (by simpa using hdue)
      rw [hi] at hle
      have hlow : 2 ≤ m.phase (.original i) := by
        simp only [RecoveryModel.phase]
        split
        · rename_i row _
          cases row.role <;> simp [Role.phase]
        · omega
      omega
  · rcases hsince with hsame | ⟨hdone, hnone⟩
    · exact .inl ((entryOf_moved l hts).trans hsame)
    · refine .inr ⟨(hsettles.others t hts).trans hdone, fun i hi t' ht' hphase => ?_⟩
      rw [subjects_moved] at ht'
      rw [phase_moved] at hphase
      by_cases hts' : t' = s
      · rw [hts']
        exact hsettles.done
      · rw [hsettles.others t' hts']
        exact hnone i hi t' ht' hphase

/-- A checked evidence, as far as the replay needs it. -/
structure Usable (origin : GlobalMigrationEvidence) : Prop where
  steps : (origin.objects.map (·.step)).Nodup
  leaves : ∀ row ∈ origin.plan.leaves, row.name ∈ leafNames

theorem replayed_moved {done : List Action} (husable : Usable origin)
    (h : Replayed origin runId m₀ done m) (hfind : m.subjects.find? m.due = some s)
    (ha : actionOf m origin target s = .ok a) (hsubject : a.subject = s) (rows : Rows) :
    Replayed origin runId m₀ (done ++ [a]) (m.moved ⟨a.directory, a.name, rows⟩ s) where
  sound := sound_moved husable.steps husable.leaves h.sound hfind ha rows
  subjects := subjects_moved.trans h.subjects
  phase := (phase_moved _).trans h.phase
  course := by
    rw [List.map_append, List.map_singleton, hsubject]
    exact .snoc h.course (by rwa [← h.subjects]) (settles_moved m _ s)
  since t := since_moved (h.since t) hfind _

/-- **Every replay does what was scheduled.** -/
theorem replayed_of_replay (husable : Usable origin) (hsound : Sound origin runId m₀)
    {done : List Action} (h : Replay origin m₀ done m) : Replayed origin runId m₀ done m := by
  induction h with
  | nil => exact ⟨hsound, rfl, rfl, .nil _, fun s => .inl rfl⟩
  | @record done m m' a record target _ hnext happly ih =>
      obtain ⟨a', rows, hnext', _, _, rfl⟩ := applyConfirmed_ok happly
      obtain rfl : a = a' := Option.some.inj (Except.ok.inj (hnext.symm.trans hnext'))
      rcases nextAction_cases husable.steps ih.sound target with
        ⟨s, a', hfind, hok, ha, haction⟩ | ⟨hnone, _⟩
      · obtain rfl : a = a' := Option.some.inj (Except.ok.inj (hnext.symm.trans hok))
        rw [haction.subject]
        exact replayed_moved husable ih hfind ha haction.subject rows
      · rw [hnext] at hnone
        exact absurd (Except.ok.inj hnone) (by simp)
  | attempt evidenceSha256 _ ih =>
      exact ⟨⟨ih.sound.objects, ih.sound.files, ih.sound.manifest⟩, ih.subjects, ih.phase,
        .idle ih.course rfl, fun s => ih.since s⟩

end Caveat.Managed.Recovery
