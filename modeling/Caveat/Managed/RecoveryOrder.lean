import Caveat.Managed.Recovery

/-!
# The order of a recovery

The subjects of a model are an agenda, and an action settles its subject. So the actions are the
schedule of the model that the migration left: the generated objects, the working copies, and the
originals by their roles. What a recovery moves gets a name that no other object has, and an original
goes home when nothing generated and no working copy is left there.
-/

namespace Caveat.Managed.Recovery

open Js Lib

variable {m m' m₀ : RecoveryModel} {origin : GlobalMigrationEvidence} {target root runId : Text}
  {l : RecoveryLocation} {s t : Subject}

/-! ## The agenda -/

def RecoveryModel.subjects (m : RecoveryModel) : List Subject :=
  m.generatedSubjects ++ (m.workingSubjects ++ restoreRoles.flatMap m.roleSubjects)

theorem objects_moved_length : (m.moved l s).objects.length = m.objects.length := by
  cases s with
  | working i | original i => exact List.length_modify ..
  | _ => rfl

theorem files_moved_length : (m.moved l s).files.length = m.files.length := by
  cases s with
  | file i => exact List.length_modify ..
  | _ => rfl

/-- An object keeps its step and its role. -/
theorem object_moved (i : Nat) :
    (m.moved l s).objects[i]?.map (fun row => (row.step, row.role)) =
      m.objects[i]?.map (fun row => (row.step, row.role)) := by
  have hmodify : ∀ (j : Nat) (f : RecoveryObject → RecoveryObject),
      (∀ row, ((f row).step, (f row).role) = (row.step, row.role)) →
        (m.objects.modify j f)[i]?.map (fun row => (row.step, row.role)) =
          m.objects[i]?.map (fun row => (row.step, row.role)) := by
    intro j f hf
    by_cases hj : j = i
    · rw [hj, List.getElem?_modify_eq]
      cases m.objects[i]? with
      | none => rfl
      | some row => exact congrArg some (hf row)
    · rw [List.getElem?_modify_ne _ _ hj]
  cases s with
  | working j => exact hmodify j _ fun row => rfl
  | original j => exact hmodify j _ fun row => rfl
  | _ => rfl

theorem hasRole_eq (m : RecoveryModel) (role : Role) (i : Nat) : m.hasRole role i =
    (m.objects[i]?.map (fun row => (row.step, row.role))).any (fun row => row.2 = role) := by
  rw [RecoveryModel.hasRole]
  cases m.objects[i]? <;> rfl

theorem subjects_moved : (m.moved l s).subjects = m.subjects := by
  have hrole : (m.moved l s).hasRole = m.hasRole := by
    funext role i
    rw [hasRole_eq, hasRole_eq, object_moved]
  unfold RecoveryModel.subjects RecoveryModel.generatedSubjects RecoveryModel.workingSubjects
    RecoveryModel.roleSubjects
  rw [objects_moved_length, files_moved_length, hrole]

/-- **A move settles its subject.** -/
theorem settles_moved (m : RecoveryModel) (l : RecoveryLocation) (s : Subject) :
    Settles RecoveryModel.due m s (m.moved l s) where
  done := by
    cases s with
    | manifest => rfl
    | file i =>
        simp only [RecoveryModel.due, RecoveryModel.moved, List.getElem?_modify]
        cases m.files[i]? <;> simp
    | working i =>
        simp only [RecoveryModel.due, RecoveryModel.moved, List.getElem?_modify]
        cases m.objects[i]? with
        | none => rfl
        | some row => cases hw : row.working <;> simp [Working.isKnown, hw]
    | original i =>
        simp only [RecoveryModel.due, RecoveryModel.moved, List.getElem?_modify]
        cases m.objects[i]? <;> simp
  others t ht := by
    cases s with
    | manifest => cases t <;> first | exact absurd rfl ht | rfl
    | file i =>
        cases t with
        | file j =>
            have hne : i ≠ j := fun heq => ht (heq ▸ rfl)
            simp [RecoveryModel.due, RecoveryModel.moved, hne]
        | _ => rfl
    | working i =>
        cases t with
        | working j =>
            have hne : i ≠ j := fun heq => ht (heq ▸ rfl)
            simp [RecoveryModel.due, RecoveryModel.moved, hne]
        | original j =>
            simp only [RecoveryModel.due, RecoveryModel.moved, List.getElem?_modify]
            cases m.objects[j]? with
            | none => rfl
            | some row => by_cases hj : i = j <;> simp [hj]
        | _ => rfl
    | original i =>
        cases t with
        | original j =>
            have hne : i ≠ j := fun heq => ht (heq ▸ rfl)
            simp [RecoveryModel.due, RecoveryModel.moved, hne]
        | working j =>
            simp only [RecoveryModel.due, RecoveryModel.moved, List.getElem?_modify]
            cases m.objects[j]? with
            | none => rfl
            | some row => by_cases hj : i = j <;> simp [hj]
        | _ => rfl

theorem nodup_indices {f : Nat → Subject} (hf : Function.Injective f) {indices : List Nat}
    (h : indices.Nodup) : (indices.map f).Nodup := h.map hf

theorem mem_roleSubjects {role : Role} : s ∈ m.roleSubjects role ↔
    ∃ i row, s = .original i ∧ m.objects[i]? = some row ∧ row.role = role := by
  unfold RecoveryModel.roleSubjects
  rw [List.mem_map]
  constructor
  · rintro ⟨i, hi, rfl⟩
    have hrole := (List.mem_filter.mp hi).2
    rw [RecoveryModel.hasRole] at hrole
    cases hrow : m.objects[i]? with
    | none =>
        rw [hrow] at hrole
        exact absurd hrole (by simp)
    | some row =>
        rw [hrow] at hrole
        exact ⟨i, row, rfl, hrow, by simpa using hrole⟩
  · rintro ⟨i, row, rfl, hrow, rfl⟩
    refine ⟨i, List.mem_filter.mpr ⟨?_, ?_⟩, rfl⟩
    · exact List.mem_range.mpr (List.getElem?_eq_some_iff.mp hrow).1
    · simp [RecoveryModel.hasRole, hrow]

def Role.phase : Role → Nat
  | .package => 2
  | .npmManagement => 3
  | .leaf => 4

/-- The phase of a subject: generated, working, package, npm management, leaf. -/
def RecoveryModel.phase (m : RecoveryModel) : Subject → Nat
  | .manifest | .file _ => 0
  | .working _ => 1
  | .original i =>
      match m.objects[i]? with
      | some row => row.role.phase
      | none => 4

theorem phase_of_mem_roleSubjects {role : Role} (h : s ∈ m.roleSubjects role) :
    m.phase s = role.phase := by
  obtain ⟨i, row, rfl, hrow, rfl⟩ := mem_roleSubjects.mp h
  rw [RecoveryModel.phase, hrow]

theorem roleSubjects_nodup (m : RecoveryModel) (role : Role) : (m.roleSubjects role).Nodup :=
  nodup_indices (fun _ _ h => Subject.original.inj h) (List.nodup_range.filter _)

theorem subjects_nodup (m : RecoveryModel) : m.subjects.Nodup := by
  have hfiles : ((List.range m.files.length).map Subject.file).Nodup :=
    nodup_indices (fun _ _ h => Subject.file.inj h) List.nodup_range
  have hworking : m.workingSubjects.Nodup :=
    nodup_indices (fun _ _ h => Subject.working.inj h) List.nodup_range
  have hdisjoint : ∀ {role role' : Role}, role ≠ role' →
      ∀ s ∈ m.roleSubjects role, s ∉ m.roleSubjects role' := by
    intro role role' hne s hs hs'
    obtain ⟨i, row, rfl, hrow, rfl⟩ := mem_roleSubjects.mp hs
    obtain ⟨j, row', hij, hrow', rfl⟩ := mem_roleSubjects.mp hs'
    obtain rfl := Subject.original.inj hij
    rw [hrow] at hrow'
    exact hne (congrArg _ (Option.some.inj hrow'))
  have hroles : (restoreRoles.flatMap m.roleSubjects).Nodup := by
    rw [List.nodup_flatMap]
    refine ⟨fun role _ => roleSubjects_nodup m role, ?_⟩
    have hpairs : restoreRoles.Pairwise (· ≠ ·) := by decide
    exact hpairs.imp fun hne => List.disjoint_left.mpr (hdisjoint hne)
  have hleft : m.generatedSubjects.Nodup :=
    List.nodup_cons.mpr ⟨by simp, hfiles⟩
  refine List.nodup_append'.mpr ⟨hleft, List.nodup_append'.mpr ⟨hworking, hroles, ?_⟩, ?_⟩
  · refine List.disjoint_left.mpr fun s hs hs' => ?_
    obtain ⟨i, _, rfl⟩ := List.mem_map.mp hs
    obtain ⟨role, _, hrole⟩ := List.mem_flatMap.mp hs'
    obtain ⟨j, _, hij, _⟩ := mem_roleSubjects.mp hrole
    exact absurd hij (by simp)
  · refine List.disjoint_left.mpr fun s hs hs' => ?_
    rcases List.mem_append.mp hs' with hs' | hs'
    · obtain ⟨i, _, rfl⟩ := List.mem_map.mp hs'
      exact absurd hs (by simp [RecoveryModel.generatedSubjects])
    · obtain ⟨role, _, hrole⟩ := List.mem_flatMap.mp hs'
      obtain ⟨j, _, rfl, _⟩ := mem_roleSubjects.mp hrole
      exact absurd hs (by simp [RecoveryModel.generatedSubjects])

/-- The subjects stand in the order of their phases. -/
theorem subjects_phases (m : RecoveryModel) : m.subjects.Pairwise (fun s t => m.phase s ≤ m.phase t) := by
  have hgenerated : ∀ s ∈ m.generatedSubjects, m.phase s = 0 := by
    intro s hs
    rcases List.mem_cons.mp hs with rfl | hs
    · rfl
    · obtain ⟨i, _, rfl⟩ := List.mem_map.mp hs
      rfl
  have hworking : ∀ s ∈ m.workingSubjects, m.phase s = 1 := by
    intro s hs
    obtain ⟨i, _, rfl⟩ := List.mem_map.mp hs
    rfl
  have hroles : ∀ s ∈ restoreRoles.flatMap m.roleSubjects, 2 ≤ m.phase s := by
    intro s hs
    obtain ⟨role, _, hrole⟩ := List.mem_flatMap.mp hs
    rw [phase_of_mem_roleSubjects hrole]
    cases role <;> simp [Role.phase]
  have hconst : ∀ {part : List Subject} (n : Nat), (∀ s ∈ part, m.phase s = n) →
      part.Pairwise (fun s t => m.phase s ≤ m.phase t) := by
    intro part n hpart
    refine List.pairwise_of_forall_mem_list fun s hs t ht => ?_
    rw [hpart s hs, hpart t ht]
  refine List.pairwise_append.mpr ⟨hconst 0 hgenerated, List.pairwise_append.mpr
    ⟨hconst 1 hworking, ?_, fun s hs t ht => ?_⟩, fun s hs t ht => ?_⟩
  · refine List.pairwise_flatMap.mpr ⟨fun role _ =>
      hconst role.phase fun s hs => phase_of_mem_roleSubjects hs, ?_⟩
    have hpairs : restoreRoles.Pairwise (fun role role' => role.phase ≤ role'.phase) := by decide
    refine hpairs.imp fun hle s hs t ht => ?_
    rw [phase_of_mem_roleSubjects hs, phase_of_mem_roleSubjects ht]
    exact hle
  · have hpos := hroles t ht
    rw [hworking s hs]
    omega
  · rw [hgenerated s hs]
    exact Nat.zero_le _

end Caveat.Managed.Recovery
