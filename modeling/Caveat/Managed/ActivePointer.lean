import Caveat.Lib.Transition
import Caveat.Managed.DeploymentStage
import Caveat.Managed.JournalExact

/-!
# The safety of the active pointer

A run stages, activates, and removes locks that dead processes left; every operation may stop at every
call. In every state the active pointer is the one of the start, or a pointer to a release whose files
are those of its manifest.
-/

namespace Caveat.Managed.Deployment

open Js Lib

variable {p : Session} {d d' start : Disk}

inductive Operation where
  | stage (p : Session) (legacyRoot : Bool) (source : StageSource)
  | activate (p : Session) (release : Units) (recoverInvalidPointer : Bool)
  /-- `recoverManagedInstallerLock`, where it finds a lock that a dead process left, or does not. -/
  | recoverLock (removed : Bool)

section Runs

variable (doubles : Doubles) (sha : Sha256)

/-- What an operation leaves, wherever it stops. -/
def step (d : Disk) : Operation → Option Disk
  | .stage p legacyRoot source =>
      some (stateAfter (stageManagedDeployment doubles sha p legacyRoot source d))
  | .activate p release recoverInvalidPointer =>
      some (stateAfter (activateManagedDeployment doubles sha p release recoverInvalidPointer d))
  | .recoverLock removed => some (if removed then d.unlocked else d)

/-- No removal fails: of the lock, and of the temporary file after an activation's rename. -/
def RemovalsDone (d : Disk) : Operation → Prop
  | .stage p _ _ => ¬ (Opened p d ∧ p.removalFails .removeLock)
  | .activate p release recoverInvalidPointer =>
      ¬ (Commits doubles sha p d release recoverInvalidPointer ∧ p.RemovalFails)
  | .recoverLock _ => True

/-- The active pointer is complete. -/
def Disk.Active (d : Disk) : Prop :=
  ∃ bytes pointer, d.pointer = some bytes ∧ Complete doubles sha d bytes pointer

/-- What staging a staged release leaves: no file is changed. A process that dies leaves its lock. -/
def NothingChanged (d : Disk) : EStateM.Result (Stop DeploymentError) Disk Units → Prop
  | .ok _ d' => d' = d
  | .error (.threw _) d' => d' = d
  | .error .died d' => d'.unlocked = d.unlocked

/-- What holds in a state that a run reaches, and of every operation there. -/
structure PointerSafe (start d : Disk) : Prop where
  pointer : d.pointer = start.pointer ∨ d.Active doubles sha
  active : start.Active doubles sha → d.Active doubles sha
  /-- An activation that throws leaves the pointer. -/
  activate : ∀ p release recoverInvalidPointer,
    RemovalsDone doubles sha d (.activate p release recoverInvalidPointer) → ∀ e d',
      activateManagedDeployment doubles sha p release recoverInvalidPointer d =
        .error (.threw e) d' → d'.pointer = d.pointer
  /-- Staging a staged release changes no file. -/
  stage : ∀ p legacyRoot source s, RemovalsDone doubles sha d (.stage p legacyRoot source) →
    readStageSource doubles sha source = .ok s →
    (d.releases (s.release doubles sha)).isSome = true →
      NothingChanged d (stageManagedDeployment doubles sha p legacyRoot source d)

variable {doubles sha}

theorem Disk.Active.mono (h : d.Active doubles sha) (hpointer : d'.pointer = d.pointer)
    (hreleases : ∀ name dir, IsPlace name → d.releases name = some dir →
      d'.releases name = some dir) : d'.Active doubles sha := by
  obtain ⟨bytes, pointer, hbytes, hcomplete⟩ := h
  refine ⟨bytes, pointer, hpointer.trans hbytes, hcomplete.mono fun dir => ?_⟩
  have hplace : IsPlace pointer.release := by
    have hversion := hcomplete.valid
    rw [isRelease] at hversion
    simp only [Bool.and_eq_true] at hversion
    have hsplit := List.takeWhile_append_dropWhile (p := (· ≠ unitOf '-')) (l := pointer.release)
    rw [← hsplit]
    exact isPlace_of_version hversion.1.1.1
  exact hreleases pointer.release dir hplace

variable (doubles sha) in
/-- What an operation does to the pointer. -/
structure StepKept (d d' : Disk) : Prop where
  pointer : d'.pointer = d.pointer ∨ d'.Active doubles sha
  releases : ∀ name dir, IsPlace name → d.releases name = some dir → d'.releases name = some dir
  ready : d.Ready → d'.Ready

theorem StageKept.step (h : StageKept d d') : StepKept doubles sha d d' :=
  ⟨.inl h.pointer, h.releases, h.ready⟩

theorem Unchanged.step (h : Unchanged d d') : StepKept doubles sha d d' := by
  refine ⟨.inl h.pointer, fun name dir _ hdir => ?_, fun hready => ?_⟩
  · rw [h.releases]
    exact hdir
  · intro name hplace hrelease
    rw [h.releases] at hrelease
    unfold Disk.EntryReady
    rw [h.entry]
    exact hready name hplace hrelease

theorem Switched.step (h : Switched doubles sha d d') : StepKept doubles sha d d' := by
  obtain ⟨bytes, pointer, hbytes, hcomplete⟩ := h.pointer
  have hreleases : ∀ (name : Units) (dir : ReleaseDirectory), d.releases name = some dir →
      d'.releases name = some dir := fun name dir hdir => h.releases ▸ hdir
  refine ⟨.inr ⟨bytes, pointer, hbytes, hcomplete.mono fun dir => hreleases _ dir⟩,
    fun name dir _ => hreleases name dir, fun hready => ?_⟩
  intro name hplace hrelease
  rw [h.releases] at hrelease
  unfold Disk.EntryReady
  rw [h.entry]
  exact hready name hplace hrelease

/-- **One operation**, wherever it stops. -/
theorem step_kept {op : Operation} (h : step doubles sha d op = some d') :
    StepKept doubles sha d d' := by
  cases op with
  | stage p legacyRoot source =>
      obtain rfl := Option.some.inj h
      have hmeets : Meets (· = d) (stageManagedDeployment doubles sha p legacyRoot source)
          (fun _ => StageKept d) (fun _ => StageKept d) := stage_meets
      rcases hmeets.run rfl with ⟨_, d₁, hrun, hkept⟩ | ⟨_, d₁, hrun, hkept⟩
      · rw [hrun]
        exact hkept.step
      · rw [hrun]
        exact hkept.step
  | activate p release recoverInvalidPointer =>
      obtain rfl := Option.some.inj h
      have hmeets : Meets (· = d) (activateManagedDeployment doubles sha p release recoverInvalidPointer)
          (fun _ d' => Switched doubles sha d d')
          (ActivateStop doubles sha p release recoverInvalidPointer p.RemovalFails d) := activate_meets
      rcases hmeets.run rfl with ⟨_, d₁, hrun, hswitched⟩ | ⟨stop, d₁, hrun, hstop⟩
      · rw [hrun]
        exact hswitched.step
      · rw [hrun]
        cases stop with
        | threw e =>
            rcases hstop with hunchanged | ⟨hswitched, _⟩
            · exact hunchanged.step
            · exact hswitched.step
        | died =>
            rcases hstop with hunchanged | hswitched
            · exact hunchanged.step
            · exact hswitched.step
  | recoverLock removed =>
      obtain rfl := Option.some.inj h
      cases removed with
      | false => exact ⟨.inl rfl, fun _ _ _ h => h, fun h => h⟩
      | true => exact ⟨.inl rfl, fun _ _ _ h => h, fun h => h⟩

/-- An activation that throws with no failed removal behind its rename leaves the pointer. -/
theorem activate_throws {release : Units} {recoverInvalidPointer : Bool} {e : DeploymentError}
    (hdone : RemovalsDone doubles sha d (.activate p release recoverInvalidPointer))
    (h : activateManagedDeployment doubles sha p release recoverInvalidPointer d =
      .error (.threw e) d') : d'.pointer = d.pointer := by
  have hmeets : Meets (· = d) (activateManagedDeployment doubles sha p release recoverInvalidPointer)
      (fun _ d' => Switched doubles sha d d')
      (ActivateStop doubles sha p release recoverInvalidPointer p.RemovalFails d) := activate_meets
  rcases hmeets.run rfl with ⟨_, d₁, hrun, _⟩ | ⟨stop, d₁, hrun, hstop⟩
  · rw [hrun] at h
    exact absurd h (by simp)
  · rw [hrun] at h
    obtain ⟨rfl, rfl⟩ : stop = .threw e ∧ d₁ = d' := by simpa using h
    rcases hstop with hunchanged | ⟨_, hcommits, hfails⟩
    · exact hunchanged.pointer
    · exact absurd ⟨hcommits, hfails⟩ hdone

/-- Staging again, where the lock can be removed. -/
theorem stage_again {legacyRoot : Bool} {source : StageSource} {s : Staging}
    (hdone : RemovalsDone doubles sha d (.stage p legacyRoot source)) (hready : d.Ready)
    (hs : readStageSource doubles sha source = .ok s)
    (hstaged : (d.releases (s.release doubles sha)).isSome = true) :
    NothingChanged d (stageManagedDeployment doubles sha p legacyRoot source d) := by
  have hentry := hready _ (isPlace_of_version (readStageSource_ok hs).2) hstaged
  have hmeets : Meets (· = d) (stageManagedDeployment doubles sha p legacyRoot source)
      (fun _ d' => d' = d) (RestageStop p d) := restage_meets hs hentry hstaged
  rcases hmeets.run rfl with ⟨_, d₁, hrun, hsame⟩ | ⟨stop, d₁, hrun, hstop⟩
  · rw [hrun]
    exact hsame
  · rw [hrun]
    cases stop with
    | threw e =>
        rcases hstop with hsame | hfails
        · exact hsame
        · exact absurd hfails hdone
    | died => exact hstop

variable (doubles sha) in
/-- What a run keeps. -/
structure RunKept (start d : Disk) : Prop where
  pointer : d.pointer = start.pointer ∨ d.Active doubles sha
  active : start.Active doubles sha → d.Active doubles sha
  ready : d.Ready

/-- **The active pointer is safe.** In a run in which no removal fails, from a disk on which every
release has its entry beside it. -/
theorem active_pointer_safe (doubles : Doubles) (sha : Sha256) (start : Disk) (hready : start.Ready)
    (d : Disk) (h : Reaches (step doubles sha) (RemovalsDone doubles sha) (· = start) d) :
    PointerSafe doubles sha start d := by
  have hkept : RunKept doubles sha start d := by
    refine h.invariant (fun s hs => ?_) fun s op s' hs _ hstep => ?_
    · rw [show s = start from hs]
      exact ⟨.inl rfl, fun h => h, hready⟩
    · have hstep := step_kept hstep
      have hactive : s.Active doubles sha → s'.Active doubles sha := by
        intro h
        rcases hstep.pointer with hpointer | hactive
        · exact h.mono hpointer hstep.releases
        · exact hactive
      refine ⟨?_, fun h => hactive (hs.active h), hstep.ready hs.ready⟩
      rcases hs.pointer with hpointer | h
      · exact hstep.pointer.imp_left fun hsame => hsame.trans hpointer
      · exact .inr (hactive h)
  exact ⟨hkept.pointer, hkept.active, fun p release recoverInvalidPointer hdone e d' hrun =>
    activate_throws hdone hrun, fun p legacyRoot source s hdone hs hstaged =>
      stage_again hdone hkept.ready hs hstaged⟩

end Runs

/-! ## A release that is staged and activated -/

def newline : Bytes := encodeUtf8 "\n".toList

def samplePackageJson : Bytes := encodeUtf8
  "\x7b\"name\":\"caveat-cli\",\"version\":\"1.2.3\",\"bin\":\x7b\"caveat\":\"dist/caveat.js\"\x7d\x7d".toList

/-- The hashes of the two files, and that of any other file: there is one, the manifest. -/
def sampleSha : Sha256 where
  hash bytes :=
    if bytes = newline then
      unitsOf "01ba4719c80b6fe911b091a7c05124b64eeece964e09c058ef8f9805daca546b".toList
    else if bytes = samplePackageJson then
      unitsOf "f2d15f5baf8983d75d9393dc5255f020adf8046fa4a5cb7e6099d2e154b1d5cd".toList
    else unitsOf "9d07e646a6a4f0f4b114cd3015d908bf432a9972856e84e934acd1094fc4120e".toList
  isDigest_hash bytes := by
    split
    · decide
    · split <;> decide

def samplePackage : List PackageFile :=
  [⟨unitsOf "dist/caveat.js".toList, newline⟩, ⟨unitsOf "package.json".toList, samplePackageJson⟩]

def sampleSource : StageSource where
  package := samplePackage
  entryPackage :=
    [⟨unitsOf "dist/managed-deployment.js".toList, newline⟩,
      ⟨unitsOf "dist/stable-entry.mjs".toList, newline⟩]
  asset _ := some newline
  copied := samplePackage

def sampleRelease : Units := unitsOf "1.2.3-9d07e646a6a4f0f4b114".toList

def emptyDisk : Disk where
  entry _ := none
  releases _ := none
  pointer := none
  lock := none
  temporaries _ := none

def session (fate : Call → Fate Nat) : Session where
  pid := 10
  startedAt := unitsOf "2026-01-01T00:00:00.000Z".toList
  token := List.replicate 16 (unitOf '7')
  fate := fate

def everyCall : Call → Fate Nat := fun _ => .done

/-- The lock cannot be removed. -/
def lockStays : Call → Fate Nat := fun c => if c = .removeLock then .fails .before else .done

def stagedDisk : Disk :=
  stateAfter (stageManagedDeployment someDoubles sampleSha (session everyCall) false sampleSource
    emptyDisk)

def activeDisk : Disk :=
  stateAfter (activateManagedDeployment someDoubles sampleSha (session everyCall) sampleRelease false
    stagedDisk)

theorem emptyDisk_ready : emptyDisk.Ready := fun _ _ h => absurd h (by simp [emptyDisk])

theorem everyCall_fails (c : Call) : ¬ (session everyCall).removalFails c := Bool.false_ne_true

theorem stagedDisk_reached : Reaches (step someDoubles sampleSha) (RemovalsDone someDoubles sampleSha)
    (· = emptyDisk) stagedDisk := by
  have hstart : Reaches (step someDoubles sampleSha) (RemovalsDone someDoubles sampleSha)
      (· = emptyDisk) emptyDisk := .init rfl
  exact hstart.act (.stage (session everyCall) false sampleSource) (fun h => everyCall_fails _ h.2) rfl

theorem activeDisk_reached : Reaches (step someDoubles sampleSha) (RemovalsDone someDoubles sampleSha)
    (· = emptyDisk) activeDisk :=
  stagedDisk_reached.act (.activate (session everyCall) sampleRelease false)
    (fun h => h.2.elim (everyCall_fails _) (everyCall_fails _)) rfl

/-- An activation that throws, and has changed the pointer. -/
def threwBehind (before : Option Bytes) :
    EStateM.Result (Stop DeploymentError) Disk Activation → Bool
  | .error (.threw _) d => d.pointer ≠ before
  | _ => false

/-- The hashes of the sample, for the texts that it is made of. -/
def shaOf (json newlineHash jsonHash manifestHash : Text) (bytes : Bytes) : Units :=
  if bytes = newline then unitsOf newlineHash
  else if bytes = encodeUtf8 json then unitsOf jsonHash
  else unitsOf manifestHash

/-- The sample, for the text of its package. -/
def sourceOf (json : Text) : StageSource :=
  { sampleSource with
    package := [⟨unitsOf "dist/caveat.js".toList, newline⟩, ⟨unitsOf "package.json".toList, encodeUtf8 json⟩]
    copied := [⟨unitsOf "dist/caveat.js".toList, newline⟩, ⟨unitsOf "package.json".toList, encodeUtf8 json⟩] }

/-- What the activations of the staged release do: all calls are made, and the lock cannot be removed. -/
def activations (sha : Sha256) (source : StageSource) : Bool × Bool :=
  let staged := stateAfter (stageManagedDeployment someDoubles sha (session everyCall) false source
    emptyDisk)
  ((stateAfter (activateManagedDeployment someDoubles sha (session everyCall) sampleRelease false
      staged)).pointer.isSome,
    threwBehind staged.pointer (activateManagedDeployment someDoubles sha (session lockStays)
      sampleRelease false staged))

/-- The literals are taken as lists of characters: `String.toList` decodes their bytes one by one. -/
theorem activations_ofList {json a b c : List Char}
    (hdigest : ∀ bytes, isDigest (shaOf json a b c bytes) = true)
    (h : activations ⟨shaOf json a b c, hdigest⟩ (sourceOf json) = (true, true)) :
    ∀ hdigest, activations ⟨shaOf (String.ofList json).toList (String.ofList a).toList
      (String.ofList b).toList (String.ofList c).toList, hdigest⟩
        (sourceOf (String.ofList json).toList) = (true, true) := by
  rw [String.toList_ofList, String.toList_ofList, String.toList_ofList, String.toList_ofList]
  exact fun _ => h

theorem sample_activations : activations sampleSha sampleSource = (true, true) := by
  refine activations_ofList (fun bytes => ?_) ?_ sampleSha.isDigest_hash
  · unfold shaOf
    split
    · decide
    · split <;> decide
  · decide +kernel

/-- The two activations of the staged release: all calls are made, and the lock cannot be removed. -/
theorem staged_activations : activeDisk.pointer.isSome = true ∧
    threwBehind stagedDisk.pointer (activateManagedDeployment someDoubles sampleSha
      (session lockStays) sampleRelease false stagedDisk) = true :=
  Prod.mk.inj sample_activations

/-- A release is staged and activated on an empty disk. -/
theorem active_pointer_safe_activated :
    PointerSafe someDoubles sampleSha emptyDisk activeDisk ∧ activeDisk.pointer.isSome = true :=
  ⟨active_pointer_safe someDoubles sampleSha emptyDisk emptyDisk_ready activeDisk activeDisk_reached,
    staged_activations.1⟩

/-- An activation throws behind its rename, when the lock cannot be removed. -/
theorem activation_throws_behind_rename : ∃ (doubles : Doubles) (sha : Sha256) (start d : Disk),
    start.Ready ∧ Reaches (step doubles sha) (fun _ _ => True) (· = start) d ∧
    ∃ p release recoverInvalidPointer e d',
      activateManagedDeployment doubles sha p release recoverInvalidPointer d =
        .error (.threw e) d' ∧ d'.pointer ≠ d.pointer := by
  have hthrew := staged_activations.2
  refine ⟨someDoubles, sampleSha, emptyDisk, stagedDisk, emptyDisk_ready,
    stagedDisk_reached.mono fun _ _ _ => trivial, session lockStays, sampleRelease, false, ?_⟩
  cases hrun : activateManagedDeployment someDoubles sampleSha (session lockStays) sampleRelease
      false stagedDisk with
  | ok _ _ =>
      rw [hrun] at hthrew
      exact absurd hthrew (by simp [threwBehind])
  | error stop d' =>
      rw [hrun] at hthrew
      cases stop with
      | threw e => exact ⟨e, d', rfl, of_decide_eq_true hthrew⟩
      | died => exact absurd hthrew (by simp [threwBehind])

end Caveat.Managed.Deployment
