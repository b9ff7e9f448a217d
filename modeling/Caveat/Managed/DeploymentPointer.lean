import Caveat.Lib.Loop
import Caveat.Managed.Deployment

/-!
# The active pointer

`activate` changes the pointer in one rename, to the pointer of a release that it has checked. It throws
with the new pointer in place only when a removal after the rename fails. `stage` leaves every release
that is there, and the pointer, as they are, and a release that is staged again changes no file.
-/

namespace Caveat.Managed.Deployment

open Js Lib

variable {doubles : Doubles} {sha : Sha256} {p : Session} {d d' d₀ : Disk} {α : Type}

/-! ## Complete pointers -/

/-- What is written of a pointer is read back. -/
theorem readPointer_pointerBytes (pointer : Pointer) :
    readPointer doubles (pointerBytes doubles pointer) = .ok pointer := by
  have hnames : (pointerObject pointer).map Prod.fst =
      ["schema".toList, "release".toList, "manifestSha256".toList].map unitsOf := rfl
  have hown : properties (pointerObject pointer) = pointerObject pointer := by
    have hnodup : ((pointerObject pointer).map Prod.fst).Nodup := by
      rw [hnames]
      decide
    have hplain : ∀ key ∈ (pointerObject pointer).map Prod.fst, unitIndex? key = none := by
      rw [hnames]
      decide
    exact properties_eq_self hnodup fun _ hm => hplain _ (List.mem_map_of_mem hm)
  have hreads : ∀ m ∈ pointerObject pointer, Reads doubles.round (stringify doubles m.2) m.2 := by
    intro m hm
    simp only [pointerObject, List.mem_cons, List.not_mem_nil, or_false] at hm
    rcases hm with rfl | rfl | rfl
    · exact reads_nat (by decide)
    · exact reads_string pointer.release
    · exact reads_string pointer.manifestSha256
  have hparse : parseJson doubles.round (stringify doubles (.object (pointerObject pointer)) ++
      ['\n']) = some (.object (properties (pointerObject pointer))) :=
    parseJson_stringify_space (by rwa [hown]) rfl
  have hobject : readObject doubles (pointerBytes doubles pointer) = some (pointerObject pointer) := by
    rw [readObject, pointerBytes, line, lineText, decodeUtf8_encodeUtf8, hparse]
    dsimp only
    rw [hown, hown]
  have hkeys : (pointerObject pointer).hasKeys pointerNames = true := by
    rw [JsObject.hasKeys, hnames]
    decide
  have hschema : (pointerObject pointer).isNat "schema".toList 1 = true := by
    have hget : (pointerObject pointer).get "schema".toList = some (.number (.finite (1 : Nat))) := rfl
    rw [JsObject.isNat, hget]
    exact decide_eq_true rfl
  have hrelease : (pointerObject pointer).string "release".toList = some pointer.release := rfl
  have hsha : (pointerObject pointer).string "manifestSha256".toList = some pointer.manifestSha256 :=
    rfl
  rw [readPointer, hobject]
  dsimp only
  rw [hkeys, hschema, hrelease, hsha]
  rfl

variable (doubles sha) in
/-- The bytes are a pointer to a release whose manifest has the pointer's hash and lists exactly the
files that are there. -/
structure Complete (d : Disk) (bytes : Bytes) (pointer : Pointer) : Prop where
  read : readPointer doubles bytes = .ok pointer
  found : ∃ dir manifestBytes manifest records, d.releases pointer.release = some dir ∧
    dir.manifest = some manifestBytes ∧ sha.hash manifestBytes = pointer.manifestSha256 ∧
    readManifest doubles pointer.release manifestBytes = .ok manifest ∧
    inventory sha dir.package = .ok records ∧
    recordsText doubles records = filesText doubles manifest.files
  valid : isRelease pointer.release = true

theorem checkReleaseMetadata_ok {dir : ReleaseDirectory} {pointer : Pointer} {manifest : Manifest}
    (h : checkReleaseMetadata doubles sha dir pointer = .ok manifest) :
    isRelease pointer.release = true ∧ ∃ bytes, dir.manifest = some bytes ∧
      sha.hash bytes = pointer.manifestSha256 ∧
      readManifest doubles pointer.release bytes = .ok manifest := by
  unfold checkReleaseMetadata at h
  split at h
  · exact absurd h (by simp)
  rename_i hvalid
  split at h
  · exact absurd h (by simp)
  rename_i bytes hbytes
  split at h
  · exact absurd h (by simp)
  split at h
  · exact absurd h (by simp)
  rename_i hhash
  split at h
  · exact absurd h (by simp)
  rename_i manifest' hmanifest
  split at h
  · exact absurd h (by simp)
  obtain rfl := Except.ok.inj h
  simp only [Bool.not_eq_true', Bool.not_eq_false, Bool.and_eq_true] at hvalid
  exact ⟨hvalid.1, bytes, hbytes, by simpa using hhash, hmanifest⟩

/-- **A release that passes the check** is what its pointer says. -/
theorem complete_of_check {bytes : Bytes} {pointer : Pointer} {manifest : Manifest}
    (hread : readPointer doubles bytes = .ok pointer)
    (h : d.check doubles sha pointer = .ok manifest) : Complete doubles sha d bytes pointer := by
  unfold Disk.check at h
  cases hdir : d.releases pointer.release with
  | none =>
      rw [hdir] at h
      exact absurd h (by simp)
  | some dir =>
      rw [hdir] at h
      dsimp only at h
      unfold checkRelease at h
      obtain ⟨manifest', hmetadata, h⟩ := bind_eq_ok.mp h
      obtain ⟨records, hrecords, h⟩ := bind_eq_ok.mp h
      obtain ⟨hvalid, bytes', hbytes, hhash, hmanifest⟩ := checkReleaseMetadata_ok hmetadata
      split at h
      · exact absurd h (by simp)
      rename_i htext
      exact ⟨hread, ⟨dir, bytes', manifest', records, hdir, hbytes, hhash, hmanifest, hrecords,
        not_not.mp htext⟩, hvalid⟩

/-- Releases that stay as they are keep a pointer complete. -/
theorem Complete.mono {bytes : Bytes} {pointer : Pointer} (h : Complete doubles sha d bytes pointer)
    (hreleases : ∀ dir, d.releases pointer.release = some dir →
      d'.releases pointer.release = some dir) : Complete doubles sha d' bytes pointer := by
  obtain ⟨dir, bytes', manifest, records, hdir, hrest⟩ := h.found
  exact ⟨h.read, ⟨dir, bytes', manifest, records, hreleases dir hdir, hrest⟩, h.valid⟩

/-! ## The lock -/

/-- The disk without the installer's lock. -/
def Disk.unlocked (d : Disk) : Disk := { d with lock := none }

theorem unlocked_of_none (h : d.lock = none) : d.unlocked = d := by
  rw [Disk.unlocked, ← h]

/-- The process gets the lock. -/
structure Opened (p : Session) (d₀ : Disk) : Prop where
  free : d₀.lock = none
  root : p.fate .root = .done
  opened : p.fate .openLock = .done

def Session.removalFails (p : Session) (c : Call) : Prop := (p.fate c).isFailure = true

/-- How `withInstallerLock` stops, where its body leaves `Q` or `E` but for the lock. -/
def LockStop (p : Session) (d₀ : Disk) (Q : α → Disk → Prop)
    (E : Stop DeploymentError → Disk → Prop) : Stop DeploymentError → Disk → Prop
  | .threw _, d => d = d₀ ∨ Opened p d₀ ∧ ((∃ e, E (.threw e) d.unlocked) ∨
      p.removalFails .removeLock ∧ ∃ a, Q a d.unlocked) ∧
        (d.lock = none ∨ p.removalFails .removeLock)
  | .died, d => d = d₀ ∨ (∃ stop, E stop d.unlocked) ∨ ∃ a, Q a d.unlocked

theorem ensure_meets {P : Disk → Prop} {E : Stop DeploymentError → Disk → Prop} {c : Call}
    (hE : ∀ stop d, P d → E stop d) :
    Meets P (p.ensure c) (fun _ d => P d ∧ p.fate c = .done) E := by
  unfold Session.ensure Session.look
  refine Meets.look (fun d _ hfate hd _ => ?_) hE
  exact ⟨hd, hfate⟩

/-- The removal of the lock touches nothing else. -/
theorem unlocked_removed {s s' : Disk} (h : Touched (fun (_ : Nat) d => d)
    (fun d : Disk => if d.lock.isSome then some { d with lock := none } else none) s s') :
    s.unlocked = s'.unlocked := by
  rcases h with rfl | heff | ⟨_, rfl⟩
  · rfl
  · dsimp only at heff
    split at heff
    · rw [← Option.some.inj heff]
      rfl
    · exact absurd heff (by simp)
  · rfl

/-- **The lock's rule.** Whatever the body does, the lock is removed at the end, unless that fails or
the process dies. -/
theorem withInstallerLock_meets {body : Deploy α} {Q : α → Disk → Prop}
    {E : Stop DeploymentError → Disk → Prop} (hstart : ∀ stop, E stop d₀.unlocked)
    (hbody : Opened p d₀ → p.fate .writeLock = .done →
      Meets (fun d => d.unlocked = d₀.unlocked ∧ d.lock.isSome = true) body
        (fun a d => Q a d.unlocked ∧ d.lock.isSome = true)
        (fun stop d => E stop d.unlocked ∧ d.lock.isSome = true)) :
    Meets (· = d₀) (withInstallerLock doubles p body)
      (fun a d => Opened p d₀ ∧ Q a d ∧ d.lock = none) (LockStop p d₀ Q E) := by
  have hsame : ∀ stop d, d = d₀ → LockStop p d₀ Q E stop d := by
    intro stop d hd
    cases stop with
    | threw e => exact .inl hd
    | died => exact .inl hd
  unfold withInstallerLock
  refine (ensure_meets hsame).bind fun _ => ?_
  refine Meets.get_bind fun d hd => ?_
  obtain ⟨rfl, hroot⟩ := hd
  refine Meets.bind (Q := fun _ d' => Opened p d ∧ d'.unlocked = d.unlocked ∧ d'.lock.isSome = true)
    ?_ fun _ => ?_
  · refine Meets.atomic (fun s s' hs heff => ?_) fun stop s hs => hsame stop s hs
    rw [hs] at heff
    split at heff
    · exact absurd heff (by simp)
    rename_i hfree
    rw [← Option.some.inj heff]
    refine ⟨fun hfate => ⟨⟨by simpa using hfree, hroot, hfate⟩, rfl, rfl⟩, ?_⟩
    exact .inr (.inl ⟨.died, hstart .died⟩)
  refine Meets.finallyDo
    (Q := fun a d' => Opened p d ∧ Q a d'.unlocked ∧ d'.lock.isSome = true)
    (E := fun stop d' => Opened p d ∧ E stop d'.unlocked ∧ d'.lock.isSome = true)
    ?_ (fun a => ?_) (fun e => ?_) fun d' hd' => .inr (.inl ⟨.died, hd'.2.1⟩)
  · refine Meets.bind (Q := fun _ d' => (d'.unlocked = d.unlocked ∧ d'.lock.isSome = true) ∧
      (Opened p d ∧ p.fate .writeLock = .done)) ?_ fun _ => ?_
    · refine Meets.call (fun s s' hfate hs heff => ?_) fun stop s s' hs htouched => ?_
      · rw [← Option.some.inj heff]
        exact ⟨⟨hs.2.1, rfl⟩, hs.1, hfate⟩
      · refine ⟨hs.1, ?_⟩
        have hkept : s'.unlocked = d.unlocked ∧ s'.lock.isSome = true := by
          rcases htouched with rfl | heff | ⟨_, rfl⟩
          · exact hs.2
          · rw [← Option.some.inj heff]
            exact ⟨hs.2.1, rfl⟩
          · exact ⟨hs.2.1, rfl⟩
        exact ⟨hkept.1 ▸ hstart stop, hkept.2⟩
    · refine Meets.assume fun hopened => ?_
      exact (hbody hopened.1 hopened.2).weaken (fun _ h => h) (fun _ _ h => ⟨hopened.1, h⟩)
        fun _ _ h => ⟨hopened.1, h⟩
  · refine Meets.call_possible (fun s hs => ?_) (fun s s' hs heff => ?_)
      (fun hfails e s s' hs htouched => ?_) fun s s' hs htouched => ?_
    · rw [hs.2.2]
      rfl
    · rw [if_pos hs.2.2] at heff
      rw [← Option.some.inj heff]
      exact ⟨hs.1, hs.2.1, rfl⟩
    · exact .inr ⟨hs.1, .inr ⟨hfails, a, unlocked_removed htouched ▸ hs.2.1⟩, .inr hfails⟩
    · exact .inr (.inr ⟨a, unlocked_removed htouched ▸ hs.2.1⟩)
  · refine Meets.call_possible (fun s hs => ?_) (fun s s' hs heff => ?_)
      (fun hfails e' s s' hs htouched => ?_) fun s s' hs htouched => ?_
    · rw [hs.2.2]
      rfl
    · rw [if_pos hs.2.2] at heff
      rw [← Option.some.inj heff]
      exact .inr ⟨hs.1, .inl ⟨e, hs.2.1⟩, .inl rfl⟩
    · exact .inr ⟨hs.1, .inl ⟨e, unlocked_removed htouched ▸ hs.2.1⟩, .inr hfails⟩
    · exact .inr (.inl ⟨.threw e, unlocked_removed htouched ▸ hs.2.1⟩)

/-! ## Activation -/

/-- Only the lock, which is held, and temporary files differ from the start. -/
structure Kept (d₀ d : Disk) : Prop where
  pointer : d.pointer = d₀.pointer
  releases : d.releases = d₀.releases
  entry : d.entry = d₀.entry
  lock : d.lock.isSome = true

variable (doubles sha) in
/-- The pointer is complete; the releases and the entry are those of the start. -/
structure Switched (d₀ d : Disk) : Prop where
  pointer : ∃ bytes pointer, d.pointer = some bytes ∧ Complete doubles sha d₀ bytes pointer
  releases : d.releases = d₀.releases
  entry : d.entry = d₀.entry

def commitCalls : List Call :=
  [.openTemporary, .writeTemporary, .verifyRoot, .readPointerAgain, .commit]

def Session.Done (p : Session) (calls : List Call) : Prop := ∀ c ∈ calls, p.fate c = .done

theorem Kept.temporary (h : Kept d₀ d) (name : Units) (bytes : Option Bytes) :
    Kept d₀ (d.setTemporary name bytes) := ⟨h.pointer, h.releases, h.entry, h.lock⟩

/-- A file beside the pointer is created, or a part of it. -/
theorem create_meets {F : Prop} {c : Call} {name : Units} {bytes : Bytes}
    {E : Stop DeploymentError → Disk → Prop} (hE : ∀ stop d, Kept d₀ d → E stop d) :
    Meets (fun d => Kept d₀ d ∧ F) (p.create c name bytes)
      (fun _ d => Kept d₀ d ∧ F ∧ p.fate c = .done) E := by
  unfold Session.create Session.call
  refine Meets.call (fun s s' hfate hs heff => ?_) fun stop s s' hs htouched => hE stop s' ?_
  · split at heff
    · exact absurd heff (by simp)
    · rw [← Option.some.inj heff]
      exact ⟨hs.1.temporary .., hs.2, hfate⟩
  · rcases htouched with rfl | heff | ⟨n, rfl⟩
    · exact hs.1
    · dsimp only at heff
      split at heff
      · exact absurd heff (by simp)
      · rw [← Option.some.inj heff]
        exact hs.1.temporary ..
    · exact hs.1.temporary ..

/-- What stops the writing of a pointer. -/
def CommitStop (doubles : Doubles) (sha : Sha256) (p : Session) (d₀ : Disk) :
    Stop DeploymentError → Disk → Prop
  | .threw _, d => Kept d₀ d ∨
      (Switched doubles sha d₀ d ∧ d.lock.isSome = true) ∧ p.Done commitCalls ∧
        p.removalFails .removeTemporary
  | .died, d => Kept d₀ d ∨ Switched doubles sha d₀ d ∧ d.lock.isSome = true

theorem CommitStop.kept (h : Kept d₀ d) (stop : Stop DeploymentError) :
    CommitStop doubles sha p d₀ stop d := by
  cases stop with
  | threw e => exact .inl h
  | died => exact .inl h

theorem Switched.temporary (h : Switched doubles sha d₀ d) (name : Units) (bytes : Option Bytes) :
    Switched doubles sha d₀ (d.setTemporary name bytes) := ⟨h.pointer, h.releases, h.entry⟩

/-- What stops it before the temporary file is removed. -/
def WriteStop (doubles : Doubles) (sha : Sha256) (d₀ : Disk) :
    Stop DeploymentError → Disk → Prop
  | .threw _, d => Kept d₀ d
  | .died, d => Kept d₀ d ∨ Switched doubles sha d₀ d ∧ d.lock.isSome = true

theorem WriteStop.kept (h : Kept d₀ d) (stop : Stop DeploymentError) :
    WriteStop doubles sha d₀ stop d := by
  cases stop with
  | threw e => exact h
  | died => exact .inl h

/-- The temporary file is written and renamed. -/
theorem writePointer_meets {previousBytes : Option Bytes} {next : Pointer}
    (hnext : Complete doubles sha d₀ (pointerBytes doubles next) next) :
    Meets (Kept d₀)
      (do
        p.create .openTemporary (temporaryName p) []
        p.call .writeTemporary
          (fun n d => d.setTemporary (temporaryName p) (some ((pointerBytes doubles next).take n)))
          (fun d => some (d.setTemporary (temporaryName p) (some (pointerBytes doubles next))))
        p.ensure .verifyRoot
        p.look .readPointerAgain (fun d =>
          if d.pointer ≠ previousBytes then .error .pointerChanged else .ok ())
        atomic .outside (p.fate .commit) (fun d =>
          (d.temporaries (temporaryName p)).map (fun bytes =>
            { d.setTemporary (temporaryName p) none with pointer := some bytes })))
      (fun _ d => (Switched doubles sha d₀ d ∧ d.lock.isSome = true) ∧ p.Done commitCalls)
      (WriteStop doubles sha d₀) := by
  have hkept : ∀ stop d, Kept d₀ d → WriteStop doubles sha d₀ stop d := fun stop d h =>
    WriteStop.kept h stop
  refine Meets.bind (Q := fun _ d => Kept d₀ d ∧ True ∧ p.fate .openTemporary = .done) ?_ fun _ => ?_
  · exact (create_meets hkept).pre fun _ h => ⟨h, trivial⟩
  refine Meets.bind (Q := fun _ d => (Kept d₀ d ∧
      d.temporaries (temporaryName p) = some (pointerBytes doubles next)) ∧
      p.fate .openTemporary = .done ∧ p.fate .writeTemporary = .done) ?_ fun _ => ?_
  · refine Meets.call (fun s s' hfate hs heff => ?_) fun stop s s' hs htouched => hkept stop s' ?_
    · rw [← Option.some.inj heff]
      exact ⟨⟨hs.1.temporary .., Function.update_self ..⟩, hs.2.2, hfate⟩
    · rcases htouched with rfl | heff | ⟨n, rfl⟩
      · exact hs.1
      · rw [← Option.some.inj heff]
        exact hs.1.temporary ..
      · exact hs.1.temporary ..
  refine (ensure_meets fun stop d h => hkept stop d h.1.1).bind fun _ => ?_
  refine Meets.bind (Q := fun _ d => (Kept d₀ d ∧
      d.temporaries (temporaryName p) = some (pointerBytes doubles next)) ∧
      p.fate .openTemporary = .done ∧ p.fate .writeTemporary = .done ∧
      p.fate .verifyRoot = .done ∧ p.fate .readPointerAgain = .done) ?_ fun _ => ?_
  · refine Meets.look (fun d _ hfate hd _ => ?_) fun stop d hd => hkept stop d hd.1.1.1
    exact ⟨hd.1.1, hd.1.2.1, hd.1.2.2, hd.2, hfate⟩
  · refine Meets.atomic (fun s s' hs heff => ?_) fun stop s hs => hkept stop s hs.1.1
    rw [hs.1.2] at heff
    have hswitched : Switched doubles sha d₀ s' ∧ s'.lock.isSome = true := by
      rw [← Option.some.inj heff]
      exact ⟨⟨⟨_, next, rfl, hnext⟩, hs.1.1.releases, hs.1.1.entry⟩, hs.1.1.lock⟩
    refine ⟨fun hfate => ⟨hswitched, ?_⟩, .inr hswitched⟩
    intro c hc
    simp only [commitCalls, List.mem_cons, List.not_mem_nil, or_false] at hc
    rcases hc with rfl | rfl | rfl | rfl | rfl
    · exact hs.2.1
    · exact hs.2.2.1
    · exact hs.2.2.2.1
    · exact hs.2.2.2.2
    · exact hfate

/-- **The new pointer** is in place after the rename, and the old one before it. -/
theorem commitPointer_meets {previousBytes : Option Bytes} {next : Pointer}
    (hnext : Complete doubles sha d₀ (pointerBytes doubles next) next) :
    Meets (Kept d₀) (commitPointer doubles p previousBytes next)
      (fun _ d => (Switched doubles sha d₀ d ∧ d.lock.isSome = true) ∧ p.Done commitCalls)
      (CommitStop doubles sha p d₀) := by
  have hremoved : ∀ {s s' : Disk}, Touched (fun (_ : Nat) d => d)
      (fun d : Disk => some (d.setTemporary (temporaryName p) none)) s s' →
      s' = s ∨ s' = s.setTemporary (temporaryName p) none := by
    intro s s' htouched
    rcases htouched with rfl | heff | ⟨_, rfl⟩
    · exact .inl rfl
    · exact .inr (Option.some.inj heff).symm
    · exact .inl rfl
  unfold commitPointer
  refine Meets.finallyDo (writePointer_meets hnext) (fun _ => ?_) (fun e => ?_) fun d hd => hd
  · refine Meets.call_possible (fun _ _ => rfl) (fun s s' hs heff => ?_)
      (fun hfails e s s' hs htouched => ?_) fun s s' hs htouched => ?_
    · rw [← Option.some.inj heff]
      exact ⟨⟨hs.1.1.temporary .., hs.1.2⟩, hs.2⟩
    · rcases hremoved htouched with rfl | rfl
      · exact .inr ⟨hs.1, hs.2, hfails⟩
      · exact .inr ⟨⟨hs.1.1.temporary .., hs.1.2⟩, hs.2, hfails⟩
    · rcases hremoved htouched with rfl | rfl
      · exact .inr hs.1
      · exact .inr ⟨hs.1.1.temporary .., hs.1.2⟩
  · refine Meets.call (fun s s' _ hs heff => ?_) fun stop s s' hs htouched => ?_
    · rw [← Option.some.inj heff]
      exact .inl (Kept.temporary hs ..)
    · refine CommitStop.kept ?_ stop
      rcases hremoved htouched with rfl | rfl
      · exact hs
      · exact Kept.temporary hs ..

variable (doubles sha) in
/-- What was active is in order, or may be kept aside. -/
def PreviousSettled (d : Disk) (recoverInvalidPointer : Bool) : Prop :=
  ∀ bytes, d.pointer = some bytes → recoverInvalidPointer = true ∨
    ∃ previous manifest, readPointer doubles bytes = .ok previous ∧
      d.check doubles sha previous = .ok manifest

theorem check_congr (h : d.releases = d'.releases) (pointer : Pointer) :
    d.check doubles sha pointer = d'.check doubles sha pointer := by
  rw [Disk.check, Disk.check, h]

theorem inspectPrevious_meets {recoverInvalidPointer : Bool} :
    Meets (Kept d₀) (inspectPrevious doubles sha p recoverInvalidPointer)
      (fun _ d => Kept d₀ d ∧ PreviousSettled doubles sha d₀ recoverInvalidPointer)
      (fun _ => Kept d₀) := by
  unfold inspectPrevious
  refine Meets.get_bind fun d hd => ?_
  cases hpointer : d.pointer with
  | none =>
      refine Meets.pure fun d' hd' => ?_
      rw [hd.pointer] at hpointer
      refine ⟨hd' ▸ hd, fun bytes hbytes => ?_⟩
      rw [hpointer] at hbytes
      exact absurd hbytes (by simp)
  | some bytes =>
      rw [hd.pointer] at hpointer
      have hsettled : recoverInvalidPointer = true ∨ (∃ previous manifest,
          readPointer doubles bytes = .ok previous ∧ d₀.check doubles sha previous = .ok manifest) →
          PreviousSettled doubles sha d₀ recoverInvalidPointer := by
        intro h bytes' hbytes'
        obtain rfl : bytes = bytes' := Option.some.inj (hpointer.symm.trans hbytes')
        exact h
      dsimp only
      refine Meets.bind (Q := fun _ => Kept d₀) ?_ fun _ => ?_
      · exact ((ensure_meets fun _ _ h => h).pre fun d' hd' => hd' ▸ hd).post fun _ _ h => h.1
      refine Meets.tryCatch (E := fun _ => Kept d₀) ?_ fun stop => ?_
      · refine Meets.look (fun d' previous _ hd' hread => ?_) fun _ _ h => h
        obtain ⟨pointer, hpointer', hread⟩ := bind_eq_ok.mp hread
        obtain ⟨manifest, hmanifest, _⟩ := bind_eq_ok.mp hread
        rw [check_congr hd'.releases] at hmanifest
        exact ⟨hd', hsettled (.inr ⟨pointer, manifest, hpointer', hmanifest⟩)⟩
      · cases stop with
        | died => exact Meets.throw fun _ h => h
        | threw e =>
            refine Meets.ite (fun hrecover => ?_) fun _ => Meets.throw fun _ h => h
            refine Meets.bind (Q := fun _ d => Kept d₀ d) ?_ fun _ => Meets.pure fun d' hd' => ?_
            · exact ((create_meets (F := True) fun _ _ h => h).pre fun _ h => ⟨h, trivial⟩).post
                fun _ _ h => h.1
            · exact ⟨hd', hsettled (.inl hrecover)⟩

def beforeCommit : List Call := [.capability, .writeLock, .readManifest, .check]

variable (doubles sha p) in
/-- An activation comes to its rename: the lock is free, the release passes its check, what was active
is settled, and the calls up to there are done. -/
structure Commits (d : Disk) (release : Units) (recoverInvalidPointer : Bool) : Prop where
  opened : Opened p d
  before : p.Done beforeCommit
  commit : p.Done commitCalls
  checked : ∃ bytes manifest, (d.releases release).bind (·.manifest) = some bytes ∧
    d.check doubles sha ⟨release, sha.hash bytes⟩ = .ok manifest
  previous : PreviousSettled doubles sha d recoverInvalidPointer

/-- The pointer, the releases and the entry are those of the start. -/
structure Unchanged (d₀ d : Disk) : Prop where
  pointer : d.pointer = d₀.pointer
  releases : d.releases = d₀.releases
  entry : d.entry = d₀.entry

/-- The two removals that come after the rename. -/
def Session.RemovalFails (p : Session) : Prop :=
  p.removalFails .removeTemporary ∨ p.removalFails .removeLock

/-- What an activation leaves that stops, where `R` is a removal that fails. -/
def ActivateStop (doubles : Doubles) (sha : Sha256) (p : Session) (release : Units)
    (recoverInvalidPointer : Bool) (R : Prop) (d₀ : Disk) : Stop DeploymentError → Disk → Prop
  | .threw _, d => Unchanged d₀ d ∨ Switched doubles sha d₀ d ∧
      Commits doubles sha p d₀ release recoverInvalidPointer ∧ R
  | .died, d => Unchanged d₀ d ∨ Switched doubles sha d₀ d

variable {release : Units} {recoverInvalidPointer : Bool} {R : Prop}

theorem ActivateStop.unchanged (h : Unchanged d₀ d) (stop : Stop DeploymentError) :
    ActivateStop doubles sha p release recoverInvalidPointer R d₀ stop d := by
  cases stop with
  | threw e => exact .inl h
  | died => exact .inl h

theorem Kept.unchanged (h : Kept d₀ d) : Unchanged d₀ d.unlocked :=
  ⟨h.pointer, h.releases, h.entry⟩

/-- **Under the lock** an activation comes to its rename, or leaves the pointer. -/
theorem activateBody_meets (hcapability : p.fate .capability = .done) (hopened : Opened p d₀)
    (hwritten : p.fate .writeLock = .done) :
    Meets (fun d => d.unlocked = d₀.unlocked ∧ d.lock.isSome = true)
      (activateRelease doubles sha p release recoverInvalidPointer)
      (fun _ d => (Switched doubles sha d₀ d.unlocked ∧
        Commits doubles sha p d₀ release recoverInvalidPointer) ∧ d.lock.isSome = true)
      (fun stop d => ActivateStop doubles sha p release recoverInvalidPointer
        (p.removalFails .removeTemporary) d₀ stop d.unlocked ∧ d.lock.isSome = true) := by
  have hkept : ∀ stop d, Kept d₀ d → ActivateStop doubles sha p release recoverInvalidPointer
      (p.removalFails .removeTemporary) d₀ stop d.unlocked ∧ d.lock.isSome = true :=
    fun stop d h => ⟨ActivateStop.unchanged h.unchanged stop, h.lock⟩
  have hstart : ∀ d : Disk, d.unlocked = d₀.unlocked ∧ d.lock.isSome = true → Kept d₀ d :=
    fun d h =>
    ⟨(congrArg Disk.pointer h.1 :), (congrArg Disk.releases h.1 :), (congrArg Disk.entry h.1 :), h.2⟩
  refine Meets.pre ?_ hstart
  unfold activateRelease
  refine Meets.throwIf_bind (fun d h _ => hkept _ d h) fun _ => ?_
  refine Meets.bind (Q := fun bytes d => Kept d₀ d ∧ p.fate .readManifest = .done ∧
    (d₀.releases release).bind (·.manifest) = some bytes) ?_ fun bytes => ?_
  · refine Meets.look (fun d bytes hfate hd hread => ?_) hkept
    refine ⟨hd, hfate, ?_⟩
    unfold readManifestBytes at hread
    rw [hd.releases] at hread
    split at hread
    · exact absurd hread (by simp)
    · rename_i found hfound
      rw [← Except.ok.inj hread]
      exact hfound
  refine Meets.bind (Q := fun manifest d => Kept d₀ d ∧ p.fate .readManifest = .done ∧
    (d₀.releases release).bind (·.manifest) = some bytes ∧ p.fate .check = .done ∧
    d₀.check doubles sha ⟨release, sha.hash bytes⟩ = .ok manifest) ?_ fun manifest => ?_
  · refine Meets.look (fun d manifest hfate hd hread => ?_) fun stop d hd => hkept stop d hd.1
    rw [check_congr hd.1.releases] at hread
    exact ⟨hd.1, hd.2.1, hd.2.2, hfate, hread⟩
  refine Meets.get_bind fun d hd => ?_
  obtain ⟨hd, hread, hbytes, hcheck, hmanifest⟩ := hd
  have hbefore : p.Done beforeCommit := by
    intro c hc
    simp only [beforeCommit, List.mem_cons, List.not_mem_nil, or_false] at hc
    rcases hc with rfl | rfl | rfl | rfl
    · exact hcapability
    · exact hwritten
    · exact hread
    · exact hcheck
  have hread' : readPointer doubles (pointerBytes doubles ⟨release, sha.hash bytes⟩) =
      .ok ⟨release, sha.hash bytes⟩ := readPointer_pointerBytes _
  have hcomplete := complete_of_check hread' hmanifest
  refine Meets.pre (P := Kept d₀) ?_ fun d' hd' => hd' ▸ hd
  refine Meets.bind (Q := fun _ d => Kept d₀ d ∧
    PreviousSettled doubles sha d₀ recoverInvalidPointer) ?_ fun previous => ?_
  · exact inspectPrevious_meets.weaken (fun _ h => h) (fun _ _ h => h) hkept
  refine Meets.assume fun hprevious => ?_
  have hcommits : p.Done commitCalls → Commits doubles sha p d₀ release recoverInvalidPointer :=
    fun hdone => ⟨hopened, hbefore, hdone, ⟨bytes, manifest, hbytes, hmanifest⟩, hprevious⟩
  refine Meets.bind (Q := fun _ d => (Switched doubles sha d₀ d ∧ d.lock.isSome = true) ∧
    p.Done commitCalls) ?_ fun _ => Meets.pure fun d h => ?_
  · refine (commitPointer_meets hcomplete).weaken (fun _ h => h) (fun _ _ h => h) fun stop d h => ?_
    cases stop with
    | threw e =>
        rcases h with h | ⟨⟨hswitched, hlock⟩, hdone, hfails⟩
        · exact hkept _ d h
        · have hsame : Switched doubles sha d₀ d.unlocked :=
            ⟨hswitched.pointer, hswitched.releases, hswitched.entry⟩
          exact ⟨.inr ⟨hsame, hcommits hdone, hfails⟩, hlock⟩
    | died =>
        rcases h with h | ⟨hswitched, hlock⟩
        · exact hkept _ d h
        · exact ⟨.inr ⟨hswitched.pointer, hswitched.releases, hswitched.entry⟩, hlock⟩
  · exact ⟨⟨⟨h.1.1.pointer, h.1.1.releases, h.1.1.entry⟩, hcommits h.2⟩, h.1.2⟩

/-- **An activation** that throws leaves the pointer, unless it came to its rename and a removal
failed after it; one that dies leaves the old pointer or the new one. -/
theorem activate_meets :
    Meets (· = d₀) (activateManagedDeployment doubles sha p release recoverInvalidPointer)
      (fun _ d => Switched doubles sha d₀ d)
      (ActivateStop doubles sha p release recoverInvalidPointer p.RemovalFails d₀) := by
  have hsame : ∀ stop d, d = d₀ → ActivateStop doubles sha p release recoverInvalidPointer
      p.RemovalFails d₀ stop d := fun stop d h => ActivateStop.unchanged (h ▸ ⟨rfl, rfl, rfl⟩) stop
  have hunlocked : ∀ {d : Disk}, Switched doubles sha d₀ d.unlocked → Switched doubles sha d₀ d :=
    fun h => ⟨h.pointer, h.releases, h.entry⟩
  have hstart : Unchanged d₀ d₀.unlocked := ⟨rfl, rfl, rfl⟩
  unfold activateManagedDeployment
  refine (ensure_meets hsame).bind fun _ => Meets.assume fun hcapability => ?_
  refine (withInstallerLock_meets
    (Q := fun _ d => Switched doubles sha d₀ d ∧
      Commits doubles sha p d₀ release recoverInvalidPointer)
    (E := ActivateStop doubles sha p release recoverInvalidPointer
      (p.removalFails .removeTemporary) d₀)
    (ActivateStop.unchanged hstart)
    fun hopened hwritten => activateBody_meets hcapability hopened hwritten).weaken
      (fun _ h => h) (fun _ _ h => h.2.1.1) fun stop d h => ?_
  cases stop with
  | threw e =>
      rcases h with h | ⟨_, ⟨_, hstop⟩ | ⟨hfails, _, hswitched, hcommits⟩, _⟩
      · exact hsame _ d h
      · rcases hstop with hkept | ⟨hswitched, hcommits, hfails⟩
        · exact .inl ⟨hkept.pointer, hkept.releases, hkept.entry⟩
        · exact .inr ⟨hunlocked hswitched, hcommits, .inl hfails⟩
      · exact .inr ⟨hunlocked hswitched, hcommits, .inr hfails⟩
  | died =>
      rcases h with h | ⟨stop, hstop⟩ | ⟨_, hswitched, _⟩
      · exact hsame _ d h
      · cases stop with
        | threw e =>
            rcases hstop with hkept | ⟨hswitched, _⟩
            · exact .inl ⟨hkept.pointer, hkept.releases, hkept.entry⟩
            · exact .inr (hunlocked hswitched)
        | died =>
            rcases hstop with hkept | hswitched
            · exact .inl ⟨hkept.pointer, hkept.releases, hkept.entry⟩
            · exact .inr (hunlocked hswitched)
      · exact .inr (hunlocked hswitched)

end Caveat.Managed.Deployment
