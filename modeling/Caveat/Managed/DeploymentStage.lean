import Caveat.Managed.DeploymentPointer

/-!
# Staging

`stage` adds what is missing: an entry file that is not there, and a release that is not there, once it
is whole. What is there stays. A staged release has its entry files beside it, so staging it again only
looks.
-/

namespace Caveat.Managed.Deployment

open Js Lib

variable {doubles : Doubles} {sha : Sha256} {p : Session} {d d' d₀ : Disk} {legacyRoot : Bool}
  {source : StageSource} {s : Staging}

/-! ## What stays -/

/-- A name that no staging directory has. -/
def IsPlace (name : Units) : Prop := name.head? ≠ some (unitOf '.')

def Disk.EntryReady (d : Disk) : Prop := ∀ name ∈ entryNames, (d.entry name).isSome = true

/-- Where there is a release, the entry is complete. -/
def Disk.Ready (d : Disk) : Prop :=
  ∀ name, IsPlace name → (d.releases name).isSome = true → d.EntryReady

/-- What staging leaves as it is. -/
structure StageKept (d₀ d : Disk) : Prop where
  pointer : d.pointer = d₀.pointer
  entry : ∀ name, (d₀.entry name).isSome = true → d.entry name = d₀.entry name
  releases : ∀ name dir, IsPlace name → d₀.releases name = some dir → d.releases name = some dir
  ready : d₀.Ready → d.Ready

theorem StageKept.refl (d : Disk) : StageKept d d where
  pointer := rfl
  entry _ _ := rfl
  releases _ _ _ h := h
  ready h := h

/-- Staging, with the lock held. -/
def Staged (d₀ d : Disk) : Prop := StageKept d₀ d ∧ d.lock.isSome = true

theorem Staged.setEntry {name : Text} (h : Staged d₀ d) (hnone : d.entry name = none) (bytes : Bytes) :
    Staged d₀ (d.setEntry name bytes) := by
  refine ⟨⟨h.1.pointer, fun name' hsome => ?_, h.1.releases, fun hready => ?_⟩, h.2⟩
  · by_cases hname : name' = name
    · have hkept := h.1.entry name' hsome
      rw [hname] at hkept hsome
      rw [← hkept, hnone] at hsome
      exact absurd hsome (by simp)
    · rw [setEntry_of_ne _ hname]
      exact h.1.entry name' hsome
  · intro place hplace hrelease n hn
    by_cases hname : n = name
    · rw [hname, setEntry_self]
      rfl
    · rw [setEntry_of_ne _ hname]
      exact h.1.ready hready place hplace hrelease n hn

/-- A change of a staging directory. -/
theorem Staged.setStaging {name : Units} (h : Staged d₀ d) (hname : ¬ IsPlace name)
    (dir : Option ReleaseDirectory) : Staged d₀ (d.setRelease name dir) := by
  have hother : ∀ place, IsPlace place → (d.setRelease name dir).releases place = d.releases place := by
    intro place hplace
    have hne : place ≠ name := by
      rintro rfl
      exact hname hplace
    exact setRelease_of_ne _ hne _
  refine ⟨⟨h.1.pointer, h.1.entry, fun place dir' hplace hdir => ?_, fun hready => ?_⟩, h.2⟩
  · rw [hother place hplace]
    exact h.1.releases place dir' hplace hdir
  · intro place hplace hrelease
    rw [hother place hplace] at hrelease
    exact h.1.ready hready place hplace hrelease

/-- A new release, beside a complete entry. -/
theorem Staged.publish {name : Units} (h : Staged d₀ d) (hnone : d.releases name = none)
    (hready : d.EntryReady) (dir : ReleaseDirectory) : Staged d₀ (d.setRelease name (some dir)) := by
  refine ⟨⟨h.1.pointer, h.1.entry, fun place dir' hplace hdir => ?_, fun _ => ?_⟩, h.2⟩
  · have hkept := h.1.releases place dir' hplace hdir
    have hne : place ≠ name := by
      rintro rfl
      rw [hnone] at hkept
      exact absurd hkept (by simp)
    rw [setRelease_of_ne _ hne]
    exact hkept
  · exact fun _ _ _ => hready

theorem stagingName_not_place : ¬ IsPlace (stagingName p) := by
  intro h
  exact h rfl

/-! ## The steps -/

/-- An entry file is there afterwards, and so are those that were there. -/
theorem provideEntry_meets {kept : Disk → Except DeploymentError Unit} {name : Text} {bytes : Bytes}
    {names : List Text} :
    Meets (fun d => Staged d₀ d ∧ ∀ n ∈ names, (d.entry n).isSome = true)
      (provideEntry p kept name bytes)
      (fun _ d => Staged d₀ d ∧ ∀ n ∈ names ++ [name], (d.entry n).isSome = true)
      (fun _ => Staged d₀) := by
  unfold provideEntry
  refine Meets.get_bind fun d hd => ?_
  refine Meets.ite (fun hsome => ?_) fun hmissing => ?_
  · refine Meets.look (fun d' _ _ hd' _ => ?_) fun stop d' hd' => hd' ▸ hd.1
    rw [hd']
    refine ⟨hd.1, fun n hn => ?_⟩
    rcases List.mem_append.mp hn with hn | hn
    · exact hd.2 n hn
    · rw [List.mem_singleton.mp hn]
      exact hsome
  · have hnone : d.entry name = none := by simpa using hmissing
    refine Meets.call (fun d' d'' _ hd' heff => ?_) fun stop d' d'' hd' htouched => ?_
    · rw [← Option.some.inj heff, hd']
      refine ⟨hd.1.setEntry hnone bytes, fun n hn => ?_⟩
      by_cases hname : n = name
      · rw [hname, setEntry_self]
        rfl
      · rw [setEntry_of_ne _ hname]
        rcases List.mem_append.mp hn with hn | hn
        · exact hd.2 n hn
        · exact absurd (List.mem_singleton.mp hn) hname
    · rw [hd'] at htouched
      rcases htouched with rfl | heff | ⟨n, rfl⟩
      · exact hd.1
      · rw [← Option.some.inj heff]
        exact hd.1.setEntry hnone bytes
      · exact hd.1.setEntry hnone _

/-- What holds while a copy is made. -/
structure Copying (d₀ : Disk) (target : Units) (d : Disk) : Prop where
  staged : Staged d₀ d
  ready : d.EntryReady
  free : d.releases target = none

theorem Copying.setStaging {target : Units} (h : Copying d₀ target d) (hne : target ≠ stagingName p)
    (dir : Option ReleaseDirectory) : Copying d₀ target (d.setRelease (stagingName p) dir) := by
  refine ⟨h.staged.setStaging stagingName_not_place dir, h.ready, ?_⟩
  rw [setRelease_of_ne _ hne]
  exact h.free

/-- A call that changes only the staging directory. -/
theorem stagingCall_meets {target : Units} {c : Call} {leave : Nat → Disk → Disk}
    {effect : Disk → Option Disk}
    (hleave : ∀ n d, Copying d₀ target d → Copying d₀ target (leave n d))
    (heffect : ∀ d d', Copying d₀ target d → effect d = some d' → Copying d₀ target d') :
    Meets (Copying d₀ target) (p.call c leave effect) (fun _ => Copying d₀ target)
      (fun _ => Staged d₀) := by
  refine Meets.call (fun d d' _ hd heff => heffect d d' hd heff) fun stop d d' hd htouched => ?_
  rcases htouched with rfl | heff | ⟨n, rfl⟩
  · exact hd.staged
  · exact (heffect d d' hd heff).staged
  · exact (hleave n d hd).staged

/-- **A copy** goes to its place when it is whole, beside a complete entry. -/
theorem copyRelease_meets (hplace : IsPlace (s.release doubles sha)) :
    Meets (Copying d₀ (s.release doubles sha)) (copyRelease doubles sha p source s)
      (fun _ => Staged d₀) (fun _ => Staged d₀) := by
  have hne : s.release doubles sha ≠ stagingName p := by
    intro heq
    exact stagingName_not_place (heq ▸ hplace)
  have hin : ∀ (f : ReleaseDirectory → ReleaseDirectory) d, Copying d₀ (s.release doubles sha) d →
      Copying d₀ (s.release doubles sha) (d.inRelease (stagingName p) f) :=
    fun f d hd => hd.setStaging hne _
  have hset : ∀ dir d d', Copying d₀ (s.release doubles sha) d →
      some (d.setRelease (stagingName p) dir) = some d' → Copying d₀ (s.release doubles sha) d' :=
    fun dir d d' hd heff => Option.some.inj heff ▸ hd.setStaging hne dir
  unfold copyRelease
  refine (stagingCall_meets (fun _ _ hd => hd) fun d d' hd heff => ?_).bind fun _ => ?_
  · split at heff
    · exact absurd heff (by simp)
    · exact hset _ d d' hd heff
  refine Meets.finallyDo (Q := fun _ => Staged d₀) (E := fun _ => Staged d₀) ?_ (fun _ => ?_)
    (fun _ => ?_) fun d hd => hd
  · refine (stagingCall_meets (fun _ d hd => hin _ d hd) fun d d' hd heff => ?_).bind fun _ => ?_
    · exact Option.some.inj heff ▸ hin _ d hd
    refine (ensure_meets fun _ d hd => hd.staged).bind fun _ => ?_
    refine Meets.bind (Q := fun _ => Copying d₀ (s.release doubles sha)) ?_ fun _ => ?_
    · exact Meets.look (fun d _ _ hd _ => hd.1) fun _ d hd => hd.1.staged
    refine (stagingCall_meets (fun _ d hd => hin _ d hd) fun d d' hd heff => ?_).bind fun _ => ?_
    · exact Option.some.inj heff ▸ hin _ d hd
    refine (ensure_meets fun _ d hd => hd.staged).bind fun _ => ?_
    refine Meets.atomic (fun d d' hd heff => ?_) fun _ d hd => hd.1.staged
    obtain ⟨dir, _, rfl⟩ := Option.map_eq_some_iff.mp heff
    have hpublished := (hd.1.staged.publish hd.1.free hd.1.ready dir).setStaging
      (stagingName_not_place (p := p)) none
    exact ⟨fun _ => hpublished, hpublished⟩
  all_goals
    -- what is left of the copy is removed, or a part of it
    refine Meets.call (fun d d' _ hd heff => ?_) fun stop d d' hd htouched => ?_
    · exact Option.some.inj heff ▸ Staged.setStaging hd stagingName_not_place none
    · rcases htouched with rfl | heff | ⟨n, rfl⟩
      · exact hd
      · exact Option.some.inj heff ▸ Staged.setStaging hd stagingName_not_place none
      · exact Staged.setStaging hd stagingName_not_place _

/-- A release's name starts with a digit. -/
theorem isPlace_of_version {version rest : Units} (h : isVersion version = true) :
    IsPlace (version ++ rest) := by
  cases version with
  | nil => exact absurd h (by decide)
  | cons u version =>
      intro hhead
      obtain rfl : u = unitOf '.' := Option.some.inj hhead
      -- the part before the dot is empty
      have hsplit : (unitOf '.' :: version).splitOn (unitOf '.') =
          [] :: version.splitOn (unitOf '.') := by
        simp [List.splitOn, List.splitOnP_cons_eq_if_modifyHead]
      rw [isVersion, hsplit] at h
      simp at h

/-- What is read of a source has the entry's names, and a version. -/
theorem readStageSource_ok (h : readStageSource doubles sha source = .ok s) :
    s.assets.map Prod.fst = entrySources.map Prod.fst ∧ isVersion s.version = true := by
  unfold readStageSource at h
  obtain ⟨files, _, h⟩ := bind_eq_ok.mp h
  obtain ⟨entryFiles, _, h⟩ := bind_eq_ok.mp h
  split at h
  · exact absurd h (by simp)
  obtain ⟨version, _, h⟩ := bind_eq_ok.mp h
  split at h
  · exact absurd h (by simp)
  rename_i hversion
  obtain ⟨assets, hassets, h⟩ := bind_eq_ok.mp h
  obtain rfl := Except.ok.inj h
  refine ⟨map_eq_of_mapM hassets (List.length_map ..) fun i names asset hnames hasset => ?_,
    by simpa using hversion⟩
  rw [List.getElem?_map, hnames, Option.map_some]
  unfold readAsset at hasset
  split at hasset
  · exact absurd hasset (by simp)
  · dsimp only at hasset
    split at hasset
    · exact absurd hasset (by simp)
    · rw [← Except.ok.inj hasset]

/-- **Under the lock** staging adds what is missing. -/
theorem stageRelease_meets (hs : readStageSource doubles sha source = .ok s) :
    Meets (Staged d₀) (stageRelease doubles sha p legacyRoot source s)
      (fun _ => Staged d₀) (fun _ => Staged d₀) := by
  obtain ⟨hnames, hversion⟩ := readStageSource_ok hs
  unfold stageRelease
  refine Meets.bind (Q := fun _ => Staged d₀) ?_ fun keep => ?_
  · exact Meets.look (fun _ _ _ hd _ => hd) fun _ _ hd => hd
  refine Meets.bind (Q := fun _ d => Staged d₀ d ∧
    ∀ n ∈ s.assets.map Prod.fst, (d.entry n).isSome = true) ?_ fun _ => ?_
  · refine (Meets.forEach (I := fun done d => Staged d₀ d ∧
      ∀ n ∈ done.map Prod.fst, (d.entry n).isSome = true) fun done asset rest _ => ?_).pre
      fun d hd => ⟨hd, fun n hn => absurd hn (by simp)⟩
    rw [List.map_append, List.map_singleton]
    exact provideEntry_meets
  refine Meets.bind (Q := fun _ d => Staged d₀ d ∧ d.EntryReady) ?_ fun _ => ?_
  · refine provideEntry_meets.post fun _ d hd => ⟨hd.1, fun n hn => hd.2 n ?_⟩
    rw [hnames]
    exact hn
  refine Meets.get_bind fun d hd => ?_
  refine Meets.bind (Q := fun _ => Staged d₀) ?_ fun _ => ?_
  · refine Meets.doIf (fun hfree => ?_) fun d' hd' _ => hd' ▸ hd.1
    refine (copyRelease_meets (isPlace_of_version hversion)).pre fun d' hd' => ?_
    rw [hd']
    exact ⟨hd.1, hd.2, by simpa using hfree⟩
  · refine Meets.bind (Q := fun _ => Staged d₀) ?_ fun _ => Meets.pure fun _ hd => hd
    exact Meets.look (fun _ _ _ hd _ => hd) fun _ _ hd => hd

theorem StageKept.ofUnlocked (h : StageKept d₀ d.unlocked) : StageKept d₀ d :=
  ⟨h.pointer, h.entry, h.releases, h.ready⟩

/-- **Staging** leaves what was there, wherever it stops. -/
theorem stage_meets : Meets (· = d₀) (stageManagedDeployment doubles sha p legacyRoot source)
    (fun _ => StageKept d₀) (fun _ => StageKept d₀) := by
  have hsame : ∀ (stop : Stop DeploymentError) d, d = d₀ → StageKept d₀ d :=
    fun _ d hd => hd ▸ .refl d
  have hstart : StageKept d₀ d₀.unlocked := ⟨rfl, fun _ _ => rfl, fun _ _ _ h => h, fun h => h⟩
  unfold stageManagedDeployment
  refine (ensure_meets hsame).bind fun _ => ?_
  refine Meets.bind (Q := fun s d => d = d₀ ∧ readStageSource doubles sha source = .ok s) ?_
    fun s => Meets.assume fun hs => ?_
  · exact Meets.look (fun d s _ hd hread => ⟨hd.1, hread⟩) fun stop d hd => hsame stop d hd.1
  refine (withInstallerLock_meets (Q := fun _ => StageKept d₀) (E := fun _ => StageKept d₀)
    (fun _ => hstart) fun _ _ => ?_).weaken (fun _ h => h) (fun _ _ h => h.2.1) fun stop d h => ?_
  · have hbody : Meets (Staged d₀) (stageRelease doubles sha p legacyRoot source s)
        (fun _ => Staged d₀) (fun _ => Staged d₀) := stageRelease_meets hs
    refine hbody.weaken (fun d hd => ?_) (fun _ d hd => ?_) fun _ d hd => ?_
    · refine ⟨?_, hd.2⟩
      have hd : StageKept d₀ d.unlocked := hd.1 ▸ hstart
      exact hd.ofUnlocked
    · exact ⟨⟨hd.1.pointer, hd.1.entry, hd.1.releases, hd.1.ready⟩, hd.2⟩
    · exact ⟨⟨hd.1.pointer, hd.1.entry, hd.1.releases, hd.1.ready⟩, hd.2⟩
  · cases stop with
    | threw e =>
        rcases h with h | ⟨_, ⟨_, hkept⟩ | ⟨_, _, hkept⟩, _⟩
        · exact hsame (.threw e) d h
        · exact hkept.ofUnlocked
        · exact hkept.ofUnlocked
    | died =>
        rcases h with h | ⟨_, hkept⟩ | ⟨_, hkept⟩
        · exact hsame .died d h
        · exact hkept.ofUnlocked
        · exact hkept.ofUnlocked

/-! ## Staging again -/

/-- The same but for the lock, which is held. -/
def Looked (d₀ d : Disk) : Prop := d.unlocked = d₀.unlocked ∧ d.lock.isSome = true

theorem Looked.entry (h : Looked d₀ d) : d.entry = d₀.entry := (congrArg Disk.entry h.1 :)

theorem Looked.releases (h : Looked d₀ d) : d.releases = d₀.releases := (congrArg Disk.releases h.1 :)

/-- An entry file that is there is looked at. -/
theorem provideEntry_looks {kept : Disk → Except DeploymentError Unit} {name : Text} {bytes : Bytes}
    (hname : (d₀.entry name).isSome = true) :
    Meets (Looked d₀) (provideEntry p kept name bytes) (fun _ => Looked d₀) (fun _ => Looked d₀) := by
  unfold provideEntry
  refine Meets.get_bind fun d hd => Meets.ite (fun _ => ?_) fun hmissing => ?_
  · exact Meets.look (fun d' _ _ hd' _ => hd' ▸ hd) fun _ d' hd' => hd' ▸ hd
  · rw [hd.entry] at hmissing
    exact absurd hname hmissing

/-- **Under the lock** staging a staged release only looks. -/
theorem stageRelease_looks (hs : readStageSource doubles sha source = .ok s)
    (hready : d₀.EntryReady) (hstaged : (d₀.releases (s.release doubles sha)).isSome = true) :
    Meets (Looked d₀) (stageRelease doubles sha p legacyRoot source s)
      (fun _ => Looked d₀) (fun _ => Looked d₀) := by
  obtain ⟨hnames, _⟩ := readStageSource_ok hs
  unfold stageRelease
  refine Meets.bind (Q := fun _ => Looked d₀) ?_ fun keep => ?_
  · exact Meets.look (fun _ _ _ hd _ => hd) fun _ _ hd => hd
  refine Meets.bind (Q := fun _ => Looked d₀) ?_ fun _ => ?_
  · refine Meets.forEach (I := fun _ => Looked d₀) fun done asset rest hassets => ?_
    have hasset : asset.1 ∈ s.assets.map Prod.fst := by
      rw [hassets]
      exact List.mem_map_of_mem (by simp)
    rw [hnames] at hasset
    exact provideEntry_looks (hready _ (List.mem_append_left _ hasset))
  refine Meets.bind (Q := fun _ => Looked d₀) ?_ fun _ => ?_
  · exact provideEntry_looks (hready _ (List.mem_append_right _ List.mem_cons_self))
  refine Meets.get_bind fun d hd => ?_
  refine Meets.bind (Q := fun _ => Looked d₀) ?_ fun _ => ?_
  · refine Meets.doIf (fun hfree => ?_) fun d' hd' _ => hd' ▸ hd
    rw [hd.releases, Option.isNone_iff_eq_none] at hfree
    rw [hfree] at hstaged
    exact absurd hstaged (by simp)
  · refine Meets.bind (Q := fun _ => Looked d₀) ?_ fun _ => Meets.pure fun _ hd => hd
    exact Meets.look (fun _ _ _ hd _ => hd) fun _ _ hd => hd

/-- What staging a staged release leaves. -/
def RestageStop (p : Session) (d₀ : Disk) : Stop DeploymentError → Disk → Prop
  | .threw _, d => d = d₀ ∨ Opened p d₀ ∧ p.removalFails .removeLock
  | .died, d => d.unlocked = d₀.unlocked

/-- **Staging a staged release** changes no file: only the lock is created and removed. -/
theorem restage_meets (hs : readStageSource doubles sha source = .ok s) (hready : d₀.EntryReady)
    (hstaged : (d₀.releases (s.release doubles sha)).isSome = true) :
    Meets (· = d₀) (stageManagedDeployment doubles sha p legacyRoot source)
      (fun _ d => d = d₀) (RestageStop p d₀) := by
  have hsame : ∀ (stop : Stop DeploymentError) d, d = d₀ → RestageStop p d₀ stop d := by
    intro stop d hd
    cases stop with
    | threw e => exact .inl hd
    | died => exact congrArg Disk.unlocked hd
  have hunlocked : ∀ {d : Disk}, Opened p d₀ → d.unlocked.unlocked = d₀.unlocked → d.lock = none →
      d = d₀ := by
    intro d hopened hd hlock
    have hd : d.unlocked = d₀.unlocked := hd
    rwa [unlocked_of_none hlock, unlocked_of_none hopened.free] at hd
  unfold stageManagedDeployment
  refine (ensure_meets hsame).bind fun _ => ?_
  refine Meets.bind (Q := fun s' d => d = d₀ ∧ s' = s) ?_ fun s' => Meets.assume fun hs' => ?_
  · refine Meets.look (fun d s' _ hd hread => ⟨hd.1, ?_⟩) fun stop d hd => hsame stop d hd.1
    exact Except.ok.inj (hread.symm.trans hs)
  rw [hs']
  have hbody : Meets (Looked d₀) (stageRelease doubles sha p legacyRoot source s)
      (fun _ => Looked d₀) (fun _ => Looked d₀) := stageRelease_looks hs hready hstaged
  refine (withInstallerLock_meets (Q := fun _ d => d.unlocked = d₀.unlocked)
    (E := fun _ d => d.unlocked = d₀.unlocked) (fun _ => rfl) fun _ _ => hbody).weaken
    (fun _ h => h) (fun _ d h => ?_) fun stop d h => ?_
  · exact hunlocked h.1 h.2.1 h.2.2
  · cases stop with
    | threw e =>
        rcases h with h | ⟨hopened, ⟨_, hd⟩ | ⟨hfails, _, _⟩, hlock⟩
        · exact .inl h
        · rcases hlock with hlock | hfails
          · exact .inl (hunlocked hopened hd hlock)
          · exact .inr ⟨hopened, hfails⟩
        · exact .inr ⟨hopened, hfails⟩
    | died =>
        rcases h with h | ⟨_, hd⟩ | ⟨_, hd⟩
        · exact congrArg Disk.unlocked h
        · exact hd
        · exact hd

end Caveat.Managed.Deployment
