import Caveat.Sync.Schedule

/-!
# What the ownership check accepts

The check of a run looks at what the record says of its owner and at every file of the plan. A run that
stops before it changes a file leaves both as they are, and so does the record of a failure.
-/

namespace Caveat.Sync.Schedule

open Js Lib

variable {Digest : Type} {digest : Bytes → Digest}
  {taskMatches : NativeSyncSchedule → Text → Bool} {p : Session} {d d' : Disk Digest}
  {r r' : Run Digest} {plan : NativeSyncSchedule} {α : Type}

/-! ## Ownership -/

def hashIn (record : Option (SyncScheduleState Digest)) (path : Path) : Option Digest :=
  record.bind (·.hash path)

/-- What the check reads of a record. -/
def ownership (s : SyncScheduleState Digest) : Text × ScheduleKind × List (Path × Digest) :=
  (s.id, s.kind, s.fileHashes)

/-- Nothing that the check looks at differs. -/
structure SameOwnership (d d' : Disk Digest) : Prop where
  files : d'.files = d.files
  record : d'.record.map ownership = d.record.map ownership

theorem SameOwnership.hashIn (h : SameOwnership d d') (path : Path) :
    hashIn d'.record path = hashIn d.record path := by
  have hrecord := h.record
  cases hs : d.record with
  | none =>
      rw [hs, Option.map_none, Option.map_eq_none_iff] at hrecord
      rw [hrecord]
  | some s =>
      rw [hs] at hrecord
      obtain ⟨s', hs', howned⟩ := Option.map_eq_some_iff.mp hrecord
      rw [hs']
      simp only [ownership, Prod.mk.injEq] at howned
      simp [Schedule.hashIn, SyncScheduleState.hash, howned.2.2]

theorem SameOwnership.symm (h : SameOwnership d d') : SameOwnership d' d :=
  ⟨h.files.symm, h.record.symm⟩

/-! ## The check -/

variable [DecidableEq Digest]

/-- A file is as recorded: with the digest, or absent. -/
def recordedAs (digest : Bytes → Digest) (expected : Option Digest) (node : Option Node) : Bool :=
  match expected, node with
  | none, none => true
  | some expected, some (.file bytes) => digest bytes = expected
  | _, _ => false

/-- The record is of the plan's owner, and about files of the plan. -/
def OwnedBy (plan : NativeSyncSchedule) (s : SyncScheduleState Digest) : Prop :=
  s.id = plan.id ∧ s.kind = plan.kind ∧
    ∀ entry ∈ s.fileHashes, entry.1 ∈ plan.files.map ScheduleFile.path

variable (digest) in
/-- What the check accepts. -/
structure Accepted (plan : NativeSyncSchedule) (d : Disk Digest) : Prop where
  owner : ∀ s, d.record = some s → OwnedBy plan s
  files : ∀ f ∈ plan.files, recordedAs digest (hashIn d.record f.path) (d.files f.path) = true

theorem verifyFiles_ok {old : SyncScheduleState Digest} (files : List ScheduleFile) :
    verifyFiles digest old d files = .ok () ↔
      ∀ f ∈ files, recordedAs digest (old.hash f.path) (d.files f.path) = true := by
  induction files with
  | nil => simp [verifyFiles]
  | cons f files ih =>
      rw [List.forall_mem_cons, ← ih, verifyFiles]
      cases hhash : old.hash f.path with
      | none =>
          cases hfile : d.files f.path with
          | none => simp [recordedAs]
          | some node => simp [recordedAs]
      | some expected =>
          rcases hfile : d.files f.path with _ | (bytes | _)
          · simp [recordedAs]
          · by_cases hbytes : digest bytes = expected
            · simp [recordedAs, hbytes]
            · simp [recordedAs, hbytes]
          · simp [recordedAs]

theorem verifyOwned_ok {old : SyncScheduleState Digest} :
    verifyOwned digest plan old d = .ok () ↔ OwnedBy plan old ∧
      ∀ f ∈ plan.files, recordedAs digest (old.hash f.path) (d.files f.path) = true := by
  rw [← verifyFiles_ok, verifyOwned, OwnedBy]
  by_cases howner : old.id = plan.id ∧ old.kind = plan.kind
  · by_cases hpaths : ∀ entry ∈ old.fileHashes, entry.1 ∈ plan.files.map ScheduleFile.path
    · have hany : old.fileHashes.any
          (fun entry => !(plan.files.map ScheduleFile.path).contains entry.1) = false := by
        simpa [List.any_eq_false] using hpaths
      rw [if_neg (by simp [howner.1, howner.2]), hany]
      simp [howner.1, howner.2]
      exact fun _ => by simpa using hpaths
    · have hany : old.fileHashes.any
          (fun entry => !(plan.files.map ScheduleFile.path).contains entry.1) = true := by
        simpa [List.any_eq_true] using hpaths
      rw [if_neg (by simp [howner.1, howner.2]), if_pos hany]
      refine ⟨fun h => absurd h (by simp), fun h => absurd h.1.2.2 hpaths⟩
  · rw [if_pos (by rcases not_and_or.mp howner with h | h <;> simp [h])]
    exact ⟨fun h => absurd h (by simp), fun h => absurd ⟨h.1.1, h.1.2.1⟩ howner⟩

theorem checkOwned_ok : checkOwned digest plan d.record d = .ok () ↔ Accepted digest plan d := by
  cases hrecord : d.record with
  | none =>
      rw [checkOwned]
      constructor
      · intro h
        split at h
        · exact absurd h (by simp)
        · rename_i hany
          refine ⟨fun s hs => absurd (hrecord.symm.trans hs) (by simp), fun f hf => ?_⟩
          have hfile : d.files f.path = none := by
            by_contra hne
            exact hany (List.any_eq_true.mpr ⟨f, hf, Option.isSome_iff_ne_none.mpr hne⟩)
          rw [hrecord, hfile]
          rfl
      · intro h
        rw [if_neg]
        rw [List.any_eq_true]
        rintro ⟨f, hf, hsome⟩
        have hrec := h.files f hf
        rw [hrecord] at hrec
        cases hfile : d.files f.path with
        | none => simp [hfile] at hsome
        | some node =>
            rw [hfile] at hrec
            exact absurd hrec (by simp [hashIn, recordedAs])
  | some s =>
      rw [checkOwned, verifyOwned_ok]
      constructor
      · rintro ⟨howner, hfiles⟩
        refine ⟨fun s' hs' => ?_, fun f hf => ?_⟩
        · rwa [← Option.some.inj (hrecord.symm.trans hs')]
        · rw [hrecord]
          exact hfiles f hf
      · intro h
        refine ⟨h.owner s hrecord, fun f hf => ?_⟩
        have hrec := h.files f hf
        rwa [hrecord] at hrec

theorem SameOwnership.accepted (h : SameOwnership d d') (hd : Accepted digest plan d) :
    Accepted digest plan d' := by
  refine ⟨fun s' hs' => ?_, fun f hf => ?_⟩
  · have hrecord := h.record
    rw [hs'] at hrecord
    obtain ⟨s, hs, howned⟩ := Option.map_eq_some_iff.mp hrecord.symm
    simp only [ownership, Prod.mk.injEq] at howned
    have howner := hd.owner s hs
    rwa [OwnedBy, howned.1, howned.2.1, howned.2.2] at howner
  · rw [h.hashIn, h.files]
    exact hd.files f hf

/-! ## Steps that change no file -/

/-- The errors about the record and the files that the program has written. -/
def fileErrors : List ScheduleError := [.ownerMismatch, .fileUnmanaged, .definitionChanged]

/-- Not an error about a file. -/
def Plain : Stop ScheduleError → Prop
  | .threw e => e ∉ fileErrors
  | .died => True

/-- The program keeps a fact, and throws no error about a file. -/
def Quiet (I : Run Digest → Prop) (x : Managing Digest α) : Prop :=
  Meets I x (fun _ => I) (fun stop r => I r ∧ Plain stop)

variable {I : Run Digest → Prop} {β : Type}

omit [DecidableEq Digest]

theorem Quiet.pure (a : α) : Quiet I (Pure.pure a : Managing Digest α) :=
  Meets.pure fun _ hr => hr

theorem Quiet.bind {x : Managing Digest α} {f : α → Managing Digest β} (hx : Quiet I x)
    (hf : ∀ a, Quiet I (f a)) : Quiet I (x >>= f) :=
  Meets.bind hx hf

theorem Quiet.get_bind {f : Run Digest → Managing Digest α} (hf : ∀ r, Quiet I (f r)) :
    Quiet I (get >>= f) :=
  fun r hr => hf r r hr

theorem Quiet.ite {c : Prop} [Decidable c] {x y : Managing Digest α} (hx : Quiet I x)
    (hy : Quiet I y) : Quiet I (if c then x else y) :=
  Meets.ite (fun _ => hx) fun _ => hy

theorem Quiet.doIf {c : Prop} [Decidable c] {x : Managing Digest Unit} (hx : Quiet I x) :
    Quiet I (doIf c x) :=
  Meets.doIf (fun _ => hx) fun _ hr _ => hr

theorem Quiet.throwIf {e : ScheduleError} {c : Prop} [Decidable c] (he : Plain (.threw e)) :
    Quiet I (throwIf (.threw e) c) :=
  Meets.throwIf fun _ hr _ => ⟨hr, he⟩

theorem Quiet.forEach {γ : Type} {body : γ → Managing Digest Unit} (hbody : ∀ a, Quiet I (body a))
    (as : List γ) : Quiet I (forEach body as) := by
  induction as with
  | nil => exact Quiet.pure ()
  | cons a as ih => exact (hbody a).bind fun _ => ih

theorem Quiet.modify {f : Run Digest → Run Digest} (hf : ∀ r, I r → I (f r)) :
    Quiet I (modify f) := fun r hr => hf r hr

theorem plain_operationFailed : Plain (.threw .operationFailed) := by
  simp [Plain, fileErrors]

/-- A look of which only the environment can make a failure. -/
theorem Quiet.look {c : Call} {read : Disk Digest → α} : Quiet I (p.look c fun d => .ok (read d)) := by
  intro r hr
  unfold Session.look Lib.look
  cases p.fate c with
  | done => exact hr
  | fails fault => exact ⟨hr, plain_operationFailed⟩
  | dies fault => exact ⟨hr, trivial⟩

theorem Quiet.perform {c : Call} {effect : Disk Digest → Option (Disk Digest)}
    (heffect : ∀ r d, I r → effect r.disk = some d → I { r with disk := d }) :
    Quiet I (p.perform c effect) := by
  have hkept : ∀ r r' : Run Digest, I r →
      (effect r.disk).map (fun d => { r with disk := d }) = some r' → I r' := by
    intro r r' hr hrun
    obtain ⟨d, hd, rfl⟩ := Option.map_eq_some_iff.mp hrun
    exact heffect r d hr hd
  refine Meets.atomic_cases (fun r r' _ hr heff => hkept r r' hr heff)
    (fun r _ hr _ => ⟨hr, plain_operationFailed⟩) (fun _ r _ hr => ⟨hr, plain_operationFailed⟩)
    fun _ r _ hr => ⟨?_, trivial⟩
  split
  · cases heff : (effect r.disk).map (fun d => { r with disk := d }) with
    | none => exact hr
    | some r' => exact hkept r r' hr heff
  · exact hr

theorem Quiet.write {c : Call} {leave : Nat → Disk Digest → Disk Digest}
    {effect : Disk Digest → Option (Disk Digest)}
    (hleave : ∀ r n, I r → I { r with disk := leave n r.disk })
    (heffect : ∀ r d, I r → effect r.disk = some d → I { r with disk := d }) :
    Quiet I (p.write c leave effect) := by
  have hkept : ∀ r r' : Run Digest, I r →
      (effect r.disk).map (fun d => { r with disk := d }) = some r' → I r' := by
    intro r r' hr hrun
    obtain ⟨d, hd, rfl⟩ := Option.map_eq_some_iff.mp hrun
    exact heffect r d hr hd
  have hleft : ∀ (fault : Fault Nat) (r : Run Digest), I r →
      I (fault.left (fun n r => { r with disk := leave n r.disk })
        (fun r => (effect r.disk).map (fun d => { r with disk := d })) r) := by
    intro fault r hr
    cases fault with
    | before => exact hr
    | after =>
        show I (((effect r.disk).map (fun d => { r with disk := d })).getD r)
        cases heff : (effect r.disk).map (fun d => { r with disk := d }) with
        | none => exact hr
        | some r' => exact hkept r r' hr heff
    | midway n => exact hleave r n hr
  exact Meets.call_cases (fun r r' _ hr heff => hkept r r' hr heff)
    (fun r _ hr _ => ⟨hr, plain_operationFailed⟩)
    (fun fault r _ hr => ⟨hleft fault r hr, plain_operationFailed⟩)
    fun fault r _ hr => ⟨hleft fault r hr, trivial⟩

/-! ### Commands and looks -/

theorem quiet_run {place : Place} {command : ScheduleCommand} : Quiet I (p.run place command) :=
  Quiet.look

theorem quiet_readback {place : Place} {query : ScheduleCommand} :
    Quiet I (nativeReadback taskMatches p plan place query) :=
  quiet_run.bind fun _ => Quiet.pure _

theorem quiet_commands {place : Place} (list : List ScheduleCommand) :
    Quiet I (commands p place list) :=
  Quiet.forEach (fun _ => quiet_run.bind fun _ => Quiet.throwIf (by simp [Plain, fileErrors])) list

theorem quiet_canRecover (old : Option (SyncScheduleState Digest)) :
    Quiet I (canRecover taskMatches p old) := by
  cases old with
  | none => exact Quiet.pure false
  | some old =>
      unfold canRecover
      refine Quiet.ite (Quiet.look.bind fun same => ?_) (Quiet.pure false)
      exact Quiet.ite (Quiet.ite (Quiet.pure true) quiet_readback) (Quiet.pure false)

theorem quiet_verifyJob (old : Option (SyncScheduleState Digest)) (present : Bool) :
    Quiet I (verifyJob taskMatches p old present) := by
  unfold verifyJob
  refine (quiet_canRecover old).bind fun recoverable => ?_
  refine (Quiet.throwIf (by simp [Plain, fileErrors])).bind fun _ => ?_
  cases old with
  | none => exact Quiet.pure ()
  | some old =>
      refine Quiet.doIf (quiet_readback.bind fun same => ?_)
      exact Quiet.throwIf (by simp [Plain, fileErrors])

theorem quiet_isUnchanged (old : Option (SyncScheduleState Digest)) :
    Quiet I (isUnchanged taskMatches p old) := by
  unfold isUnchanged
  refine Quiet.ite (Quiet.look.bind fun same => ?_) (Quiet.pure false)
  exact Quiet.ite quiet_readback (Quiet.pure false)

theorem quiet_beforeWrites (present : Bool) : Quiet I (beforeWrites taskMatches p present) := by
  refine Quiet.get_bind fun r => (quiet_isUnchanged r.old).bind fun unchanged => ?_
  refine Quiet.ite (Quiet.pure false) ?_
  exact (Quiet.doIf (quiet_commands _)).bind fun _ => Quiet.pure true

theorem quiet_statusOf : Quiet I (statusOf taskMatches p) := by
  refine Quiet.get_bind fun r => ?_
  have hregistered : Quiet I (isRegistered taskMatches p r.old) :=
    Quiet.ite quiet_readback (Quiet.pure false)
  exact hregistered.bind fun registered => Quiet.look.bind fun same => Quiet.pure _

/-! ### The lock -/

/-- The fact is not about the lock. -/
def Lockless (I : Run Digest → Prop) : Prop :=
  ∀ r lock held, I r → I { r with disk := { r.disk with lock := lock }, lock := held }

theorem quiet_tryCreateLock (hI : Lockless I) {c : Call} : Quiet I (tryCreateLock p c) := by
  refine Quiet.get_bind fun r => ?_
  refine Quiet.ite Quiet.look ?_
  refine Quiet.bind (Quiet.write (fun r n hr => ?_) fun r d hr hd => ?_) fun _ => Quiet.pure true
  · exact hI r _ r.lock hr
  · obtain rfl := Option.some.inj hd
    exact hI r _ r.lock hr

theorem quiet_acquireFileLock (hI : Lockless I) : Quiet I (acquireFileLock p) := by
  refine (quiet_tryCreateLock hI).bind fun created => Quiet.ite (Quiet.pure true) ?_
  have hread : Quiet I (rescue (p.look .readLock (fun d => .ok d.lock)) (fun _ => pure none) :
      Managing Digest (Option Text)) :=
    Meets.rescue Quiet.look (fun _ => Meets.pure fun _ hr => hr.1) fun _ hr => hr
  refine hread.bind fun text => ?_
  cases text.bind Lock.parsePid with
  | none => exact Quiet.pure false
  | some pid =>
      refine Quiet.ite (Quiet.pure false) ?_
      refine (Quiet.perform fun r d hr hd => ?_).bind fun _ => quiet_tryCreateLock hI
      obtain rfl := Option.some.inj hd
      exact hI r _ r.lock hr

theorem quiet_releaseFileLock (hI : Lockless I) : Quiet I (releaseFileLock p) := by
  refine Quiet.get_bind fun r => Quiet.doIf (Quiet.perform fun r d hr hd => ?_)
  obtain rfl := Option.some.inj hd
  exact hI r _ r.lock hr

theorem quiet_takeLock (hI : Lockless I) : Quiet I (takeLock p) := by
  refine (quiet_acquireFileLock hI).bind fun acquired => ?_
  refine (Quiet.throwIf (by simp [Plain, fileErrors])).bind fun _ => ?_
  exact Quiet.modify fun r hr => hI r r.disk.lock true hr

end Caveat.Sync.Schedule
