import Caveat.Sync.ScheduleCuts

/-!
# Later runs

A later run of the same schedule is refused because of a file exactly if the check does not accept the disk.
Whether a run that is interrupted keeps the disk accepted depends on the call at which it stops.
-/

namespace Caveat.Sync.Schedule

open Js Lib

variable {Digest : Type} [DecidableEq Digest] {digest : Bytes → Digest}
  {taskMatches : NativeSyncSchedule → Text → Bool} {p : Session} {d d' : Disk Digest}
  {r r' : Run Digest} {plan plan' : NativeSyncSchedule} {α : Type}

/-! ## Up to the first change -/

theorem openState_meets : Meets (· = start d) (openState digest p)
    (fun _ r => Opened d r ∧ checkOwned digest p.plan d.record d = .ok ())
    (fun stop r => (SameOwnership d r.disk ∧ Settled r) ∧
      (Plain stop ∨ ∃ e, stop = .threw e ∧ checkOwned digest p.plan d.record d = .error e)) := by
  have hstart : SameOwnership d (start d : Run Digest).disk ∧ Settled (start d : Run Digest) :=
    ⟨⟨rfl, rfl⟩, fun record hrecord => absurd hrecord (by simp [start])⟩
  unfold openState
  refine Meets.bind (Q := fun old r => r = start d ∧ old = d.record) ?_ fun old => ?_
  · refine Meets.look_cases (fun r old hr hread => ?_) (fun r e hr hread => absurd hread (by simp))
      (fun r hr => ?_) fun r hr => ?_
    · obtain rfl := hr
      exact ⟨rfl, (Except.ok.inj hread).symm⟩
    · exact ⟨hr ▸ hstart, .inl plain_operationFailed⟩
    · exact ⟨hr ▸ hstart, .inl trivial⟩
  refine Meets.assume fun hold => ?_
  have hopened : Opened d ({ start d with old := old } : Run Digest) := ⟨rfl, rfl, hold, rfl⟩
  refine Meets.bind (Q := fun _ r => r = { start d with old := old })
    (fun r hr => by rw [hr]; rfl) fun _ => ?_
  refine Meets.look_cases (fun r _ hr hread => ?_) (fun r e hr hread => ?_) (fun r hr => ?_)
    fun r hr => ?_
  · obtain rfl := hr
    refine ⟨hopened, ?_⟩
    rw [← hold]
    exact hread
  · obtain rfl := hr
    refine ⟨⟨sameOwnership_of_opened hopened, settled_of_opened hopened⟩, .inr ⟨e, rfl, ?_⟩⟩
    rw [← hold]
    exact hread
  · obtain rfl := hr
    exact ⟨⟨sameOwnership_of_opened hopened, settled_of_opened hopened⟩, .inl plain_operationFailed⟩
  · obtain rfl := hr
    exact ⟨⟨sameOwnership_of_opened hopened, settled_of_opened hopened⟩, .inl trivial⟩

/-- Under the lock the check gives what it gave before. -/
theorem checkOwnedAgain_ok (h : checkOwned digest p.plan d.record d = .ok ()) (hr : Opened d r) :
    checkOwnedAgain digest p.plan d.record r.disk = .ok () := by
  have haccepted : Accepted digest p.plan r.disk :=
    (sameOwnership_of_opened hr).accepted (checkOwned_ok.mp h)
  have hcheck := checkOwned_ok.mpr haccepted
  rw [hr.record] at hcheck
  cases hrecord : d.record with
  | none => rfl
  | some s =>
      rw [hrecord] at hcheck
      exact hcheck

theorem prepare_meets (h : checkOwned digest p.plan d.record d = .ok ()) :
    Meets (Opened d) (prepare digest taskMatches p) (fun _ r => Opened d r ∧ r.lock = true)
      (fun stop r => Opened d r ∧ Plain stop) := by
  unfold prepare takeLock
  refine Meets.bind (Q := fun _ r => Opened d r ∧ r.lock = true) ?_ fun _ => ?_
  · refine Meets.bind (quiet_acquireFileLock opened_lockless) fun acquired => ?_
    refine Meets.bind (Quiet.throwIf (by simp [Plain, fileErrors])) fun _ => ?_
    exact fun r hr => ⟨opened_lockless r r.disk.lock true hr, rfl⟩
  refine Meets.bind (Q := fun old r => (Opened d r ∧ r.lock = true) ∧ old = d.record) ?_ fun old => ?_
  · refine Meets.look_cases (fun r old hr hread => ?_) (fun r e hr hread => absurd hread (by simp))
      (fun r hr => ⟨hr.1, plain_operationFailed⟩) fun r hr => ⟨hr.1, trivial⟩
    exact ⟨hr, (Except.ok.inj hread).symm.trans hr.1.record⟩
  refine Meets.assume fun hold => ?_
  refine Meets.bind (Q := fun _ r => Opened d r ∧ r.lock = true)
    (fun r hr => ⟨⟨hr.1.files, hr.1.record, hold, hr.1.owned⟩, hr.2⟩) fun _ => ?_
  refine Meets.bind (Q := fun _ r => Opened d r ∧ r.lock = true) ?_ fun _ => ?_
  · refine Meets.look_cases (fun r _ hr _ => hr) (fun r e hr hread => ?_)
      (fun r hr => ⟨hr.1, plain_operationFailed⟩) fun r hr => ⟨hr.1, trivial⟩
    rw [hold, checkOwnedAgain_ok h hr.1] at hread
    exact absurd hread (by simp)
  have hquiet : ∀ {α : Type} {x : Managing Digest α},
      Quiet (fun r => Opened d r ∧ r.lock = true) x → Meets (fun r => Opened d r ∧ r.lock = true) x
        (fun _ r => Opened d r ∧ r.lock = true) (fun stop r => Opened d r ∧ Plain stop) :=
    fun hx => hx.weaken (fun _ h => h) (fun _ _ h => h) fun _ _ h => ⟨h.1.1, h.2⟩
  refine (hquiet quiet_run).bind fun inspection => ?_
  cases nativeSchedulePresent p.plan.kind inspection with
  | none => exact Meets.throw fun r hr => ⟨hr.1, by simp [Plain, fileErrors]⟩
  | some present =>
      refine (hquiet (quiet_verifyJob old present)).bind fun _ => ?_
      exact Meets.pure fun r hr => hr

/-! ## The condition -/

variable (digest taskMatches p) in
/-- An installation, up to its first write. -/
def toWrites : Managing Digest Bool := do
  openState digest p
  let present ← prepare digest taskMatches p
  beforeWrites taskMatches p present

variable (digest taskMatches p) in
/-- A removal, up to the first file. -/
def toRemovals : Managing Digest Unit := do
  openState digest p
  let present ← prepare digest taskMatches p
  doIf (present = true) (commands p .remove p.plan.remove)

variable (digest taskMatches p d) in
/-- The run does not stop between a change of a file and the save that records it. -/
structure Kept : Prop where
  install : p.dryRun = false → p.action = .install →
    (∃ r, toWrites digest taskMatches p (start d) = .ok true r) → WritesKept digest p d
  uninstall : p.dryRun = false → p.action = .uninstall →
    (∃ r, toRemovals digest taskMatches p (start d) = .ok () r) →
      ∀ s, d.record = some s → RemovalsKept p s p.plan.files

theorem toWrites_meets : Meets (· = start d) (toWrites digest taskMatches p)
    (fun _ r => (Opened d r ∧ r.lock = true) ∧ checkOwned digest p.plan d.record d = .ok ())
    (fun _ r => SameOwnership d r.disk ∧ Settled r) := by
  have hopened : ∀ r, Opened d r → SameOwnership d r.disk ∧ Settled r :=
    fun r hr => ⟨sameOwnership_of_opened hr, settled_of_opened hr⟩
  unfold toWrites
  refine (openState_meets.weaken (fun _ h => h) (fun _ _ h => h) fun _ _ h => h.1).bind fun _ => ?_
  refine Meets.assume fun hcheck => ?_
  refine ((prepare_meets hcheck).weaken (fun _ h => h) (fun _ _ h => h)
    fun _ r h => hopened r h.1).bind fun present => ?_
  refine (quiet_beforeWrites present).weaken (fun _ h => h) (fun _ _ h => ⟨h, hcheck⟩) ?_
  exact fun _ r h => hopened r h.1.1

theorem toRemovals_meets : Meets (· = start d) (toRemovals digest taskMatches p)
    (fun _ r => (Opened d r ∧ r.lock = true) ∧ checkOwned digest p.plan d.record d = .ok ())
    (fun _ r => SameOwnership d r.disk ∧ Settled r) := by
  have hopened : ∀ r, Opened d r → SameOwnership d r.disk ∧ Settled r :=
    fun r hr => ⟨sameOwnership_of_opened hr, settled_of_opened hr⟩
  unfold toRemovals
  refine (openState_meets.weaken (fun _ h => h) (fun _ _ h => h) fun _ _ h => h.1).bind fun _ => ?_
  refine Meets.assume fun hcheck => ?_
  refine ((prepare_meets hcheck).weaken (fun _ h => h) (fun _ _ h => h)
    fun _ r h => hopened r h.1).bind fun present => ?_
  refine Quiet.doIf (quiet_commands _) |>.weaken (fun _ h => h) (fun _ _ h => ⟨h, hcheck⟩) ?_
  exact fun _ r h => hopened r h.1.1

/-- **A removal**, from where it begins to remove files. -/
theorem removeOwned_meets (haction : p.action ≠ .status) (hd : Accepted digest p.plan d)
    {s : SyncScheduleState Digest} (hs : d.record = some s) :
    Meets (fun r => Opened d r ∧ r.lock = true) (removeOwned p s)
      (fun _ r => Accepted digest p.plan r.disk ↔ RemovalsKept p s p.plan.files)
      (Thrown p fun d' => Accepted digest p.plan d' ↔ RemovalsKept p s p.plan.files) := by
  have hstable := @stable_accepted Digest p.plan _ digest (RemovalsKept p s p.plan.files)
  unfold removeOwned
  refine Meets.bind (Q := fun _ => Removing digest p s p.plan.files) (fun r hr => ?_) fun _ => ?_
  · have hrecord : r.disk.record.map ownership = some (ownership s) := by
      rw [hr.1.record, hs]
      rfl
    exact ⟨⟨_, rfl, hrecord, fun f hf => rfl⟩, (sameOwnership_of_opened hr.1).accepted hd, hr.2⟩
  refine (removeFiles_meets haction s p.plan.files (fun f hf => hf) p.plan.paths_nodup).bind
    fun _ => ?_
  refine Meets.assume fun hkept => ?_
  intro r hr
  obtain ⟨owned, howned, hrecord, _⟩ := hr.owned
  have hsaved : Saved (fun d' => Accepted digest p.plan d' ↔ RemovalsKept p s p.plan.files) owned r :=
    ⟨howned, hrecord, iff_of_true hr.accepted hkept⟩
  refine Meets.bind (P := Saved _ owned) (quiet_settled (quiet_commands _)) (fun _ => ?_) r hsaved
  refine Meets.get_bind fun r' hr' => ?_
  rw [hr'.inHand]
  have hsave : Meets (Saved (fun d' => Accepted digest p.plan d' ↔ RemovalsKept p s p.plan.files) owned)
      (p.save .saveUninstalled { owned with lastOperation := .uninstalled }) _ _ :=
    save_saved hstable rfl
  exact hsave.weaken (fun _ h => h ▸ hr') (fun _ _ h => h.holds) fun _ _ h => h

/-! ## A whole run -/

theorem bind_assoc_install (haction : p.action = .install) :
    manageBody digest taskMatches p = toWrites digest taskMatches p >>= fun changes =>
      if changes then register digest taskMatches p else pure unchangedResult := by
  simp only [manageBody, haction, toWrites, install, bind_assoc]

theorem bind_assoc_uninstall (haction : p.action = .uninstall) :
    manageBody digest taskMatches p =
      toRemovals digest taskMatches p >>= fun _ => removeRecorded p := by
  simp only [manageBody, haction, toRemovals, uninstall, bind_assoc]

variable (digest taskMatches p d) in
/-- What is to be accepted after the run. -/
def Verdict (d' : Disk Digest) : Prop :=
  Accepted digest p.plan d' ↔ Accepted digest p.plan d ∧ Kept digest taskMatches p d

theorem stable_verdict : Stable (Verdict digest taskMatches p d) :=
  stable_accepted (Accepted digest p.plan d ∧ Kept digest taskMatches p d)

/-- A run that has changed nothing. -/
theorem verdict_of_same (h : SameOwnership d d') (hkept : Kept digest taskMatches p d) :
    Verdict digest taskMatches p d d' :=
  ⟨fun hd' => ⟨h.symm.accepted hd', hkept⟩, fun hd => h.accepted hd.1⟩

theorem install_meets (hdry : p.dryRun = false) (haction : p.action = .install) :
    Meets (· = start d) (manageBody digest taskMatches p)
      (fun _ r => Verdict digest taskMatches p d r.disk) (Thrown p (Verdict digest taskMatches p d)) := by
  have hkept : Kept digest taskMatches p d ↔
      ((∃ r, toWrites digest taskMatches p (start d) = .ok true r) → WritesKept digest p d) := by
    refine ⟨fun h => h.install hdry haction, fun h => ⟨fun _ _ => h, fun _ hun => ?_⟩⟩
    rw [haction] at hun
    exact absurd hun (by decide)
  rw [bind_assoc_install haction]
  refine toWrites_meets.bind_run (fun changes r hrun hr => ?_) fun stop r hrun hr => ?_
  · obtain ⟨⟨hopened, hheld⟩, hcheck⟩ := hr
    have hd := checkOwned_ok.mp hcheck
    cases changes with
    | true =>
        have hsame : ∀ d', (Accepted digest p.plan d' ↔ WritesKept digest p d) ↔
            Verdict digest taskMatches p d d' := by
          intro d'
          rw [Verdict, hkept]
          refine iff_congr Iff.rfl ⟨fun h => ⟨hd, fun _ => h⟩, fun h => h.2 ⟨r, hrun⟩⟩
        have hverdict : (fun d' => Accepted digest p.plan d' ↔ WritesKept digest p d) =
            Verdict digest taskMatches p d := funext fun d' => propext (hsame d')
        have hregister := @register_meets Digest p d _ digest taskMatches
          (by rw [haction]; decide) hd
        rw [hverdict] at hregister
        exact hregister.weaken (fun r' hr' => hr' ▸ ⟨hopened, hheld⟩)
          (fun _ r' h => (hsame r'.disk).mp h) fun _ _ h => h
    | false =>
        refine Meets.pure fun r' hr' => ?_
        obtain rfl := hr'
        refine verdict_of_same (sameOwnership_of_opened hopened) (hkept.mpr ?_)
        rintro ⟨r'', hrun'⟩
        rw [hrun] at hrun'
        exact absurd hrun' (by simp)
  · refine Thrown.of_settled hr.2 (verdict_of_same hr.1 (hkept.mpr ?_)) stop
    rintro ⟨r', hrun'⟩
    exact absurd hrun' (hrun true r')

theorem uninstall_meets (hdry : p.dryRun = false) (haction : p.action = .uninstall) :
    Meets (· = start d) (manageBody digest taskMatches p)
      (fun _ r => Verdict digest taskMatches p d r.disk) (Thrown p (Verdict digest taskMatches p d)) := by
  have hkept : Kept digest taskMatches p d ↔
      ((∃ r, toRemovals digest taskMatches p (start d) = .ok () r) →
        ∀ s, d.record = some s → RemovalsKept p s p.plan.files) := by
    refine ⟨fun h => h.uninstall hdry haction, fun h => ⟨fun _ hin => ?_, fun _ _ => h⟩⟩
    rw [haction] at hin
    exact absurd hin (by decide)
  rw [bind_assoc_uninstall haction]
  refine toRemovals_meets.bind_run (fun _ r hrun hr => ?_) fun stop r hrun hr => ?_
  · obtain ⟨⟨hopened, hheld⟩, hcheck⟩ := hr
    have hd := checkOwned_ok.mp hcheck
    unfold removeRecorded
    refine Meets.get_bind fun r' hr' => ?_
    obtain rfl := hr'
    rw [hopened.old]
    cases hs : d.record with
    | none =>
        refine Meets.pure fun r' hr' => ?_
        obtain rfl := hr'
        refine verdict_of_same (sameOwnership_of_opened hopened) (hkept.mpr fun _ s hs' => ?_)
        rw [hs] at hs'
        exact absurd hs' (by simp)
    | some s =>
        have hsame : ∀ d', (Accepted digest p.plan d' ↔ RemovalsKept p s p.plan.files) ↔
            Verdict digest taskMatches p d d' := by
          intro d'
          rw [Verdict, hkept]
          refine iff_congr Iff.rfl ⟨fun h => ⟨hd, fun _ s' hs' => ?_⟩, fun h => h.2 ⟨_, hrun⟩ s hs⟩
          rwa [← Option.some.inj (hs.symm.trans hs')]
        have hverdict : (fun d' => Accepted digest p.plan d' ↔ RemovalsKept p s p.plan.files) =
            Verdict digest taskMatches p d := funext fun d' => propext (hsame d')
        have hremove := @removeOwned_meets Digest _ digest p d (by rw [haction]; decide) hd s hs
        rw [hverdict] at hremove
        refine Meets.bind (hremove.weaken (fun r' hr' => hr' ▸ ⟨hopened, hheld⟩) (fun _ _ h => h)
          fun _ _ h => h) fun _ => Meets.pure fun r' h => (hsame r'.disk).mp h
  · refine Thrown.of_settled hr.2 (verdict_of_same hr.1 (hkept.mpr ?_)) stop
    rintro ⟨r', hrun'⟩
    exact absurd hrun' (hrun () r')

theorem status_meets (haction : p.action = .status) :
    Meets (· = start d) (manageBody digest taskMatches p)
      (fun _ r => Verdict digest taskMatches p d r.disk) (Thrown p (Verdict digest taskMatches p d)) := by
  have hkept : Kept digest taskMatches p d := by
    refine ⟨fun _ h => ?_, fun _ h => ?_⟩
    · rw [haction] at h
      exact absurd h (by decide)
    · rw [haction] at h
      exact absurd h (by decide)
  unfold manageBody
  rw [haction]
  refine (openState_meets.weaken (fun _ h => h) (fun _ _ h => h.1) fun stop r h => ?_).bind fun _ => ?_
  · exact Thrown.of_settled h.1.2 (verdict_of_same h.1.1 hkept) stop
  · refine quiet_statusOf.weaken (fun _ h => h) (fun _ r h => ?_) fun stop r h => ?_
    · exact verdict_of_same (sameOwnership_of_opened h) hkept
    · exact Thrown.of_settled (settled_of_opened h.1)
        (verdict_of_same (sameOwnership_of_opened h.1) hkept) stop

/-- **One run.** The disk that it leaves is accepted if the one before is, and the run keeps it. -/
theorem accepted_diskAfter : Accepted digest p.plan (diskAfter digest taskMatches p d) ↔
    Accepted digest p.plan d ∧ Kept digest taskMatches p d := by
  have hrun : Meets (· = start d) (manageSyncSchedule digest taskMatches p)
      (fun _ r => Verdict digest taskMatches p d r.disk)
      (fun _ r => Verdict digest taskMatches p d r.disk) := by
    unfold manageSyncSchedule
    refine Meets.ite (fun hdry => Meets.pure fun r hr => ?_) fun hdry => ?_
    · obtain rfl := hr
      refine verdict_of_same ⟨rfl, rfl⟩ ⟨fun h => ?_, fun h => ?_⟩
      · rw [hdry] at h
        exact absurd h (by decide)
      · rw [hdry] at h
        exact absurd h (by decide)
    have hbody : Meets (· = start d) (manageBody digest taskMatches p)
        (fun _ r => Verdict digest taskMatches p d r.disk)
        (Thrown p (Verdict digest taskMatches p d)) := by
      cases haction : p.action with
      | install => exact install_meets (Bool.eq_false_iff.mpr hdry) haction
      | uninstall => exact uninstall_meets (Bool.eq_false_iff.mpr hdry) haction
      | status => exact status_meets haction
    have hrelease : Meets (fun r : Run Digest => Verdict digest taskMatches p d r.disk)
        (releaseFileLock p) (fun _ r => Verdict digest taskMatches p d r.disk)
        (fun _ r => Verdict digest taskMatches p d r.disk) :=
      (quiet_releaseFileLock (lockless_of_stable stable_verdict)).weaken (fun _ h => h)
        (fun _ _ h => h) fun _ _ h => h.1
    refine Meets.finallyDo (Meets.rescue hbody (onError_meets stable_verdict) fun _ h => h)
      (fun _ => hrelease) (fun _ => hrelease) fun _ h => h
  rcases hrun.run rfl with ⟨result, r, heq, hverdict⟩ | ⟨stop, r, heq, hverdict⟩
  · rw [diskAfter, heq]
    exact hverdict
  · rw [diskAfter, heq]
    exact hverdict

/-! ## Later runs -/

/-- The plans are for one schedule; what their files hold may differ. -/
structure SamePlace (plan plan' : NativeSyncSchedule) : Prop where
  id : plan'.id = plan.id
  kind : plan'.kind = plan.kind
  paths : plan'.files.map ScheduleFile.path = plan.files.map ScheduleFile.path

theorem SamePlace.refl (plan : NativeSyncSchedule) : SamePlace plan plan := ⟨rfl, rfl, rfl⟩

theorem SamePlace.symm (h : SamePlace plan plan') : SamePlace plan' plan :=
  ⟨h.id.symm, h.kind.symm, h.paths.symm⟩

theorem SamePlace.accepted (h : SamePlace plan plan') (hd : Accepted digest plan d) :
    Accepted digest plan' d := by
  refine ⟨fun s hs => ?_, fun f hf => ?_⟩
  · rw [OwnedBy, h.id, h.kind, h.paths]
    exact hd.owner s hs
  · have hpath : f.path ∈ plan.files.map ScheduleFile.path := h.paths ▸ List.mem_map_of_mem hf
    obtain ⟨g, hg, heq⟩ := List.mem_map.mp hpath
    rw [← heq]
    exact hd.files g hg

variable (digest taskMatches) in
/-- The run ends with an error about the record or the files. -/
def RefusedForFiles (later : Session) (d : Disk Digest) : Prop :=
  ∃ result r, manageSyncSchedule digest taskMatches later (start d) = .ok result r ∧
    result.status = .failed ∧ ∃ e ∈ fileErrors, result.reason = .failure e

variable (digest taskMatches) in
/-- No later run of the schedule is refused for what is in the files. -/
def Recoverable (plan : NativeSyncSchedule) (d : Disk Digest) : Prop :=
  ∀ later : Session, later.action ≠ .status → SamePlace plan later.plan →
    ¬ RefusedForFiles digest taskMatches later d

theorem verifyFiles_error {old : SyncScheduleState Digest} {files : List ScheduleFile}
    {e : ScheduleError} (h : verifyFiles digest old d files = .error e) : e ∈ fileErrors := by
  induction files with
  | nil => exact absurd h (by simp [verifyFiles])
  | cons f files ih =>
      rw [verifyFiles] at h
      split at h
      · exact ih h
      · rw [← Except.error.inj h]
        decide
      · split at h
        · rw [← Except.error.inj h]
          decide
        · exact ih h
      · rw [← Except.error.inj h]
        decide

theorem checkOwned_error {old : Option (SyncScheduleState Digest)} {e : ScheduleError}
    (h : checkOwned digest plan old d = .error e) : e ∈ fileErrors := by
  cases old with
  | none =>
      rw [checkOwned] at h
      split at h
      · rw [← Except.error.inj h]
        decide
      · exact absurd h (by simp)
  | some s =>
      rw [checkOwned, verifyOwned] at h
      split at h
      · rw [← Except.error.inj h]
        decide
      split at h
      · rw [← Except.error.inj h]
        decide
      · exact verifyFiles_error h

omit [DecidableEq Digest] in
theorem quiet_save {c : Call} {value : SyncScheduleState Digest} :
    Quiet (fun _ => True) (p.save c value) :=
  Quiet.perform fun _ _ _ _ => trivial

/-- The result is no failure, and what is thrown is about no file. -/
def Fine (P : Run Digest → Prop) (x : Managing Digest SyncScheduleResult) : Prop :=
  Meets P x (fun result _ => result.status ≠ .failed) (fun stop _ => Plain stop)

omit [DecidableEq Digest] in
theorem fine_of_quiet {I : Run Digest → Prop} {x : Managing Digest α}
    {f : α → Managing Digest SyncScheduleResult} (hx : Quiet I x) (hf : ∀ a, Fine I (f a)) :
    Fine I (x >>= f) :=
  (hx.weaken (fun _ h => h) (fun _ _ h => h) fun _ _ h => h.2).bind hf

omit [DecidableEq Digest] in
theorem fine_register : Fine (fun _ => True) (register digest taskMatches p) := by
  unfold register
  refine fine_of_quiet (Quiet.forEach (fun f => ?_) _) fun _ => ?_
  · refine Quiet.get_bind fun r => Quiet.bind (Quiet.perform fun _ _ _ _ => trivial) fun _ => ?_
    exact Quiet.write (fun _ _ _ => trivial) fun _ _ _ _ => trivial
  refine Meets.get_bind fun r _ => ?_
  refine Meets.pre (P := fun _ => True) ?_ fun _ _ => trivial
  refine fine_of_quiet (Quiet.modify fun _ _ => trivial) fun _ => ?_
  refine fine_of_quiet quiet_save fun _ => fine_of_quiet (quiet_commands _) fun _ => ?_
  refine fine_of_quiet Quiet.look fun same => ?_
  refine fine_of_quiet (Quiet.throwIf (by simp [Plain, fileErrors])) fun _ => ?_
  refine fine_of_quiet quiet_readback fun back => ?_
  refine fine_of_quiet (Quiet.throwIf (by simp [Plain, fileErrors])) fun _ => ?_
  exact fine_of_quiet quiet_save fun _ => Meets.pure fun _ _ => by decide

omit [DecidableEq Digest] in
theorem quiet_removeFile (f : ScheduleFile) :
    Quiet (fun _ : Run Digest => True) (removeFile p f) := by
  refine Quiet.get_bind fun r => ?_
  cases r.owned with
  | none => exact Quiet.pure ()
  | some owned =>
      refine Quiet.doIf (Quiet.bind (Quiet.perform fun _ _ _ _ => trivial) fun _ => ?_)
      exact (Quiet.modify fun _ _ => trivial).bind fun _ => quiet_save

omit [DecidableEq Digest] in
theorem fine_removeRecorded : Fine (fun _ : Run Digest => True) (removeRecorded p) := by
  refine Meets.get_bind fun r _ => Meets.pre (P := fun _ => True) ?_ fun _ _ => trivial
  cases r.old with
  | none => exact Meets.pure fun _ _ => by decide
  | some old =>
      refine fine_of_quiet ?_ fun _ => Meets.pure fun _ _ => by decide
      refine Quiet.bind (Quiet.modify fun _ _ => trivial) fun _ => ?_
      refine (Quiet.forEach quiet_removeFile _).bind fun _ => (quiet_commands _).bind fun _ => ?_
      refine Quiet.get_bind fun r => ?_
      cases r.owned with
      | none => exact Quiet.pure ()
      | some owned => exact quiet_save

/-- A run on a disk that is accepted is not refused for the files. -/
theorem fine_manageBody (hd : Accepted digest p.plan d) (haction : p.action ≠ .status) :
    Fine (· = start d) (manageBody digest taskMatches p) := by
  have hcheck := checkOwned_ok.mpr hd
  unfold manageBody
  refine Meets.bind (Q := fun _ => Opened d) (openState_meets.weaken (fun _ h => h)
    (fun _ _ h => h.1) fun stop r h => ?_) fun _ => ?_
  · rcases h.2 with hplain | ⟨e, _, herror⟩
    · exact hplain
    · rw [hcheck] at herror
      exact absurd herror (by simp)
  have hprepare : Meets (Opened d) (prepare digest taskMatches p) (fun _ _ => True)
      (fun stop _ => Plain stop) :=
    (prepare_meets hcheck).weaken (fun _ h => h) (fun _ _ _ => trivial) fun _ _ h => h.2
  cases hact : p.action with
  | status => exact absurd hact haction
  | uninstall =>
      refine hprepare.bind fun present => ?_
      exact fine_of_quiet (Quiet.doIf (quiet_commands _)) fun _ => fine_removeRecorded
  | install =>
      refine hprepare.bind fun present => fine_of_quiet (quiet_beforeWrites present) fun changes => ?_
      cases changes with
      | true => exact fine_register
      | false => exact Meets.pure fun _ _ => by decide

omit [DecidableEq Digest] in
theorem onError_reason (e : ScheduleError) : Meets (fun _ : Run Digest => e ∉ fileErrors)
    (onError p e) (fun result _ => ∀ e' ∈ fileErrors, result.reason ≠ .failure e')
    (fun _ _ => True) := by
  have hreason : e ∉ fileErrors → ∀ e' ∈ fileErrors, Reason.failure e ≠ .failure e' := by
    rintro he e' he' heq
    exact he (Reason.failure.inj heq ▸ he')
  refine Meets.get_bind fun r hr => Meets.pre (P := fun _ => e ∉ fileErrors) ?_ fun _ _ => hr
  cases r.owned <|> r.old with
  | none => exact Meets.pure fun _ h => hreason h
  | some record =>
      exact (Meets.always fun _ h => h).bind fun _ => Meets.pure fun _ h => hreason h

theorem not_refused_of_accepted (hd : Accepted digest p.plan d) (haction : p.action ≠ .status) :
    ¬ RefusedForFiles digest taskMatches p d := by
  have hrun : Meets (· = start d) (manageSyncSchedule digest taskMatches p)
      (fun result _ => result.status ≠ .failed ∨ ∀ e ∈ fileErrors, result.reason ≠ .failure e)
      (fun _ _ => True) := by
    unfold manageSyncSchedule
    refine Meets.ite (fun _ => Meets.pure fun _ _ => .inl (by simp)) fun _ => ?_
    have hbody : Meets (· = start d) (rescue (manageBody digest taskMatches p) (onError p))
        (fun result _ => result.status ≠ .failed ∨ ∀ e ∈ fileErrors, result.reason ≠ .failure e)
        (fun _ _ => True) := by
      refine Meets.rescue ((fine_manageBody hd haction).post fun _ _ h => .inl h) (fun e => ?_)
        fun _ _ => trivial
      exact (onError_reason e).post fun _ _ h => .inr h
    exact Meets.finallyDo hbody (fun result => Meets.always fun _ h => h)
      (fun _ => (Meets.always fun _ h => h).post fun _ _ _ => trivial) fun _ _ => trivial
  rintro ⟨result, r, heq, hfailed, e, he, hreason⟩
  have h := hrun (start d) rfl
  rw [heq] at h
  rcases h with h | h
  · exact h hfailed
  · exact h e he hreason

/-- A run whose calls are all done. -/
def plainRun (plan : NativeSyncSchedule) : Session where
  action := .install
  plan := plan
  dryRun := false
  pid := 0
  alive _ := false
  answer _ _ := ⟨0, []⟩
  fate _ := .done

theorem refused_of_not_accepted (hd : ¬ Accepted digest plan d) :
    RefusedForFiles digest taskMatches (plainRun plan) d := by
  cases hcheck : checkOwned digest plan d.record d with
  | ok u => exact absurd (checkOwned_ok.mp hcheck) hd
  | error e =>
      have hopen : openState digest (plainRun plan) (start d) =
          .error (.threw e) { start d with old := d.record } := by
        have hset : setOld d.record (start d) = .ok () { start d with old := d.record } := rfl
        simp only [start] at hset
        simp only [openState, Session.look, plainRun, start, bind, EStateM.bind, Lib.look, hset,
          hcheck]
      have hbody : manageBody digest taskMatches (plainRun plan) (start d) =
          .error (.threw e) { start d with old := d.record } := by
        rw [manageBody]
        show EStateM.bind _ _ _ = _
        rw [EStateM.bind, hopen]
      refine ⟨{ status := .failed, reason := .failure e }, { start d with old := d.record }, ?_, rfl,
        e, checkOwned_error hcheck, rfl⟩
      have herror : onError (plainRun plan) e ({ start d with old := d.record } : Run Digest) =
          .ok { status := .failed, reason := .failure e } { start d with old := d.record } := by
        cases hrecord : d.record with
        | none => rfl
        | some s => rfl
      rw [manageSyncSchedule, if_neg (by simp [plainRun]), finallyDo, rescue, hbody]
      dsimp only
      rw [herror]
      rfl

/-- **The check decides** whether later runs are refused. -/
theorem recoverable_iff : Recoverable digest taskMatches plan d ↔ Accepted digest plan d := by
  refine ⟨fun h => ?_, fun hd later haction hplace => ?_⟩
  · by_contra hd
    exact h (plainRun plan) (by simp [plainRun]) (.refl plan) (refused_of_not_accepted hd)
  · exact not_refused_of_accepted (hplace.accepted hd) haction

variable (digest taskMatches) in
/-- Every run of a history keeps the disk that it finds. -/
def KeptAll : List Session → Disk Digest → Prop
  | [], _ => True
  | p :: sessions, d => Kept digest taskMatches p d ∧
      KeptAll sessions (diskAfter digest taskMatches p d)

variable (digest taskMatches) in
/-- The disk behind a history. -/
def diskAfterAll : List Session → Disk Digest → Disk Digest
  | [], d => d
  | p :: sessions, d => diskAfterAll sessions (diskAfter digest taskMatches p d)

theorem accepted_diskAfterAll {sessions : List Session} {d : Disk Digest}
    (hplaces : ∀ p ∈ sessions, SamePlace plan p.plan) (hd : Accepted digest plan d)
    (hkept : KeptAll digest taskMatches sessions d) :
    Accepted digest plan (diskAfterAll digest taskMatches sessions d) := by
  induction sessions generalizing d with
  | nil => exact hd
  | cons p sessions ih =>
      have hplace := hplaces p List.mem_cons_self
      have hafter := accepted_diskAfter.mpr ⟨hplace.accepted hd, hkept.1⟩
      exact ih (fun q hq => hplaces q (List.mem_cons_of_mem p hq)) (hplace.symm.accepted hafter) hkept.2

/--
**When a schedule stays recoverable.** A run leaves a disk that refuses no later run for its files, if it
found one, exactly if it does not stop between a change of a file and the save that records it. So does
every history of such runs.
-/
theorem recoverable_after_iff (digest : Bytes → Digest)
    (taskMatches : NativeSyncSchedule → Text → Bool) :
    (∀ (p : Session) (d : Disk Digest),
      (Recoverable digest taskMatches p.plan d →
        Recoverable digest taskMatches p.plan (diskAfter digest taskMatches p d)) ↔
      (Recoverable digest taskMatches p.plan d → Kept digest taskMatches p d)) ∧
    ∀ (plan : NativeSyncSchedule) (sessions : List Session) (d : Disk Digest),
      (∀ p ∈ sessions, SamePlace plan p.plan) → Recoverable digest taskMatches plan d →
      KeptAll digest taskMatches sessions d →
        Recoverable digest taskMatches plan (diskAfterAll digest taskMatches sessions d) := by
  refine ⟨fun p d => ?_, fun plan sessions d hplaces hd hkept => ?_⟩
  · rw [recoverable_iff, recoverable_iff, accepted_diskAfter]
    exact ⟨fun h hd => (h hd).2, fun h hd => ⟨hd, h hd⟩⟩
  · rw [recoverable_iff] at hd ⊢
    exact accepted_diskAfterAll hplaces hd hkept

/-! ### A run that is cut -/

def text (s : String) : Text := s.toList

def command (name : String) (args : List String) : ScheduleCommand :=
  ⟨unitsOf name.toList, args.map fun arg => unitsOf arg.toList⟩

def servicePath : Path :=
  text "/home/ann/.config/systemd/user/caveat-autosync-acc21060b9e0d8e2.service"

def timerPath : Path :=
  text "/home/ann/.config/systemd/user/caveat-autosync-acc21060b9e0d8e2.timer"

def unitLines (lines : List String) : Units :=
  unitsOf (lines.flatMap fun line => text line ++ ['\n'])

def serviceUnit : Units := unitLines
  ["[Unit]", "Description=Caveat private knowledge reception", "[Service]", "Type=oneshot",
    "TimeoutStartSec=10min",
    "ExecStart=\"/usr/bin/node\" \"/opt/caveat.js\" \"autosync\" \"run\" \"--json\"" ++
      " \"--caveat-home\" \"/home/ann/.caveat\" \"--user-home\" \"/home/ann\"",
    "SuccessExitStatus=2"]

def timerUnit : Units := unitLines
  ["[Unit]", "Description=Caveat reception timer", "[Timer]", "OnBootSec=60s",
    "OnUnitInactiveSec=60s", "Unit=caveat-autosync-acc21060b9e0d8e2.service", "[Install]",
    "WantedBy=timers.target"]

/-- The schedule of one home under Linux. -/
def annSchedule : NativeSyncSchedule where
  id := text "caveat-autosync-acc21060b9e0d8e2"
  kind := .systemdUser
  files := [⟨servicePath, serviceUnit, false⟩, ⟨timerPath, timerUnit, false⟩]
  query := command "systemctl" ["--user", "is-active", "caveat-autosync-acc21060b9e0d8e2.timer"]
  inspect := command "systemctl" ["--user", "show", "caveat-autosync-acc21060b9e0d8e2.timer",
    "--property=LoadState", "--value"]
  install := [⟨unitsOf (text "systemctl"), [unitsOf (text "--user"), unitsOf (text "link"),
      unitsOf servicePath, unitsOf timerPath]⟩,
    command "systemctl" ["--user", "daemon-reload"],
    command "systemctl" ["--user", "enable", "--now", "caveat-autosync-acc21060b9e0d8e2.timer"]]
  remove := [command "systemctl" ["--user", "stop", "caveat-autosync-acc21060b9e0d8e2.timer",
      "caveat-autosync-acc21060b9e0d8e2.service"],
    command "systemctl" ["--user", "disable", "caveat-autosync-acc21060b9e0d8e2.timer",
      "caveat-autosync-acc21060b9e0d8e2.service"]]
  reload := [command "systemctl" ["--user", "daemon-reload"]]
  paths_nodup := by decide +kernel

/-- A first installation that dies when its files are written. -/
def cutRun : Session where
  action := .install
  plan := annSchedule
  dryRun := false
  pid := 4711
  alive _ := false
  answer _ _ := ⟨0, text "not-found\n"⟩
  fate
    | .saveInstalling => .dies .before
    | _ => .done

/-- Nothing is installed. -/
def freshDisk : Disk Bytes := ⟨none, fun _ => none, none⟩

theorem checkOwned_cut : checkOwned (fun bytes => bytes) annSchedule
    (diskAfter (fun bytes => bytes) (fun _ _ => false) cutRun freshDisk).record
    (diskAfter (fun bytes => bytes) (fun _ _ => false) cutRun freshDisk) =
      .error .fileUnmanaged := by decide +kernel

theorem checkOwned_fresh :
    checkOwned (fun bytes => bytes) annSchedule none freshDisk = .ok () := by decide +kernel

/-- A process that dies before it saves its first record has written files that every later run refuses. -/
theorem cut_install_refused :
    Recoverable (fun bytes => bytes) (fun _ _ => false) annSchedule freshDisk ∧
      ¬ Recoverable (fun bytes => bytes) (fun _ _ => false) annSchedule
        (diskAfter (fun bytes => bytes) (fun _ _ => false) cutRun freshDisk) := by
  refine ⟨recoverable_iff.mpr (checkOwned_ok.mp checkOwned_fresh), fun h => ?_⟩
  have hcheck := checkOwned_ok.mpr (recoverable_iff.mp h)
  rw [checkOwned_cut] at hcheck
  exact absurd hcheck (by simp)

end Caveat.Sync.Schedule
