import Caveat.Sync.ScheduleProof

/-!
# Where an interrupted run may be repeated

A run changes the files of a definition one after the other, and says so in the record only afterwards: an
installation in one save behind all writes, a removal in one save behind each file. A run that stops
between the two leaves files that are not as recorded, and every later run refuses to touch them.
-/

namespace Caveat.Sync.Schedule

open Js Lib

variable {Digest : Type} {p : Session} {d d' : Disk Digest} {r r' : Run Digest}
  {plan : NativeSyncSchedule}

/-! ## The cut points -/

def isDone : Fate Nat → Bool
  | .done => true
  | _ => false

def Node.leftBy (fault : Fault Nat) (bytes : Bytes) (before : Option Node) : Option Node :=
  match fault with
  | .before => before
  | .after => some (.file bytes)
  | .midway n => some (.file (bytes.take n))

/-- What a write leaves at its path. -/
def leftBy (fate : Fate Nat) (bytes : Bytes) (before : Option Node) : Option Node :=
  match fate with
  | .done => some (.file bytes)
  | .fails fault => Node.leftBy fault bytes before
  | .dies fault => Node.leftBy fault bytes before

/-- The files whose writes begin. -/
def touched (p : Session) : List ScheduleFile → List ScheduleFile
  | [] => []
  | f :: files =>
      if isDone (p.fate (.makeDirectory f.path)) then
        if isDone (p.fate (.write f.path)) then f :: touched p files else [f]
      else []

/-- All files are written. -/
def written (p : Session) (files : List ScheduleFile) : Bool :=
  files.all (fun f => isDone (p.fate (.makeDirectory f.path)) && isDone (p.fate (.write f.path)))

/-- The record is saved by a call, or with the failure of that call. -/
def savedBy (p : Session) (c : Call) : Bool :=
  (p.fate c).lands || (p.fate c).isFailure && (p.fate .saveFailed).lands

/-! ## Writes -/

attribute [local simp] touched written

/-- Only the files whose writes begin are changed. -/
structure Wrote (p : Session) (files : List ScheduleFile) (r r' : Run Digest) : Prop where
  rest : r' = { r with disk := { r.disk with files := r'.disk.files } }
  changed : ∀ f ∈ touched p files, r'.disk.files f.path =
    leftBy (p.fate (.write f.path)) (nativeScheduleFileBytes f) (r.disk.files f.path)
  others : ∀ path, path ∉ (touched p files).map ScheduleFile.path →
    r'.disk.files path = r.disk.files path

/-- How a call of the file system stops. -/
def Stopped (stop : Stop ScheduleError) : Prop := stop = .died ∨ stop = .threw .operationFailed

theorem touched_subset {files : List ScheduleFile} {f : ScheduleFile} (h : f ∈ touched p files) :
    f ∈ files := by
  induction files with
  | nil => exact absurd h List.not_mem_nil
  | cons g files ih =>
      rw [touched] at h
      split at h
      · split at h
        · rcases List.mem_cons.mp h with rfl | h
          · exact List.mem_cons_self
          · exact List.mem_cons_of_mem g (ih h)
        · rw [List.mem_singleton.mp h]
          exact List.mem_cons_self
      · exact absurd h List.not_mem_nil

theorem touched_of_written {files : List ScheduleFile} (h : written p files = true) :
    touched p files = files := by
  induction files with
  | nil => rfl
  | cons f files ih =>
      rw [written, List.all_cons, Bool.and_eq_true, Bool.and_eq_true] at h
      rw [touched, if_pos h.1.1, if_pos h.1.2, ih h.2]

theorem writeFile_meets {f : ScheduleFile} (hwritable : writable r.old f.path r.disk = true) :
    Meets (· = r) (writeFile p f) (fun _ r' => Wrote p [f] r r' ∧ written p [f] = true)
      (fun stop r' => (Wrote p [f] r r' ∧ written p [f] = false) ∧ Stopped stop) := by
  have hput : ∀ bytes, (putFile f.path bytes r.disk).files f.path = some (.file bytes) :=
    fun bytes => Function.update_self ..
  have hother : ∀ bytes path, path ∉ [f.path] →
      (putFile f.path bytes r.disk).files path = r.disk.files path :=
    fun bytes path hpath => Function.update_of_ne (by simpa using hpath) ..
  unfold writeFile
  refine Meets.get_bind fun r₀ hr => ?_
  obtain rfl := hr
  have huntouched : isDone (p.fate (.makeDirectory f.path)) = false →
      Wrote p [f] r₀ r₀ ∧ written p [f] = false := by
    intro hdone
    have hnone : touched p [f] = [] := by rw [touched, hdone]; rfl
    refine ⟨⟨rfl, fun g hg => ?_, fun path _ => rfl⟩, by simp [hdone]⟩
    rw [hnone] at hg
    exact absurd hg List.not_mem_nil
  refine Meets.bind (Q := fun _ r => r = r₀ ∧ isDone (p.fate (.makeDirectory f.path)) = true)
    ?_ fun _ => ?_
  · refine Meets.atomic_cases (fun r r' hfate hr heff => ?_) (fun r _ hr heff => ?_)
      (fun fault r hfate hr => ?_) fun fault r hfate hr => ?_
    · refine ⟨?_, by rw [hfate]; rfl⟩
      rw [← hr]
      exact (Option.some.inj heff).symm
    · exact absurd heff (by simp)
    · rw [hr]
      exact ⟨huntouched (by rw [hfate]; rfl), .inr rfl⟩
    · refine ⟨?_, .inl rfl⟩
      have hkept := huntouched (by rw [hfate]; rfl)
      rw [hr]
      split
      · exact hkept
      · exact hkept
  refine Meets.assume fun hdir => ?_
  have htouched : touched p [f] = [f] := by
    rw [touched, if_pos hdir]
    split
    · rfl
    · rfl
  -- the write itself: the file is new, as before, or the start of the new one
  have hwrote : ∀ node files, files f.path = node →
      leftBy (p.fate (.write f.path)) (nativeScheduleFileBytes f) (r₀.disk.files f.path) = node →
      (∀ path, path ∉ [f.path] → files path = r₀.disk.files path) →
      Wrote p [f] r₀ { r₀ with disk := { r₀.disk with files := files } } := by
    intro node files hnode hleft hothers
    refine ⟨rfl, fun g hg => ?_, fun path hpath => ?_⟩
    · rw [htouched] at hg
      obtain rfl := List.mem_singleton.mp hg
      exact hnode.trans hleft.symm
    · rw [htouched] at hpath
      exact hothers path hpath
  have hfault : ∀ (leave : Nat → Run Digest → Run Digest) (effect : Run Digest → Option (Run Digest)),
      (∀ n, leave n r₀ =
        { r₀ with disk := putFile f.path ((nativeScheduleFileBytes f).take n) r₀.disk }) →
      effect r₀ = some { r₀ with disk := putFile f.path (nativeScheduleFileBytes f) r₀.disk } →
      ∀ fault, leftBy (p.fate (.write f.path)) (nativeScheduleFileBytes f) (r₀.disk.files f.path) =
        Node.leftBy fault (nativeScheduleFileBytes f) (r₀.disk.files f.path) →
      Wrote p [f] r₀ (fault.left leave effect r₀) := by
    intro leave effect hleave heffect fault hleft
    cases fault with
    | before => exact hwrote _ r₀.disk.files rfl hleft fun path _ => rfl
    | after =>
        rw [Fault.left, heffect]
        exact hwrote _ _ (hput _) hleft (hother _)
    | midway n =>
        rw [Fault.left, hleave]
        exact hwrote _ _ (hput _) hleft (hother _)
  refine Meets.call_cases (fun r r' hfate hr heff => ?_) (fun r hfate hr heff => ?_)
    (fun fault r hfate hr => ?_) fun fault r hfate hr => ?_
  · obtain rfl := hr
    simp only [hwritable, if_true, Option.map_some, Option.some.injEq] at heff
    rw [← heff]
    exact ⟨hwrote _ _ (hput _) (by rw [hfate]; rfl) (hother _),
      by rw [written, List.all_cons, hdir, hfate]; rfl⟩
  · obtain rfl := hr
    simp [hwritable] at heff
  · obtain rfl := hr
    exact ⟨⟨hfault _ _ (fun n => by simp [hwritable]) (by simp [hwritable]) fault
      (by rw [hfate]; rfl), by simp [written, hfate, isDone]⟩, .inr rfl⟩
  · obtain rfl := hr
    exact ⟨⟨hfault _ _ (fun n => by simp [hwritable]) (by simp [hwritable]) fault
      (by rw [hfate]; rfl), by simp [written, hfate, isDone]⟩, .inl rfl⟩

theorem touched_append_of_written {f : ScheduleFile} {files : List ScheduleFile}
    (h : written p [f] = true) : touched p (f :: files) = f :: touched p files := by
  rw [written, List.all_cons, Bool.and_eq_true, Bool.and_eq_true] at h
  rw [touched, if_pos h.1.1, if_pos h.1.2]

theorem touched_of_not_written {f : ScheduleFile} {files : List ScheduleFile}
    (h : written p [f] = false) : touched p (f :: files) = touched p [f] := by
  rw [touched, touched]
  by_cases hdir : isDone (p.fate (.makeDirectory f.path)) = true
  · have hwrite : ¬ isDone (p.fate (.write f.path)) = true := by
      intro hwrite
      simp [written, hdir, hwrite] at h
    rw [if_pos hdir, if_neg hwrite, if_pos hdir, if_neg hwrite]
  · rw [if_neg hdir, if_neg hdir]

theorem written_cons {f : ScheduleFile} {files : List ScheduleFile} :
    written p (f :: files) = (written p [f] && written p files) := by
  simp [written]

/-- The first file is written, and then the others. -/
theorem Wrote.trans {f : ScheduleFile} {files : List ScheduleFile} {r'' : Run Digest}
    (hnew : f.path ∉ files.map ScheduleFile.path) (hwritten : written p [f] = true)
    (h : Wrote p [f] r r') (h' : Wrote p files r' r'') : Wrote p (f :: files) r r'' := by
  have hone : touched p [f] = [f] := touched_of_written hwritten
  have hsub : ∀ path, path ∈ (touched p files).map ScheduleFile.path →
      path ∈ files.map ScheduleFile.path := by
    intro path hpath
    obtain ⟨g, hg, rfl⟩ := List.mem_map.mp hpath
    exact List.mem_map_of_mem (touched_subset hg)
  have hfirst := h.changed f (by rw [hone]; exact List.mem_cons_self)
  refine ⟨?_, ?_, fun path hpath => ?_⟩
  · rw [h'.rest, h.rest]
  · rw [touched_append_of_written hwritten]
    intro g hg
    rcases List.mem_cons.mp hg with rfl | hg
    · rw [h'.others _ (fun hmem => hnew (hsub _ hmem)), hfirst]
    · have hne : g.path ≠ f.path := fun heq =>
        hnew (heq ▸ List.mem_map_of_mem (touched_subset hg))
      rw [h'.changed g hg, h.others g.path (by rw [hone]; simpa using hne)]
  · rw [touched_append_of_written hwritten, List.map_cons, List.mem_cons, not_or] at hpath
    rw [h'.others path hpath.2, h.others path (by rw [hone]; simpa using hpath.1)]

/-- **The writes** change the files whose writes begin, and nothing else. -/
theorem writeFiles_meets (files : List ScheduleFile) {r : Run Digest}
    (hnodup : (files.map ScheduleFile.path).Nodup)
    (hwritable : ∀ f ∈ files, writable r.old f.path r.disk = true) :
    Meets (· = r) (forEach (writeFile p) files)
      (fun _ r' => Wrote p files r r' ∧ written p files = true)
      (fun stop r' => (Wrote p files r r' ∧ written p files = false) ∧ Stopped stop) := by
  induction files generalizing r with
  | nil => exact Meets.pure fun r' hr => ⟨⟨by rw [hr], fun f hf => absurd hf List.not_mem_nil,
      fun path _ => by rw [hr]⟩, rfl⟩
  | cons f files ih =>
      rw [List.map_cons, List.nodup_cons] at hnodup
      have hfirst := @writeFile_meets Digest p r f (hwritable f List.mem_cons_self)
      refine Meets.bind (hfirst.weaken (fun _ h => h) (fun _ _ h => h) fun stop r' hstop => ?_)
        fun _ r₁ hr₁ => ?_
      · obtain ⟨⟨hwrote, hnot⟩, hstopped⟩ := hstop
        have htouched : touched p (f :: files) = touched p [f] := touched_of_not_written hnot
        refine ⟨⟨⟨hwrote.rest, ?_, ?_⟩, by rw [written_cons, hnot]; rfl⟩, hstopped⟩
        · rw [htouched]
          exact hwrote.changed
        · rw [htouched]
          exact hwrote.others
      · obtain ⟨hwrote, hwritten⟩ := hr₁
        have hone : touched p [f] = [f] := touched_of_written hwritten
        have hstill : ∀ g ∈ files, writable r₁.old g.path r₁.disk = true := by
          intro g hg
          have hne : g.path ≠ f.path := fun heq => hnodup.1 (heq ▸ List.mem_map_of_mem hg)
          have hbefore := hwritable g (List.mem_cons_of_mem f hg)
          rw [writable, hwrote.others g.path (by rw [hone]; simpa using hne), hwrote.rest]
          exact hbefore
        refine (ih hnodup.2 hstill).weaken (fun _ h => h) (fun _ r' h => ?_) (fun stop r' h => ?_)
          r₁ rfl
        · exact ⟨hwrote.trans hnodup.1 hwritten h.1, by rw [written_cons, hwritten, h.2]; rfl⟩
        · exact ⟨⟨hwrote.trans hnodup.1 hwritten h.1.1, by rw [written_cons, hwritten, h.1.2]; rfl⟩,
            h.2⟩

/-! ## What is left -/

/-- The run has looked at the record, and changed nothing that the check looks at. -/
structure Opened (d : Disk Digest) (r : Run Digest) : Prop where
  files : r.disk.files = d.files
  record : r.disk.record = d.record
  old : r.old = d.record
  owned : r.owned = none

/-- What the run has in its variables is what the record says. -/
def Settled (r : Run Digest) : Prop :=
  ∀ record, (r.owned <|> r.old) = some record →
    r.disk.record.map ownership = some (ownership record)

/-- The record of the files that are written could not be saved. -/
structure Unsaved (p : Session) (G : Disk Digest → Prop) (r : Run Digest) : Prop where
  held : r.lock = true
  action : p.action ≠ .status
  owned : ∃ owned, r.owned = some owned ∧
    ((p.fate .saveFailed).lands = true → G { r.disk with record := some owned }) ∧
    ((p.fate .saveFailed).lands = false → G r.disk)

/-- What a run that stops leaves, where the record of its failure is still to be saved. -/
def Thrown (p : Session) (G : Disk Digest → Prop) : Stop ScheduleError → Run Digest → Prop
  | .died, r => G r.disk
  | .threw e, r => Settled r ∧ G r.disk ∨ e = .operationFailed ∧ Unsaved p G r

/-- A property of what the check looks at. -/
def Stable (G : Disk Digest → Prop) : Prop := ∀ d d', SameOwnership d d' → G d → G d'

variable {G : Disk Digest → Prop}

theorem Thrown.of_settled {r : Run Digest} (hsettled : Settled r) (hG : G r.disk)
    (stop : Stop ScheduleError) : Thrown p G stop r := by
  cases stop with
  | died => exact hG
  | threw e => exact .inl ⟨hsettled, hG⟩

theorem settled_of_opened (h : Opened d r) : Settled r := by
  intro record hrecord
  rw [h.owned, h.old] at hrecord
  have hsome : d.record = some record := hrecord
  rw [h.record, hsome]
  rfl

theorem sameOwnership_of_opened (h : Opened d r) : SameOwnership d r.disk :=
  ⟨h.files, by rw [h.record]⟩

theorem opened_lockless : Lockless (Opened d) := fun _ _ _ h => ⟨h.files, h.record, h.old, h.owned⟩

theorem lockless_of_stable (hG : Stable G) : Lockless (fun r : Run Digest => G r.disk) :=
  fun r _ _ h => hG r.disk _ ⟨rfl, rfl⟩ h

/-- A save of a record with the same ownership. -/
theorem save_meets {P : Run Digest → Prop} {E : Stop ScheduleError → Run Digest → Prop} {c : Call}
    {value : SyncScheduleState Digest}
    (hsaved : ∀ r, P r → P { r with disk := { r.disk with record := some value } })
    (hE : ∀ stop r, P r → E stop r) : Meets P (p.save c value) (fun _ => P) E := by
  refine Meets.atomic_cases (fun r r' _ hr heff => ?_) (fun r _ hr heff => absurd heff (by simp))
    (fun _ r _ hr => hE _ r hr) fun _ r _ hr => ?_
  · rw [← Option.some.inj heff]
    exact hsaved r hr
  · split
    · exact hE _ _ (hsaved r hr)
    · exact hE _ r hr

/-- The record says what the run has in its variables. -/
structure Saved (G : Disk Digest → Prop) (owned : SyncScheduleState Digest) (r : Run Digest) :
    Prop where
  inHand : r.owned = some owned
  record : r.disk.record.map ownership = some (ownership owned)
  holds : G r.disk

theorem Saved.settled {owned : SyncScheduleState Digest} (h : Saved G owned r) : Settled r := by
  intro record hrecord
  rw [h.inHand] at hrecord
  rw [h.record, Option.some.inj hrecord]

theorem Saved.thrown {owned : SyncScheduleState Digest} (h : Saved G owned r)
    (stop : Stop ScheduleError) : Thrown p G stop r :=
  .of_settled h.settled h.holds stop

theorem save_saved (hG : Stable G) {c : Call} {owned value : SyncScheduleState Digest}
    (hvalue : ownership value = ownership owned) :
    Meets (Saved G owned) (p.save c value) (fun _ => Saved G owned) (Thrown p G) := by
  refine save_meets (fun r hr => ⟨hr.inHand, by rw [← hvalue]; rfl, ?_⟩) fun stop r hr => hr.thrown stop
  refine hG r.disk _ ⟨rfl, ?_⟩ hr.holds
  rw [hr.record, ← hvalue]
  rfl

/-- **The record of a failure** is kept or saved, and the lock is released. -/
theorem onError_meets (hG : Stable G) (e : ScheduleError) :
    Meets (Thrown p G (.threw e)) (onError p e) (fun _ r => G r.disk) (fun _ r => G r.disk) := by
  unfold onError
  refine Meets.get_bind fun r hr => ?_
  cases hrecord : r.owned <|> r.old with
  | none =>
      refine Meets.pure fun r' hr' => ?_
      obtain rfl := hr'
      rcases hr with ⟨_, hkeeps⟩ | ⟨_, hunsaved⟩
      · exact hkeeps
      · obtain ⟨owned, howned, _⟩ := hunsaved.owned
        rw [howned] at hrecord
        exact absurd hrecord (by simp)
  | some record =>
      refine Meets.bind (Q := fun _ r => G r.disk) ?_ fun _ => Meets.pure fun _ hr => hr
      rcases hr with ⟨hsettled, hkeeps⟩ | ⟨rfl, hunsaved⟩
      · refine Meets.doIf (fun _ => ?_) fun r' hr' _ => hr' ▸ hkeeps
        refine Meets.rescue (E := fun _ r => G r.disk) ?_ (fun _ => Meets.pure fun _ hr => hr)
          fun _ hr => hr
        have hsave : Meets (fun r' : Run Digest => G r'.disk ∧ r'.disk.record.map ownership =
            some (ownership record)) (p.save .saveFailed
              { record with lastOperation := .failed, lastFailure := some e })
            (fun _ r' => G r'.disk ∧ r'.disk.record.map ownership = some (ownership record))
            (fun _ r' => G r'.disk) := by
          refine save_meets (fun r' hr' => ⟨hG r'.disk _ ⟨rfl, ?_⟩ hr'.1, rfl⟩) fun _ _ hr => hr.1
          rw [hr'.2]
          rfl
        refine hsave.weaken (fun r' hr' => ?_) (fun _ _ h => h.1) fun _ _ h => h
        rw [hr']
        exact ⟨hkeeps, hsettled record hrecord⟩
      · obtain ⟨owned, howned, hlands, hlost⟩ := hunsaved.owned
        have hsame : owned = record := by
          rw [howned] at hrecord
          exact Option.some.inj hrecord
        have hcond : (r.lock && p.action ≠ .status && !keptErrors.contains .operationFailed) = true := by
          rw [hunsaved.held, decide_eq_true hunsaved.action]
          rfl
        have hG' : (p.fate .saveFailed).lands = true →
            G { r.disk with record := some ({ record with
              lastOperation := .failed, lastFailure := some .operationFailed }) } := by
          intro h
          refine hG _ _ ?_ (hlands h)
          exact ⟨rfl, by rw [hsame]; rfl⟩
        refine Meets.doIf (fun _ => ?_) fun r' hr' hnot => absurd hcond hnot
        refine Meets.rescue (E := fun _ r => G r.disk) ?_ (fun _ => Meets.pure fun _ hr => hr)
          fun _ hr => hr
        refine Meets.atomic_cases (fun r' r'' hfate hr' heff => ?_)
          (fun r' _ hr' heff => absurd heff (by simp)) (fun fault r' hfate hr' => ?_)
          fun fault r' hfate hr' => ?_
        · obtain rfl := hr'
          rw [← Option.some.inj heff]
          exact hG' (by rw [hfate]; rfl)
        · obtain rfl := hr'
          exact hlost (by rw [hfate]; rfl)
        · obtain rfl := hr'
          split
          · rename_i hl
            exact hG' hl
          · rename_i hl
            exact hlost (by simpa using hl)

/-! ## Installing -/

variable [DecidableEq Digest] {digest : Bytes → Digest}
  {taskMatches : NativeSyncSchedule → Text → Bool}

/-- The record is saved behind the writes, or the writes leave every file as the record says that is
there. -/
def WritesKept (digest : Bytes → Digest) (p : Session) (d : Disk Digest) : Prop :=
  written p p.plan.files = true ∧ savedBy p .saveInstalling = true ∨
    ∀ f ∈ touched p p.plan.files, recordedAs digest (hashIn d.record f.path)
      (leftBy (p.fate (.write f.path)) (nativeScheduleFileBytes f) (d.files f.path)) = true

theorem stable_accepted (kept : Prop) :
    Stable (fun d : Disk Digest => Accepted digest plan d ↔ kept) := by
  intro d d' hsame h
  exact ⟨fun hd' => h.mp (hsame.symm.accepted hd'), fun hk => hsame.accepted (h.mpr hk)⟩

theorem lookup_map_of_nodup {α β γ : Type} [BEq β] [LawfulBEq β] {key : α → β} {value : α → γ}
    {as : List α} (hnodup : (as.map key).Nodup) {a : α} (ha : a ∈ as) :
    (as.map (fun a => (key a, value a))).lookup (key a) = some (value a) := by
  induction as with
  | nil => exact absurd ha List.not_mem_nil
  | cons b as ih =>
      rw [List.map_cons, List.nodup_cons] at hnodup
      rw [List.map_cons, List.lookup_cons]
      rcases List.mem_cons.mp ha with rfl | ha
      · rw [beq_self_eq_true]
      · have hne : key a ≠ key b := fun heq => hnodup.1 (heq ▸ List.mem_map_of_mem ha)
        rw [beq_eq_false_iff_ne.mpr hne]
        exact ih hnodup.2 ha

theorem path_inj {f g : ScheduleFile} (hf : f ∈ plan.files) (hg : g ∈ plan.files)
    (h : f.path = g.path) : f = g :=
  List.inj_on_of_nodup_map plan.paths_nodup hf hg h

/-- A file of a disk that is accepted may be written. -/
theorem writable_of_accepted (hd : Accepted digest plan d) (hr : Opened d r) {f : ScheduleFile}
    (hf : f ∈ plan.files) : writable r.old f.path r.disk = true := by
  have hrec := hd.files f hf
  rw [writable, hr.old, hr.files, Bool.or_eq_true]
  cases hhash : hashIn d.record f.path with
  | none =>
      rw [hhash] at hrec
      cases hfile : d.files f.path with
      | none => exact .inr rfl
      | some node =>
          rw [hfile] at hrec
          exact absurd hrec (by simp [recordedAs])
  | some expected =>
      rw [hashIn] at hhash
      rw [hhash]
      exact .inl rfl

/-- With the record of before, the check asks for the files whose writes have begun. -/
theorem accepted_wrote (hd : Accepted digest p.plan d) (hr : Opened d r)
    (hwrote : Wrote p p.plan.files r r') :
    Accepted digest p.plan r'.disk ↔ ∀ f ∈ touched p p.plan.files,
      recordedAs digest (hashIn d.record f.path) (leftBy (p.fate (.write f.path))
        (nativeScheduleFileBytes f) (d.files f.path)) = true := by
  have hrecord : r'.disk.record = d.record := by rw [hwrote.rest, hr.record]
  have hchanged : ∀ f ∈ touched p p.plan.files, r'.disk.files f.path =
      leftBy (p.fate (.write f.path)) (nativeScheduleFileBytes f) (d.files f.path) := by
    intro f hf
    rw [hwrote.changed f hf, hr.files]
  constructor
  · intro h f hf
    rw [← hchanged f hf, ← hrecord]
    exact h.files f (touched_subset hf)
  · intro h
    refine ⟨fun s hs => hd.owner s (hrecord ▸ hs), fun f hf => ?_⟩
    rw [hrecord]
    by_cases hmem : f.path ∈ (touched p p.plan.files).map ScheduleFile.path
    · obtain ⟨g, hg, hpath⟩ := List.mem_map.mp hmem
      obtain rfl := path_inj (touched_subset hg) hf hpath
      rw [hchanged g hg]
      exact h g hg
    · rw [hwrote.others f.path hmem, hr.files]
      exact hd.files f hf

/-- With the record of what was written, the check accepts it. -/
theorem accepted_owned {old : Option (SyncScheduleState Digest)} (hwrote : Wrote p p.plan.files r r')
    (hwritten : written p p.plan.files = true) :
    Accepted digest p.plan { r'.disk with record := some (ownedState digest p old) } := by
  refine ⟨fun s hs => ?_, fun f hf => ?_⟩
  · obtain rfl := Option.some.inj hs
    refine ⟨rfl, rfl, fun entry hentry => ?_⟩
    obtain ⟨f, hf, rfl⟩ := List.mem_map.mp hentry
    exact List.mem_map_of_mem hf
  · have hhash : hashIn (some (ownedState digest p old)) f.path =
        some (digest (nativeScheduleFileBytes f)) :=
      lookup_map_of_nodup p.plan.paths_nodup hf
    have hdone : isDone (p.fate (.write f.path)) = true := by
      have hall := List.all_eq_true.mp hwritten f hf
      rw [Bool.and_eq_true] at hall
      exact hall.2
    have hleft : leftBy (p.fate (.write f.path)) (nativeScheduleFileBytes f) (r.disk.files f.path) =
        some (.file (nativeScheduleFileBytes f)) := by
      cases hfate : p.fate (.write f.path) with
      | done => rfl
      | fails fault =>
          rw [hfate] at hdone
          exact absurd hdone (by simp [isDone])
      | dies fault =>
          rw [hfate] at hdone
          exact absurd hdone (by simp [isDone])
    have hfile : r'.disk.files f.path = some (.file (nativeScheduleFileBytes f)) := by
      rw [hwrote.changed f (by rwa [touched_of_written hwritten]), hleft]
    rw [hhash, hfile]
    exact decide_eq_true rfl

omit [DecidableEq Digest] in
theorem quiet_settled {owned : SyncScheduleState Digest} {α : Type} {x : Managing Digest α}
    (h : Quiet (Saved G owned) x) : Meets (Saved G owned) x (fun _ => Saved G owned) (Thrown p G) :=
  h.weaken (fun _ h => h) (fun _ _ h => h) fun stop _ h => h.1.thrown stop

/-- **An installation**, from where it begins to write. -/
theorem register_meets (haction : p.action ≠ .status) (hd : Accepted digest p.plan d) :
    Meets (fun r => Opened d r ∧ r.lock = true) (register digest taskMatches p)
      (fun _ r => Accepted digest p.plan r.disk ↔ WritesKept digest p d)
      (Thrown p fun d' => Accepted digest p.plan d' ↔ WritesKept digest p d) := by
  have hstable := @stable_accepted Digest p.plan _ digest (WritesKept digest p d)
  intro r hr
  obtain ⟨hopened, hheld⟩ := hr
  have hwrites := @writeFiles_meets Digest p p.plan.files r p.plan.paths_nodup
    fun f hf => writable_of_accepted hd hopened hf
  refine Meets.bind (P := (· = r)) (hwrites.weaken (fun _ h => h) (fun _ _ h => h)
    fun stop r' hstop => ?_) (fun _ => ?_) r rfl
  · obtain ⟨⟨hwrote, hnot⟩, _⟩ := hstop
    have hopened' : r'.disk.record = d.record ∧ r'.old = d.record ∧ r'.owned = none := by
      rw [hwrote.rest]
      exact ⟨hopened.record, hopened.old, hopened.owned⟩
    refine Thrown.of_settled ?_ ?_ stop
    · intro record hrecord
      rw [hopened'.2.2, hopened'.2.1] at hrecord
      have hsome : d.record = some record := hrecord
      rw [hopened'.1, hsome]
      rfl
    · rw [accepted_wrote hd hopened hwrote, WritesKept, hnot]
      simp
  -- all files are written, and the record is still that of before
  refine Meets.get_bind fun r' hr' => ?_
  obtain ⟨hwrote, hwritten⟩ := hr'
  have hbefore := accepted_wrote hd hopened hwrote
  have hafter := @accepted_owned Digest p r r' _ digest r'.old hwrote hwritten
  have hkept : savedBy p .saveInstalling = true → WritesKept digest p d :=
    fun h => .inl ⟨hwritten, h⟩
  have hlost : savedBy p .saveInstalling = false →
      (Accepted digest p.plan r'.disk ↔ WritesKept digest p d) := by
    intro h
    rw [hbefore, WritesKept, h]
    simp
  refine Meets.bind (Q := fun _ r => r = { r' with owned := some (ownedState digest p r'.old) })
    (fun r₁ hr₁ => by rw [hr₁]; rfl) fun _ => ?_
  refine Meets.bind (Q := fun _ => Saved (fun d' => Accepted digest p.plan d' ↔ WritesKept digest p d)
    (ownedState digest p r'.old)) ?_ fun _ => ?_
  · refine Meets.atomic_cases (fun r₁ r₂ hfate hr₁ heff => ?_)
      (fun r₁ _ _ heff => absurd heff (by simp)) (fun fault r₁ hfate hr₁ => ?_)
      fun fault r₁ hfate hr₁ => ?_
    · rw [← Option.some.inj heff, hr₁]
      refine ⟨rfl, rfl, ?_⟩
      exact iff_of_true hafter (hkept (by rw [savedBy, hfate]; rfl))
    · rw [hr₁]
      refine .inr ⟨rfl, ?_, haction, _, rfl, fun hl => ?_, fun hl => ?_⟩
      · rw [hwrote.rest]
        exact hheld
      · exact iff_of_true hafter (hkept (by rw [savedBy, hfate, hl]; rfl))
      · exact hlost (by rw [savedBy, hfate, hl]; rfl)
    · rw [hr₁]
      show Accepted digest p.plan (Run.disk _) ↔ _
      split
      · rename_i hl
        exact iff_of_true hafter (hkept (by rw [savedBy, hl]; rfl))
      · rename_i hl
        refine hlost ?_
        rw [savedBy, Bool.eq_false_iff.mpr hl, hfate]
        rfl
  refine (quiet_settled (quiet_commands _)).bind fun _ => ?_
  refine (quiet_settled Quiet.look).bind fun same => ?_
  refine (quiet_settled (Quiet.throwIf (by simp [Plain, fileErrors]))).bind fun _ => ?_
  refine (quiet_settled quiet_readback).bind fun back => ?_
  refine (quiet_settled (Quiet.throwIf (by simp [Plain, fileErrors]))).bind fun _ => ?_
  have hsave : ∀ value, ownership value = ownership (ownedState digest p r'.old) →
      Meets _ (p.save .saveInstalled value) _ _ := fun value => save_saved hstable
  refine Meets.bind (hsave _ rfl) fun _ => ?_
  exact Meets.pure fun _ h => h.holds

/-! ## Removing -/

/-- Behind each file that is removed, the record is saved without it. -/
def RemovalsKept (p : Session) (s : SyncScheduleState Digest) : List ScheduleFile → Prop
  | [] => True
  | f :: files =>
      if (s.hash f.path).isSome then
        if isDone (p.fate (.unlink f.path)) then
          if isDone (p.fate (.saveRemoved f.path)) then RemovalsKept p s files
          else savedBy p (.saveRemoved f.path) = true
        else (p.fate (.unlink f.path)).lands = false
      else RemovalsKept p s files

omit [DecidableEq Digest] in
theorem forget_hash_self (s : SyncScheduleState Digest) (path : Path) :
    (s.forget path).hash path = none := by
  rw [SyncScheduleState.hash, SyncScheduleState.forget, List.lookup_eq_none_iff]
  intro entry hentry
  have hne := (List.mem_filter.mp hentry).2
  simpa using fun h => (of_decide_eq_true hne) h.symm

omit [DecidableEq Digest] in
theorem forget_hash_of_ne (s : SyncScheduleState Digest) {path path' : Path} (h : path' ≠ path) :
    (s.forget path).hash path' = s.hash path' := by
  rw [SyncScheduleState.hash, SyncScheduleState.forget, SyncScheduleState.hash]
  induction s.fileHashes with
  | nil => rfl
  | cons entry entries ih =>
      rw [List.filter_cons]
      by_cases hkey : entry.1 = path
      · rw [if_neg (by simp [hkey]), List.lookup_cons, beq_eq_false_iff_ne.mpr (hkey ▸ h)]
        exact ih
      · rw [if_pos (by simp [hkey]), List.lookup_cons, List.lookup_cons, ih]

omit [DecidableEq Digest] in
theorem ownedBy_forget {s : SyncScheduleState Digest} (h : OwnedBy plan s) (path : Path) :
    OwnedBy plan (s.forget path) :=
  ⟨h.1, h.2.1, fun entry hentry => h.2.2 entry (List.mem_of_mem_filter hentry)⟩

def removePath (path : Path) (d : Disk Digest) : Disk Digest :=
  { d with files := Function.update d.files path none }

omit [DecidableEq Digest] in
@[simp] theorem removePath_self (path : Path) (d : Disk Digest) :
    (removePath path d).files path = none := Function.update_self ..

omit [DecidableEq Digest] in
theorem removePath_of_ne {path path' : Path} (h : path' ≠ path) (d : Disk Digest) :
    (removePath path d).files path' = d.files path' := Function.update_of_ne h ..

omit [DecidableEq Digest] in
theorem hashIn_of_ownership {record : Option (SyncScheduleState Digest)}
    {s : SyncScheduleState Digest} (h : record.map ownership = some (ownership s)) (path : Path) :
    hashIn record path = s.hash path := by
  obtain ⟨s', rfl, howned⟩ := Option.map_eq_some_iff.mp h
  simp only [ownership, Prod.mk.injEq] at howned
  rw [hashIn, Option.bind_some, SyncScheduleState.hash, howned.2.2, SyncScheduleState.hash]

/-- A file that is removed and still recorded is refused. -/
theorem not_accepted_removed {s : SyncScheduleState Digest} {f : ScheduleFile} (hf : f ∈ plan.files)
    (hs : d.record.map ownership = some (ownership s)) (hhash : (s.hash f.path).isSome = true) :
    ¬ Accepted digest plan (removePath f.path d) := by
  intro h
  have hrec := h.files f hf
  have hrecord : (removePath f.path d).record = d.record := rfl
  obtain ⟨expected, hexpected⟩ := Option.isSome_iff_exists.mp hhash
  rw [hrecord, hashIn_of_ownership hs, removePath_self, hexpected] at hrec
  exact absurd hrec (by simp [recordedAs])

/-- A file that is removed and no longer recorded is as recorded. -/
theorem accepted_forgotten {s : SyncScheduleState Digest} {f : ScheduleFile}
    (h : Accepted digest plan { d with record := some s }) :
    Accepted digest plan { removePath f.path d with record := some (s.forget f.path) } := by
  refine ⟨fun s' hs' => ?_, fun g hg => ?_⟩
  · obtain rfl := Option.some.inj hs'
    exact ownedBy_forget (h.owner s rfl) f.path
  · have hold := h.files g hg
    show recordedAs digest ((s.forget f.path).hash g.path) ((removePath f.path d).files g.path) = true
    by_cases hpath : g.path = f.path
    · rw [hpath, forget_hash_self, removePath_self]
      rfl
    · rw [forget_hash_of_ne s hpath, removePath_of_ne hpath]
      exact hold

/-- The files that are left are recorded as at the start. -/
structure Removing (digest : Bytes → Digest) (p : Session) (s : SyncScheduleState Digest)
    (files : List ScheduleFile) (r : Run Digest) : Prop where
  owned : ∃ owned, r.owned = some owned ∧ r.disk.record.map ownership = some (ownership owned) ∧
    ∀ f ∈ files, owned.hash f.path = s.hash f.path
  accepted : Accepted digest p.plan r.disk
  held : r.lock = true

/-- A file that is recorded is removed, and then the record is saved without it. -/
theorem removeFile_meets (haction : p.action ≠ .status) (s : SyncScheduleState Digest)
    {f : ScheduleFile} {files : List ScheduleFile} (hf : f ∈ p.plan.files)
    (hnew : f.path ∉ files.map ScheduleFile.path) :
    Meets (Removing digest p s (f :: files)) (removeFile p f)
      (fun _ r => Removing digest p s files r ∧
        (RemovalsKept p s (f :: files) ↔ RemovalsKept p s files))
      (Thrown p fun d => Accepted digest p.plan d ↔ RemovalsKept p s (f :: files)) := by
  unfold removeFile
  refine Meets.get_bind fun r hr => ?_
  obtain ⟨⟨owned, howned, hrecord, hhashes⟩, haccepted, hheld⟩ := hr
  have hhash : owned.hash f.path = s.hash f.path := hhashes f List.mem_cons_self
  rw [howned]
  dsimp only
  refine Meets.doIf (fun hsome => ?_) fun r' hr' hnone => ?_
  swap
  · obtain rfl := hr'
    refine ⟨⟨⟨owned, howned, hrecord, fun g hg => hhashes g (List.mem_cons_of_mem f hg)⟩,
      haccepted, hheld⟩, ?_⟩
    rw [RemovalsKept, if_neg (by rwa [← hhash])]
  have hrecorded : (s.hash f.path).isSome = true := by rwa [← hhash]
  have hexists : (r.disk.files f.path).isSome = true := by
    have hrec := haccepted.files f hf
    obtain ⟨expected, hexpected⟩ := Option.isSome_iff_exists.mp hsome
    rw [hashIn_of_ownership hrecord, hexpected] at hrec
    cases hfile : r.disk.files f.path with
    | none =>
        rw [hfile] at hrec
        exact absurd hrec (by simp [recordedAs])
    | some node => rfl
  have hrefused : ¬ Accepted digest p.plan (removePath f.path r.disk) :=
    not_accepted_removed hf hrecord hsome
  have hforgotten : Accepted digest p.plan
      { removePath f.path r.disk with record := some (owned.forget f.path) } := by
    refine accepted_forgotten ?_
    have hsame : SameOwnership r.disk { r.disk with record := some owned } := ⟨rfl, hrecord.symm⟩
    exact hsame.accepted haccepted
  refine Meets.bind (Q := fun _ r' => r' = { r with disk := removePath f.path r.disk } ∧
    isDone (p.fate (.unlink f.path)) = true) ?_ fun _ => ?_
  · refine Meets.atomic_cases (fun r₁ r₂ hfate hr₁ heff => ?_) (fun r₁ _ hr₁ heff => ?_)
      (fun fault r₁ hfate hr₁ => ?_) fun fault r₁ hfate hr₁ => ?_
    · obtain rfl := hr₁
      simp only [hexists, if_true, Option.map_some, Option.some.injEq] at heff
      exact ⟨heff.symm, by rw [hfate]; rfl⟩
    · obtain rfl := hr₁
      simp [hexists] at heff
    · obtain rfl := hr₁
      refine Thrown.of_settled ?_ (iff_of_true haccepted ?_) _
      · intro record hinhand
        rw [howned] at hinhand
        rw [hrecord, Option.some.inj hinhand]
      · rw [RemovalsKept, if_pos hrecorded, hfate]
        exact rfl
    · obtain rfl := hr₁
      have hkept : RemovalsKept p s (f :: files) ↔
          (p.fate (.unlink f.path)).lands = false := by
        rw [RemovalsKept, if_pos hrecorded, if_neg (by rw [hfate]; exact Bool.false_ne_true)]
      show Accepted digest p.plan (Run.disk _) ↔ _
      simp only [hkept, hexists, if_true, Option.map_some, Option.getD_some]
      split
      · rename_i hl
        exact iff_of_false hrefused (by simp [hl])
      · rename_i hl
        exact iff_of_true haccepted (Bool.eq_false_iff.mpr hl)
  refine Meets.assume fun hunlinked => ?_
  have hkept : RemovalsKept p s (f :: files) ↔
      if isDone (p.fate (.saveRemoved f.path)) then RemovalsKept p s files
      else savedBy p (.saveRemoved f.path) = true := by
    rw [RemovalsKept, if_pos hrecorded, if_pos hunlinked]
  refine Meets.bind (Q := fun _ r' => r' = { r with
      disk := removePath f.path r.disk, owned := some (owned.forget f.path) })
    (fun r₁ hr₁ => by rw [hr₁]; rfl) fun _ => ?_
  refine Meets.atomic_cases (fun r₁ r₂ hfate hr₁ heff => ?_)
    (fun r₁ _ _ heff => absurd heff (by simp)) (fun fault r₁ hfate hr₁ => ?_)
    fun fault r₁ hfate hr₁ => ?_
  · rw [← Option.some.inj heff, hr₁]
    refine ⟨⟨⟨owned.forget f.path, rfl, rfl, fun g hg => ?_⟩, hforgotten, hheld⟩, ?_⟩
    · have hne : g.path ≠ f.path := fun heq => hnew (heq ▸ List.mem_map_of_mem hg)
      rw [forget_hash_of_ne owned hne]
      exact hhashes g (List.mem_cons_of_mem f hg)
    · rw [hkept, if_pos (by rw [hfate]; rfl)]
  · rw [hr₁]
    have hsaved : RemovalsKept p s (f :: files) ↔ (p.fate .saveFailed).lands = true := by
      rw [hkept, if_neg (by rw [hfate]; exact Bool.false_ne_true), savedBy, hfate]
      rfl
    refine .inr ⟨rfl, hheld, haction, _, rfl, fun hl => ?_, fun hl => ?_⟩
    · exact iff_of_true hforgotten (hsaved.mpr hl)
    · exact iff_of_false hrefused (fun h => by rw [hsaved.mp h] at hl; exact absurd hl (by simp))
  · rw [hr₁]
    have hsaved : RemovalsKept p s (f :: files) ↔
        (p.fate (.saveRemoved f.path)).lands = true := by
      rw [hkept, if_neg (by rw [hfate]; exact Bool.false_ne_true), savedBy, hfate]
      exact Bool.or_false _ ▸ Iff.rfl
    show Accepted digest p.plan (Run.disk _) ↔ _
    rw [hsaved]
    split
    · rename_i hl
      exact iff_of_true hforgotten hl
    · rename_i hl
      exact iff_of_false hrefused hl

/-- **The removals**, one file after the other. -/
theorem removeFiles_meets (haction : p.action ≠ .status) (s : SyncScheduleState Digest)
    (files : List ScheduleFile) (hfiles : ∀ f ∈ files, f ∈ p.plan.files)
    (hnodup : (files.map ScheduleFile.path).Nodup) :
    Meets (Removing digest p s files) (forEach (removeFile p) files)
      (fun _ r => Removing digest p s [] r ∧ RemovalsKept p s files)
      (Thrown p fun d => Accepted digest p.plan d ↔ RemovalsKept p s files) := by
  induction files with
  | nil => exact Meets.pure fun _ hr => ⟨hr, trivial⟩
  | cons f files ih =>
      rw [List.map_cons, List.nodup_cons] at hnodup
      have hrest := ih (fun g hg => hfiles g (List.mem_cons_of_mem f hg)) hnodup.2
      refine Meets.bind (removeFile_meets haction s (hfiles f List.mem_cons_self) hnodup.1)
        fun _ => ?_
      refine Meets.assume fun hsame => ?_
      refine hrest.weaken (fun _ h => h) (fun _ _ h => ⟨h.1, hsame.mpr h.2⟩) fun stop r h => ?_
      rwa [hsame]

end Caveat.Sync.Schedule
