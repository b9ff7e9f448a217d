import Caveat.Pending.Queue

/-!
# No reminder is lost

A reminder that was created is on disk, or was returned with its text, or went with a directory in
which everything was old. Only two operations can break this: an acknowledgement removes whatever
is at its path by then, and a drain that does not answer has removed all the same.
-/

namespace Caveat.Pending

open Js

variable {q q' q'' : PendingQueue} {root : Text} {localeCompare : Text → Text → Ordering}

/-! ## What became of a reminder -/

/-- The creation that a file of a directory goes back to. -/
def PendingFile.creation (f : PendingFile) (dir name : Text) : Created :=
  { dir, name, serial := f.serial, text := f.text }

def PendingQueue.OnDisk (q : PendingQueue) (c : Created) : Prop :=
  ∃ f, q.fileAt c.dir c.name = some f ∧ f.creation c.dir c.name = c

def PendingQueue.Returned (q : PendingQueue) (c : Created) : Prop := (c.serial, c.text) ∈ q.returned

/-- Everything in the directory was older than the sweep's number of days. -/
def Sweep.AllOld (w : Sweep) : Prop := ∀ t ∈ w.contents.mtimes, t < w.now - w.staleDays * dayMs

/-- A sweep found the file in its directory, and everything there was old. -/
def PendingQueue.SweptWhenOld (q : PendingQueue) (c : Created) : Prop :=
  ∃ w ∈ q.swept, w.dir = c.dir ∧ w.AllOld ∧
    ∃ f, w.contents.files.lookup c.name = some f ∧ f.creation c.dir c.name = c

def PendingQueue.Kept (q : PendingQueue) (c : Created) : Prop :=
  q.OnDisk c ∨ q.Returned c ∨ q.SweptWhenOld c

/-- No reminder that was created is lost. -/
def RemindersKept (q : PendingQueue) : Prop := ∀ c ∈ q.created, q.Kept c

theorem PendingQueue.Kept.of_file {dir name : Text} {f : PendingFile}
    (h : q.fileAt dir name = some f) : q.Kept (f.creation dir name) := .inl ⟨f, h, rfl⟩

/-- What was kept is kept if the files are, and nothing returned or swept is forgotten. -/
theorem kept_of_files (hfiles : ∀ dir name f, q.fileAt dir name = some f →
      q'.Kept (f.creation dir name))
    (hreturned : q.returned ⊆ q'.returned) (hswept : q.swept ⊆ q'.swept) {c : Created}
    (h : q.Kept c) : q'.Kept c := by
  rcases h with ⟨f, hf, hc⟩ | hret | ⟨w, hw, hswept'⟩
  · rw [← hc]
    exact hfiles _ _ f hf
  · exact .inr (.inl (hreturned hret))
  · exact .inr (.inr ⟨w, hswept hw, hswept'⟩)

/-! ## Files of directories -/

@[simp] theorem fileAt_setDir (q : PendingQueue) (dir dir' name : Text) (d : SessionDir) :
    (q.setDir dir d).fileAt dir' name =
      if dir' = dir then d.files.lookup name else q.fileAt dir' name := by
  unfold PendingQueue.fileAt PendingQueue.setDir
  by_cases h : dir' = dir
  · rw [if_pos h, h, AList.lookup_insert]
    rfl
  · rw [if_neg h, AList.lookup_insert_ne h]

@[simp] theorem openDir_lookup (q : PendingQueue) (dir name : Text) (clock : Rat) :
    (q.openDir dir clock).files.lookup name = q.fileAt dir name := by
  unfold PendingQueue.openDir PendingQueue.fileAt
  cases q.dirs.lookup dir with
  | none => rfl
  | some d => rfl

theorem fileAt_of_lookup {dir : Text} {d : SessionDir} (h : q.dirs.lookup dir = some d)
    (name : Text) : q.fileAt dir name = d.files.lookup name := by
  rw [PendingQueue.fileAt, h]
  rfl

theorem insert_lookup (d : SessionDir) (name name' : Text) (f : PendingFile) (clock : Rat) :
    (d.insert name f clock).files.lookup name' =
      if name' = name then some f else d.files.lookup name' := by
  unfold SessionDir.insert
  by_cases h : name' = name
  · rw [if_pos h, h, AList.lookup_insert]
  · rw [if_neg h, AList.lookup_insert_ne h]

theorem erase_lookup (d : SessionDir) (name name' : Text) (clock : Rat) :
    (d.erase name clock).files.lookup name' =
      if name' = name then none else d.files.lookup name' := by
  unfold SessionDir.erase
  by_cases h : name' = name
  · rw [if_pos h, h, AList.lookup_erase]
  · rw [if_neg h, AList.lookup_erase_ne h]

theorem foldl_erase_lookup (fs : List (Sigma fun _ : Text => PendingFile)) (d : SessionDir)
    (name : Text) (clock : Rat) :
    (fs.foldl (fun d f => d.erase f.1 clock) d).files.lookup name =
      if name ∈ fs.map Sigma.fst then none else d.files.lookup name := by
  induction fs generalizing d with
  | nil => rfl
  | cons f fs ih =>
      rw [List.foldl_cons, ih, erase_lookup, List.map_cons]
      by_cases hin : name ∈ fs.map Sigma.fst
      · rw [if_pos hin, if_pos (List.mem_cons_of_mem _ hin)]
      · by_cases hf : name = f.1
        · rw [if_neg hin, if_pos hf, if_pos (by rw [hf]; exact List.mem_cons_self)]
        · rw [if_neg hin, if_neg hf, if_neg (by simp [hf, hin])]

/-- The temporary name of a publish is not its ready name. -/
theorem tempName_ne_readyName (key hex : Text) : readyName key ≠ tempName key hex := by
  intro h
  have hlast := congrArg (fun name => name.reverse.head?) h
  simp [readyName, tempName] at hlast

/-! ## What a step does -/

/-- Files go, and each that goes is accounted for. -/
structure Removes (q q' : PendingQueue) : Prop where
  kept : ∀ c, q.Kept c → q'.Kept c
  files : ∀ dir name f, q'.fileAt dir name = some f → q.fileAt dir name = some f
  next : q'.next = q.next
  created : q'.created = q.created
  returned : q'.returned = q.returned

theorem Removes.refl (q : PendingQueue) : Removes q q := ⟨fun _ h => h, fun _ _ _ h => h, rfl, rfl, rfl⟩

theorem Removes.trans (h : Removes q q') (h' : Removes q' q'') : Removes q q'' where
  kept c hc := h'.kept c (h.kept c hc)
  files dir name f hf := h.files dir name f (h'.files dir name f hf)
  next := h'.next.trans h.next
  created := h'.created.trans h.created
  returned := h'.returned.trans h.returned

/-- A step of the queue: new files have new numbers, and what is returned was on disk. -/
structure Advances (q q' : PendingQueue) : Prop where
  kept : ∀ c, q.Kept c → q'.Kept c
  next : q.next ≤ q'.next
  files : ∀ dir name f, q'.fileAt dir name = some f →
    q.fileAt dir name = some f ∨ (q.next ≤ f.serial ∧ f.serial < q'.next)
  created : ∀ c ∈ q'.created, c ∈ q.created ∨ q'.Kept c
  returned : ∀ r ∈ q'.returned, r ∈ q.returned ∨
    ∃ dir name f, q.fileAt dir name = some f ∧ r = (f.serial, f.text)

theorem Removes.advances (h : Removes q q') : Advances q q' where
  kept := h.kept
  next := h.next.ge
  files dir name f hf := .inl (h.files dir name f hf)
  created _ hc := .inl (h.created ▸ hc)
  returned _ hr := .inl (h.returned ▸ hr)

/-- A step that loses no file and notes no return and no sweep. -/
structure Adds (q q' : PendingQueue) : Prop where
  keep : ∀ dir name f, q.fileAt dir name = some f → q'.fileAt dir name = some f
  new : ∀ dir name f, q'.fileAt dir name = some f →
    q.fileAt dir name = some f ∨ (q.next ≤ f.serial ∧ f.serial < q'.next)
  next : q.next ≤ q'.next
  created : ∀ c ∈ q'.created, c ∈ q.created ∨ q'.OnDisk c
  returned : q'.returned = q.returned
  swept : q'.swept = q.swept

theorem Adds.advances (h : Adds q q') : Advances q q' where
  kept c hc := kept_of_files (fun dir name f hf => .of_file (h.keep dir name f hf))
    (by rw [h.returned]; exact List.Subset.refl _) (by rw [h.swept]; exact List.Subset.refl _) hc
  next := h.next
  files := h.new
  created c hc := (h.created c hc).imp_right .inl
  returned _ hr := .inl (h.returned ▸ hr)

/-- A step that leaves the files and the history as they are. -/
theorem Adds.of_same (hfiles : ∀ dir name, q'.fileAt dir name = q.fileAt dir name)
    (hnext : q.next ≤ q'.next) (hcreated : q'.created = q.created)
    (hreturned : q'.returned = q.returned) (hswept : q'.swept = q.swept) : Adds q q' where
  keep dir name f hf := by rw [hfiles, hf]
  new dir name f hf := .inl (by rw [← hfiles, hf])
  next := hnext
  created _ hc := .inl (hcreated ▸ hc)
  returned := hreturned
  swept := hswept

theorem Adds.refl (q : PendingQueue) : Adds q q :=
  .of_same (fun _ _ => rfl) (Nat.le_refl _) rfl rfl rfl

theorem Adds.trans (h : Adds q q') (h' : Adds q' q'') : Adds q q'' where
  keep dir name f hf := h'.keep dir name f (h.keep dir name f hf)
  new dir name f hf := by
    have hnext := h.next
    have hnext' := h'.next
    rcases h'.new dir name f hf with hold | hlate
    · rcases h.new dir name f hold with hfirst | hnew
      · exact .inl hfirst
      · exact .inr (by omega)
    · exact .inr (by omega)
  next := h.next.trans h'.next
  created c hc := by
    rcases h'.created c hc with hold | hnew
    · exact (h.created c hold).imp_right fun ⟨f, hf, hcreation⟩ => ⟨f, h'.keep _ _ f hf, hcreation⟩
    · exact .inr hnew
  returned := h'.returned.trans h.returned
  swept := h'.swept.trans h.swept

theorem Advances.refl (q : PendingQueue) : Advances q q := (Removes.refl q).advances

/-- A step that only adds files, with the next number, and notes them as created. -/
theorem Adds.of_next (hkeep : ∀ dir name f, q.fileAt dir name = some f →
      q'.fileAt dir name = some f)
    (hnew : ∀ dir name f, q'.fileAt dir name = some f →
      q.fileAt dir name = some f ∨ f.serial = q.next)
    (hnext : q'.next = q.next + 1)
    (hcreated : ∀ c ∈ q'.created, c ∈ q.created ∨ q'.OnDisk c)
    (hreturned : q'.returned = q.returned) (hswept : q'.swept = q.swept) : Adds q q' where
  keep := hkeep
  new dir name f hf := by
    rcases hnew dir name f hf with hold | hserial
    · exact .inl hold
    · exact .inr (by omega)
  next := by omega
  created := hcreated
  returned := hreturned
  swept := hswept

/-! ## Appending, publishing and claims -/

theorem fileAt_create (q : PendingQueue) (dir name text : Text) (clock : Rat) (dir' name' : Text) :
    (q.create dir name text clock).fileAt dir' name' =
      if dir' = dir ∧ name' = name then some { serial := q.next, text, mtime := clock }
      else q.fileAt dir' name' := by
  show (q.setDir dir _).fileAt dir' name' = _
  rw [fileAt_setDir, insert_lookup, openDir_lookup]
  by_cases hdir : dir' = dir
  · by_cases hname : name' = name
    · rw [if_pos hdir, if_pos hname, if_pos ⟨hdir, hname⟩]
    · rw [if_pos hdir, if_neg hname, if_neg (fun h => hname h.2), hdir]
  · rw [if_neg hdir, if_neg (fun h => hdir h.1)]

theorem adds_create {dir name text : Text} {clock : Rat} (h : q.fileAt dir name = none) :
    Adds q (q.create dir name text clock) := by
  refine .of_next ?_ ?_ rfl ?_ rfl rfl
  · intro dir' name' f hf
    -- the name was free, so the file found is another one
    rw [fileAt_create, if_neg ?_, hf]
    rintro ⟨rfl, rfl⟩
    rw [h] at hf
    exact absurd hf (by simp)
  · intro dir' name' f hf
    rw [fileAt_create] at hf
    split at hf
    · cases hf
      exact .inr rfl
    · exact .inl hf
  · intro c hc
    rcases List.mem_append.mp hc with hold | hnew
    · exact .inl hold
    · rw [List.mem_singleton.mp hnew]
      exact .inr ⟨_, by rw [fileAt_create, if_pos ⟨rfl, rfl⟩], rfl⟩

/-- Opening a directory leaves the files as they are. -/
theorem adds_openDir (q : PendingQueue) (dir : Text) (clock : Rat) :
    Adds q (q.setDir dir (q.openDir dir clock)) := by
  refine .of_same ?_ (Nat.le_refl _) rfl rfl rfl
  intro dir' name
  rw [fileAt_setDir, openDir_lookup]
  by_cases h : dir' = dir
  · rw [if_pos h, h]
  · rw [if_neg h]

theorem adds_append (q : PendingQueue) (root sessionId text stamp hex : Text) (clock : Rat)
    (commits : Bool) :
    Adds q (appendPendingReminder q root sessionId text stamp hex clock commits).2 := by
  unfold appendPendingReminder
  by_cases h : ((q.openDir (sanitizeSessionId sessionId) clock).files.lookup
      (appendName stamp hex)).isSome
  · rw [if_pos h]
    exact adds_openDir q _ clock
  · rw [if_neg h]
    rw [openDir_lookup, Option.isSome_iff_ne_none, not_not] at h
    exact adds_create h

/-- A step that writes one directory, adding files and losing none. -/
theorem Adds.of_setDir {dir : Text} {d : SessionDir}
    (hfiles : ∀ dir' name, q'.fileAt dir' name = (q.setDir dir d).fileAt dir' name)
    (hkeep : ∀ name f, q.fileAt dir name = some f → d.files.lookup name = some f)
    (hnew : ∀ name f, d.files.lookup name = some f → q.fileAt dir name = some f ∨ f.serial = q.next)
    (hnext : q'.next = q.next + 1) (hcreated : ∀ c ∈ q'.created, c ∈ q.created ∨ q'.OnDisk c)
    (hreturned : q'.returned = q.returned) (hswept : q'.swept = q.swept) : Adds q q' := by
  refine .of_next ?_ ?_ hnext hcreated hreturned hswept
  · intro dir' name f hf
    rw [hfiles, fileAt_setDir]
    by_cases hd : dir' = dir
    · rw [if_pos hd]
      exact hkeep name f (hd ▸ hf)
    · rw [if_neg hd, hf]
  · intro dir' name f hf
    rw [hfiles, fileAt_setDir] at hf
    by_cases hd : dir' = dir
    · rw [if_pos hd] at hf
      rw [hd]
      exact hnew name f hf
    · rw [if_neg hd] at hf
      exact .inl hf

theorem clean_lookup (e : PublishFaults) (d : SessionDir) (temp name : Text) (clock : Rat) :
    (e.clean d temp clock).files.lookup name =
      if name = temp ∧ e.tempStuck = false then none else d.files.lookup name := by
  unfold PublishFaults.clean
  cases hstuck : e.tempStuck with
  | true => simp
  | false => simp [erase_lookup]

theorem adds_publishLocked (q : PendingQueue) (dir key text hex : Text) (clock : Rat)
    (e : PublishFaults) : Adds q (publishLocked q dir key text hex clock e).2 := by
  unfold publishLocked
  dsimp only
  split
  · exact adds_openDir q dir clock
  · rename_i htemp
    rw [openDir_lookup, Option.isSome_iff_ne_none, not_not] at htemp
    have hne := tempName_ne_readyName key hex
    split
    · rename_i hlinked
      -- the link was made, so the ready name was free
      have hready : q.fileAt dir (readyName key) = none := by
        unfold PublishFaults.link at hlinked
        split at hlinked
        · exact absurd hlinked (by simp)
        · rw [insert_lookup, if_neg hne, openDir_lookup] at hlinked
          simpa using hlinked
      refine .of_setDir (fun _ _ => rfl) ?_ ?_ rfl ?_ rfl rfl
      · intro name f hf
        have hname : name ≠ tempName key hex := by rintro rfl; simp [htemp] at hf
        have hname' : name ≠ readyName key := by rintro rfl; simp [hready] at hf
        simp [clean_lookup, insert_lookup, hname, hname', hf]
      · intro name f hf
        rw [clean_lookup, insert_lookup, insert_lookup, openDir_lookup] at hf
        split at hf
        · exact absurd hf (by simp)
        · split at hf
          · cases hf
            exact .inr rfl
          · split at hf
            · cases hf
              exact .inr rfl
            · exact .inl hf
      · intro c hc
        rcases List.mem_append.mp hc with hold | hnew
        · exact .inl hold
        · rw [List.mem_singleton.mp hnew]
          refine .inr ⟨{ serial := q.next, text, mtime := clock }, ?_, rfl⟩
          show (q.setDir dir _).fileAt dir _ = _
          rw [fileAt_setDir, if_pos rfl, clean_lookup, if_neg (fun h => hne h.1), insert_lookup,
            if_pos rfl]
    · refine .of_setDir (fun _ _ => rfl) ?_ ?_ rfl (fun c hc => .inl hc) rfl rfl
      · intro name f hf
        have hname : name ≠ tempName key hex := by rintro rfl; simp [htemp] at hf
        simp [clean_lookup, insert_lookup, hname, hf]
      · intro name f hf
        rw [clean_lookup, insert_lookup, openDir_lookup] at hf
        split at hf
        · exact absurd hf (by simp)
        · split at hf
          · cases hf
            exact .inr rfl
          · exact .inl hf

theorem adds_publish (q : PendingQueue) (sessionId key text hex : Text) (clock : Rat)
    (e : PublishFaults) : Adds q (publishPendingReminder q sessionId key text hex clock e).2 := by
  unfold publishPendingReminder
  dsimp only
  split
  · exact .refl q
  · split
    · exact .refl q
    · have hlocked := adds_publishLocked q (sanitizeSessionId sessionId) key text hex clock e
      split
      · rename_i hpub
        rw [hpub] at hlocked
        exact hlocked
      · exact hlocked

/-- A step that changes the claims of a directory only. -/
theorem adds_setClaims {dir : Text} {d : SessionDir}
    (h : ∀ name, d.files.lookup name = q.fileAt dir name) : Adds q (q.setDir dir d) := by
  refine .of_same ?_ (Nat.le_refl _) rfl rfl rfl
  intro dir' name
  rw [fileAt_setDir, h]
  by_cases hd : dir' = dir
  · rw [if_pos hd, hd]
  · rw [if_neg hd]

theorem adds_acquire (q : PendingQueue) (sessionId key ownerToken : Text)
    (now ttlMs clock : Rat) :
    Adds q (acquirePendingClaim q sessionId key ownerToken now ttlMs clock).2 := by
  have hdir : ∀ claims, Adds q (q.setDir (sanitizeSessionId sessionId)
      { q.openDir (sanitizeSessionId sessionId) clock with claims }) :=
    fun claims => adds_setClaims (openDir_lookup q _ · clock)
  unfold acquirePendingClaim
  dsimp only
  split
  · exact .refl q
  · split
    · exact .refl q
    · split
      · exact hdir _
      · split
        · exact hdir _
        · exact hdir _

theorem adds_release (q : PendingQueue) (dir key ownerToken : Text) (clock : Rat) :
    Adds q (releasePendingClaim q dir key ownerToken clock).2 := by
  unfold releasePendingClaim
  split
  · exact .refl q
  · rename_i d hd
    split
    · exact .refl q
    · exact .refl q
    · split
      · exact adds_setClaims fun name => (fileAt_of_lookup hd name).symm
      · exact .refl q

/-! ## Peeking and draining -/

theorem mem_reminders {d : SessionDir} {f : Sigma fun _ : Text => PendingFile} :
    f ∈ d.reminders localeCompare ↔
      d.files.lookup f.1 = some f.2 ∧ isReminderName f.1 = true := by
  rw [SessionDir.reminders, List.mem_insertionSort, List.mem_filter]
  exact and_congr_left fun _ => AList.mem_lookup_iff.symm

theorem mem_readable {d : SessionDir} {e : ReadFaults} {f : Sigma fun _ : Text => PendingFile} :
    f ∈ d.readable localeCompare e ↔
      (d.files.lookup f.1 = some f.2 ∧ isReminderName f.1 = true) ∧ e.unreadable f.1 = false := by
  rw [SessionDir.readable, List.mem_filter, mem_reminders, Bool.not_eq_true']

theorem mem_drained {d : SessionDir} {e : ReadFaults} {f : Sigma fun _ : Text => PendingFile} :
    f ∈ d.drained localeCompare e ↔
      f ∈ d.readable localeCompare e ∧ e.undeletable f.1 = false := by
  rw [SessionDir.drained, List.mem_filter, Bool.not_eq_true']

/-- The history of a note: the old one, and the files if the reader gets its answer. -/
theorem mem_noteReturned {e : ReadFaults} {files : List (Sigma fun _ : Text => PendingFile)}
    {r : Nat × Text} : r ∈ (q.noteReturned e files).returned ↔
      r ∈ q.returned ∨ (e.answers = true ∧ ∃ f ∈ files, (f.2.serial, f.2.text) = r) := by
  unfold PendingQueue.noteReturned
  by_cases h : e.answers = true
  · simp [h, List.mem_append, List.mem_map]
  · simp [h]

@[simp] theorem noteReturned_fileAt (q : PendingQueue) (e : ReadFaults)
    (files : List (Sigma fun _ : Text => PendingFile)) (dir name : Text) :
    (q.noteReturned e files).fileAt dir name = q.fileAt dir name := by
  unfold PendingQueue.noteReturned
  split <;> rfl

@[simp] theorem noteReturned_next (q : PendingQueue) (e : ReadFaults)
    (files : List (Sigma fun _ : Text => PendingFile)) :
    (q.noteReturned e files).next = q.next := by
  unfold PendingQueue.noteReturned
  split <;> rfl

@[simp] theorem noteReturned_created (q : PendingQueue) (e : ReadFaults)
    (files : List (Sigma fun _ : Text => PendingFile)) :
    (q.noteReturned e files).created = q.created := by
  unfold PendingQueue.noteReturned
  split <;> rfl

@[simp] theorem noteReturned_swept (q : PendingQueue) (e : ReadFaults)
    (files : List (Sigma fun _ : Text => PendingFile)) :
    (q.noteReturned e files).swept = q.swept := by
  unfold PendingQueue.noteReturned
  split <;> rfl

/-- A read of some files of a directory, after the removal of files that were returned. -/
theorem advances_read {q₀ : PendingQueue} {dir : Text} {e : ReadFaults}
    {files : List (Sigma fun _ : Text => PendingFile)}
    (hfiles : ∀ f ∈ files, q.fileAt dir f.1 = some f.2)
    (hleft : ∀ dir' name f, q₀.fileAt dir' name = some f → q.fileAt dir' name = some f)
    (hgone : ∀ dir' name f, q.fileAt dir' name = some f → q₀.fileAt dir' name = some f ∨
      (f.serial, f.text) ∈ (q₀.noteReturned e files).returned)
    (hnext : q₀.next = q.next) (hcreated : q₀.created = q.created)
    (hreturned : q₀.returned = q.returned) (hswept : q₀.swept = q.swept) :
    Advances q (q₀.noteReturned e files) where
  kept c hc := by
    refine kept_of_files ?_ ?_ ?_ hc
    · intro dir' name f hf
      rcases hgone dir' name f hf with hstays | hret
      · exact .of_file (by rw [noteReturned_fileAt, hstays])
      · exact .inr (.inl hret)
    · intro r hr
      exact mem_noteReturned.mpr (.inl (hreturned ▸ hr))
    · rw [noteReturned_swept, hswept]
      exact List.Subset.refl _
  next := by rw [noteReturned_next, hnext]
  files dir' name f hf := by
    rw [noteReturned_fileAt] at hf
    exact .inl (hleft dir' name f hf)
  created c hc := by
    rw [noteReturned_created, hcreated] at hc
    exact .inl hc
  returned r hr := by
    rcases mem_noteReturned.mp hr with hold | ⟨_, f, hf, rfl⟩
    · exact .inl (hreturned ▸ hold)
    · exact .inr ⟨dir, f.1, f.2, hfiles f hf, rfl⟩

theorem fileAt_of_readable {dir : Text} {d : SessionDir} {e : ReadFaults}
    (hd : q.dirs.lookup dir = some d) {f : Sigma fun _ : Text => PendingFile}
    (hf : f ∈ d.readable localeCompare e) : q.fileAt dir f.1 = some f.2 := by
  rw [fileAt_of_lookup hd]
  exact (mem_readable.mp hf).1.1

theorem advances_peek (q : PendingQueue) (root sessionId : Text) (e : ReadFaults) :
    Advances q (peekPendingRemindersDetailed localeCompare q root sessionId e).2 := by
  unfold peekPendingRemindersDetailed
  dsimp only
  split
  · exact .refl q
  · rename_i d hd
    exact advances_read (fun f hf => fileAt_of_readable hd hf) (fun _ _ _ hf => hf)
      (fun _ _ _ hf => .inl hf) rfl rfl rfl rfl

/-- A drain without an answer removes only what was returned before. -/
def DrainSafe (q : PendingQueue) (sessionId : Text) (e : ReadFaults) : Prop :=
  e.answers = false → ∀ name f, q.fileAt (sanitizeSessionId sessionId) name = some f →
    isReminderName name = true → e.unreadable name = false → e.undeletable name = false →
      (f.serial, f.text) ∈ q.returned

theorem advances_drain {sessionId : Text} {clock : Rat} {e : ReadFaults}
    (h : DrainSafe q sessionId e) :
    Advances q (drainPendingRemindersDetailed localeCompare q sessionId clock e).2 := by
  unfold drainPendingRemindersDetailed
  generalize hdir : sanitizeSessionId sessionId = dir
  unfold DrainSafe at h
  rw [hdir] at h
  dsimp only
  split
  · exact .refl q
  · rename_i d hd
    refine advances_read (fun f hf => fileAt_of_readable hd hf) ?_ ?_ rfl rfl rfl rfl
    · intro dir' name f hf
      rw [fileAt_setDir, foldl_erase_lookup] at hf
      split at hf
      · rename_i hdir
        split at hf
        · exact absurd hf (by simp)
        · rw [hdir, fileAt_of_lookup hd, hf]
      · exact hf
    · intro dir' name f hf
      rw [fileAt_setDir, foldl_erase_lookup]
      by_cases hdir : dir' = dir
      · rw [if_pos hdir]
        rw [hdir] at hf
        by_cases hin : name ∈ (d.drained localeCompare e).map Sigma.fst
        · obtain ⟨g, hg, rfl⟩ := List.mem_map.mp hin
          obtain ⟨hread, hdel⟩ := mem_drained.mp hg
          obtain ⟨⟨_, hname⟩, hun⟩ := mem_readable.mp hread
          have hg := fileAt_of_readable hd hread
          rw [hf] at hg
          cases hg
          refine .inr (mem_noteReturned.mpr ?_)
          -- the file that goes is the one that was read
          by_cases hans : e.answers = true
          · exact .inr ⟨hans, g, hread, rfl⟩
          · exact .inl (h (by simpa using hans) g.1 g.2 hf hname hun hdel)
        · rw [if_neg hin, ← fileAt_of_lookup hd]
          exact .inl hf
      · rw [if_neg hdir]
        exact .inl hf

/-! ## Acknowledging -/

/-- The removal of what a location names is of something that was returned, if of a reminder. -/
def UnlinkSafe (q : PendingQueue) (loc : Location) : Prop :=
  ∀ dir name f, loc = .entry dir name → q.fileAt dir name = some f →
    (f.serial, f.text) ∈ q.returned

theorem removes_setDir {dir : Text} {d : SessionDir}
    (hleft : ∀ name f, d.files.lookup name = some f → q.fileAt dir name = some f)
    (hgone : ∀ name f, q.fileAt dir name = some f → d.files.lookup name = some f ∨
      (f.serial, f.text) ∈ q.returned) : Removes q (q.setDir dir d) where
  kept c hc := by
    refine @kept_of_files q (q.setDir dir d) ?_ (List.Subset.refl _) (List.Subset.refl _) c hc
    intro dir' name f hf
    by_cases hdir : dir' = dir
    · rcases hgone name f (hdir ▸ hf) with hstays | hret
      · exact .of_file (by rw [fileAt_setDir, if_pos hdir, hstays])
      · exact .inr (.inl hret)
    · exact .of_file (by rw [fileAt_setDir, if_neg hdir, hf])
  files dir' name f hf := by
    rw [fileAt_setDir] at hf
    split at hf
    · rename_i hdir
      rw [hdir]
      exact hleft name f hf
    · exact hf
  next := rfl
  created := rfl
  returned := rfl

theorem removes_unlink {loc : Location} {clock : Rat} (h : UnlinkSafe q loc) :
    Removes q (q.unlink loc clock) := by
  cases loc with
  | entry dir name =>
      unfold PendingQueue.unlink
      dsimp only
      split
      · rename_i d hd
        split
        · refine removes_setDir ?_ ?_
          · intro name' f hf
            rw [erase_lookup] at hf
            split at hf
            · exact absurd hf (by simp)
            · rw [fileAt_of_lookup hd, hf]
          · intro name' f hf
            by_cases hname : name' = name
            · exact .inr (h dir name f rfl (hname ▸ hf))
            · rw [erase_lookup, if_neg hname, ← fileAt_of_lookup hd]
              exact .inl hf
        · exact .refl q
      · exact .refl q
  | claim dir name =>
      unfold PendingQueue.unlink
      dsimp only
      split
      · rename_i d hd
        refine removes_setDir ?_ ?_
        · intro name' f hf
          rw [fileAt_of_lookup hd]
          exact hf
        · intro name' f hf
          rw [fileAt_of_lookup hd] at hf
          exact .inl hf
      · exact .refl q
  | lock => exact .refl q
  | elsewhere => exact .refl q

/-- The paths that an acknowledgement comes to before the first one that it fails at. -/
def reached (root : Text) (refuses : Text → Option Refusal) (paths : List Text) : List Text :=
  paths.takeWhile (fun path => insideRoot root path && refuses path ≠ some .failed)

/--
What is at the acknowledged paths by then, if it is a reminder, has been returned, and the lock
is not among it.
-/
def AcknowledgeSafe (root : Text) (q : PendingQueue) (refuses : Text → Option Refusal)
    (paths : List Text) : Prop :=
  ∀ path ∈ reached root refuses paths, refuses path = none →
    locate root path ≠ .lock ∧ UnlinkSafe q (locate root path)

theorem UnlinkSafe.of_removes {loc : Location} (h : UnlinkSafe q loc) (hr : Removes q q') :
    UnlinkSafe q' loc := by
  intro dir name f hloc hf
  rw [hr.returned]
  exact h dir name f hloc (hr.files dir name f hf)

theorem AcknowledgeSafe.tail {refuses : Text → Option Refusal} {path : Text} {paths : List Text}
    (h : AcknowledgeSafe root q refuses (path :: paths)) (hr : Removes q q')
    (hin : insideRoot root path = true) (href : refuses path ≠ some .failed) :
    AcknowledgeSafe root q' refuses paths := by
  intro path' hpath' hnone
  have hmem : path' ∈ reached root refuses (path :: paths) := by
    rw [reached, List.takeWhile_cons, if_pos (by simp [hin, href])]
    exact List.mem_cons_of_mem path hpath'
  exact ⟨(h path' hmem hnone).1, (h path' hmem hnone).2.of_removes hr⟩

theorem removes_acknowledge {refuses : Text → Option Refusal} {clock : Rat} {paths : List Text}
    (h : AcknowledgeSafe root q refuses paths) :
    Removes q (acknowledgePendingReminders root refuses clock paths q).2 := by
  induction paths generalizing q with
  | nil => exact .refl q
  | cons path paths ih =>
      rw [acknowledgePendingReminders]
      by_cases hin : insideRoot root path = true
      · rw [if_neg (by simp [hin])]
        cases href : refuses path with
        | none =>
            have hfirst : path ∈ reached root refuses (path :: paths) := by
              rw [reached, List.takeWhile_cons, if_pos (by simp [hin, href])]
              exact List.mem_cons_self
            have hunlink : Removes q (q.unlink (locate root path) clock) :=
              removes_unlink (h path hfirst href).2
            exact hunlink.trans (ih (h.tail hunlink hin (by simp [href])))
        | some r =>
            cases r with
            | failed => exact .refl q
            | missing => exact ih (h.tail (.refl q) hin (by simp [href]))
      · rw [if_pos (by simp [hin])]
        exact .refl q

/-! ## Sweeping -/

theorem le_foldl_max (ts : List Rat) (a : Rat) : a ≤ ts.foldl max a ∧ ∀ t ∈ ts, t ≤ ts.foldl max a := by
  induction ts generalizing a with
  | nil => exact ⟨le_refl a, by simp⟩
  | cons t ts ih =>
      obtain ⟨hle, hall⟩ := ih (max a t)
      refine ⟨(le_max_left a t).trans hle, fun u hu => ?_⟩
      rcases List.mem_cons.mp hu with rfl | hu
      · exact (le_max_right a u).trans hle
      · exact hall u hu

theorem keepOnly_lookup {d : SessionDir} {keep : Text → Bool} {name : Text} {f : PendingFile}
    (h : (d.keepOnly keep).files.lookup name = some f) : d.files.lookup name = some f := by
  have hfold : ∀ (es : List (Sigma fun _ : Text => PendingFile))
      (fs : AList fun _ : Text => PendingFile),
      (es.foldl (fun fs e => if keep e.1 then fs else fs.erase e.1) fs).lookup name = some f →
        fs.lookup name = some f := by
    intro es
    induction es with
    | nil => exact fun _ h => h
    | cons e es ih =>
        intro fs hlook
        rw [List.foldl_cons] at hlook
        have hlook := ih _ hlook
        split at hlook
        · exact hlook
        · by_cases hname : name = e.1
          · rw [hname, AList.lookup_erase] at hlook
            exact absurd hlook (by simp)
          · rwa [AList.lookup_erase_ne hname] at hlook
  exact hfold _ _ h

/-- A directory that was noted as swept may lose its files. -/
theorem removes_noted {dir : Text} {d : SessionDir} {w : Sweep} (hd : q.dirs.lookup dir = some d)
    (hw : w.dir = dir) (hcontents : w.contents = d) (hold : w.AllOld)
    (hother : ∀ dir' name, dir' ≠ dir → q'.fileAt dir' name = q.fileAt dir' name)
    (hleft : ∀ name f, q'.fileAt dir name = some f → d.files.lookup name = some f)
    (hnext : q'.next = q.next) (hcreated : q'.created = q.created)
    (hreturned : q'.returned = q.returned) (hswept : q'.swept = q.swept ++ [w]) :
    Removes q q' where
  kept c hc := by
    refine kept_of_files ?_ (by rw [hreturned]; exact List.Subset.refl _)
      (by rw [hswept]; exact List.subset_append_left _ _) hc
    intro dir' name f hf
    by_cases hdir : dir' = dir
    · refine .inr (.inr ⟨w, by rw [hswept]; simp, hw.trans hdir.symm, hold, f, ?_, rfl⟩)
      rw [hcontents, ← fileAt_of_lookup hd, ← hdir]
      exact hf
    · exact .of_file (by rw [hother dir' name hdir, hf])
  files dir' name f hf := by
    by_cases hdir : dir' = dir
    · rw [hdir] at hf ⊢
      rw [fileAt_of_lookup hd]
      exact hleft name f hf
    · rw [← hother dir' name hdir, hf]
  next := hnext
  created := hcreated
  returned := hreturned

theorem removes_sweepDir (now staleDays : Rat) (e : SweepFaults)
    (acc : (List Text × Nat) × PendingQueue) (dir : Text) :
    Removes acc.2 (sweepDir now staleDays e acc dir).2 := by
  obtain ⟨⟨removed, kept⟩, q⟩ := acc
  unfold sweepDir
  dsimp only
  split
  · exact .refl q
  · rename_i d hd
    split
    · exact .refl q
    · split
      · exact .refl q
      · rename_i hnew
        have hold : ∀ t ∈ d.mtimes, t < now - staleDays * dayMs := by
          intro t ht
          have hle : t ≤ d.newest := (le_foldl_max d.mtimes d.mtime).2 t ht
          rw [Bool.or_eq_true, decide_eq_true_iff, not_or, not_le] at hnew
          exact lt_of_le_of_lt hle hnew.2
        split
        · refine removes_noted (w := { dir, contents := d, now, staleDays }) hd rfl rfl hold ?_ ?_
            rfl rfl rfl rfl
          · intro dir' name hdir
            show (AList.lookup dir' (q.dirs.erase dir)).bind _ = _
            rw [AList.lookup_erase_ne hdir]
            rfl
          · intro name f hf
            have hgone : (AList.lookup dir (q.dirs.erase dir)).bind
                (fun d => d.files.lookup name) = some f := hf
            rw [AList.lookup_erase] at hgone
            exact absurd hgone (by simp)
        · refine removes_noted (w := { dir, contents := d, now, staleDays }) hd rfl rfl hold ?_ ?_
            rfl rfl rfl rfl
          · intro dir' name hdir
            rw [fileAt_setDir, if_neg hdir]
            rfl
          · intro name f hf
            rw [fileAt_setDir, if_pos rfl] at hf
            exact keepOnly_lookup hf

theorem removes_sweep (q : PendingQueue) (now staleDays : Rat) (e : SweepFaults) :
    Removes q (cleanupStalePendingDirs q now staleDays e).2 := by
  unfold cleanupStalePendingDirs
  split
  · exact .refl q
  · -- the loop, from any state that it may be in
    have hloop : ∀ (dirs : List Text) (acc : (List Text × Nat) × PendingQueue),
        Removes acc.2 (dirs.foldl (sweepDir now staleDays e) acc).2 := by
      intro dirs
      induction dirs with
      | nil => exact fun acc => .refl acc.2
      | cons dir dirs ih =>
          intro acc
          exact (removes_sweepDir now staleDays e acc dir).trans (ih _)
    exact hloop q.dirs.keys (([], 0), q)

/-! ## Runs -/

/--
An acknowledgement comes to no reminder that was not returned, and a drain without an answer
removes only what was returned before.
-/
def PendingSafe (root : Text) (q : PendingQueue) : PendingAction → Prop
  | .acknowledge paths refuses _ => AcknowledgeSafe root q refuses paths
  | .drain sessionId _ e => DrainSafe q sessionId e
  | _ => True

/-- Only the two operations of `PendingSafe` need a condition. -/
theorem advances_step {a : PendingAction} (hok : PendingSafe root q a)
    (hs : pendingStep root localeCompare q a = some q') : Advances q q' := by
  cases a with
  | append sessionId text stamp hex clock commits =>
      cases hs
      exact (adds_append q root sessionId text stamp hex clock commits).advances
  | publish sessionId key text hex clock e =>
      cases hs
      exact (adds_publish q sessionId key text hex clock e).advances
  | acquire sessionId key ownerToken now ttlMs clock =>
      cases hs
      exact (adds_acquire q sessionId key ownerToken now ttlMs clock).advances
  | release dir key ownerToken clock =>
      cases hs
      exact (adds_release q dir key ownerToken clock).advances
  | peek sessionId e =>
      cases hs
      exact advances_peek q root sessionId e
  | acknowledge paths refuses clock =>
      cases hs
      exact (removes_acknowledge hok).advances
  | drain sessionId clock e =>
      cases hs
      exact advances_drain hok
  | sweep now staleDays e =>
      cases hs
      exact (removes_sweep q now staleDays e).advances

/-- Every number on disk or in the history of returns was given out. -/
structure SerialsGiven (q : PendingQueue) : Prop where
  files : ∀ dir name f, q.fileAt dir name = some f → f.serial < q.next
  returned : ∀ r ∈ q.returned, r.1 < q.next

/-- A number is given once: nothing with the next number was returned before. -/
theorem SerialsGiven.advances (h : SerialsGiven q) (hs : Advances q q') : SerialsGiven q' where
  files dir name f hf := by
    rcases hs.files dir name f hf with hold | hnew
    · exact (h.files dir name f hold).trans_le hs.next
    · exact hnew.2
  returned r hr := by
    rcases hs.returned r hr with hold | ⟨dir, name, f, hf, rfl⟩
    · exact (h.returned r hold).trans_le hs.next
    · exact (h.files dir name f hf).trans_le hs.next

theorem RemindersKept.advances (h : RemindersKept q) (hs : Advances q q') : RemindersKept q' := by
  intro c hc
  rcases hs.created c hc with hold | hnew
  · exact hs.kept c (h c hold)
  · exact hnew

/--
**Reminders are kept by acknowledgements of what was returned.** In every run in which an
acknowledgement comes to no reminder that was not returned, and no drain fails to answer for what
it removes, every reminder that was created is on disk, or was returned with its text, or went
with a directory in which everything was old; and a return bears a number that was given out.
-/
theorem reminders_kept_of_safe (root : Text) (localeCompare : Text → Text → Ordering)
    (q : PendingQueue)
    (h : Lib.Reaches (pendingStep root localeCompare) (PendingSafe root) PendingStart q) :
    RemindersKept q ∧ SerialsGiven q := by
  refine h.invariant (I := fun q => RemindersKept q ∧ SerialsGiven q) ?_ ?_
  · intro q hq
    obtain ⟨hcreated, hreturned, _, hserial⟩ := hq
    exact ⟨by rw [RemindersKept, hcreated]; simp, hserial, by rw [hreturned]; simp⟩
  · intro q a q' hi hok hs
    have hadv := advances_step hok hs
    exact ⟨hi.1.advances hadv, hi.2.advances hadv⟩

/-- The condition of an acknowledgement, as a test. -/
def acknowledgeSafe (root : Text) (q : PendingQueue) (refuses : Text → Option Refusal)
    (paths : List Text) : Bool :=
  (reached root refuses paths).all (fun path => (refuses path).isSome ||
    match locate root path with
    | .entry dir name => (q.fileAt dir name).all (fun f => (f.serial, f.text) ∈ q.returned)
    | .lock => false
    | _ => true)

theorem acknowledgeSafe_of_test {refuses : Text → Option Refusal} {paths : List Text}
    (h : acknowledgeSafe root q refuses paths = true) : AcknowledgeSafe root q refuses paths := by
  intro path hpath hnone
  have htest := List.all_eq_true.mp h path hpath
  rw [hnone, Option.isSome_none, Bool.false_or] at htest
  constructor
  · intro hlock
    rw [hlock] at htest
    exact absurd htest (by simp)
  · intro dir name f hloc hf
    rw [hloc] at htest
    simpa [hf] using htest

/-- The condition of a step, as a test that no silent drain passes. -/
def pendingSafe (root : Text) (q : PendingQueue) : PendingAction → Bool
  | .acknowledge paths refuses _ => acknowledgeSafe root q refuses paths
  | .drain _ _ e => e.answers
  | _ => true

theorem pendingSafe_of_test {a : PendingAction} (h : pendingSafe root q a = true) :
    PendingSafe root q a := by
  cases a with
  | acknowledge paths refuses clock => exact acknowledgeSafe_of_test h
  | drain sessionId clock e =>
      intro hans
      rw [show e.answers = true from h] at hans
      exact absurd hans (by simp)
  | _ => trivial

/-- A root of the queue, a session and a key. -/
def someRoot : Text := "/h/pending".toList

def someSession : Text := ['s']

def someKey : Text := List.replicate 64 'a'

def somePath : Text := pendingPath someRoot someSession (readyName someKey)

/-- Publish under the key, at one time. -/
def publishSome (text hex : Text) : PendingAction := .publish someSession someKey text hex 0 {}

theorem pendingStart_empty : PendingStart {} := ⟨rfl, rfl, rfl, by simp [PendingQueue.fileAt]⟩

/-- A reminder is published, peeked at and acknowledged, and another one is drained. -/
theorem reminders_kept_of_safe_published : ∃ q : PendingQueue,
    q.returned.map Prod.fst = [0, 1] ∧ q.created.map Created.serial = [0, 1] ∧ RemindersKept q := by
  obtain ⟨q, hreach, htest⟩ := Lib.Reaches.exists_of_tested_run
    (pendingStep someRoot (fun _ _ => .eq))
    (fun q a (h : pendingSafe someRoot q a = true) => pendingSafe_of_test h)
    (.init pendingStart_empty)
    [publishSome ['x'] ['0'], .peek someSession {}, .acknowledge [somePath] (fun _ => none) 1,
      publishSome ['y'] ['1'], .drain someSession 2 {}]
    (fun q => q.returned.map Prod.fst = [0, 1] && q.created.map Created.serial = [0, 1] &&
      (q.fileAt someSession (readyName someKey)).isNone)
    (by decide +kernel)
  have hkept := (reminders_kept_of_safe someRoot _ q hreach).1
  simp only [Bool.and_eq_true, decide_eq_true_eq] at htest
  exact ⟨q, htest.1.1, htest.1.2, hkept⟩

/--
Two processes peek at a reminder. One acknowledges it, the reminder is published again, and the
other one acknowledges: it removes the new reminder, which nobody was given.
-/
theorem reminder_acknowledged_unread : ∃ (root : Text) (q : PendingQueue),
    Lib.Reaches (pendingStep root (fun _ _ => .eq)) (fun _ _ => True) PendingStart q ∧
      q.created.map Created.serial = [0, 1] ∧ ¬ RemindersKept q := by
  obtain ⟨q, hreach, htest⟩ := Lib.Reaches.exists_of_run
    (pendingStep someRoot (fun _ _ => .eq)) pendingStart_empty
    [publishSome ['x'] ['0'], .peek someSession {}, .peek someSession {},
      .acknowledge [somePath] (fun _ => none) 1, publishSome ['y'] ['1'],
      .acknowledge [somePath] (fun _ => none) 2]
    (fun q => q.created = [⟨someSession, readyName someKey, 0, ['x']⟩,
        ⟨someSession, readyName someKey, 1, ['y']⟩] &&
      q.returned = [(0, ['x']), (0, ['x'])] && q.swept.isEmpty &&
      (q.fileAt someSession (readyName someKey)).isNone)
    (by decide +kernel)
  simp only [Bool.and_eq_true, decide_eq_true_eq, List.isEmpty_iff, Option.isNone_iff_eq_none]
    at htest
  obtain ⟨⟨⟨hcreated, hreturned⟩, hswept⟩, hfile⟩ := htest
  refine ⟨someRoot, q, hreach, by rw [hcreated]; rfl, fun hkept => ?_⟩
  have hlast := hkept ⟨someSession, readyName someKey, 1, ['y']⟩ (by rw [hcreated]; simp)
  rcases hlast with ⟨f, hf, _⟩ | hret | ⟨w, hw, _⟩
  · rw [hfile] at hf
    exact absurd hf (by simp)
  · rw [PendingQueue.Returned, hreturned] at hret
    exact absurd hret (by simp)
  · rw [hswept] at hw
    exact absurd hw (by simp)

end Caveat.Pending
