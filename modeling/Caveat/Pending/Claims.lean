import Caveat.Lib.Trace
import Caveat.Pending.Delivery

/-!
# One builder for a reminder

A claim keeps others from building the same reminder until it is released or expires. The claims of
a directory go with the directory, so a sweep has to leave a directory in which a claim has not
expired. The sweep asks with a constant for what an acquire asks with its own number of
milliseconds: where an acquire is given more than the constant, the sweep takes a live claim away.
-/

namespace Caveat.Pending

open Js

variable {q q' : PendingQueue} {root : Text} {localeCompare : Text → Text → Ordering}

/-! ## Steps -/

/-- An operation, or an acquire that throws after it made its claim file. -/
inductive ClaimAction where
  | queue (a : PendingAction)
  /-- The write of the claim stopped half way, or only the lock's transaction did not commit. -/
  | acquireThrows (sessionId key ownerToken : Text) (now ttlMs clock : Rat) (torn : Bool)

def ClaimsDir.tear (c : ClaimsDir) (name : Text) (clock : Rat) : ClaimsDir :=
  c.insert name { content := none, mtime := clock } clock

/-- `acquirePendingClaim` where it throws after `openSync`. -/
def acquireThrows (q : PendingQueue) (sessionId key ownerToken : Text) (now ttlMs clock : Rat)
    (torn : Bool) : PendingQueue :=
  let dir := sanitizeSessionId sessionId
  match acquirePendingClaim q sessionId key ownerToken now ttlMs clock with
  | (.ok (some _), q') =>
      if torn then
        let d := q'.openDir dir clock
        q'.setDir dir { d with claims := d.claims.map (fun c => c.tear (claimName key) clock) }
      else q'
  | (_, q') => q'

def claimStep (root : Text) (localeCompare : Text → Text → Ordering) (q : PendingQueue) :
    ClaimAction → Option PendingQueue
  | .queue a => pendingStep root localeCompare q a
  | .acquireThrows sessionId key ownerToken now ttlMs clock torn =>
      some (acquireThrows q sessionId key ownerToken now ttlMs clock torn)

/-- The time that an operation is given. -/
def ClaimAction.now : ClaimAction → Option Rat
  | .queue (.acquire _ _ _ now _ _) => some now
  | .queue (.sweep now _ _) => some now
  | .acquireThrows _ _ _ now _ _ _ => some now
  | _ => none

/-- The time to live that an acquire is given. -/
def ClaimAction.ttl : ClaimAction → Option Rat
  | .queue (.acquire _ _ _ _ ttlMs _) => some ttlMs
  | .acquireThrows _ _ _ _ ttlMs _ _ => some ttlMs
  | _ => none

abbrev ClaimEvent := Lib.Event PendingQueue ClaimAction

abbrev ClaimRun := Lib.Traced PendingQueue ClaimAction

/-- The clocks do not go back, and every acquire is given the one time to live. -/
def Timely (ttlMs : Rat) (t : ClaimRun) (a : ClaimAction) : Prop :=
  (∀ e ∈ t.events, ∀ past ∈ e.action.now, ∀ now ∈ a.now, past ≤ now) ∧ ∀ ttl ∈ a.ttl, ttl = ttlMs

/-! ## What a run comes to -/

variable {dir key token : Text}

def SessionDir.claimAt (d : SessionDir) (name : Text) : Option ClaimFile :=
  d.claims.bind (fun c => c.files.lookup name)

def PendingQueue.claimAt (q : PendingQueue) (dir name : Text) : Option ClaimFile :=
  (q.dirs.lookup dir).bind (fun d => d.claimAt name)

/-- A claim of the directory is within a time to live. -/
def SessionDir.claimedWithin (d : SessionDir) (now ttlMs : Rat) : Bool :=
  d.claims.any (fun c => c.files.entries.any (fun e =>
    ".claim".toList.isSuffixOf e.1 && now - e.2.createdAt ≤ ttlMs))

/-- An acquire for a directory and key that succeeded. -/
def Acquired (e : ClaimEvent) (dir key token : Text) (now : Rat) : Prop :=
  ∃ sessionId ttlMs clock, sanitizeSessionId sessionId = dir ∧
    e.action = .queue (.acquire sessionId key token now ttlMs clock) ∧
    (acquirePendingClaim e.before sessionId key token now ttlMs clock).1 = .ok (some token)

/-- An acquire with an owner's token, whatever it came to. -/
def AcquiresWith (e : ClaimEvent) (dir key token : Text) : Prop :=
  ∃ sessionId now ttlMs clock, sanitizeSessionId sessionId = dir ∧
    (e.action = .queue (.acquire sessionId key token now ttlMs clock) ∨
      ∃ torn, e.action = .acquireThrows sessionId key token now ttlMs clock torn)

def Released (e : ClaimEvent) (dir key token : Text) : Prop :=
  ∃ clock, e.action = .queue (.release dir key token clock)

/-- A publish for a directory and key that reports that it published. -/
def Published (e : ClaimEvent) (dir key : Text) : Prop :=
  ∃ sessionId text hex clock faults, sanitizeSessionId sessionId = dir ∧
    e.action = .queue (.publish sessionId key text hex clock faults) ∧
    (publishPendingReminder e.before sessionId key text hex clock faults).1 = .ok true

/-- A drain, an acknowledgement or a sweep. -/
def ClaimAction.consumes : ClaimAction → Bool
  | .queue (.drain ..) | .queue (.acknowledge ..) | .queue (.sweep ..) => true
  | _ => false

/-- The file with a number goes, by a step that consumes reminders. -/
def Consumed (e : ClaimEvent) (dir name : Text) (serial : Nat) : Prop :=
  e.action.consumes = true ∧ (∃ f, e.before.fileAt dir name = some f ∧ f.serial = serial) ∧
    ¬ ∃ f, e.after.fileAt dir name = some f ∧ f.serial = serial

/-- **One builder at a time.** -/
structure ClaimsExclusive (ttlMs : Rat) (t : ClaimRun) : Prop where
  /-- From an acquire to its release or expiry no other one for the same reminder succeeds. -/
  exclusive : ∀ later e' mid e earlier dir key token token' now now',
    t.events = later ++ e' :: (mid ++ e :: earlier) → Acquired e dir key token now →
      Acquired e' dir key token' now' → now' ≤ now + ttlMs → ∃ m ∈ mid, Released m dir key token
  /-- A release leaves every claim but its own. -/
  own : ∀ e ∈ t.events, ∀ dir key token, Released e dir key token → ∀ dir' name c,
    e.before.claimAt dir' name = some c → e.after.claimAt dir' name = some c ∨
      (dir' = dir ∧ name = claimName key ∧ ∃ createdAt, c.content = some (token, createdAt))
  /-- A release by an owner that another one followed changes nothing. -/
  late : ∀ later e' mid e earlier dir key token token' now,
    t.events = later ++ e' :: (mid ++ e :: earlier) → Acquired e dir key token' now →
      token' ≠ token → (∀ m ∈ mid, ¬ AcquiresWith m dir key token) →
        Released e' dir key token → e'.after = e'.before
  /-- A sweep goes through no directory with a claim that has not expired. -/
  swept : ∀ w ∈ t.state.swept, w.contents.claimedWithin w.now ttlMs = false
  /-- A reminder is published again only after the first one was consumed. -/
  published : ∀ later e' mid e earlier dir key,
    t.events = later ++ e' :: (mid ++ e :: earlier) → Published e dir key → Published e' dir key →
      ∃ m ∈ mid, Consumed m dir (readyName key) e.before.next

/-! ## Claims of directories -/

theorem claimAt_setDir (q : PendingQueue) (dir dir' name : Text) (d : SessionDir) :
    (q.setDir dir d).claimAt dir' name =
      if dir' = dir then d.claimAt name else q.claimAt dir' name := by
  unfold PendingQueue.claimAt PendingQueue.setDir
  by_cases h : dir' = dir
  · rw [if_pos h, h, AList.lookup_insert]
    rfl
  · rw [if_neg h, AList.lookup_insert_ne h]

theorem openDir_claimAt (q : PendingQueue) (dir name : Text) (clock : Rat) :
    (q.openDir dir clock).claimAt name = q.claimAt dir name := by
  unfold PendingQueue.openDir PendingQueue.claimAt
  cases q.dirs.lookup dir with
  | none => rfl
  | some d => rfl

theorem claimAt_of_lookup {d : SessionDir} (h : q.dirs.lookup dir = some d) (name : Text) :
    q.claimAt dir name = d.claimAt name := by
  rw [PendingQueue.claimAt, h]
  rfl

theorem claimsDir_insert_lookup (c : ClaimsDir) (name name' : Text) (f : ClaimFile) (clock : Rat) :
    (c.insert name f clock).files.lookup name' =
      if name' = name then some f else c.files.lookup name' := by
  unfold ClaimsDir.insert
  by_cases h : name' = name
  · rw [if_pos h, h, AList.lookup_insert]
  · rw [if_neg h, AList.lookup_insert_ne h]

theorem claimsDir_erase_lookup (c : ClaimsDir) (name name' : Text) (clock : Rat) :
    (c.erase name clock).files.lookup name' =
      if name' = name then none else c.files.lookup name' := by
  unfold ClaimsDir.erase
  by_cases h : name' = name
  · rw [if_pos h, h, AList.lookup_erase]
  · rw [if_neg h, AList.lookup_erase_ne h]

theorem claimName_injective {key key' : Text} (h : claimName key = claimName key') : key = key' :=
  List.append_cancel_right h

/-- A claim counts in its directory. -/
theorem claimedWithin_of_claimAt {d : SessionDir} {c : ClaimFile} {now ttlMs : Rat}
    (h : d.claimAt (claimName key) = some c) (hnow : now - c.createdAt ≤ ttlMs) :
    d.claimedWithin now ttlMs = true := by
  obtain ⟨claims, hclaims, hlook⟩ := Option.bind_eq_some_iff.mp h
  unfold SessionDir.claimedWithin
  rw [hclaims, Option.any_some, List.any_eq_true]
  refine ⟨⟨claimName key, c⟩, AList.mem_lookup_iff.mp hlook, ?_⟩
  rw [Bool.and_eq_true, List.isSuffixOf_iff_suffix, decide_eq_true_iff]
  exact ⟨List.suffix_append _ _, hnow⟩

/-! ## What a step does to the claims -/

/-- Every claim stays as it is. -/
def KeepsClaims (q q' : PendingQueue) : Prop := ∀ dir name, q'.claimAt dir name = q.claimAt dir name

/-- One claim is made, removed or replaced. -/
structure SetsClaim (q q' : PendingQueue) (dir name : Text) (c : Option ClaimFile) : Prop where
  here : q'.claimAt dir name = c
  elsewhere : ∀ dir' name', ¬(dir' = dir ∧ name' = name) →
    q'.claimAt dir' name' = q.claimAt dir' name'

/-- Writing a directory whose claims are those that were there. -/
theorem keepsClaims_setDir {d : SessionDir} (h : ∀ name, d.claimAt name = q.claimAt dir name) :
    KeepsClaims q (q.setDir dir d) := by
  intro dir' name
  rw [claimAt_setDir]
  by_cases hdir : dir' = dir
  · rw [if_pos hdir, h, hdir]
  · rw [if_neg hdir]

theorem setsClaim_setDir {d : SessionDir} {name : Text} {c : Option ClaimFile}
    (hhere : d.claimAt name = c)
    (helse : ∀ name', name' ≠ name → d.claimAt name' = q.claimAt dir name') :
    SetsClaim q (q.setDir dir d) dir name c where
  here := by rw [claimAt_setDir, if_pos rfl, hhere]
  elsewhere dir' name' hne := by
    rw [claimAt_setDir]
    by_cases hdir : dir' = dir
    · rw [if_pos hdir, helse name' (fun h => hne ⟨hdir, h⟩), hdir]
    · rw [if_neg hdir]

theorem keepsClaims_append (q : PendingQueue) (root sessionId text stamp hex : Text) (clock : Rat)
    (commits : Bool) :
    KeepsClaims q (appendPendingReminder q root sessionId text stamp hex clock commits).2 := by
  unfold appendPendingReminder
  dsimp only
  split
  · exact keepsClaims_setDir (openDir_claimAt q _ · clock)
  · exact keepsClaims_setDir (openDir_claimAt q _ · clock)

theorem clean_claimAt (e : PublishFaults) (d : SessionDir) (temp name : Text) (clock : Rat) :
    (e.clean d temp clock).claimAt name = d.claimAt name := by
  unfold PublishFaults.clean
  split <;> rfl

theorem keepsClaims_publish (q : PendingQueue) (sessionId key text hex : Text) (clock : Rat)
    (e : PublishFaults) :
    KeepsClaims q (publishPendingReminder q sessionId key text hex clock e).2 := by
  have hopen := fun name => openDir_claimAt q (sanitizeSessionId sessionId) name clock
  have hlocked : KeepsClaims q (publishLocked q (sanitizeSessionId sessionId) key text hex clock e).2 := by
    unfold publishLocked
    dsimp only
    split
    · exact keepsClaims_setDir (hopen ·)
    · split
      · exact keepsClaims_setDir fun name => (clean_claimAt e _ _ name clock).trans (hopen name)
      · exact keepsClaims_setDir fun name => (clean_claimAt e _ _ name clock).trans (hopen name)
  unfold publishPendingReminder
  dsimp only
  split
  · exact fun _ _ => rfl
  · split
    · exact fun _ _ => rfl
    · split
      · rename_i hpub
        rw [hpub] at hlocked
        exact hlocked
      · exact hlocked

theorem noteReturned_claimAt (q : PendingQueue) (e : ReadFaults)
    (files : List (Sigma fun _ : Text => PendingFile)) (dir name : Text) :
    (q.noteReturned e files).claimAt dir name = q.claimAt dir name := by
  unfold PendingQueue.noteReturned
  split <;> rfl

theorem keepsClaims_peek (q : PendingQueue) (root sessionId : Text) (e : ReadFaults) :
    KeepsClaims q (peekPendingRemindersDetailed localeCompare q root sessionId e).2 := by
  unfold peekPendingRemindersDetailed
  dsimp only
  split
  · exact fun _ _ => rfl
  · exact fun dir name => noteReturned_claimAt q e _ dir name

theorem foldl_erase_claimAt (fs : List (Sigma fun _ : Text => PendingFile)) (d : SessionDir)
    (name : Text) (clock : Rat) :
    (fs.foldl (fun d f => d.erase f.1 clock) d).claimAt name = d.claimAt name := by
  induction fs generalizing d with
  | nil => rfl
  | cons f fs ih =>
      rw [List.foldl_cons, ih]
      rfl

theorem keepsClaims_drain (q : PendingQueue) (sessionId : Text) (clock : Rat) (e : ReadFaults) :
    KeepsClaims q (drainPendingRemindersDetailed localeCompare q sessionId clock e).2 := by
  unfold drainPendingRemindersDetailed
  dsimp only
  split
  · exact fun _ _ => rfl
  · rename_i d hd
    intro dir name
    rw [noteReturned_claimAt]
    refine keepsClaims_setDir (fun name => ?_) dir name
    rw [foldl_erase_claimAt, claimAt_of_lookup hd]

/-- **Acquiring.** Either the claims stay, or one is made where none was or an expired one. -/
theorem acquire_cases (q : PendingQueue) (sessionId key token : Text) (now ttlMs clock : Rat) :
    let done := acquirePendingClaim q sessionId key token now ttlMs clock
    ((∀ t, done.1 ≠ .ok (some t)) ∧ KeepsClaims q done.2) ∨
      (done.1 = .ok (some token) ∧
        (∀ c, q.claimAt (sanitizeSessionId sessionId) (claimName key) = some c →
          ttlMs < now - c.createdAt) ∧
        SetsClaim q done.2 (sanitizeSessionId sessionId) (claimName key)
          (some { content := some (token, now), mtime := clock })) := by
  intro done
  have hdone : done = acquirePendingClaim q sessionId key token now ttlMs clock := rfl
  clear_value done
  unfold acquirePendingClaim at hdone
  dsimp only at hdone
  generalize hdir : sanitizeSessionId sessionId = dir at hdone ⊢
  generalize hclaims : (q.openDir dir clock).claims.getD { mtime := clock } = claims at hdone
  -- the claims directory, made where there was none
  have hlook : ∀ name, claims.files.lookup name = q.claimAt dir name := by
    intro name
    rw [← openDir_claimAt q dir name clock, SessionDir.claimAt, ← hclaims]
    cases (q.openDir dir clock).claims with
    | none => rfl
    | some c => rfl
  have htake : ∀ taken, taken = claims.insert (claimName key)
        { content := some (token, now), mtime := clock } clock →
      SetsClaim q (q.setDir dir { q.openDir dir clock with claims := some taken }) dir
        (claimName key) (some { content := some (token, now), mtime := clock }) := by
    intro taken htaken
    have hat : ∀ name, (SessionDir.claimAt { q.openDir dir clock with claims := some taken } name) =
        if name = claimName key then some { content := some (token, now), mtime := clock }
        else q.claimAt dir name := by
      intro name
      rw [← hlook name, ← claimsDir_insert_lookup claims (claimName key) name _ clock, ← htaken]
      rfl
    exact setsClaim_setDir (by rw [hat, if_pos rfl]) fun name hne => by rw [hat, if_neg hne]
  have hkeep : KeepsClaims q (q.setDir dir { q.openDir dir clock with claims := some claims }) :=
    keepsClaims_setDir fun name => hlook name
  split at hdone
  · rw [hdone]
    exact .inl ⟨by simp, fun _ _ => rfl⟩
  · split at hdone
    · rw [hdone]
      exact .inl ⟨by simp, fun _ _ => rfl⟩
    · split at hdone
      · rename_i hnone
        rw [hlook] at hnone
        rw [hdone]
        exact .inr ⟨rfl, by rw [hnone]; simp, htake _ rfl⟩
      · rename_i c hc
        rw [hlook] at hc
        split at hdone
        · rw [hdone]
          exact .inl ⟨by simp, hkeep⟩
        · rename_i hexpired
          rw [hdone]
          refine .inr ⟨rfl, ?_, htake _ rfl⟩
          rw [hc]
          rintro _ ⟨⟩
          exact not_le.mp hexpired

/-- The same for an acquire that throws, whose claim may be torn. -/
theorem acquireThrows_cases (q : PendingQueue) (sessionId key token : Text)
    (now ttlMs clock : Rat) (torn : Bool) :
    let q' := acquireThrows q sessionId key token now ttlMs clock torn
    KeepsClaims q q' ∨
      ((∀ c, q.claimAt (sanitizeSessionId sessionId) (claimName key) = some c →
          ttlMs < now - c.createdAt) ∧
        ∃ content, (content = none ∨ content = some (token, now)) ∧
          SetsClaim q q' (sanitizeSessionId sessionId) (claimName key)
            (some { content, mtime := clock })) := by
  unfold acquireThrows
  dsimp only
  rcases acquire_cases q sessionId key token now ttlMs clock with
    ⟨hnot, hkeep⟩ | ⟨hok, hexpired, hsets⟩
  · split
    · rename_i hacq
      rw [hacq] at hnot
      exact absurd rfl (hnot _)
    · rename_i hacq
      rw [hacq] at hkeep
      exact .inl hkeep
  · split
    · rename_i hacq
      rw [hacq] at hsets
      refine .inr ⟨hexpired, ?_⟩
      cases torn with
      | false => exact ⟨_, .inr rfl, hsets⟩
      | true =>
          refine ⟨none, .inl rfl, ?_⟩
          rename_i q'
          -- the claim that was made is torn in place
          have hopen := fun name => openDir_claimAt q' (sanitizeSessionId sessionId) name clock
          have hat : ∀ name, SessionDir.claimAt
              { q'.openDir (sanitizeSessionId sessionId) clock with
                claims := (q'.openDir (sanitizeSessionId sessionId) clock).claims.map
                  (fun c => c.tear (claimName key) clock) } name =
              if name = claimName key then some { content := none, mtime := clock }
              else q'.claimAt (sanitizeSessionId sessionId) name := by
            intro name
            have hmade := (hopen (claimName key)).trans hsets.here
            obtain ⟨claims, hclaims, _⟩ := Option.bind_eq_some_iff.mp hmade
            rw [← hopen name, SessionDir.claimAt, SessionDir.claimAt, hclaims]
            exact claimsDir_insert_lookup claims (claimName key) name _ clock
          have htorn := setsClaim_setDir (q := q') (by rw [hat, if_pos rfl])
            (fun name hne => by rw [hat, if_neg hne])
          exact ⟨htorn.here, fun dir name hne =>
            (htorn.elsewhere dir name hne).trans (hsets.elsewhere dir name hne)⟩
    · rename_i hnot hacq
      rw [hacq] at hok
      exact (hnot token hok).elim

theorem adds_acquireThrows (q : PendingQueue) (sessionId key token : Text) (now ttlMs clock : Rat)
    (torn : Bool) : Adds q (acquireThrows q sessionId key token now ttlMs clock torn) := by
  have hacquire := adds_acquire q sessionId key token now ttlMs clock
  unfold acquireThrows
  dsimp only
  split
  · rename_i q' hacq
    rw [hacq] at hacquire
    split
    · exact hacquire.trans
        (adds_setClaims (openDir_lookup q' (sanitizeSessionId sessionId) · clock))
    · exact hacquire
  · rename_i hacq
    rw [hacq] at hacquire
    exact hacquire

/-- **Releasing.** Nothing changes, or the claim that goes carries the owner's token. -/
theorem release_cases (q : PendingQueue) (dir key token : Text) (clock : Rat) :
    let q' := (releasePendingClaim q dir key token clock).2
    q' = q ∨ (∃ c createdAt, q.claimAt dir (claimName key) = some c ∧
      c.content = some (token, createdAt)) ∧ SetsClaim q q' dir (claimName key) none := by
  unfold releasePendingClaim
  split
  · exact .inl rfl
  · rename_i d hd
    split
    · exact .inl rfl
    · exact .inl rfl
    · rename_i owner createdAt mtime hc
      split
      · rename_i howner
        refine .inr ⟨⟨_, createdAt, (claimAt_of_lookup hd _).trans hc, by rw [howner]⟩, ?_⟩
        have hat : ∀ name, SessionDir.claimAt
            { d with claims := d.claims.map (fun c => c.erase (claimName key) clock) } name =
            if name = claimName key then none else q.claimAt dir name := by
          intro name
          obtain ⟨claims, hclaims, _⟩ := Option.bind_eq_some_iff.mp hc
          rw [claimAt_of_lookup hd, SessionDir.claimAt, SessionDir.claimAt, hclaims]
          exact claimsDir_erase_lookup claims (claimName key) name clock
        exact setsClaim_setDir (by rw [hat, if_pos rfl]) fun name hne => by rw [hat, if_neg hne]
      · exact .inl rfl

/-! ## Acknowledging -/

/-- The claims that are left were there. -/
def LosesClaims (q q' : PendingQueue) : Prop :=
  ∀ dir name c, q'.claimAt dir name = some c → q.claimAt dir name = some c

theorem KeepsClaims.loses (h : KeepsClaims q q') : LosesClaims q q' := fun dir name _ hc => by
  rw [← h dir name, hc]

theorem erase_claimAt (d : SessionDir) (name name' : Text) (clock : Rat) :
    SessionDir.claimAt { d with claims := d.claims.map (fun c => c.erase name clock) } name' =
      if name' = name then none else d.claimAt name' := by
  unfold SessionDir.claimAt
  cases d.claims with
  | none => simp
  | some claims => exact claimsDir_erase_lookup claims name name' clock

theorem unlink_claimAt (q : PendingQueue) (loc : Location) (clock : Rat) (dir name : Text) :
    (q.unlink loc clock).claimAt dir name =
      if loc = .claim dir name then none else q.claimAt dir name := by
  cases loc with
  | entry dir' name' =>
      rw [if_neg (by simp)]
      unfold PendingQueue.unlink
      dsimp only
      split
      · rename_i d hd
        split
        · exact @keepsClaims_setDir q dir' (d.erase name' clock)
            (fun name => (claimAt_of_lookup hd name).symm) dir name
        · rfl
      · rfl
  | claim dir' name' =>
      unfold PendingQueue.unlink
      dsimp only
      split
      · rename_i d hd
        rw [claimAt_setDir, erase_claimAt, ← claimAt_of_lookup hd]
        by_cases hdir : dir = dir'
        · by_cases hname : name = name'
          · rw [if_pos hdir, if_pos hname, if_pos (by rw [hdir, hname])]
          · rw [if_pos hdir, if_neg hname, if_neg (by simp [Ne.symm hname]), hdir]
        · rw [if_neg hdir, if_neg (by simp [Ne.symm hdir])]
      · rename_i hd
        by_cases hloc : (Location.claim dir' name') = .claim dir name
        · obtain ⟨rfl, rfl⟩ := Location.claim.inj hloc
          rw [if_pos rfl, PendingQueue.claimAt, hd]
          rfl
        · rw [if_neg hloc]
  | lock => rw [if_neg (by simp)]; rfl
  | elsewhere => rw [if_neg (by simp)]; rfl

theorem losesClaims_acknowledge (q : PendingQueue) (root : Text)
    (refuses : Text → Option Refusal) (clock : Rat) (paths : List Text) :
    LosesClaims q (acknowledgePendingReminders root refuses clock paths q).2 := by
  induction paths generalizing q with
  | nil => exact fun _ _ _ hc => hc
  | cons path paths ih =>
      intro dir name c hc
      rw [acknowledgePendingReminders] at hc
      split at hc
      · exact hc
      · split at hc
        · exact hc
        · exact ih q dir name c hc
        · have hleft := ih _ dir name c hc
          rw [unlink_claimAt] at hleft
          split at hleft
          · exact absurd hleft (by simp)
          · exact hleft

/-- The acknowledged paths lead to no claim that is there, and not to the lock. -/
def AcknowledgesNoClaim (root : Text) (q : PendingQueue) (refuses : Text → Option Refusal)
    (paths : List Text) : Prop :=
  ∀ path ∈ reached root refuses paths, refuses path = none →
    locate root path ≠ .lock ∧ ∀ dir name, locate root path = .claim dir name →
      q.claimAt dir name = none

theorem keepsClaims_acknowledge {refuses : Text → Option Refusal} {clock : Rat}
    {paths : List Text} (h : AcknowledgesNoClaim root q refuses paths) :
    KeepsClaims q (acknowledgePendingReminders root refuses clock paths q).2 := by
  induction paths generalizing q with
  | nil => exact fun _ _ => rfl
  | cons path paths ih =>
      rw [acknowledgePendingReminders]
      by_cases hin : insideRoot root path = true
      · rw [if_neg (by simp [hin])]
        have htail : refuses path ≠ some .failed → ∀ path' ∈ reached root refuses paths,
            path' ∈ reached root refuses (path :: paths) := by
          intro href path' hpath'
          rw [reached, List.takeWhile_cons, if_pos (by simp [hin, href])]
          exact List.mem_cons_of_mem path hpath'
        cases href : refuses path with
        | none =>
            have hfirst : path ∈ reached root refuses (path :: paths) := by
              rw [reached, List.takeWhile_cons, if_pos (by simp [hin, href])]
              exact List.mem_cons_self
            have hunlink : KeepsClaims q (q.unlink (locate root path) clock) := by
              intro dir name
              rw [unlink_claimAt]
              split
              · rename_i hloc
                rw [(h path hfirst href).2 dir name hloc]
              · rfl
            have hrest : AcknowledgesNoClaim root (q.unlink (locate root path) clock) refuses
                paths := by
              intro path' hpath' hnone
              obtain ⟨hlock, hclaim⟩ := h path' (htail (by simp [href]) path' hpath') hnone
              exact ⟨hlock, fun dir name hloc => by rw [hunlink, hclaim dir name hloc]⟩
            exact fun dir name => (ih hrest dir name).trans (hunlink dir name)
        | some r =>
            cases r with
            | failed => exact fun _ _ => rfl
            | missing =>
                exact ih fun path' hpath' => h path' (htail (by simp [href]) path' hpath')
      · rw [if_pos (by simp [hin])]
        exact fun _ _ => rfl

theorem acknowledge_swept (q : PendingQueue) (root : Text) (refuses : Text → Option Refusal)
    (clock : Rat) (paths : List Text) :
    (acknowledgePendingReminders root refuses clock paths q).2.swept = q.swept := by
  have hunlink : ∀ (q : PendingQueue) loc, (q.unlink loc clock).swept = q.swept := by
    intro q loc
    cases loc with
    | entry dir name =>
        unfold PendingQueue.unlink
        dsimp only
        split
        · split <;> rfl
        · rfl
    | claim dir name =>
        unfold PendingQueue.unlink
        dsimp only
        split <;> rfl
    | lock => rfl
    | elsewhere => rfl
  induction paths generalizing q with
  | nil => rfl
  | cons path paths ih =>
      rw [acknowledgePendingReminders]
      split
      · rfl
      · split
        · rfl
        · exact ih q
        · rw [ih, hunlink]

/-! ## Sweeping -/

/-- The sweep goes through the directory, if its claims do not keep it. -/
def SweepReaches (now staleDays : Rat) (e : SweepFaults) (dir : Text) (d : SessionDir) : Prop :=
  e.claimsUnreadable dir = false ∧ e.scanFails dir = false ∧ d.newest < now - staleDays * dayMs

/-- What a sweep goes through. -/
def SweepTakes (q : PendingQueue) (now staleDays : Rat) (e : SweepFaults) (dir : Text)
    (d : SessionDir) : Prop :=
  q.dirs.lookup dir = some d ∧ SweepReaches now staleDays e dir d ∧
    d.claimedWithin now claimTtlMs = false

/-- The claims of a directory that was taken are the old ones, or all gone. -/
def ClaimsLeft (d d' : SessionDir) : Prop := d'.claims = d.claims ∨ d'.claims = none

/-- A part of a sweep: a directory is as it was, or was taken. -/
structure Sweeps (q : PendingQueue) (now staleDays : Rat) (e : SweepFaults) (q' : PendingQueue) :
    Prop where
  dirs : ∀ dir, q'.dirs.lookup dir = q.dirs.lookup dir ∨
    ∃ d, SweepTakes q now staleDays e dir d ∧ ∀ d', q'.dirs.lookup dir = some d' → ClaimsLeft d d'
  swept : ∀ w ∈ q'.swept, w ∈ q.swept ∨
    w.now = now ∧ ∃ d, SweepTakes q now staleDays e w.dir d ∧ ClaimsLeft d w.contents

theorem Sweeps.refl (q : PendingQueue) (now staleDays : Rat) (e : SweepFaults) :
    Sweeps q now staleDays e q := ⟨fun _ => .inl rfl, fun _ hw => .inl hw⟩

/-- What the sweep finds in a directory that it goes through is what was taken. -/
theorem Sweeps.takes {now staleDays : Rat} {e : SweepFaults} (h : Sweeps q now staleDays e q')
    {dir : Text} {d' : SessionDir} (hd' : q'.dirs.lookup dir = some d')
    (hreach : SweepReaches now staleDays e dir d')
    (hclaimed : d'.claimedWithin now claimTtlMs = false) :
    ∃ d, SweepTakes q now staleDays e dir d ∧ ClaimsLeft d d' := by
  rcases h.dirs dir with hsame | ⟨d, htakes, hleft⟩
  · exact ⟨d', ⟨by rw [← hsame, hd'], hreach, hclaimed⟩, .inl rfl⟩
  · exact ⟨d, htakes, hleft d' hd'⟩

theorem sweeps_sweepDir {now staleDays : Rat} {e : SweepFaults}
    {acc : (List Text × Nat) × PendingQueue} (h : Sweeps q now staleDays e acc.2) (dir : Text) :
    Sweeps q now staleDays e (sweepDir now staleDays e acc dir).2 := by
  obtain ⟨⟨removed, kept⟩, q'⟩ := acc
  unfold sweepDir
  dsimp only
  split
  · exact h
  · rename_i d' hd'
    by_cases hclaimed : hasNonExpiredPendingClaim d' now (e.claimsUnreadable dir) = true
    · rw [if_pos hclaimed]
      exact h
    · rw [if_neg hclaimed]
      by_cases hkeeps : (e.scanFails dir || now - staleDays * dayMs ≤ d'.newest) = true
      · rw [if_pos hkeeps]
        exact h
      · rw [if_neg hkeeps]
        rw [hasNonExpiredPendingClaim, Bool.or_eq_true, not_or] at hclaimed
        rw [Bool.or_eq_true, decide_eq_true_iff, not_or, not_le] at hkeeps
        have hreach : SweepReaches now staleDays e dir d' :=
          ⟨by simpa using hclaimed.1, by simpa using hkeeps.1, hkeeps.2⟩
        obtain ⟨d, htakes, hleft⟩ :=
          h.takes hd' hreach (Bool.eq_false_iff.mpr hclaimed.2)
        -- the note of the directory, and what is left of it
        have hnote : ∀ left : PendingQueue, left.swept = q'.swept ++ [⟨dir, d', now, staleDays⟩] →
            (∀ dir', dir' ≠ dir → left.dirs.lookup dir' = q'.dirs.lookup dir') →
            (∀ d'', left.dirs.lookup dir = some d'' → ClaimsLeft d d'') →
              Sweeps q now staleDays e left := by
          intro left hswept hother hhere
          constructor
          · intro dir'
            by_cases hdir : dir' = dir
            · rw [hdir]
              exact .inr ⟨d, htakes, hhere⟩
            · rw [hother dir' hdir]
              exact h.dirs dir'
          · intro w hw
            rw [hswept] at hw
            rcases List.mem_append.mp hw with hold | hnew
            · exact h.swept w hold
            · rw [List.mem_singleton.mp hnew]
              exact .inr ⟨rfl, d, htakes, hleft⟩
        split
        · refine hnote _ rfl (fun dir' hdir => AList.lookup_erase_ne hdir) fun d'' hd'' => ?_
          have hgone : AList.lookup dir (q'.dirs.erase dir) = some d'' := hd''
          rw [AList.lookup_erase] at hgone
          exact absurd hgone (by simp)
        · rename_i keep _
          refine hnote _ rfl (fun dir' hdir => AList.lookup_insert_ne hdir) fun d'' hd'' => ?_
          have hkept : AList.lookup dir (q'.dirs.insert dir (d'.keepOnly keep)) = some d'' := hd''
          rw [AList.lookup_insert] at hkept
          cases hkept
          unfold SessionDir.keepOnly ClaimsLeft
          dsimp only
          split
          · exact hleft
          · exact .inr rfl

theorem sweeps_sweep (q : PendingQueue) (now staleDays : Rat) (e : SweepFaults) :
    Sweeps q now staleDays e (cleanupStalePendingDirs q now staleDays e).2 := by
  unfold cleanupStalePendingDirs
  split
  · exact .refl q now staleDays e
  · -- the loop, from any state that it may be in
    have hloop : ∀ (dirs : List Text) (acc : (List Text × Nat) × PendingQueue),
        Sweeps q now staleDays e acc.2 →
          Sweeps q now staleDays e (dirs.foldl (sweepDir now staleDays e) acc).2 := by
      intro dirs
      induction dirs with
      | nil => exact fun _ h => h
      | cons dir dirs ih => exact fun acc h => ih _ (sweeps_sweepDir h dir)
    exact hloop q.dirs.keys (([], 0), q) (.refl q now staleDays e)

/--
Where a claim of a directory that the sweep reaches is within the acquires' time to live, one is
within the sweep's.
-/
def SweepAgrees (ttlMs : Rat) (q : PendingQueue) (now staleDays : Rat) (e : SweepFaults) : Prop :=
  ∀ dir d, q.dirs.lookup dir = some d → SweepReaches now staleDays e dir d →
    d.claimedWithin now ttlMs = true → d.claimedWithin now claimTtlMs = true

theorem SweepAgrees.of_le {ttlMs now staleDays : Rat} {e : SweepFaults} (h : ttlMs ≤ claimTtlMs) :
    SweepAgrees ttlMs q now staleDays e := by
  intro dir d _ _ hwithin
  unfold SessionDir.claimedWithin at hwithin ⊢
  cases hclaims : d.claims with
  | none =>
      rw [hclaims] at hwithin
      exact hwithin
  | some claims =>
      rw [hclaims, Option.any_some, List.any_eq_true] at hwithin
      obtain ⟨c, hc, hcount⟩ := hwithin
      rw [Bool.and_eq_true, decide_eq_true_iff] at hcount
      rw [Option.any_some, List.any_eq_true]
      refine ⟨c, hc, ?_⟩
      rw [Bool.and_eq_true, decide_eq_true_iff]
      exact ⟨hcount.1, hcount.2.trans h⟩

/-- What is within a time to live in what is left of a directory was so in the directory. -/
theorem ClaimsLeft.claimedWithin {d d' : SessionDir} (h : ClaimsLeft d d') {now ttlMs : Rat}
    (hwithin : d'.claimedWithin now ttlMs = true) : d.claimedWithin now ttlMs = true := by
  unfold SessionDir.claimedWithin at hwithin ⊢
  rcases h with hsame | hnone
  · rw [← hsame]
    exact hwithin
  · rw [hnone] at hwithin
    exact absurd hwithin (by simp)

theorem losesClaims_sweep (q : PendingQueue) (now staleDays : Rat) (e : SweepFaults) :
    LosesClaims q (cleanupStalePendingDirs q now staleDays e).2 := by
  intro dir name c hc
  have hsweeps := sweeps_sweep q now staleDays e
  obtain ⟨d', hd', hat⟩ := Option.bind_eq_some_iff.mp hc
  rcases hsweeps.dirs dir with hsame | ⟨d, htakes, hleft⟩
  · rw [claimAt_of_lookup (hsame ▸ hd'), hat]
  · rw [claimAt_of_lookup htakes.1, ← hat]
    rcases hleft d' hd' with hsame | hnone
    · rw [SessionDir.claimAt, SessionDir.claimAt, hsame]
    · rw [SessionDir.claimAt, hnone] at hat
      exact absurd hat (by simp)

/-- A sweep that agrees leaves a claim that is within the time to live. -/
theorem sweep_keeps {ttlMs now staleDays : Rat} {e : SweepFaults} {c : ClaimFile}
    (hagrees : SweepAgrees ttlMs q now staleDays e) (hc : q.claimAt dir (claimName key) = some c)
    (hwithin : now - c.createdAt ≤ ttlMs) :
    (cleanupStalePendingDirs q now staleDays e).2.claimAt dir (claimName key) = some c := by
  rcases (sweeps_sweep q now staleDays e).dirs dir with hsame | ⟨d, ⟨hd, hreach, hnot⟩, _⟩
  · rw [PendingQueue.claimAt, hsame]
    exact hc
  · rw [claimAt_of_lookup hd] at hc
    rw [hagrees dir d hd hreach (claimedWithin_of_claimAt hc hwithin)] at hnot
    exact absurd hnot (by simp)

/-! ## Runs -/

/--
An acknowledgement removes no claim, and a sweep finds a claim within its own time to live where
one is within that of the acquires.
-/
def ClaimSafe (root : Text) (ttlMs : Rat) (q : PendingQueue) : ClaimAction → Prop
  | .queue (.acknowledge paths refuses _) => AcknowledgesNoClaim root q refuses paths
  | .queue (.sweep now staleDays e) => SweepAgrees ttlMs q now staleDays e
  | _ => True

def TimelyAndSafe (root : Text) (ttlMs : Rat) (t : ClaimRun) (a : ClaimAction) : Prop :=
  Timely ttlMs t a ∧ ClaimSafe root ttlMs t.state a

/-- A claim that is there after a step was there, or is torn, or is that of an acquire. -/
theorem claimAt_step {e : ClaimEvent} (hs : claimStep root localeCompare e.before e.action = some e.after)
    {name : Text} {c : ClaimFile} (hc : e.after.claimAt dir name = some c) :
    e.before.claimAt dir name = some c ∨ c.content = none ∨
      ∃ key token now, name = claimName key ∧ c.content = some (token, now) ∧
        AcquiresWith e dir key token := by
  obtain ⟨q, a, q'⟩ := e
  dsimp only at hs hc ⊢
  have hset : ∀ {sessionId key token now ttlMs clock content} {q' : PendingQueue},
      (a = .queue (.acquire sessionId key token now ttlMs clock) ∨
        ∃ torn, a = .acquireThrows sessionId key token now ttlMs clock torn) →
      (content = none ∨ content = some (token, now)) →
      SetsClaim q q' (sanitizeSessionId sessionId) (claimName key)
        (some { content, mtime := clock }) → q'.claimAt dir name = some c →
      q.claimAt dir name = some c ∨ c.content = none ∨
        ∃ key token now, name = claimName key ∧ c.content = some (token, now) ∧
          AcquiresWith ⟨q, a, q'⟩ dir key token := by
    intro sessionId key token now ttlMs clock content q' ha hcontent hsets hc
    by_cases hplace : dir = sanitizeSessionId sessionId ∧ name = claimName key
    · obtain ⟨rfl, rfl⟩ := hplace
      rw [hsets.here] at hc
      cases hc
      rcases hcontent with rfl | rfl
      · exact .inr (.inl rfl)
      · exact .inr (.inr ⟨key, token, now, rfl, rfl, sessionId, now, ttlMs, clock, rfl, ha⟩)
    · rw [hsets.elsewhere dir name hplace] at hc
      exact .inl hc
  cases a with
  | acquireThrows sessionId key token now ttlMs clock torn =>
      cases hs
      rcases acquireThrows_cases q sessionId key token now ttlMs clock torn with
        hkeep | ⟨_, content, hcontent, hsets⟩
      · exact .inl (hkeep.loses dir name c hc)
      · have hall := hset (.inr ⟨torn, rfl⟩) hcontent hsets hc
        exact hall
  | queue a =>
      cases a with
      | append sessionId text stamp hex clock commits =>
          cases hs
          exact .inl ((keepsClaims_append q root sessionId text stamp hex clock commits).loses _ _ _ hc)
      | publish sessionId key text hex clock e =>
          cases hs
          exact .inl ((keepsClaims_publish q sessionId key text hex clock e).loses _ _ _ hc)
      | acquire sessionId key token now ttlMs clock =>
          cases hs
          rcases acquire_cases q sessionId key token now ttlMs clock with
            ⟨_, hkeep⟩ | ⟨_, _, hsets⟩
          · exact .inl (hkeep.loses dir name c hc)
          · exact hset (.inl rfl) (.inr rfl) hsets hc
      | release dir' key token clock =>
          cases hs
          rcases release_cases q dir' key token clock with hsame | ⟨_, hsets⟩
          · rw [hsame] at hc
            exact .inl hc
          · by_cases hplace : dir = dir' ∧ name = claimName key
            · obtain ⟨rfl, rfl⟩ := hplace
              rw [hsets.here] at hc
              exact absurd hc (by simp)
            · rw [hsets.elsewhere dir name hplace] at hc
              exact .inl hc
      | peek sessionId e =>
          cases hs
          exact .inl ((keepsClaims_peek q root sessionId e).loses _ _ _ hc)
      | acknowledge paths refuses clock =>
          cases hs
          exact .inl (losesClaims_acknowledge q root refuses clock paths dir name c hc)
      | drain sessionId clock e =>
          cases hs
          exact .inl ((keepsClaims_drain q sessionId clock e).loses _ _ _ hc)
      | sweep now staleDays e =>
          cases hs
          exact .inl (losesClaims_sweep q now staleDays e dir name c hc)

/-- **A live claim stays.** Until it is released or expires, no step that is safe removes it. -/
theorem claim_kept {e : ClaimEvent} {ttlMs since : Rat} {c : ClaimFile}
    (hs : claimStep root localeCompare e.before e.action = some e.after)
    (hsafe : ClaimSafe root ttlMs e.before e.action) (httl : ∀ ttl ∈ e.action.ttl, ttl = ttlMs)
    (hnow : ∀ now ∈ e.action.now, now ≤ since + ttlMs)
    (hrelease : ¬ Released e dir key token)
    (hcontent : c.content = some (token, since))
    (hc : e.before.claimAt dir (claimName key) = some c) :
    e.after.claimAt dir (claimName key) = some c := by
  obtain ⟨q, a, q'⟩ := e
  dsimp only at hs hsafe httl hnow hc ⊢
  have hcreated : c.createdAt = since := by rw [ClaimFile.createdAt, hcontent]; rfl
  -- an acquire makes a claim only in place of one that expired
  have hset : ∀ {sessionId key' now ttlMs' made} {q' : PendingQueue},
      (a.now = some now) → a.ttl = some ttlMs' →
      (∀ c, q.claimAt (sanitizeSessionId sessionId) (claimName key') = some c →
        ttlMs' < now - c.createdAt) →
      SetsClaim q q' (sanitizeSessionId sessionId) (claimName key') made →
        q'.claimAt dir (claimName key) = some c := by
    intro sessionId key' now ttlMs' made q' hat hattl hexpired hsets
    have hunexpired : now - c.createdAt ≤ ttlMs' := by
      have hle := hnow now (by rw [hat]; rfl)
      rw [hcreated, httl ttlMs' (by rw [hattl]; rfl)]
      linarith
    rw [hsets.elsewhere dir (claimName key), hc]
    rintro ⟨hdir, hname⟩
    rw [hdir, hname] at hc
    exact absurd hunexpired (not_le.mpr (hexpired c hc))
  cases a with
  | acquireThrows sessionId key' token' now ttlMs' clock torn =>
      cases hs
      rcases acquireThrows_cases q sessionId key' token' now ttlMs' clock torn with
        hkeep | ⟨hexpired, content, _, hsets⟩
      · rw [hkeep, hc]
      · exact hset rfl rfl hexpired hsets
  | queue a =>
      cases a with
      | append sessionId text stamp hex clock commits =>
          cases hs
          rw [keepsClaims_append, hc]
      | publish sessionId key text hex clock e =>
          cases hs
          rw [keepsClaims_publish, hc]
      | acquire sessionId key' token' now ttlMs' clock =>
          cases hs
          rcases acquire_cases q sessionId key' token' now ttlMs' clock with
            ⟨_, hkeep⟩ | ⟨_, hexpired, hsets⟩
          · rw [hkeep, hc]
          · exact hset rfl rfl hexpired hsets
      | release dir' key' token' clock =>
          cases hs
          rcases release_cases q dir' key' token' clock with hsame | ⟨⟨c', created, hc', hown⟩, hsets⟩
          · rw [hsame, hc]
          · rw [hsets.elsewhere dir (claimName key), hc]
            rintro ⟨hdir, hname⟩
            -- the claim that a release removes is the releaser's, and this is not its release
            rw [← hdir, ← hname, hc] at hc'
            cases hc'
            rw [hcontent] at hown
            cases hown
            rw [hdir, claimName_injective hname] at hrelease
            exact hrelease ⟨clock, rfl⟩
      | peek sessionId e =>
          cases hs
          rw [keepsClaims_peek, hc]
      | acknowledge paths refuses clock =>
          cases hs
          rw [keepsClaims_acknowledge hsafe, hc]
      | drain sessionId clock e =>
          cases hs
          rw [keepsClaims_drain, hc]
      | sweep now staleDays e =>
          cases hs
          have hle := hnow now rfl
          exact sweep_keeps hsafe hc (by rw [hcreated]; linarith)

/-- A reminder's file goes only by a step that consumes reminders. -/
theorem consumes_of_gone {e : ClaimEvent} {name : Text} {serial : Nat}
    (hs : claimStep root localeCompare e.before e.action = some e.after)
    (hbefore : ∃ f, e.before.fileAt dir name = some f ∧ f.serial = serial)
    (hafter : ¬ ∃ f, e.after.fileAt dir name = some f ∧ f.serial = serial) :
    e.action.consumes = true := by
  obtain ⟨q, a, q'⟩ := e
  obtain ⟨f, hf, hserial⟩ := hbefore
  dsimp only at hs hf hafter ⊢
  have hkeeps : Adds q q' → a.consumes = true := fun h =>
    absurd ⟨f, h.keep dir name f hf, hserial⟩ hafter
  cases a with
  | acquireThrows sessionId key token now ttlMs clock torn =>
      cases hs
      exact hkeeps (adds_acquireThrows q sessionId key token now ttlMs clock torn)
  | queue a =>
      cases a with
      | append sessionId text stamp hex clock commits =>
          cases hs
          exact hkeeps (adds_append q root sessionId text stamp hex clock commits)
      | publish sessionId key text hex clock e =>
          cases hs
          exact hkeeps (adds_publish q sessionId key text hex clock e)
      | acquire sessionId key token now ttlMs clock =>
          cases hs
          exact hkeeps (adds_acquire q sessionId key token now ttlMs clock)
      | release dir' key token clock =>
          cases hs
          exact hkeeps (adds_release q dir' key token clock)
      | peek sessionId e =>
          cases hs
          refine absurd ⟨f, ?_, hserial⟩ hafter
          unfold peekPendingRemindersDetailed
          dsimp only
          split
          · exact hf
          · rw [noteReturned_fileAt, hf]
      | acknowledge | drain | sweep => rfl

/-- A publish that reports that it published made the ready file, which was not there. -/
theorem published_cases {sessionId text hex : Text} {clock : Rat} {faults : PublishFaults}
    (h : (publishPendingReminder q sessionId key text hex clock faults).1 = .ok true) :
    q.fileAt (sanitizeSessionId sessionId) (readyName key) = none ∧
      (publishPendingReminder q sessionId key text hex clock faults).2.fileAt
        (sanitizeSessionId sessionId) (readyName key) =
          some { serial := q.next, text, mtime := clock } := by
  have hne := tempName_ne_readyName key hex
  have hlocked : (publishLocked q (sanitizeSessionId sessionId) key text hex clock faults).1 =
      .ok true → q.fileAt (sanitizeSessionId sessionId) (readyName key) = none ∧
        (publishLocked q (sanitizeSessionId sessionId) key text hex clock faults).2.fileAt
          (sanitizeSessionId sessionId) (readyName key) =
            some { serial := q.next, text, mtime := clock } := by
    unfold publishLocked
    dsimp only
    split
    · exact fun hpub => absurd hpub (by simp)
    · split
      · rename_i hlinked
        intro _
        constructor
        · unfold PublishFaults.link at hlinked
          split at hlinked
          · exact absurd hlinked (by simp)
          · rw [insert_lookup, if_neg hne, openDir_lookup] at hlinked
            simpa using hlinked
        · show (q.setDir _ _).fileAt _ _ = _
          rw [fileAt_setDir, if_pos rfl, clean_lookup, if_neg (fun hat => hne hat.1), insert_lookup,
            if_pos rfl]
      · rename_i hlinked
        intro hpub
        split at hpub
        · exact absurd hpub (by simp)
        · exact absurd hpub hlinked
  unfold publishPendingReminder at h ⊢
  dsimp only at h ⊢
  split at h
  · exact absurd h (by simp)
  · rename_i hkey
    rw [if_neg hkey]
    split at h
    · exact absurd h (by simp)
    · rename_i hseen
      rw [if_neg hseen]
      split at h
      · split at h
        · exact absurd h (by simp)
        · exact absurd h (by simp)
      · exact hlocked h

/-! ## The result -/

/-- The sweeps of a run found no claim that had not expired. -/
def SweptExpired (ttlMs : Rat) (q : PendingQueue) : Prop :=
  ∀ w ∈ q.swept, w.contents.claimedWithin w.now ttlMs = false

theorem sweptExpired_step {a : ClaimAction} {ttlMs : Rat} (h : SweptExpired ttlMs q)
    (hsafe : ClaimSafe root ttlMs q a) (hs : claimStep root localeCompare q a = some q') :
    SweptExpired ttlMs q' := by
  have hsame : q'.swept = q.swept → SweptExpired ttlMs q' := fun hswept w hw => h w (hswept ▸ hw)
  cases a with
  | acquireThrows sessionId key token now ttlMs' clock torn =>
      cases hs
      exact hsame (adds_acquireThrows q sessionId key token now ttlMs' clock torn).swept
  | queue a =>
      cases a with
      | append sessionId text stamp hex clock commits =>
          cases hs
          exact hsame (adds_append q root sessionId text stamp hex clock commits).swept
      | publish sessionId key text hex clock e =>
          cases hs
          exact hsame (adds_publish q sessionId key text hex clock e).swept
      | acquire sessionId key token now ttlMs' clock =>
          cases hs
          exact hsame (adds_acquire q sessionId key token now ttlMs' clock).swept
      | release dir key token clock =>
          cases hs
          exact hsame (adds_release q dir key token clock).swept
      | peek sessionId e =>
          cases hs
          refine hsame ?_
          unfold peekPendingRemindersDetailed
          dsimp only
          split
          · rfl
          · exact noteReturned_swept q e _
      | acknowledge paths refuses clock =>
          cases hs
          exact hsame (acknowledge_swept q root refuses clock paths)
      | drain sessionId clock e =>
          cases hs
          refine hsame ?_
          unfold drainPendingRemindersDetailed
          dsimp only
          split
          · rfl
          · exact noteReturned_swept _ e _
      | sweep now staleDays e =>
          cases hs
          intro w hw
          rcases (sweeps_sweep q now staleDays e).swept w hw with
            hold | ⟨hnow, d, ⟨hd, hreach, hnot⟩, hleft⟩
          · exact h w hold
          · -- a claim within the acquires' time to live would have kept the directory
            rw [hnow]
            refine Bool.eq_false_iff.mpr fun hwithin => ?_
            rw [hsafe w.dir d hd hreach (hleft.claimedWithin hwithin)] at hnot
            exact absurd hnot (by simp)

section Run

variable {ttlMs : Rat} {t : ClaimRun}

theorem exclusive_of_safe
    (h : Lib.Reaches (Lib.traced (claimStep root localeCompare)) (TimelyAndSafe root ttlMs)
      (Lib.TracedInit PendingStart) t)
    {later mid earlier : List ClaimEvent} {e e' : ClaimEvent} {dir key token token' : Text}
    {now now' : Rat} (hsplit : t.events = later ++ e' :: (mid ++ e :: earlier))
    (he : Acquired e dir key token now) (he' : Acquired e' dir key token' now')
    (hnow : now' ≤ now + ttlMs) : ∃ m ∈ mid, Released m dir key token := by
  by_contra hnone
  obtain ⟨sessionId, ttl, clock, rfl, hact, hok⟩ := he
  obtain ⟨sessionId', ttl', clock', hdir, hact', hok'⟩ := he'
  obtain ⟨-, ⟨⟨htimes, httl'⟩, -⟩, -⟩ := h.event hsplit
  -- the claim that the first acquire made is there until the second one
  have hmade : e.after.claimAt (sanitizeSessionId sessionId) (claimName key) =
      some { content := some (token, now), mtime := clock } := by
    have hat : t.events = (later ++ e' :: mid) ++ e :: earlier := by
      rw [hsplit]
      simp
    have hstep := (h.event hat).2.2
    rw [hact] at hstep
    rw [← Option.some.inj hstep]
    rcases acquire_cases e.before sessionId key token now ttl clock with
      ⟨hnot, _⟩ | ⟨_, _, hsets⟩
    · exact absurd hok (hnot token)
    · exact hsets.here
  have hthere : e'.before.claimAt (sanitizeSessionId sessionId) (claimName key) =
      some { content := some (token, now), mtime := clock } := by
    by_contra hgone
    obtain ⟨m, hm, hbefore, hafter⟩ := h.ended_between
      (P := fun q => q.claimAt (sanitizeSessionId sessionId) (claimName key) =
        some { content := some (token, now), mtime := clock }) hsplit hmade hgone
    obtain ⟨since, -, ⟨⟨_, httl⟩, hsafe⟩, hstep⟩ := h.event_between hsplit hm
    refine hafter (claim_kept hstep hsafe httl ?_ (fun hr => hnone ⟨m, hm, hr⟩) rfl hbefore)
    intro past hpast
    -- the clocks do not go back, so this step was before the expiry too
    exact (htimes m (by simp [hm]) past hpast now' (by rw [hact']; rfl)).trans hnow
  -- so the second acquire finds a claim that has not expired
  rcases acquire_cases e'.before sessionId' key token' now' ttl' clock' with
    ⟨hnot, _⟩ | ⟨_, hexpired, _⟩
  · exact hnot token' hok'
  · have hlate := hexpired _ (by rw [hdir]; exact hthere)
    rw [httl' ttl' (by rw [hact']; rfl)] at hlate
    have hage : now' - now ≤ ttlMs := by linarith
    exact absurd hage (not_le.mpr hlate)

theorem own_of_released {e : ClaimEvent} {dir key token : Text}
    (hs : claimStep root localeCompare e.before e.action = some e.after)
    (he : Released e dir key token) {dir' name : Text} {c : ClaimFile}
    (hc : e.before.claimAt dir' name = some c) :
    e.after.claimAt dir' name = some c ∨ (dir' = dir ∧ name = claimName key ∧
      ∃ createdAt, c.content = some (token, createdAt)) := by
  obtain ⟨clock, hact⟩ := he
  rw [hact] at hs
  rw [← Option.some.inj hs]
  rcases release_cases e.before dir key token clock with hsame | ⟨⟨c', createdAt, hc', hown⟩, hsets⟩
  · exact .inl (by rw [hsame, hc])
  · by_cases hplace : dir' = dir ∧ name = claimName key
    · refine .inr ⟨hplace.1, hplace.2, createdAt, ?_⟩
      rw [hplace.1, hplace.2, hc'] at hc
      cases hc
      exact hown
    · exact .inl (by rw [hsets.elsewhere dir' name hplace, hc])

theorem late_of_acquired
    (h : Lib.Reaches (Lib.traced (claimStep root localeCompare)) (TimelyAndSafe root ttlMs)
      (Lib.TracedInit PendingStart) t)
    {later mid earlier : List ClaimEvent} {e e' : ClaimEvent} {dir key token token' : Text}
    {now : Rat} (hsplit : t.events = later ++ e' :: (mid ++ e :: earlier))
    (he : Acquired e dir key token' now) (hne : token' ≠ token)
    (hnone : ∀ m ∈ mid, ¬ AcquiresWith m dir key token) (he' : Released e' dir key token) :
    e'.after = e'.before := by
  have hmade : ∀ c createdAt, e.after.claimAt dir (claimName key) = some c →
      c.content ≠ some (token, createdAt) := by
    obtain ⟨sessionId, ttl, clock, rfl, hact, hok⟩ := he
    have hat : t.events = (later ++ e' :: mid) ++ e :: earlier := by
      rw [hsplit]
      simp
    have hstep := (h.event hat).2.2
    rw [hact] at hstep
    rw [← Option.some.inj hstep]
    intro c createdAt hc hcontent
    rcases acquire_cases e.before sessionId key token' now ttl clock with
      ⟨hnot, _⟩ | ⟨_, _, hsets⟩
    · exact absurd hok (hnot token')
    · rw [hsets.here] at hc
      cases hc
      cases hcontent
      exact hne rfl
  -- since the acquire no claim of this reminder carries the earlier owner's token
  have hother : ∀ c createdAt, e'.before.claimAt dir (claimName key) = some c →
      c.content ≠ some (token, createdAt) := by
    by_contra hown
    obtain ⟨m, hm, hbefore, hafter⟩ := h.ended_between
      (P := fun q => ∀ c createdAt, q.claimAt dir (claimName key) = some c →
        c.content ≠ some (token, createdAt)) hsplit hmade hown
    obtain ⟨since, -, -, hstep⟩ := h.event_between hsplit hm
    refine hafter fun c createdAt hc hcontent => ?_
    rcases claimAt_step hstep hc with hold | htorn | ⟨key', token'', now', hname, hmade, hwith⟩
    · exact hbefore c createdAt hold hcontent
    · rw [htorn] at hcontent
      exact absurd hcontent (by simp)
    · rw [hmade] at hcontent
      cases hcontent
      rw [← claimName_injective hname] at hwith
      exact hnone m hm hwith
  obtain ⟨clock, hact⟩ := he'
  have hstep := (h.event hsplit).2.2
  rw [hact] at hstep
  rw [← Option.some.inj hstep]
  rcases release_cases e'.before dir key token clock with hsame | ⟨⟨c, createdAt, hc, hown⟩, _⟩
  · exact hsame
  · exact absurd hown (hother c createdAt hc)

theorem consumed_of_published
    (h : Lib.Reaches (Lib.traced (claimStep root localeCompare)) (TimelyAndSafe root ttlMs)
      (Lib.TracedInit PendingStart) t)
    {later mid earlier : List ClaimEvent} {e e' : ClaimEvent} {dir key : Text}
    (hsplit : t.events = later ++ e' :: (mid ++ e :: earlier)) (he : Published e dir key)
    (he' : Published e' dir key) : ∃ m ∈ mid, Consumed m dir (readyName key) e.before.next := by
  obtain ⟨sessionId, text, hex, clock, faults, rfl, hact, hok⟩ := he
  obtain ⟨sessionId', text', hex', clock', faults', hdir, hact', hok'⟩ := he'
  have hat : t.events = (later ++ e' :: mid) ++ e :: earlier := by
    rw [hsplit]
    simp
  have hstep := (h.event hat).2.2
  rw [hact] at hstep
  -- the first publish made the file, the second one found none
  have hmade : ∃ f, e.after.fileAt (sanitizeSessionId sessionId) (readyName key) = some f ∧
      f.serial = e.before.next := by
    rw [← Option.some.inj hstep]
    exact ⟨_, (published_cases hok).2, rfl⟩
  have hfree : ¬ ∃ f, e'.before.fileAt (sanitizeSessionId sessionId) (readyName key) = some f ∧
      f.serial = e.before.next := by
    rintro ⟨f, hf, _⟩
    rw [← hdir, (published_cases hok').1] at hf
    exact absurd hf (by simp)
  obtain ⟨m, hm, hbefore, hafter⟩ := h.ended_between
    (P := fun q => ∃ f, q.fileAt (sanitizeSessionId sessionId) (readyName key) = some f ∧
      f.serial = e.before.next) hsplit hmade hfree
  obtain ⟨since, -, -, hstep'⟩ := h.event_between hsplit hm
  exact ⟨m, hm, consumes_of_gone hstep' hbefore hafter, hbefore, hafter⟩

/--
**One builder at a time.** In every run in which the clocks do not go back, every acquire is given
the one time to live, no acknowledgement removes a claim, and every sweep finds a claim within its
own time to live where one is within that of the acquires.
-/
theorem claims_exclusive_of_safe (root : Text) (localeCompare : Text → Text → Ordering)
    (ttlMs : Rat) (t : ClaimRun)
    (h : Lib.Reaches (Lib.traced (claimStep root localeCompare)) (TimelyAndSafe root ttlMs)
      (Lib.TracedInit PendingStart) t) : ClaimsExclusive ttlMs t where
  exclusive _ _ _ _ _ _ _ _ _ _ _ hsplit he he' hnow := exclusive_of_safe h hsplit he he' hnow
  own e he dir key token hreleased dir' name c hc := by
    obtain ⟨later, earlier, hsplit⟩ := List.append_of_mem he
    exact own_of_released (h.event hsplit).2.2 hreleased hc
  late _ _ _ _ _ _ _ _ _ _ hsplit he hne hnone he' := late_of_acquired h hsplit he hne hnone he'
  swept := by
    refine h.invariant (I := fun t => SweptExpired ttlMs t.state) ?_ ?_
    · intro t₀ ⟨⟨_, _, hswept, _⟩, _⟩ w hw
      rw [hswept] at hw
      exact absurd hw (by simp)
    · intro t₀ a t₁ hi hok hs
      obtain ⟨q, hstep, rfl⟩ := Lib.traced_eq_some.mp hs
      exact sweptExpired_step hi hok.2 hstep
  published _ _ _ _ _ _ _ hsplit he he' := consumed_of_published h hsplit he he'

end Run

/-- The condition of a step, as a test. -/
def claimSafe (root : Text) (ttlMs : Rat) : ClaimAction → Bool
  | .queue (.acknowledge paths _ _) => paths.all (fun path =>
      match locate root path with
      | .entry .. | .elsewhere => true
      | .lock | .claim .. => false)
  | .queue (.sweep ..) => ttlMs ≤ claimTtlMs
  | _ => true

def timelyAndSafe (root : Text) (ttlMs : Rat) (t : ClaimRun) (a : ClaimAction) : Bool :=
  t.events.all (fun e => e.action.now.all (fun past => a.now.all (fun now => past ≤ now))) &&
    a.ttl.all (· = ttlMs) && claimSafe root ttlMs a

theorem claimSafe_of_test {ttlMs : Rat} {a : ClaimAction} (h : claimSafe root ttlMs a = true) :
    ClaimSafe root ttlMs q a := by
  cases a with
  | acquireThrows => trivial
  | queue a =>
      cases a with
      | acknowledge paths refuses clock =>
          intro path hpath _
          have hloc := List.all_eq_true.mp h path ((List.takeWhile_sublist _).subset hpath)
          generalize locate root path = loc at hloc ⊢
          cases loc with
          | entry | elsewhere => exact ⟨by simp, by simp⟩
          | claim | lock => exact absurd hloc (by simp)
      | sweep now staleDays e => exact SweepAgrees.of_le (of_decide_eq_true h)
      | append | publish | acquire | release | peek | drain => trivial

theorem timelyAndSafe_of_test {ttlMs : Rat} {t : ClaimRun} {a : ClaimAction}
    (h : timelyAndSafe root ttlMs t a = true) : TimelyAndSafe root ttlMs t a := by
  rw [timelyAndSafe, Bool.and_eq_true, Bool.and_eq_true] at h
  obtain ⟨⟨htimes, httl⟩, hsafe⟩ := h
  refine ⟨⟨?_, ?_⟩, claimSafe_of_test hsafe⟩
  · intro e he past hpast now hnow
    have hle := List.all_eq_true.mp htimes e he
    rw [hpast, hnow] at hle
    simpa using hle
  · intro ttl hattl
    rw [hattl] at httl
    simpa using httl

/-- A reminder is claimed, published, swept around, acknowledged, released and claimed again. -/
theorem claims_exclusive_of_safe_rebuilt : ∃ t : ClaimRun,
    t.events.length = 7 ∧ ClaimsExclusive claimTtlMs t := by
  have hstart : Lib.Reaches (Lib.traced (claimStep someRoot (fun _ _ => .eq)))
      (TimelyAndSafe someRoot claimTtlMs) (Lib.TracedInit PendingStart) ⟨{}, []⟩ :=
    .init ⟨pendingStart_empty, rfl⟩
  obtain ⟨t, hreach, htest⟩ := Lib.Reaches.exists_of_tested_run
    (Lib.traced (claimStep someRoot (fun _ _ => .eq)))
    (fun t a (h : timelyAndSafe someRoot claimTtlMs t a = true) => timelyAndSafe_of_test h) hstart
    [.queue (.acquire someSession someKey ['a'] 0 claimTtlMs 0),
      .queue (.acquire someSession someKey ['b'] 100 claimTtlMs 100),
      .queue (publishSome ['x'] ['0']), .queue (.sweep 100000 0 {}),
      .queue (.acknowledge [somePath] (fun _ => none) 1),
      .queue (.release someSession someKey ['a'] 200),
      .queue (.acquire someSession someKey ['c'] 100000 claimTtlMs 300)]
    (fun t => t.events.length = 7)
    (by decide +kernel)
  exact ⟨t, by simpa using htest, claims_exclusive_of_safe someRoot _ claimTtlMs t hreach⟩

/--
A claim is made for ten minutes. A sweep after six minutes takes it away with its directory, and
another acquire succeeds while the first builder is at work.
-/
theorem claim_swept_alive : ∃ (root : Text) (ttlMs : Rat) (t : ClaimRun),
    Lib.Reaches (Lib.traced (claimStep root (fun _ _ => .eq))) (Timely ttlMs)
      (Lib.TracedInit PendingStart) t ∧ ¬ ClaimsExclusive ttlMs t := by
  let first : ClaimAction := .queue (.acquire someSession someKey ['a'] 0 600000 0)
  let sweep : ClaimAction := .queue (.sweep 360000 0 {})
  let second : ClaimAction := .queue (.acquire someSession someKey ['b'] 400000 600000 400000)
  let q₁ := (acquirePendingClaim {} someSession someKey ['a'] 0 600000 0).2
  let q₂ := (cleanupStalePendingDirs q₁ 360000 0 {}).2
  let q₃ := (acquirePendingClaim q₂ someSession someKey ['b'] 400000 600000 400000).2
  refine ⟨someRoot, 600000, ⟨q₃, [⟨q₂, second, q₃⟩, ⟨q₁, sweep, q₂⟩, ⟨{}, first, q₁⟩]⟩, ?_, ?_⟩
  · have hstart : Lib.Reaches (Lib.traced (claimStep someRoot (fun _ _ => .eq))) (Timely 600000)
        (Lib.TracedInit PendingStart) ⟨{}, []⟩ := .init ⟨pendingStart_empty, rfl⟩
    refine ((hstart.act first ?_ rfl).act sweep ?_ rfl).act second ?_ rfl
    · exact ⟨by simp, by simp [first, ClaimAction.ttl]⟩
    · exact ⟨by simp [first, sweep, ClaimAction.now], by simp [sweep, ClaimAction.ttl]⟩
    · refine ⟨?_, by simp [second, ClaimAction.ttl]⟩
      simp only [List.mem_cons, List.not_mem_nil, or_false, forall_eq_or_imp, forall_eq, first,
        sweep, second, ClaimAction.now, Option.mem_def, Option.some.injEq]
      norm_num
  · intro h
    obtain ⟨m, hm, clock, hreleased⟩ := h.exclusive [] ⟨q₂, second, q₃⟩ [⟨q₁, sweep, q₂⟩]
      ⟨{}, first, q₁⟩ [] someSession someKey ['a'] ['b'] 0 400000 rfl
      ⟨someSession, 600000, 0, by decide, rfl, by decide +kernel⟩
      ⟨someSession, 600000, 400000, by decide, rfl, by decide +kernel⟩ (by norm_num)
    rw [List.mem_singleton.mp hm] at hreleased
    exact absurd hreleased (by simp [sweep])

end Caveat.Pending
