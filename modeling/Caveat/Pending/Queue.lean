import Caveat.Js.Text
import Caveat.Lib.PosixPath
import Caveat.Lib.Transition
import Mathlib.Data.List.AList
import Mathlib.Data.List.Sort
import Mathlib.Data.Rat.Defs
import Mathlib.Algebra.Order.Ring.Rat

/-!
# The queue of pending reminders

A session has a directory of reminder files below the root of the queue. Every operation works
under the queue lock, so it is one step; the looks taken before the lock can only skip the step.
An operation is given the clock and what the system refuses. A file carries the serial number of
its creation, which no file after it is given again.
-/

namespace Caveat.Pending

open Js

/-! ## What is on disk -/

structure PendingFile where
  serial : Nat
  text : Text
  mtime : Rat
deriving DecidableEq

/-- A claim; a torn one has no content. -/
structure ClaimFile where
  content : Option (Text × Rat)
  mtime : Rat
deriving DecidableEq

structure ClaimsDir where
  mtime : Rat
  files : AList (fun _ : Text => ClaimFile) := ∅

structure SessionDir where
  mtime : Rat
  files : AList (fun _ : Text => PendingFile) := ∅
  claims : Option ClaimsDir := none

/-- A reminder file that was created: where, with which number and text. -/
structure Created where
  dir : Text
  name : Text
  serial : Nat
  text : Text
deriving DecidableEq

/-- A directory that a sweep went through, as the sweep found it. -/
structure Sweep where
  dir : Text
  contents : SessionDir
  now : Rat
  staleDays : Rat

/-- The directories below the root, and the history of what was created, returned and swept. -/
structure PendingQueue where
  dirs : AList (fun _ : Text => SessionDir) := ∅
  next : Nat := 0
  created : List Created := []
  returned : List (Nat × Text) := []
  swept : List Sweep := []

inductive PendingError where
  | invalidKey
  | outsideRoot
  | negativeStaleDays
  | system
deriving DecidableEq

def PendingQueue.fileAt (q : PendingQueue) (dir name : Text) : Option PendingFile :=
  (q.dirs.lookup dir).bind (fun d => d.files.lookup name)

/-! ## Names and paths -/

def unknownSession : Text := "_unknown".toList

/-- `sanitizeSessionId`. -/
def sanitizeSessionId (raw : Text) : Text :=
  let clean := raw.filter (fun c => c.isAlphanum || c = '-' || c = '_')
  if clean = [] then unknownSession else clean

def claimsName : Text := ".claims".toList

def lockName : Text := ".queue-lock.sqlite".toList

/-- `/^[a-f0-9]{64}$/`. -/
def validKey (key : Text) : Bool :=
  key.length = 64 && key.all (fun c => c.isDigit || ('a' ≤ c && c ≤ 'f'))

def readyName (key : Text) : Text := key ++ ".ready".toList

def claimName (key : Text) : Text := key ++ ".claim".toList

def tempName (key hex : Text) : Text := '.' :: key ++ '.' :: hex ++ ".tmp".toList

def appendName (stamp hex : Text) : Text := stamp ++ '-' :: hex ++ ".txt".toList

/-- What peek and drain look at. -/
def isReminderName (name : Text) : Bool :=
  ".txt".toList.isSuffixOf name || ".ready".toList.isSuffixOf name

/-- `join(root, dir, name)` for a name of a session's directory. -/
def pendingPath (root dir name : Text) : Text := root ++ '/' :: dir ++ '/' :: name

/-- Where a path below the root leads. -/
inductive Location where
  | entry (dir name : Text)
  | claim (dir name : Text)
  | lock
  | elsewhere
deriving DecidableEq

def locationOf : List Text → Location
  | [name] => if name = lockName then .lock else .elsewhere
  | [dir, name] => .entry dir name
  | [dir, sub, name] => if sub = claimsName then .claim dir name else .elsewhere
  | _ => .elsewhere

/-- The place of a path that begins with the root. -/
def locate (root path : Text) : Location :=
  let base := Lib.PosixPath.join [] root
  let place := Lib.PosixPath.join [] path
  if base <+: place then locationOf (place.drop base.length) else .elsewhere

def insideRoot (root path : Text) : Bool :=
  (root ++ ['/']).isPrefixOf path || (root ++ ['\\']).isPrefixOf path

/-! ## Directories -/

/-- `mkdirSync(dir, { recursive: true })`. -/
def PendingQueue.openDir (q : PendingQueue) (dir : Text) (clock : Rat) : SessionDir :=
  (q.dirs.lookup dir).getD { mtime := clock }

def PendingQueue.setDir (q : PendingQueue) (dir : Text) (d : SessionDir) : PendingQueue :=
  { q with dirs := q.dirs.insert dir d }

def SessionDir.insert (d : SessionDir) (name : Text) (f : PendingFile) (clock : Rat) : SessionDir :=
  { d with files := d.files.insert name f, mtime := clock }

def SessionDir.erase (d : SessionDir) (name : Text) (clock : Rat) : SessionDir :=
  { d with files := d.files.erase name, mtime := clock }

/-- The directory's own time and those of its entries. -/
def SessionDir.mtimes (d : SessionDir) : List Rat :=
  d.mtime :: d.files.entries.map (fun e => e.2.mtime) ++ (d.claims.map ClaimsDir.mtime).toList

/-! ## Appending and publishing -/

/-- A new file under a name that is not in use. -/
def PendingQueue.create (q : PendingQueue) (dir name text : Text) (clock : Rat) : PendingQueue :=
  let d := q.openDir dir clock
  let opened := q.setDir dir (d.insert name { serial := q.next, text, mtime := clock } clock)
  { opened with
    next := q.next + 1
    created := q.created ++ [{ dir, name, serial := q.next, text }] }

/-- `appendPendingReminder`; `commits` is whether the lock's transaction commits. -/
def appendPendingReminder (q : PendingQueue) (root sessionId text stamp hex : Text) (clock : Rat)
    (commits : Bool) : Except PendingError Text × PendingQueue :=
  let dir := sanitizeSessionId sessionId
  let name := appendName stamp hex
  if ((q.openDir dir clock).files.lookup name).isSome then
    (.error .system, q.setDir dir (q.openDir dir clock))
  else
    (if commits then .ok (pendingPath root dir name) else .error .system,
      q.create dir name text clock)

/-- What the system does with a publish. -/
structure PublishFaults where
  /-- The ready file was seen before the lock was asked for. -/
  seen : Bool := false
  linkFails : Bool := false
  tempStuck : Bool := false
  commits : Bool := true

/-- Link the temporary file to the ready name, which may be taken. -/
def PublishFaults.link (e : PublishFaults) (written : SessionDir) (key : Text) :
    Except PendingError Bool :=
  if e.linkFails then .error .system
  else .ok (written.files.lookup (readyName key)).isNone

/-- Remove the temporary file. -/
def PublishFaults.clean (e : PublishFaults) (d : SessionDir) (temp : Text) (clock : Rat) :
    SessionDir :=
  if e.tempStuck then d else d.erase temp clock

/-- A publish under the lock: the temporary file, its link, and its removal. -/
def publishLocked (q : PendingQueue) (dir key text hex : Text) (clock : Rat) (e : PublishFaults) :
    Except PendingError Bool × PendingQueue :=
  let d := q.openDir dir clock
  let temp := tempName key hex
  let ready := readyName key
  let file : PendingFile := { serial := q.next, text, mtime := clock }
  if (d.files.lookup temp).isSome then (.error .system, q.setDir dir d)
  else
    let written := d.insert temp file clock
    let linked := e.link written key
    let result := if e.tempStuck || !e.commits then .error .system else linked
    if linked = .ok true then
      let cleaned := e.clean (written.insert ready file clock) temp clock
      (result, { q.setDir dir cleaned with
        next := q.next + 1
        created := q.created ++ [{ dir, name := ready, serial := q.next, text }] })
    else (result, { q.setDir dir (e.clean written temp clock) with next := q.next + 1 })

/-- `publishPendingReminder`: whether the reminder was published. -/
def publishPendingReminder (q : PendingQueue) (sessionId key text hex : Text) (clock : Rat)
    (e : PublishFaults) : Except PendingError Bool × PendingQueue :=
  let dir := sanitizeSessionId sessionId
  if !validKey key then (.error .invalidKey, q)
  else if e.seen then (.ok false, q)
  else
    match publishLocked q dir key text hex clock e with
    | (.error err, q') =>
        (if (q'.fileAt dir (readyName key)).isSome then .ok false else .error err, q')
    | done => done

/-! ## Claims -/

def claimTtlMs : Rat := 5 * 60 * 1000

def ClaimFile.createdAt (c : ClaimFile) : Rat := c.content.elim c.mtime Prod.snd

/-- `hasNonExpiredPendingClaim`; a claims directory that cannot be read counts as a claim. -/
def hasNonExpiredPendingClaim (d : SessionDir) (now : Rat) (unreadable : Bool) : Bool :=
  unreadable || d.claims.any (fun c => c.files.entries.any (fun e =>
    ".claim".toList.isSuffixOf e.1 && now - e.2.createdAt ≤ claimTtlMs))

def ClaimsDir.insert (c : ClaimsDir) (name : Text) (f : ClaimFile) (clock : Rat) : ClaimsDir :=
  { files := c.files.insert name f, mtime := clock }

def ClaimsDir.erase (c : ClaimsDir) (name : Text) (clock : Rat) : ClaimsDir :=
  { files := c.files.erase name, mtime := clock }

/-- `acquirePendingClaim`: an expired claim is taken over once. -/
def acquirePendingClaim (q : PendingQueue) (sessionId key ownerToken : Text) (now ttlMs clock : Rat) :
    Except PendingError (Option Text) × PendingQueue :=
  let dir := sanitizeSessionId sessionId
  if !validKey key then (.error .invalidKey, q)
  else if (q.fileAt dir (readyName key)).isSome then (.ok none, q)
  else
    let d := q.openDir dir clock
    let claims := d.claims.getD { mtime := clock }
    let taken := claims.insert (claimName key) { content := some (ownerToken, now), mtime := clock } clock
    match claims.files.lookup (claimName key) with
    | none => (.ok (some ownerToken), q.setDir dir { d with claims := some taken })
    | some c =>
        if now - c.createdAt ≤ ttlMs then (.ok none, q.setDir dir { d with claims := some claims })
        else (.ok (some ownerToken), q.setDir dir { d with claims := some taken })

/-- `releasePendingClaim`: only the owner's claim is removed. -/
def releasePendingClaim (q : PendingQueue) (dir key ownerToken : Text) (clock : Rat) :
    Except PendingError Unit × PendingQueue :=
  match q.dirs.lookup dir with
  | none => (.ok (), q)
  | some d =>
      match d.claims.bind (fun c => c.files.lookup (claimName key)) with
      | none => (.ok (), q)
      | some { content := none, .. } => (.error .system, q)
      | some { content := some (owner, _), .. } =>
          if owner = ownerToken then
            (.ok (), q.setDir dir
              { d with claims := d.claims.map (fun c => c.erase (claimName key) clock) })
          else (.ok (), q)

/-! ## Reading and removing -/

section Order

variable (localeCompare : Text → Text → Ordering)

/-- Older first, then by name. -/
def readsBefore (a b : Sigma fun _ : Text => PendingFile) : Prop :=
  a.2.mtime < b.2.mtime ∨ a.2.mtime = b.2.mtime ∧ localeCompare a.1 b.1 ≠ .gt

instance (a b : Sigma fun _ : Text => PendingFile) : Decidable (readsBefore localeCompare a b) :=
  inferInstanceAs (Decidable (_ ∨ _))

/-- The reminder files of a directory, in the order in which they are read. -/
def SessionDir.reminders (d : SessionDir) : List (Sigma fun _ : Text => PendingFile) :=
  (d.files.entries.filter (fun e => isReminderName e.1)).insertionSort (readsBefore localeCompare)

/-- What the system refuses to a reader, and whether the reader gets its answer back. -/
structure ReadFaults where
  unreadable : Text → Bool := fun _ => false
  undeletable : Text → Bool := fun _ => false
  answers : Bool := true

/-- The files that a reader can read. -/
def SessionDir.readable (d : SessionDir) (e : ReadFaults) :
    List (Sigma fun _ : Text => PendingFile) :=
  (d.reminders localeCompare).filter (fun f => !e.unreadable f.1)

/-- Note what a reader was given. -/
def PendingQueue.noteReturned (q : PendingQueue) (e : ReadFaults)
    (files : List (Sigma fun _ : Text => PendingFile)) : PendingQueue :=
  if e.answers then
    { q with returned := q.returned ++ files.map (fun f => (f.2.serial, f.2.text)) }
  else q

structure PeekResult where
  reminders : List (Text × Text) := []
  readFailures : List Text := []
deriving DecidableEq

/-- `peekPendingRemindersDetailed`. -/
def peekPendingRemindersDetailed (q : PendingQueue) (root sessionId : Text) (e : ReadFaults) :
    Except PendingError PeekResult × PendingQueue :=
  let dir := sanitizeSessionId sessionId
  match q.dirs.lookup dir with
  | none => (.ok {}, q)
  | some d =>
      let result : PeekResult :=
        { reminders := (d.readable localeCompare e).map (fun f =>
            (pendingPath root dir f.1, f.2.text))
          readFailures := ((d.reminders localeCompare).filter (fun f => e.unreadable f.1)).map
            (fun f => f.1) }
      (if e.answers then .ok result else .error .system,
        q.noteReturned e (d.readable localeCompare e))

structure DrainResult where
  reminders : List Text := []
  cleanupFailures : List Text := []
deriving DecidableEq

def lockUnavailable : Text := "pending queue lock unavailable".toList

/-- What a drain removes. -/
def SessionDir.drained (d : SessionDir) (e : ReadFaults) :
    List (Sigma fun _ : Text => PendingFile) :=
  (d.readable localeCompare e).filter (fun f => !e.undeletable f.1)

/-- `drainPendingRemindersDetailed`; without an answer the removals stay. -/
def drainPendingRemindersDetailed (q : PendingQueue) (sessionId : Text) (clock : Rat)
    (e : ReadFaults) : DrainResult × PendingQueue :=
  let dir := sanitizeSessionId sessionId
  match q.dirs.lookup dir with
  | none => ({}, q)
  | some d =>
      let emptied := (d.drained localeCompare e).foldl (fun d f => d.erase f.1 clock) d
      let result : DrainResult :=
        { reminders := (d.readable localeCompare e).map (fun f => f.2.text)
          cleanupFailures := ((d.reminders localeCompare).filter
            (fun f => e.unreadable f.1 || e.undeletable f.1)).map (fun f => f.1) }
      (if e.answers then result else { cleanupFailures := [lockUnavailable] },
        (q.setDir dir emptied).noteReturned e (d.readable localeCompare e))

end Order

/-- The system's answer to a removal that it does not make. -/
inductive Refusal where
  /-- `ENOENT`. -/
  | missing
  | failed
deriving DecidableEq

/-- Remove what a location names. -/
def PendingQueue.unlink (q : PendingQueue) (at' : Location) (clock : Rat) : PendingQueue :=
  match at' with
  | .entry dir name =>
      match q.dirs.lookup dir with
      | some d => if (d.files.lookup name).isSome then q.setDir dir (d.erase name clock) else q
      | none => q
  | .claim dir name =>
      match q.dirs.lookup dir with
      | some d => q.setDir dir { d with claims := d.claims.map (fun c => c.erase name clock) }
      | none => q
  | .lock | .elsewhere => q

/-- `acknowledgePendingReminders`. -/
def acknowledgePendingReminders (root : Text) (refuses : Text → Option Refusal) (clock : Rat) :
    List Text → PendingQueue → Except PendingError Unit × PendingQueue
  | [], q => (.ok (), q)
  | path :: paths, q =>
      if !insideRoot root path then (.error .outsideRoot, q)
      else
        match refuses path with
        | some .failed => (.error .system, q)
        | some .missing => acknowledgePendingReminders root refuses clock paths q
        | none =>
            acknowledgePendingReminders root refuses clock paths (q.unlink (locate root path) clock)

/-! ## Sweeping -/

def dayMs : Rat := 24 * 60 * 60 * 1000

/-- What the system does with a sweep. -/
structure SweepFaults where
  claimsUnreadable : Text → Bool := fun _ => false
  scanFails : Text → Bool := fun _ => false
  /-- The names that stay where removing a directory stops half way. -/
  remains : Text → Option (Text → Bool) := fun _ => none

/-- The newest time in a directory, its own included. -/
def SessionDir.newest (d : SessionDir) : Rat := d.mtimes.foldl max d.mtime

/-- What is left of a directory whose removal stopped half way. -/
def SessionDir.keepOnly (d : SessionDir) (keep : Text → Bool) : SessionDir :=
  { d with
    files := d.files.entries.foldl (fun fs e => if keep e.1 then fs else fs.erase e.1) d.files
    claims := if keep claimsName then d.claims else none }

def PendingQueue.noteSwept (q : PendingQueue) (w : Sweep) : PendingQueue :=
  { q with swept := q.swept ++ [w] }

/-- One directory of a sweep, with the paths removed and the number kept so far. -/
def sweepDir (now staleDays : Rat) (e : SweepFaults) (acc : (List Text × Nat) × PendingQueue)
    (dir : Text) : (List Text × Nat) × PendingQueue :=
  let ((removed, kept), q) := acc
  match q.dirs.lookup dir with
  | none => acc
  | some d =>
      if hasNonExpiredPendingClaim d now (e.claimsUnreadable dir) then ((removed, kept + 1), q)
      else if e.scanFails dir || now - staleDays * dayMs ≤ d.newest then ((removed, kept + 1), q)
      else
        let noted := q.noteSwept { dir, contents := d, now, staleDays }
        match e.remains dir with
        | none => ((removed ++ [dir], kept), { noted with dirs := q.dirs.erase dir })
        | some keep => ((removed, kept + 1), noted.setDir dir (d.keepOnly keep))

/-- `cleanupStalePendingDirs`. -/
def cleanupStalePendingDirs (q : PendingQueue) (now staleDays : Rat) (e : SweepFaults) :
    Except PendingError (List Text × Nat) × PendingQueue :=
  if staleDays < 0 then (.error .negativeStaleDays, q)
  else
    let (result, q') := q.dirs.keys.foldl (sweepDir now staleDays e) (([], 0), q)
    (.ok result, q')

/-! ## The system -/

inductive PendingAction where
  | append (sessionId text stamp hex : Text) (clock : Rat) (commits : Bool)
  | publish (sessionId key text hex : Text) (clock : Rat) (e : PublishFaults)
  | acquire (sessionId key ownerToken : Text) (now ttlMs clock : Rat)
  | release (dir key ownerToken : Text) (clock : Rat)
  | peek (sessionId : Text) (e : ReadFaults)
  | acknowledge (paths : List Text) (refuses : Text → Option Refusal) (clock : Rat)
  | drain (sessionId : Text) (clock : Rat) (e : ReadFaults)
  | sweep (now staleDays : Rat) (e : SweepFaults)

/-- One operation under the queue lock. -/
def pendingStep (root : Text) (localeCompare : Text → Text → Ordering) (q : PendingQueue) :
    PendingAction → Option PendingQueue
  | .append sessionId text stamp hex clock commits =>
      some (appendPendingReminder q root sessionId text stamp hex clock commits).2
  | .publish sessionId key text hex clock e =>
      some (publishPendingReminder q sessionId key text hex clock e).2
  | .acquire sessionId key ownerToken now ttlMs clock =>
      some (acquirePendingClaim q sessionId key ownerToken now ttlMs clock).2
  | .release dir key ownerToken clock => some (releasePendingClaim q dir key ownerToken clock).2
  | .peek sessionId e => some (peekPendingRemindersDetailed localeCompare q root sessionId e).2
  | .acknowledge paths refuses clock =>
      some (acknowledgePendingReminders root refuses clock paths q).2
  | .drain sessionId clock e => some (drainPendingRemindersDetailed localeCompare q sessionId clock e).2
  | .sweep now staleDays e => some (cleanupStalePendingDirs q now staleDays e).2

/-- A queue with no history; the files that are there have numbers that are not given again. -/
def PendingStart (q : PendingQueue) : Prop :=
  q.created = [] ∧ q.returned = [] ∧ q.swept = [] ∧
    ∀ dir name f, q.fileAt dir name = some f → f.serial < q.next

end Caveat.Pending
