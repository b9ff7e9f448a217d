import Caveat.RuntimeErrors.Delivery

/-!
# Reading the store page by page

`snapshot` gives the records above a cursor, up to a limit, and the cursor to go on from. A
consumer comes back with that cursor until a page is not truncated, while records are changed,
compacted and acknowledged. What it is given is the feed of changes of `Lib.ChangeFeed`.
-/

namespace Caveat.RuntimeErrors

open Js

/-! ## Snapshots -/

structure RuntimeErrorView where
  errorCode : Text
  component : Text
  status : Status
  severity : Severity
  fingerprint : Text
  messageTemplate : Text
  occurrenceCount : Nat
  firstSeen : Int
  lastSeen : Int
  productVersion : Text
  stateSchemaVersion : Text
deriving DecidableEq

structure ResolutionView where
  fingerprint : Text
  resolvedAt : Option Int
  reasonCode : Option Text
deriving DecidableEq

def RecordEntry.errorView (r : RecordEntry) : RuntimeErrorView :=
  { errorCode := r.errorCode, component := r.component, status := r.status, severity := r.severity
    fingerprint := r.fingerprint, messageTemplate := r.messageTemplate, occurrenceCount := r.count
    firstSeen := r.firstSeen, lastSeen := r.lastSeen, productVersion := r.productVersion
    stateSchemaVersion := r.stateSchemaVersion }

def RecordEntry.resolutionView (r : RecordEntry) : ResolutionView :=
  { fingerprint := r.fingerprint, resolvedAt := r.resolvedAt, reasonCode := r.reasonCode }

structure SnapshotCursor where
  highWatermark : Nat
  acknowledgedThrough : Nat
  next : Nat
deriving DecidableEq

structure SnapshotDiagnostics where
  collection : Bool
  totalCount : Nat
  pendingCount : Nat
  truncated : Bool
deriving DecidableEq

structure Snapshot where
  schema : Text := runtimeErrorsSchema
  product : Text := "caveat".toList
  version : Text
  stateSchemaVersion : Text := stateVersion
  cursor : SnapshotCursor
  runtimeErrors : List RuntimeErrorView
  resolutions : List ResolutionView
  diagnostics : SnapshotDiagnostics
deriving DecidableEq

/-- `requireLimit`. -/
def requireLimit (limit : Nat) : Except StoreError Unit :=
  if 1 ≤ limit ∧ limit ≤ maxRecords then .ok () else .error .invalidLimit

/-- The records above the cursor. -/
def Store.after (s : Store) (afterCursor : Nat) : List RecordEntry :=
  s.records.filter (fun r => afterCursor < r.sequence)

/-- The records on the page. -/
def Store.rowsAfter (s : Store) (afterCursor limit : Nat) : List RecordEntry :=
  (s.after afterCursor).take limit

/-- The page of a store that was read. -/
def snapshotOf (s : Store) (enabled : Bool) (version : Text) (afterCursor limit : Nat) :
    Snapshot :=
  let all := s.after afterCursor
  let rows := s.rowsAfter afterCursor limit
  { version
    cursor :=
      { highWatermark := s.nextSequence - 1, acknowledgedThrough := s.acknowledgedThrough
        next := (rows.getLast?.map RecordEntry.sequence).getD afterCursor }
    runtimeErrors := (rows.filter (fun r => r.status = .open)).map RecordEntry.errorView
    resolutions := (rows.filter (fun r => r.status = .resolved)).map RecordEntry.resolutionView
    diagnostics :=
      { collection := enabled, totalCount := s.records.length, pendingCount := s.pending.length
        truncated := rows.length < all.length } }

/-- `snapshot`. -/
def snapshot (sha256 : Text → Text) (disk : Option Store) (enabled : Bool) (version : Text)
    (afterCursor limit : Nat) : Except StoreError Snapshot := do
  requireCursor afterCursor
  requireLimit limit
  let store ← if enabled then readStore sha256 disk else .ok {}
  if store.nextSequence - 1 < afterCursor then .error .invalidCursor
  else return snapshotOf store enabled version afterCursor limit

/-! ## A consumer -/

/-- What a page says of a record. -/
inductive Version where
  | error (v : RuntimeErrorView)
  | resolution (v : ResolutionView)
deriving DecidableEq

def Version.fingerprint : Version → Text
  | .error v => v.fingerprint
  | .resolution v => v.fingerprint

/-- What a page would say of the record now. -/
def RecordEntry.version (r : RecordEntry) : Version :=
  match r.status with
  | .open => .error r.errorView
  | .resolved => .resolution r.resolutionView

def Snapshot.versions (s : Snapshot) : List Version :=
  s.runtimeErrors.map .error ++ s.resolutions.map .resolution

/-- A consumer and the pages it was given. -/
structure Reader where
  start : Nat
  cursor : Nat
  pages : List Snapshot := []
  /-- A ghost: the records on these pages. -/
  rows : List RecordEntry := []
  /-- The last page was not truncated. -/
  finished : Bool := false

structure FeedState where
  errors : ErrorState := {}
  reader : Reader

inductive FeedAction where
  | change (a : ErrorAction)
  /-- The consumer asks for a page from its cursor; a call that throws gives it nothing. -/
  | read (version : Text) (limit : Nat)

/-- The reader with one page more. -/
def Reader.add (reader : Reader) (page : Snapshot) (rows : List RecordEntry) : Reader :=
  { reader with
    cursor := page.cursor.next, pages := reader.pages ++ [page], rows := reader.rows ++ rows
    finished := !page.diagnostics.truncated }

def feedStep (sha256 : Text → Text) (st : FeedState) : FeedAction → Option FeedState
  | .change a => (errorStep sha256 st.errors a).map (fun errors => { st with errors })
  | .read version limit =>
      if st.reader.finished then none
      else match snapshot sha256 st.errors.disk true version st.reader.cursor limit with
        | .ok page => some { st with
            reader := st.reader.add page (st.errors.store.rowsAfter st.reader.cursor limit) }
        | .error _ => none

/-- Nothing is recorded yet, and the consumer starts from any cursor. -/
def FeedStart (st : FeedState) : Prop :=
  st.errors = {} ∧ st.reader = { start := st.reader.start, cursor := st.reader.start }

/-- What the consumer was given. -/
def Reader.received (reader : Reader) : List Version := reader.pages.flatMap Snapshot.versions

/-- The last version it was given of every record above its start is the record as it is. -/
def Complete (st : FeedState) : Prop :=
  ∀ r ∈ st.errors.store.records, st.reader.start < r.sequence →
    (st.reader.received.filter (fun v => v.fingerprint = r.fingerprint)).getLast? = some r.version

/-! ## Changes advance the feed -/

variable {sha256 : Text → Text}

/-- The records of the store, as a feed. -/
abbrev Advances (s s' : Store) : Prop :=
  Lib.ChangeFeed.Advance RecordEntry.sequence s.nextSequence s'.nextSequence s.records s'.records

theorem advances_refl (s : Store) : Advances s s := .refl ..

theorem Changed.advances {s s' : Store} {key : Text} (h : Changed s s' key) : Advances s s' where
  next_le := by
    rw [h.next]
    exact Nat.le_succ _
  fresh := fun r hr => (h.mem r hr).imp And.left fun hnew => le_of_eq hnew.2.symm

/-- **Every step advances the feed.** -/
theorem advances_step {st st' : ErrorState} {a : ErrorAction}
    (hs : errorStep sha256 st a = some st') : Advances st.store st'.store := by
  cases storeChange_step hs with
  | same h => rw [h]; exact advances_refl _
  | changed key h => exact h.advances
  | acknowledged cursor h => rw [h]; exact advances_refl _
  | compacted hnext _ hmem => exact ⟨le_of_eq hnext.symm, fun r hr => .inl (hmem r hr)⟩

/-! ## Pages and the records on them -/

theorem snapshot_ok {disk : Option Store} {version : Text} {afterCursor limit : Nat}
    {page : Snapshot} (h : snapshot sha256 disk true version afterCursor limit = .ok page) :
    0 < limit ∧ Valid sha256 (disk.getD {}) ∧ afterCursor < (disk.getD {}).nextSequence ∧
      page = snapshotOf (disk.getD {}) true version afterCursor limit := by
  obtain ⟨_, _, h⟩ := Lib.bind_eq_ok.mp h
  obtain ⟨_, hlimit, h⟩ := Lib.bind_eq_ok.mp h
  obtain ⟨s, hread, h⟩ := Lib.bind_eq_ok.mp h
  obtain ⟨rfl, hs⟩ := readStore_ok hread
  have hpos := hs.next_pos
  unfold requireLimit at hlimit
  split at hlimit
  · rename_i hle
    dsimp only at h
    split at h
    · exact absurd h (by simp)
    · cases h
      exact ⟨hle.1, hs, by omega, rfl⟩
  · exact absurd hlimit (by simp)

/-- At most one of the records on a page has a fingerprint. -/
theorem filter_fingerprint {rows : List RecordEntry}
    (hnodup : (rows.map RecordEntry.fingerprint).Nodup) (key : Text) :
    rows.filter (fun r => r.fingerprint = key) = [] ∨
      ∃ r, rows.filter (fun r => r.fingerprint = key) = [r] := by
  have hall : ∀ r ∈ rows.filter (fun r => r.fingerprint = key), r.fingerprint = key :=
    fun r hr => of_decide_eq_true (List.mem_filter.mp hr).2
  have hsub := hnodup.sublist ((List.filter_sublist
    (p := fun r : RecordEntry => decide (r.fingerprint = key))).map RecordEntry.fingerprint)
  cases hf : rows.filter (fun r => r.fingerprint = key) with
  | nil => exact .inl rfl
  | cons a rest =>
      rw [hf] at hall hsub
      cases rest with
      | nil => exact .inr ⟨a, rfl⟩
      | cons b rest =>
          have hab : a.fingerprint = b.fingerprint :=
            (hall a (by simp)).trans (hall b (by simp)).symm
          rw [List.map_cons, List.map_cons, List.nodup_cons] at hsub
          exact absurd (by rw [hab]; simp) hsub.1

theorem version_fingerprint (r : RecordEntry) : r.version.fingerprint = r.fingerprint := by
  unfold RecordEntry.version
  split <;> rfl

/-- What a page says of a fingerprint is what it would say of its record on the page. -/
theorem versions_filter {s : Store} (hs : Valid sha256 s) (version : Text)
    (afterCursor limit : Nat) (key : Text) :
    (snapshotOf s true version afterCursor limit).versions.filter
        (fun v => v.fingerprint = key) =
      ((s.rowsAfter afterCursor limit).filter (fun r => r.fingerprint = key)).map
        RecordEntry.version := by
  have hnodup : ((s.rowsAfter afterCursor limit).map RecordEntry.fingerprint).Nodup :=
    hs.ordered.keys.sublist (((List.take_sublist ..).trans List.filter_sublist).map _)
  have hmove : ∀ (p : RecordEntry → Bool) (f : RecordEntry → Version),
      (∀ r, (f r).fingerprint = r.fingerprint) →
      (((s.rowsAfter afterCursor limit).filter p).map f).filter (fun v => v.fingerprint = key) =
        (((s.rowsAfter afterCursor limit).filter (fun r => r.fingerprint = key)).filter p).map f := by
    intro p f hf
    rw [List.filter_map, List.filter_filter, List.filter_filter]
    refine congrArg (List.map f) (List.filter_congr fun r _ => ?_)
    simp only [Function.comp, hf, Bool.and_comm]
  rw [Snapshot.versions, snapshotOf, List.map_map, List.map_map, List.filter_append,
    hmove (fun r => r.status = .open) _ (fun _ => rfl),
    hmove (fun r => r.status = .resolved) _ (fun _ => rfl)]
  rcases filter_fingerprint hnodup key with hnil | ⟨r, hr⟩
  · rw [hnil]
    rfl
  · rw [hr]
    cases hstatus : r.status <;> simp [hstatus, RecordEntry.version]

/-! ## The invariant of a consumer -/

structure FeedInv (sha256 : Text → Text) (st : FeedState) : Prop where
  errors : ErrorInv sha256 st.errors
  read : Lib.ChangeFeed.Read RecordEntry.fingerprint RecordEntry.sequence st.reader.start
    st.reader.cursor st.errors.store.records st.reader.rows
  /-- The cursor is a number that was given, unless no page was read yet. -/
  behind : st.reader.cursor < st.errors.store.nextSequence ∨
    (st.reader.cursor = st.reader.start ∧ st.reader.rows = [])
  /-- The pages said what the records on them were. -/
  received : ∀ key, st.reader.received.filter (fun v => v.fingerprint = key) =
    (st.reader.rows.filter (fun r => r.fingerprint = key)).map RecordEntry.version

/-- The store that is read is valid, also when there is none yet. -/
theorem ErrorInv.validStore {st : ErrorState} (h : ErrorInv sha256 st) : Valid sha256 st.store := by
  unfold ErrorState.store
  cases hd : st.disk with
  | none => exact valid_empty sha256
  | some s => exact h.valid s hd

theorem feedInv_change {st : FeedState} {errors : ErrorState} (h : FeedInv sha256 st)
    {a : ErrorAction} (hs : errorStep sha256 st.errors a = some errors) :
    FeedInv sha256 { st with errors } where
  errors := errorInv_step h.errors hs
  read := by
    have hadv := advances_step hs
    rcases h.behind with hlt | ⟨hc, hrows⟩
    · exact h.read.advance hlt hadv
    · show Lib.ChangeFeed.Read _ _ st.reader.start st.reader.cursor _ st.reader.rows
      rw [hc, hrows]
      exact .nothing ..
  behind := h.behind.imp_left fun hlt => lt_of_lt_of_le hlt (advances_step hs).next_le
  received := h.received

/-- The pages of a read, in the words of the library. -/
theorem rowsAfter_eq_page (s : Store) (afterCursor limit : Nat) : s.rowsAfter afterCursor limit =
    Lib.ChangeFeed.page RecordEntry.sequence afterCursor limit s.records := rfl

theorem nextOf_snapshot (s : Store) (version : Text) (afterCursor limit : Nat) :
    (snapshotOf s true version afterCursor limit).cursor.next =
      Lib.ChangeFeed.nextCursor RecordEntry.sequence afterCursor
        (s.rowsAfter afterCursor limit) := rfl

theorem feedInv_read {st : FeedState} (h : FeedInv sha256 st) {version : Text} {limit : Nat}
    {page : Snapshot}
    (hpage : snapshot sha256 st.errors.disk true version st.reader.cursor limit = .ok page) :
    FeedInv sha256 { st with
      reader := st.reader.add page (st.errors.store.rowsAfter st.reader.cursor limit) } := by
  obtain ⟨hlimit, hs, hlt, rfl⟩ := snapshot_ok hpage
  change Valid sha256 st.errors.store at hs
  change st.reader.cursor < st.errors.store.nextSequence at hlt
  refine ⟨h.errors, h.read.page hs.ordered hlimit, .inl ?_, ?_⟩
  · refine Lib.ChangeFeed.nextCursor_lt hlt fun r hr => ?_
    exact hs.ordered.below r (Lib.ChangeFeed.mem_page hr).1
  · intro key
    have hold := h.received key
    have hnew := versions_filter hs version st.reader.cursor limit key
    show ((st.reader.pages ++ [_]).flatMap Snapshot.versions).filter _ =
      ((st.reader.rows ++ _).filter _).map _
    rw [List.flatMap_append, List.flatMap_singleton, List.filter_append, List.filter_append,
      List.map_append]
    exact congrArg₂ (· ++ ·) hold hnew

theorem feedInv_step {st st' : FeedState} (h : FeedInv sha256 st) {a : FeedAction}
    (hs : feedStep sha256 st a = some st') : FeedInv sha256 st' := by
  cases a with
  | change a =>
      obtain ⟨errors, he, rfl⟩ := Option.map_eq_some_iff.mp hs
      exact feedInv_change h he
  | read version limit =>
      simp only [feedStep] at hs
      split at hs
      · exact absurd hs (by simp)
      · split at hs
        · rename_i page hpage
          cases hs
          exact feedInv_read h hpage
        · exact absurd hs (by simp)

theorem feedInv_init {st : FeedState} (h : FeedStart st) : FeedInv sha256 st := by
  obtain ⟨errors, reader⟩ := st
  obtain ⟨rfl, hreader⟩ := h
  dsimp only at hreader
  rw [hreader]
  exact ⟨errorInv_init sha256, .nothing .., .inr ⟨rfl, rfl⟩, fun _ => rfl⟩

/-- What a consumer can rely on in every state. -/
structure FeedSound (st : FeedState) : Prop where
  /-- What it was told of a fingerprint are the versions of the records read, in their order. -/
  received : ∀ key, st.reader.received.filter (fun v => v.fingerprint = key) =
    (st.reader.rows.filter (fun r => r.fingerprint = key)).map RecordEntry.version
  /-- No record was read twice under one number. -/
  once : (st.reader.rows.map (fun r => (r.fingerprint, r.sequence))).Nodup

theorem FeedInv.sound {st : FeedState} (h : FeedInv sha256 st) : FeedSound st where
  received := h.received
  once := by
    refine List.Pairwise.map _ (fun a b hab he => ?_) h.read.sorted
    have := (Prod.mk.injEq .. ▸ he : _ ∧ a.sequence = b.sequence).2
    omega

/-- After an untruncated page nothing is missing. -/
theorem FeedInv.complete {st : FeedState} (h : FeedInv sha256 st)
    (hall : ∀ r ∈ st.errors.store.records, r.sequence ≤ st.reader.cursor) : Complete st := by
  intro r hr hstart
  rw [h.received, List.getLast?_map, h.read.last hr hstart (hall r hr)]
  rfl

/-- What a page tells the consumer. -/
structure PageSound (st' : FeedState) (page : Snapshot) : Prop where
  truncated : page.diagnostics.truncated = true ↔
    ∃ r ∈ st'.errors.store.records, page.cursor.next < r.sequence
  complete : page.diagnostics.truncated = false → Complete st'

theorem pageSound_read {st st' : FeedState} (h : FeedInv sha256 st) {version : Text}
    {limit : Nat} (hs : feedStep sha256 st (.read version limit) = some st') :
    ∃ page, st'.reader.pages = st.reader.pages ++ [page] ∧ st'.reader.cursor = page.cursor.next ∧
      PageSound st' page := by
  have hinv := feedInv_step h hs
  simp only [feedStep] at hs
  split at hs
  · exact absurd hs (by simp)
  · split at hs
    · rename_i page hpage
      cases hs
      obtain ⟨hlimit, hvalid, _, rfl⟩ := snapshot_ok hpage
      have htrunc : (snapshotOf st.errors.store true version st.reader.cursor limit
          ).diagnostics.truncated = true ↔ ∃ r ∈ st.errors.store.records,
          (snapshotOf st.errors.store true version st.reader.cursor limit).cursor.next <
            r.sequence :=
        decide_eq_true_iff.trans (Lib.ChangeFeed.truncated_iff hvalid.ordered hlimit)
      refine ⟨_, rfl, rfl, htrunc, fun hnot => hinv.complete fun r hr => ?_⟩
      by_contra hlt
      have := htrunc.mpr ⟨r, hr, Nat.lt_of_not_le hlt⟩
      exact absurd (this.symm.trans hnot) (by simp)
    · exact absurd hs (by simp)

/--
**Paging is complete under changes.** From any start cursor, with any limits and any changes
between the pages: what the consumer was told are versions of the records it read, none of them
twice; a page says it is truncated just when records above its cursor remain; and once one is not,
the last version it was given of every record above its start is the record as it is.
-/
theorem paging_complete (sha256 : Text → Text) (st : FeedState)
    (h : Lib.Reaches (feedStep sha256) (fun _ _ => True) FeedStart st) :
    FeedSound st ∧ ∀ version limit st', feedStep sha256 st (.read version limit) = some st' →
      ∃ page, st'.reader.pages = st.reader.pages ++ [page] ∧
        st'.reader.cursor = page.cursor.next ∧ PageSound st' page := by
  have hinv : FeedInv sha256 st := h.invariant (fun _ => feedInv_init)
    fun _ _ _ hi _ hs => feedInv_step hi hs
  exact ⟨hinv.sound, fun _ _ _ hs => pageSound_read hinv hs⟩

/-- Another code. -/
def otherError : RecordOptions := { someError with code := "CAVEAT.SYNC_FAILED".toList }

/-- A record changes between two pages of one record each, and is given twice, last as it is. -/
theorem paging_complete_changed : ∃ st : FeedState,
    (st.reader.rows.map RecordEntry.sequence = [1, 2, 3] ∧ st.reader.finished = true) ∧
      FeedSound st := by
  obtain ⟨st, hreach, htest⟩ := Lib.Reaches.exists_of_run (feedStep id)
    (show FeedStart { reader := { start := 0, cursor := 0 } } from ⟨rfl, rfl⟩)
    [.change (.record true someError .none), .change (.record true otherError .none),
      .read [] 1, .change (.record true someError .none), .read [] 1, .read [] 1]
    (fun st => st.reader.rows.map RecordEntry.sequence = [1, 2, 3] && st.reader.finished)
    (by decide +kernel)
  exact ⟨st, by simpa using htest, (paging_complete id st hreach).1⟩

end Caveat.RuntimeErrors
