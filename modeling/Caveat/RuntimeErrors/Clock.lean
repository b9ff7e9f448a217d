import Caveat.RuntimeErrors.StoreProof

/-!
# Recording under any clock

A record that is written again keeps the time at which it was first seen and takes the current time as the
one at which it was last seen; a resolution takes the current time behind that. Validation asks for these
times in order, so that a clock that was set back loses the event.
-/

namespace Caveat.RuntimeErrors

open Js

variable {sha256 : Text → Text} {disk : Option Store} {s s' : Store} {r : RecordEntry}
  {key : Text} {t : Int}

/-! ## Written stores -/

theorem sequences_updateRecord {f : RecordEntry → RecordEntry} {next : Nat}
    {records : List RecordEntry} (hf : ∀ r, (f r).sequence = next)
    (hbelow : ∀ r ∈ records, r.sequence < next)
    (hnodup : (records.map RecordEntry.sequence).Nodup) :
    ((updateRecord key f records).map RecordEntry.sequence).Nodup := by
  induction records with
  | nil => exact .nil
  | cons a rest ih =>
      rw [List.map_cons, List.nodup_cons] at hnodup
      have hrest : ∀ r ∈ rest, r.sequence < next := fun r hr => hbelow r (List.mem_cons_of_mem a hr)
      have ha := hbelow a List.mem_cons_self
      rw [updateRecord]
      split
      · rw [List.map_cons, List.nodup_cons, hf]
        refine ⟨fun hmem => ?_, hnodup.2⟩
        obtain ⟨r, hr, hseq⟩ := List.mem_map.mp hmem
        have := hrest r hr
        omega
      · rw [List.map_cons, List.nodup_cons]
        refine ⟨fun hmem => ?_, ih hrest hnodup.2⟩
        obtain ⟨r, hr, hseq⟩ := List.mem_map.mp hmem
        have hcases : r ∈ rest ∨ ∃ r₀, r = f r₀ := by
          clear ih hnodup hrest hbelow hmem
          induction rest with
          | nil => exact absurd hr List.not_mem_nil
          | cons b rest ih =>
              rw [updateRecord] at hr
              split at hr
              · rcases List.mem_cons.mp hr with rfl | hr
                · exact .inr ⟨b, rfl⟩
                · exact .inl (List.mem_cons_of_mem b hr)
              · rcases List.mem_cons.mp hr with rfl | hr
                · exact .inl List.mem_cons_self
                · exact (ih hr).imp (List.mem_cons_of_mem b) id
        rcases hcases with hr | ⟨r₀, rfl⟩
        · exact hnodup.1 (hseq ▸ List.mem_map_of_mem hr)
        · have := hf r₀
          omega

theorem fingerprints_updateRecord {f : RecordEntry → RecordEntry} {records : List RecordEntry}
    (hf : ∀ r, (f r).fingerprint = r.fingerprint) :
    (updateRecord key f records).map RecordEntry.fingerprint =
      records.map RecordEntry.fingerprint := by
  induction records with
  | nil => rfl
  | cons a rest ih =>
      rw [updateRecord]
      split
      · rw [List.map_cons, List.map_cons, hf]
      · rw [List.map_cons, List.map_cons, ih]

theorem length_updateRecord {f : RecordEntry → RecordEntry} (records : List RecordEntry) :
    (updateRecord key f records).length = records.length := by
  induction records with
  | nil => rfl
  | cons a rest ih =>
      rw [updateRecord]
      split
      · rfl
      · rw [List.length_cons, List.length_cons, ih]

theorem perm_sortRecords (records : List RecordEntry) : (sortRecords records).Perm records :=
  List.perm_insertionSort _ records

/-- Records in the order of their numbers, which are different. -/
theorem sorted_sortRecords {records : List RecordEntry}
    (hnodup : (records.map RecordEntry.sequence).Nodup) :
    (sortRecords records).Pairwise (fun a b => a.sequence < b.sequence) := by
  have hle : (sortRecords records).Pairwise (fun a b => a.sequence ≤ b.sequence) :=
    List.pairwise_insertionSort _ records
  have hne : (sortRecords records).Pairwise (fun a b => a.sequence ≠ b.sequence) := by
    have hperm := (perm_sortRecords records).map RecordEntry.sequence
    exact List.pairwise_map.mp (hperm.nodup_iff.mpr hnodup)
  exact hle.imp₂ (fun _ _ h h' => lt_of_le_of_ne h h') hne

/-- **A store with a new number** is valid if its records are, and the numbers are not used up. -/
theorem valid_sorted (hs : Valid sha256 s) {records : List RecordEntry}
    (hnext : s.nextSequence < maxSafeInteger) (hlength : records.length ≤ maxRecords)
    (hrecord : ∀ r ∈ records, validRecord sha256 (s.nextSequence + 1) r = true)
    (hpositive : ∀ r ∈ records, 0 < r.sequence)
    (hkeys : (records.map RecordEntry.fingerprint).Nodup)
    (hsequences : (records.map RecordEntry.sequence).Nodup) :
    Valid sha256 { s with nextSequence := s.nextSequence + 1, records := sortRecords records } where
  schema := hs.schema
  next_le := hnext
  next_pos := Nat.le_add_left 1 _
  ack_lt := Nat.lt_succ_of_lt hs.ack_lt
  length_le := by rwa [(perm_sortRecords records).length_eq]
  record := fun r hr => hrecord r (mem_sortRecords.mp hr)
  positive := fun r hr => hpositive r (mem_sortRecords.mp hr)
  ordered := {
    sorted := sorted_sortRecords hsequences
    keys := ((perm_sortRecords records).map RecordEntry.fingerprint).nodup_iff.mpr hkeys
    below := fun r hr => sequence_lt_of_validRecord (hrecord r (mem_sortRecords.mp hr)) }

theorem validRecord_mono {next next' : Nat} (hle : next ≤ next')
    (h : validRecord sha256 next r = true) : validRecord sha256 next' r = true := by
  rw [validRecord] at h ⊢
  cases hd : definition? r.errorCode with
  | none => simp [hd] at h
  | some d =>
      simp only [hd, Bool.and_eq_true, decide_eq_true_eq] at h ⊢
      refine ⟨⟨h.1.1, ?_⟩, h.2⟩
      have := h.1.2
      omega

theorem sequences_nodup (hs : Valid sha256 s) : (s.records.map RecordEntry.sequence).Nodup :=
  List.pairwise_map.mpr (hs.ordered.sorted.imp fun h => Nat.ne_of_lt h)

/-- **An update** of one record is valid exactly if the record is, and the numbers are not used up. -/
theorem valid_update_iff (key : Text) {f : RecordEntry → RecordEntry} (hs : Valid sha256 s)
    (hkey : ∀ r, (f r).fingerprint = r.fingerprint)
    (hseq : ∀ r, (f r).sequence = s.nextSequence) (hr : r ∈ s.records) (hrkey : r.fingerprint = key) :
    Valid sha256 { s with
      nextSequence := s.nextSequence + 1
      records := sortRecords (updateRecord key f s.records) } ↔
        s.nextSequence < maxSafeInteger ∧
          validRecord sha256 (s.nextSequence + 1) (f r) = true := by
  have hmem : f r ∈ updateRecord key f s.records :=
    (mem_updateRecord hs.ordered.keys).mpr (.inr ⟨r, hr, hrkey, rfl⟩)
  constructor
  · intro h
    exact ⟨h.next_le, h.record (f r) (mem_sortRecords.mpr hmem)⟩
  · rintro ⟨hnext, hvalid⟩
    have hall : ∀ x ∈ updateRecord key f s.records,
        validRecord sha256 (s.nextSequence + 1) x = true ∧ 0 < x.sequence := by
      intro x hx
      rcases (mem_updateRecord hs.ordered.keys).mp hx with ⟨hold, _⟩ | ⟨r₀, hr₀, hkey₀, rfl⟩
      · exact ⟨validRecord_mono (Nat.le_succ _) (hs.record x hold), hs.positive x hold⟩
      · have hsame : r₀ = r :=
          List.inj_on_of_nodup_map hs.ordered.keys hr₀ hr (hkey₀.trans hrkey.symm)
        rw [hsame, hseq]
        exact ⟨hvalid, hs.next_pos⟩
    refine valid_sorted hs hnext ?_ (fun x hx => (hall x hx).1) (fun x hx => (hall x hx).2) ?_ ?_
    · rw [length_updateRecord]
      exact hs.length_le
    · rw [fingerprints_updateRecord hkey]
      exact hs.ordered.keys
    · exact sequences_updateRecord hseq hs.ordered.below (sequences_nodup hs)

/-! ## Room for another record -/

theorem definition_of_validRecord {next : Nat} (h : validRecord sha256 next r = true) :
    ∃ d, definition? r.errorCode = some d ∧ r.fingerprint = fingerprint sha256 r.errorCode d := by
  rw [validRecord] at h
  cases hd : definition? r.errorCode with
  | none => simp [hd] at h
  | some d =>
      simp only [hd, Bool.and_eq_true, decide_eq_true_eq] at h
      exact ⟨d, rfl, h.1.1.1.1.1.1.1.1.1.1.1.2⟩

theorem mem_definitions {code : Text} {d : Definition} (h : definition? code = some d) :
    code ∈ definitions.map Prod.fst := by
  by_contra hmem
  have hnone : definitions.lookup code = none := by
    refine List.lookup_eq_none_iff.mpr fun entry hentry => bne_iff_ne.mpr fun heq => hmem ?_
    rw [heq]
    exact List.mem_map_of_mem hentry
  rw [definition?, hnone] at h
  exact absurd h (by simp)

/-- There is at most one record of each code. -/
theorem length_le_definitions (hs : Valid sha256 s) : s.records.length ≤ definitions.length := by
  have hcodes : (s.records.map RecordEntry.errorCode).Nodup := by
    refine List.Nodup.of_map (fun code => (definition? code).map (fingerprint sha256 code)) ?_
    have hsame : (s.records.map RecordEntry.errorCode).map
        (fun code => (definition? code).map (fingerprint sha256 code)) =
          (s.records.map RecordEntry.fingerprint).map some := by
      rw [List.map_map, List.map_map]
      refine List.map_congr_left fun r hr => ?_
      obtain ⟨d, hd, hprint⟩ := definition_of_validRecord (hs.record r hr)
      show (definition? r.errorCode).map (fingerprint sha256 r.errorCode) = some r.fingerprint
      rw [hd, hprint]
      rfl
    rw [hsame]
    exact hs.ordered.keys.map (Option.some_injective _)
  have hsub : s.records.map RecordEntry.errorCode ⊆ definitions.map Prod.fst := by
    intro code hcode
    obtain ⟨r, hr, rfl⟩ := List.mem_map.mp hcode
    obtain ⟨d, hd, _⟩ := definition_of_validRecord (hs.record r hr)
    exact mem_definitions hd
  have hle := (List.subperm_of_subset hcodes hsub).length_le
  rwa [List.length_map, List.length_map] at hle

/-! ## Recording -/

/-- What a caller gives but for the time: a known code, and metadata that is valid. -/
structure ValidOptions (o : RecordOptions) (d : Definition) : Prop where
  code : definition? o.code = some d
  version : validVersion o.version = true
  os : validOs (normalizeOs o.os) = true
  arch : validArch o.arch = true

/-- How often a code has occurred. -/
def countOf (key : Text) (s : Store) : Nat :=
  ((s.records.find? (fun r => r.fingerprint = key)).map (·.count)).getD 0

variable (sha256 disk) in
/-- The event is counted in a store that is valid. -/
def Recorded (o : RecordOptions) (key : Text) : Prop :=
  ∃ s' n, recordRuntimeError sha256 disk o = .ok (s', key, n) ∧ validate sha256 s' = true ∧
    countOf key s' = countOf key (disk.getD {}) + 1

/-- The code was first seen before the current time. -/
def SeenBefore (s : Store) (key : Text) (t : Int) : Prop :=
  ∀ r ∈ s.records, r.fingerprint = key → r.firstSeen ≤ t

/-- No counter is at its end. -/
def HasRoom (s : Store) (key : Text) : Prop :=
  s.nextSequence < maxSafeInteger ∧ countOf key s < maxSafeInteger

theorem again_valid_iff {o : RecordOptions} {d : Definition} {next : Nat} {severity : Severity}
    (ho : ValidOptions o d) (ht : validTime t = true) (hnext : next ≤ maxSafeInteger)
    (h : validRecord sha256 next r = true) :
    validRecord sha256 (next + 1) (r.again o severity t next) = true ↔
      r.firstSeen ≤ t ∧ r.count < maxSafeInteger := by
  rw [validRecord] at h
  rw [validRecord]
  have hcode : (r.again o severity t next).errorCode = r.errorCode := rfl
  rw [hcode]
  cases hd : definition? r.errorCode with
  | none => simp [hd] at h
  | some d' =>
      simp only [hd, Bool.and_eq_true, decide_eq_true_eq] at h
      obtain ⟨⟨⟨⟨⟨⟨⟨⟨⟨⟨⟨⟨⟨⟨⟨hproduct, _⟩, hcomponent⟩, htemplate⟩, hprint⟩, _⟩, _⟩, hfirst⟩, _⟩, _⟩,
        hschema⟩, _⟩, _⟩, _⟩, _⟩, _⟩ := h
      simp only [RecordEntry.again, Bool.and_eq_true, decide_eq_true_eq, hproduct, hcomponent,
        htemplate, hprint, hfirst, hschema, ho.version, ho.os, ho.arch, ht, validStatus,
        Option.isNone_none, true_and, and_true]
      omega

theorem firstRecord_valid {o : RecordOptions} {d : Definition} {next : Nat} {severity : Severity}
    (ho : ValidOptions o d) (ht : validTime t = true) (hnext : next ≤ maxSafeInteger) :
    validRecord sha256 (next + 1) (firstRecord sha256 o d severity t next) = true := by
  have hcode : (firstRecord sha256 o d severity t next).errorCode = o.code := rfl
  rw [validRecord, hcode]
  simp only [ho.code, firstRecord, ho.version, ho.os, ho.arch, ht, validStatus, Bool.and_eq_true,
    decide_eq_true_eq, Option.isNone_none, true_and, and_true]
  have hone : 1 ≤ maxSafeInteger := by decide
  exact ⟨⟨⟨⟨decide_eq_true hone, decide_eq_true le_rfl⟩, decide_eq_true le_rfl⟩,
    decide_eq_true hnext⟩, decide_eq_true (Nat.lt_succ_self next)⟩

theorem find?_of_mem {records : List RecordEntry}
    (hnodup : (records.map RecordEntry.fingerprint).Nodup) (hr : r ∈ records)
    (hkey : r.fingerprint = key) : records.find? (fun r => r.fingerprint = key) = some r := by
  cases hfind : records.find? (fun r => r.fingerprint = key) with
  | none => exact absurd hkey (by simpa using List.find?_eq_none.mp hfind r hr)
  | some r' =>
      obtain ⟨hr', hkey'⟩ := find?_fingerprint hfind
      rw [List.inj_on_of_nodup_map hnodup hr' hr (hkey'.trans hkey.symm)]

theorem countOf_of_mem (hs : Valid sha256 s) (hr : r ∈ s.records) (hkey : r.fingerprint = key) :
    countOf key s = r.count := by
  rw [countOf, find?_of_mem hs.ordered.keys hr hkey]
  rfl

theorem countOf_of_none (h : s.records.find? (fun r => r.fingerprint = key) = none) :
    countOf key s = 0 := by
  rw [countOf, h]
  rfl

theorem checked_of_valid (h : Valid sha256 s) : checked sha256 s = .ok s := by
  rw [checked, if_pos (validate_iff.mpr h)]

/-- What is left of a recording once everything but the store is looked at. -/
theorem recordRuntimeError_eq {o : RecordOptions} {d : Definition}
    (hread : readStore sha256 disk = .ok s) (ho : ValidOptions o d) (htime : o.time = some t)
    (ht : validTime t = true) : recordRuntimeError sha256 disk o =
      (occur sha256 s.records o d t s.nextSequence).bind fun records =>
        (checked sha256 { s with
          nextSequence := s.nextSequence + 1, records := sortRecords records }).bind fun written =>
            .ok (written, fingerprint sha256 o.code d, s.nextSequence) := by
  have hnow : now o.time = .ok t := by rw [htime, now, if_pos ht]
  have hmetadata : (!(validVersion o.version && validOs (normalizeOs o.os) && validArch o.arch)) =
      false := by rw [ho.version, ho.os, ho.arch]; rfl
  simp only [recordRuntimeError, hread, bind, Except.bind, ho.code, hnow, hmetadata,
    Bool.false_eq_true, if_false]
  rfl

/-- What is written of an update: the store, if it is valid. -/
theorem written_update {f : RecordEntry → RecordEntry} (hs : Valid sha256 s)
    (hkey : ∀ r, (f r).fingerprint = r.fingerprint) (hr : r ∈ s.records) (hrkey : r.fingerprint = key) {s' : Store}
    (hs' : s' = { s with
      nextSequence := s.nextSequence + 1
      records := sortRecords (updateRecord key f s.records) }) :
    f r ∈ s'.records ∧ (f r).fingerprint = key := by
  subst hs'
  exact ⟨mem_sortRecords.mpr ((mem_updateRecord hs.ordered.keys).mpr (.inr ⟨r, hr, hrkey, rfl⟩)),
    (hkey r).trans hrkey⟩

/-- **Recording** counts the event exactly if the clock has not been set back behind the first event of
the code, and no counter is at its end. -/
theorem recorded_iff {o : RecordOptions} {d : Definition} (hread : readStore sha256 disk = .ok s)
    (ho : ValidOptions o d) (htime : o.time = some t) (ht : validTime t = true) :
    Recorded sha256 disk o (fingerprint sha256 o.code d) ↔
      SeenBefore s (fingerprint sha256 o.code d) t ∧ HasRoom s (fingerprint sha256 o.code d) := by
  obtain ⟨rfl, hs⟩ := readStore_ok hread
  rw [Recorded, recordRuntimeError_eq hread ho htime ht]
  generalize hkey : fingerprint sha256 o.code d = key
  cases hfind : (disk.getD {}).records.find? (fun r => r.fingerprint = key) with
  | some r =>
      obtain ⟨hr, hrkey⟩ := find?_fingerprint hfind
      have hcount : countOf key (disk.getD {}) = r.count := countOf_of_mem hs hr hrkey
      have hseen : SeenBefore (disk.getD {}) key t ↔ r.firstSeen ≤ t := by
        refine ⟨fun h => h r hr hrkey, fun h r' hr' hrkey' => ?_⟩
        rwa [List.inj_on_of_nodup_map hs.ordered.keys hr' hr (hrkey'.trans hrkey.symm)]
      have hoccur : occur sha256 (disk.getD {}).records o d t (disk.getD {}).nextSequence =
          .ok (updateRecord key (fun r => r.again o (runtimeErrorSeverity o.impact) t
            (disk.getD {}).nextSequence) (disk.getD {}).records) := by
        simp only [occur, hkey, hfind]
      have hvalid := (valid_update_iff key hs
        (fun r => show (r.again o (runtimeErrorSeverity o.impact) t
          (disk.getD {}).nextSequence).fingerprint = r.fingerprint from rfl) (fun _ => rfl) hr hrkey).trans
        (and_congr_right fun hnext =>
          again_valid_iff ho ht (le_of_lt hnext) (hs.record r hr))
      rw [hoccur, hseen, HasRoom, hcount]
      constructor
      · rintro ⟨s', n, hrun, _⟩
        obtain ⟨records, hrecords, hrun⟩ := Lib.bind_eq_ok.mp hrun
        obtain rfl := Except.ok.inj hrecords
        obtain ⟨written, hwritten, _⟩ := Lib.bind_eq_ok.mp hrun
        obtain ⟨_, hok⟩ := checked_ok hwritten
        obtain ⟨hnext, hle, hlt⟩ := hvalid.mp hok
        exact ⟨hle, hnext, hlt⟩
      · rintro ⟨hle, hnext, hlt⟩
        have hok := hvalid.mpr ⟨hnext, hle, hlt⟩
        refine ⟨_, (disk.getD {}).nextSequence, ?_, validate_iff.mpr hok, ?_⟩
        · rw [Except.bind, checked_of_valid hok]
          rfl
        · obtain ⟨hmem, hfkey⟩ := written_update (f := fun r => r.again o
            (runtimeErrorSeverity o.impact) t (disk.getD {}).nextSequence) hs (fun _ => rfl) hr hrkey rfl
          rw [countOf_of_mem hok hmem hfkey]
          rfl
  | none =>
      have hnew : ∀ r ∈ (disk.getD {}).records, r.fingerprint ≠ key := fun r hr he =>
        absurd he (by simpa using List.find?_eq_none.mp hfind r hr)
      have hcount : countOf key (disk.getD {}) = 0 := countOf_of_none hfind
      have hlength : ¬ maxRecords ≤ (disk.getD {}).records.length := by
        have hle := length_le_definitions hs
        have hroom : definitions.length < maxRecords := by decide
        omega
      have hoccur : occur sha256 (disk.getD {}).records o d t (disk.getD {}).nextSequence =
          .ok ((disk.getD {}).records ++ [firstRecord sha256 o d (runtimeErrorSeverity o.impact) t
            (disk.getD {}).nextSequence]) := by
        simp only [occur, hkey, hfind, if_neg hlength]
      have hseen : SeenBefore (disk.getD {}) key t := fun r hr he => absurd he (hnew r hr)
      rw [hoccur, HasRoom, hcount]
      constructor
      · rintro ⟨s', n, hrun, _⟩
        obtain ⟨records, hrecords, hrun⟩ := Lib.bind_eq_ok.mp hrun
        obtain rfl := Except.ok.inj hrecords
        obtain ⟨written, hwritten, _⟩ := Lib.bind_eq_ok.mp hrun
        obtain ⟨_, hok⟩ := checked_ok hwritten
        exact ⟨hseen, hok.next_le, by decide⟩
      · rintro ⟨_, hnext, _⟩
        have hok : Valid sha256 { disk.getD {} with
            nextSequence := (disk.getD {}).nextSequence + 1
            records := sortRecords ((disk.getD {}).records ++ [firstRecord sha256 o d
              (runtimeErrorSeverity o.impact) t (disk.getD {}).nextSequence]) } := by
          have hfirst := @firstRecord_valid sha256 t o d (disk.getD {}).nextSequence
            (runtimeErrorSeverity o.impact) ho ht (le_of_lt hnext)
          refine valid_sorted hs hnext ?_ (fun r hr => ?_) (fun r hr => ?_) ?_ ?_
          · rw [List.length_append, List.length_singleton]
            omega
          · rcases List.mem_append.mp hr with hold | hlast
            · exact validRecord_mono (Nat.le_succ _) (hs.record r hold)
            · rw [List.mem_singleton.mp hlast]
              exact hfirst
          · rcases List.mem_append.mp hr with hold | hlast
            · exact hs.positive r hold
            · rw [List.mem_singleton.mp hlast]
              exact hs.next_pos
          · rw [List.map_append, List.nodup_append]
            refine ⟨hs.ordered.keys, by simp, fun k hk k' hk' heq => ?_⟩
            obtain ⟨r, hr, rfl⟩ := List.mem_map.mp hk
            rw [List.mem_singleton.mp hk'] at heq
            exact hnew r hr (heq.trans hkey)
          · rw [List.map_append, List.nodup_append]
            refine ⟨sequences_nodup hs, by simp, fun n hn n' hn' heq => ?_⟩
            obtain ⟨r, hr, rfl⟩ := List.mem_map.mp hn
            rw [List.mem_singleton.mp hn'] at heq
            have hlt := hs.ordered.below r hr
            have hlast : (firstRecord sha256 o d (runtimeErrorSeverity o.impact) t
              (disk.getD {}).nextSequence).sequence = (disk.getD {}).nextSequence := rfl
            omega
        refine ⟨_, (disk.getD {}).nextSequence, ?_, validate_iff.mpr hok, ?_⟩
        · rw [Except.bind, checked_of_valid hok]
          rfl
        · rw [countOf_of_mem hok (mem_sortRecords.mpr (List.mem_append_right _ List.mem_cons_self)) hkey]
          rfl

/-! ## Changing a status -/

variable (sha256 disk) in
/-- The record has the status, in a store that is valid. -/
def StatusSet (key : Text) (status : Status) (time : Option Int) : Prop :=
  ∃ written, setRuntimeErrorStatus sha256 disk key status time = .ok written ∧
    validate sha256 (written.getD (disk.getD {})) = true ∧
    ∃ r ∈ (written.getD (disk.getD {})).records, r.fingerprint = key ∧ r.status = status

theorem withStatus_valid_iff {next : Nat} {status : Status} (ht : validTime t = true)
    (hnext : next ≤ maxSafeInteger) (h : validRecord sha256 next r = true) :
    validRecord sha256 (next + 1) (r.withStatus status t next) = true ↔
      (status = .resolved → r.lastSeen ≤ t) := by
  rw [validRecord] at h
  rw [validRecord]
  have hcode : (r.withStatus status t next).errorCode = r.errorCode := rfl
  rw [hcode]
  cases hd : definition? r.errorCode with
  | none => simp [hd] at h
  | some d =>
      simp only [hd, Bool.and_eq_true, decide_eq_true_eq] at h
      have hlt : next < next + 1 := Nat.lt_succ_self next
      cases status with
      | «open» => simp [RecordEntry.withStatus, h, hnext, validStatus]
      | resolved => simp [RecordEntry.withStatus, h, hnext, ht, validStatus]

/-- **A status is set** exactly if it is there already, or a resolution is not earlier than the last event
and the numbers are not used up. -/
theorem statusSet_iff {status : Status} (hread : readStore sha256 disk = .ok s)
    (hkey : validFingerprint key = true) (hr : r ∈ s.records) (hrkey : r.fingerprint = key)
    (ht : validTime t = true) : StatusSet sha256 disk key status (some t) ↔
      r.status = status ∨
        (status = .resolved → r.lastSeen ≤ t) ∧ s.nextSequence < maxSafeInteger := by
  obtain ⟨rfl, hs⟩ := readStore_ok hread
  have hfind := find?_of_mem hs.ordered.keys hr hrkey
  by_cases hstatus : r.status = status
  · refine iff_of_true ⟨none, ?_, validate_iff.mpr hs, r, hr, hrkey, hstatus⟩ (.inl hstatus)
    simp only [setRuntimeErrorStatus, hkey, hread, hfind, hstatus, bind, Except.bind, Bool.not_true,
      Bool.false_eq_true, if_false, if_true]
    rfl
  rw [or_iff_right hstatus, StatusSet]
  -- the time of a status that is opened again is not looked at
  obtain ⟨t', htime, ht', hsame⟩ : ∃ t', statusTime status (some t) = .ok t' ∧
      validTime t' = true ∧ (status = .resolved → t' = t) := by
    cases status with
    | «open» => exact ⟨0, rfl, by decide, fun h => absurd h (by decide)⟩
    | resolved => exact ⟨t, by rw [statusTime, if_pos rfl, now, if_pos ht], ht, fun _ => rfl⟩
  have hrun : setRuntimeErrorStatus sha256 disk key status (some t) =
      (checked sha256 { disk.getD {} with
        nextSequence := (disk.getD {}).nextSequence + 1
        records := sortRecords (updateRecord key
          (fun r => r.withStatus status t' (disk.getD {}).nextSequence) (disk.getD {}).records) }).bind
        fun written => .ok (some written) := by
    simp only [setRuntimeErrorStatus, hkey, hread, hfind, hstatus, bind, Except.bind, Bool.not_true,
      Bool.false_eq_true, if_false, htime]
    rfl
  have hvalid := (valid_update_iff key hs
    (fun r => show (r.withStatus status t' (disk.getD {}).nextSequence).fingerprint = r.fingerprint
      from rfl) (fun _ => rfl) hr hrkey).trans
    (and_congr_right fun hnext => withStatus_valid_iff ht' (le_of_lt hnext) (hs.record r hr))
  have hlast : (status = .resolved → r.lastSeen ≤ t') ↔ (status = .resolved → r.lastSeen ≤ t) :=
    forall_congr' fun h => by rw [hsame h]
  rw [hlast] at hvalid
  rw [hrun]
  constructor
  · rintro ⟨written, hwritten, _⟩
    obtain ⟨w, hw, _⟩ := Lib.bind_eq_ok.mp hwritten
    obtain ⟨_, hok⟩ := checked_ok hw
    obtain ⟨hnext, hle⟩ := hvalid.mp hok
    exact ⟨hle, hnext⟩
  · rintro ⟨hle, hnext⟩
    have hok := hvalid.mpr ⟨hnext, hle⟩
    obtain ⟨hmem, hfkey⟩ := written_update (f := fun r =>
      r.withStatus status t' (disk.getD {}).nextSequence) hs (fun _ => rfl) hr hrkey rfl
    refine ⟨some _, ?_, validate_iff.mpr hok, _, hmem, hfkey, rfl⟩
    rw [checked_of_valid hok]
    rfl

/--
**When the clock loses no event.** For a valid store and valid metadata, an event is counted in a store that
is valid exactly if its code was not first seen later than now, and a status is set exactly if it is there
already or a resolution is not earlier than the last event; in both cases while no counter is at its end.
-/
theorem clock_iff (sha256 : Text → Text) (hread : readStore sha256 disk = .ok s)
    (ht : validTime t = true) :
    (∀ (o : RecordOptions) (d : Definition), ValidOptions o d → o.time = some t →
      (Recorded sha256 disk o (fingerprint sha256 o.code d) ↔
        SeenBefore s (fingerprint sha256 o.code d) t ∧ HasRoom s (fingerprint sha256 o.code d))) ∧
    ∀ r ∈ s.records, validFingerprint r.fingerprint = true → ∀ status,
      (StatusSet sha256 disk r.fingerprint status (some t) ↔
        r.status = status ∨
          (status = .resolved → r.lastSeen ≤ t) ∧ s.nextSequence < maxSafeInteger) :=
  ⟨fun _ _ ho htime => recorded_iff hread ho htime ht,
    fun _ hr hkey _ => statusSet_iff hread hkey hr rfl ht⟩

/-- An index failure, at a time. -/
def indexFailed (time : Int) : RecordOptions where
  code := "CAVEAT.INDEX_FAILED".toList
  time := some time
  version := "1.4.2".toList
  os := "linux".toList
  arch := "x64".toList

def indexDefinition : Definition := ⟨"index".toList, "Caveat index operation failed".toList⟩

/-- The digest of the text of an index failure, the only one that is asked for. -/
def indexSha256 (_ : Text) : Text :=
  "7582706e35651b3124e4c04e6b78c4a192bf37df5c1ecb5228c0dc21ca22c0a9".toList

/-- A store with one index failure, first and last seen at one time. -/
def indexFailedAt (time : Int) : Store where
  nextSequence := 2
  records := [firstRecord indexSha256 (indexFailed time) indexDefinition .high time 1]

theorem validOptions_indexFailed (time : Int) : ValidOptions (indexFailed time) indexDefinition :=
  ⟨rfl, by show validVersion "1.4.2".toList = true; decide,
    by show validOs (normalizeOs "linux".toList) = true; decide,
    by show validArch "x64".toList = true; decide⟩

/-- The failure occurs once more, later. -/
theorem clock_iff_later : Recorded indexSha256 (some (indexFailedAt 1000)) (indexFailed 2000)
    (fingerprint indexSha256 (indexFailed 2000).code indexDefinition) := by
  have hread : readStore indexSha256 (some (indexFailedAt 1000)) = .ok (indexFailedAt 1000) := by
    decide +kernel
  have hlaw := clock_iff indexSha256 hread (show validTime 2000 = true by decide)
  refine (hlaw.1 (indexFailed 2000) indexDefinition (validOptions_indexFailed 2000) rfl).mpr ⟨?_, ?_⟩
  · intro r hr _
    rw [List.mem_singleton.mp hr]
    decide
  · exact ⟨by decide, by decide +kernel⟩

/-- With the clock set back the failure is not counted. -/
theorem clock_set_back : readStore indexSha256 (some (indexFailedAt 2000)) = .ok (indexFailedAt 2000) ∧
    ValidOptions (indexFailed 1000) indexDefinition ∧
    ¬ Recorded indexSha256 (some (indexFailedAt 2000)) (indexFailed 1000)
      (fingerprint indexSha256 (indexFailed 1000).code indexDefinition) := by
  have hlost : recordRuntimeError indexSha256 (some (indexFailedAt 2000)) (indexFailed 1000) =
      .error .stateInvalid := by decide +kernel
  refine ⟨by decide +kernel, validOptions_indexFailed 1000, ?_⟩
  rintro ⟨s', n, hrun, _⟩
  rw [hlost] at hrun
  exact absurd hrun (by simp)

end Caveat.RuntimeErrors
