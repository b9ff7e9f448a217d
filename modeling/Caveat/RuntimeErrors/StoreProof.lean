import Caveat.RuntimeErrors.Store
import Caveat.Lib.ChangeFeed

/-!
# What the operations of the store do

A store that passes validation is an ordered feed of records, keyed by fingerprint. Recording and
changing a status give one record the next number and keep the others; acknowledging only moves
the cursor up; compaction drops resolved records up to the cursor.
-/

namespace Caveat.RuntimeErrors

open Js

variable {sha256 : Text → Text} {disk : Option Store} {s s' : Store}

/-! ## Valid stores -/

/-- What `validate` accepts. -/
structure Valid (sha256 : Text → Text) (s : Store) : Prop where
  schema : s.schema = runtimeErrorsSchema
  next_le : s.nextSequence ≤ maxSafeInteger
  next_pos : 1 ≤ s.nextSequence
  ack_lt : s.acknowledgedThrough < s.nextSequence
  length_le : s.records.length ≤ maxRecords
  record : ∀ r ∈ s.records, validRecord sha256 s.nextSequence r = true
  positive : ∀ r ∈ s.records, 0 < r.sequence
  ordered : Lib.ChangeFeed.Ordered RecordEntry.fingerprint RecordEntry.sequence s.nextSequence
    s.records

theorem sequence_lt_of_validRecord {next : Nat} {r : RecordEntry}
    (h : validRecord sha256 next r = true) : r.sequence < next := by
  rw [validRecord] at h
  split at h
  · exact absurd h (by simp)
  · simp only [Bool.and_eq_true, decide_eq_true_eq] at h
    exact h.1.2

theorem validateRecords_iff {next : Nat} {records : List RecordEntry} : ∀ {seen : List Text}
    {previous : Nat}, validateRecords sha256 next seen previous records = true ↔
      (∀ r ∈ records, validRecord sha256 next r = true) ∧
      (∀ r ∈ records, r.fingerprint ∉ seen) ∧ (records.map RecordEntry.fingerprint).Nodup ∧
      (∀ r ∈ records, previous < r.sequence) ∧
      records.Pairwise (fun a b => a.sequence < b.sequence) := by
  induction records with
  | nil => intro seen previous; simp [validateRecords]
  | cons r rest ih =>
      intro seen previous
      have hseen : (seen.any (fun f => f = r.fingerprint)) = true ↔ r.fingerprint ∈ seen := by
        simp
      rw [validateRecords, Bool.and_eq_true, Bool.and_eq_true, Bool.and_eq_true, ih,
        Bool.not_eq_true', Bool.eq_false_iff, Ne, hseen, decide_eq_true_iff,
        List.forall_mem_cons, List.forall_mem_cons, List.forall_mem_cons, List.map_cons,
        List.nodup_cons, List.pairwise_cons]
      constructor
      · rintro ⟨⟨⟨hr, hnew⟩, hlt⟩, hvalid, hnotin, hnodup, habove, hsorted⟩
        refine ⟨⟨hr, hvalid⟩, ⟨hnew, fun x hx hmem => hnotin x hx (List.mem_append_left _ hmem)⟩,
          ⟨?_, hnodup⟩, ⟨hlt, fun x hx => hlt.trans (habove x hx)⟩, habove, hsorted⟩
        intro hmem
        obtain ⟨x, hx, he⟩ := List.mem_map.mp hmem
        exact hnotin x hx (by rw [he]; simp)
      · rintro ⟨⟨hr, hvalid⟩, ⟨hnew, hnotin⟩, ⟨hself, hnodup⟩, ⟨hlt, _⟩, habove, hsorted⟩
        refine ⟨⟨⟨hr, hnew⟩, hlt⟩, hvalid, ?_, hnodup, habove, hsorted⟩
        intro x hx hmem
        rcases List.mem_append.mp hmem with hold | hself'
        · exact hnotin x hx hold
        · exact hself (List.mem_map.mpr ⟨x, hx, List.mem_singleton.mp hself'⟩)

theorem validate_iff : validate sha256 s = true ↔ Valid sha256 s := by
  rw [validate, Bool.and_eq_true, Bool.and_eq_true, Bool.and_eq_true, Bool.and_eq_true,
    Bool.and_eq_true, validateRecords_iff]
  simp only [decide_eq_true_eq]
  constructor
  · rintro ⟨⟨⟨⟨⟨hschema, hnext⟩, hpos⟩, hack⟩, hlen⟩, hrec, _, hkeys, hprev, hsorted⟩
    exact ⟨hschema, hnext, hpos, hack, hlen, hrec, hprev,
      hsorted, hkeys, fun r hr => sequence_lt_of_validRecord (hrec r hr)⟩
  · intro h
    exact ⟨⟨⟨⟨⟨h.schema, h.next_le⟩, h.next_pos⟩, h.ack_lt⟩, h.length_le⟩, h.record, by simp,
      h.ordered.keys, h.positive, h.ordered.sorted⟩

theorem valid_empty (sha256 : Text → Text) : Valid sha256 {} :=
  ⟨rfl, by decide, le_rfl, by decide, by decide, by simp, by simp, .nil, by simp, by simp⟩

theorem readStore_ok (h : readStore sha256 disk = .ok s) :
    s = disk.getD {} ∧ Valid sha256 s := by
  cases disk with
  | none => cases h; exact ⟨rfl, valid_empty sha256⟩
  | some d =>
      rw [readStore] at h
      split at h
      · rename_i hvalid
        cases h
        exact ⟨rfl, validate_iff.mp hvalid⟩
      · exact absurd h (by simp)

theorem checked_ok (h : checked sha256 s = .ok s') : s' = s ∧ Valid sha256 s := by
  rw [checked] at h
  split at h
  · rename_i hvalid
    cases h
    exact ⟨rfl, validate_iff.mp hvalid⟩
  · exact absurd h (by simp)

/-! ## Changes of a record -/

/-- One record gets the next number, the others stay. -/
structure Changed (s s' : Store) (key : Text) : Prop where
  next : s'.nextSequence = s.nextSequence + 1
  ack : s'.acknowledgedThrough = s.acknowledgedThrough
  mem : ∀ r ∈ s'.records, (r ∈ s.records ∧ r.fingerprint ≠ key) ∨
    (r.fingerprint = key ∧ r.sequence = s.nextSequence)
  kept : ∀ r ∈ s.records, r.fingerprint ≠ key → r ∈ s'.records
  there : ∃ r ∈ s'.records, r.fingerprint = key ∧ r.sequence = s.nextSequence

theorem mem_sortRecords {records : List RecordEntry} {r : RecordEntry} :
    r ∈ sortRecords records ↔ r ∈ records := List.mem_insertionSort _

/-- The update of the record that is found leaves the others. -/
theorem mem_updateRecord {key : Text} {f : RecordEntry → RecordEntry}
    {records : List RecordEntry} (hnodup : (records.map RecordEntry.fingerprint).Nodup)
    {r : RecordEntry} : r ∈ updateRecord key f records ↔
      (r ∈ records ∧ r.fingerprint ≠ key) ∨
        ∃ r₀ ∈ records, r₀.fingerprint = key ∧ r = f r₀ := by
  induction records with
  | nil => simp [updateRecord]
  | cons a rest ih =>
      rw [List.map_cons, List.nodup_cons] at hnodup
      rw [updateRecord]
      by_cases ha : a.fingerprint = key
      · rw [if_pos ha, List.mem_cons]
        have hrest : ∀ x ∈ rest, x.fingerprint ≠ key := fun x hx he =>
          hnodup.1 (List.mem_map.mpr ⟨x, hx, he.trans ha.symm⟩)
        constructor
        · rintro (rfl | hr)
          · exact .inr ⟨a, by simp, ha, rfl⟩
          · exact .inl ⟨List.mem_cons_of_mem _ hr, hrest r hr⟩
        · rintro (⟨hr, hne⟩ | ⟨r₀, hr₀, hkey, rfl⟩)
          · rcases List.mem_cons.mp hr with rfl | hr
            · exact absurd ha hne
            · exact .inr hr
          · rcases List.mem_cons.mp hr₀ with rfl | hr₀
            · exact .inl rfl
            · exact absurd hkey (hrest r₀ hr₀)
      · rw [if_neg ha, List.mem_cons, ih hnodup.2]
        constructor
        · rintro (rfl | ⟨hr, hne⟩ | ⟨r₀, hr₀, hkey, rfl⟩)
          · exact .inl ⟨by simp, ha⟩
          · exact .inl ⟨List.mem_cons_of_mem _ hr, hne⟩
          · exact .inr ⟨r₀, List.mem_cons_of_mem _ hr₀, hkey, rfl⟩
        · rintro (⟨hr, hne⟩ | ⟨r₀, hr₀, hkey, rfl⟩)
          · rcases List.mem_cons.mp hr with rfl | hr
            · exact .inl rfl
            · exact .inr (.inl ⟨hr, hne⟩)
          · rcases List.mem_cons.mp hr₀ with rfl | hr₀
            · exact absurd hkey ha
            · exact .inr (.inr ⟨r₀, hr₀, hkey, rfl⟩)

/-- Updating a record that is there, with the next number. -/
theorem changed_update {key : Text} {f : RecordEntry → RecordEntry} (hs : Valid sha256 s)
    (hkey : ∀ r, (f r).fingerprint = r.fingerprint)
    (hseq : ∀ r, (f r).sequence = s.nextSequence)
    (hfind : ∃ r ∈ s.records, r.fingerprint = key) : Changed s { s with
      nextSequence := s.nextSequence + 1
      records := sortRecords (updateRecord key f s.records) } key := by
  have hmem : ∀ r, r ∈ sortRecords (updateRecord key f s.records) ↔ _ := fun r =>
    mem_sortRecords.trans (mem_updateRecord hs.ordered.keys)
  refine ⟨rfl, rfl, ?_, ?_, ?_⟩
  · intro r hr
    rcases (hmem r).mp hr with hold | ⟨r₀, _, hr₀, rfl⟩
    · exact .inl hold
    · exact .inr ⟨(hkey r₀).trans hr₀, hseq r₀⟩
  · exact fun r hr hne => (hmem r).mpr (.inl ⟨hr, hne⟩)
  · obtain ⟨r, hr, hkr⟩ := hfind
    exact ⟨f r, (hmem _).mpr (.inr ⟨r, hr, hkr, rfl⟩), (hkey r).trans hkr, hseq r⟩

theorem changed_append {key : Text} {r : RecordEntry} (hkey : r.fingerprint = key)
    (hseq : r.sequence = s.nextSequence) (hnew : ∀ x ∈ s.records, x.fingerprint ≠ key) :
    Changed s { s with
      nextSequence := s.nextSequence + 1
      records := sortRecords (s.records ++ [r]) } key := by
  refine ⟨rfl, rfl, ?_, ?_, ?_⟩
  · intro x hx
    rcases List.mem_append.mp (mem_sortRecords.mp hx) with hold | hlast
    · exact .inl ⟨hold, hnew x hold⟩
    · rw [List.mem_singleton.mp hlast]
      exact .inr ⟨hkey, hseq⟩
  · exact fun x hx _ => mem_sortRecords.mpr (List.mem_append_left _ hx)
  · exact ⟨r, mem_sortRecords.mpr (by simp), hkey, hseq⟩

theorem find?_fingerprint {key : Text} {records : List RecordEntry} {r : RecordEntry}
    (h : records.find? (fun r => r.fingerprint = key) = some r) :
    r ∈ records ∧ r.fingerprint = key :=
  ⟨List.mem_of_find?_eq_some h, by simpa using List.find?_some h⟩

theorem changed_occur {o : RecordOptions} {d : Definition} {time : Int}
    {records : List RecordEntry} (hs : Valid sha256 s)
    (h : occur sha256 s.records o d time s.nextSequence = .ok records) : Changed s { s with
      nextSequence := s.nextSequence + 1
      records := sortRecords records } (fingerprint sha256 o.code d) := by
  unfold occur at h
  dsimp only at h
  cases hf : s.records.find? (fun r => r.fingerprint = fingerprint sha256 o.code d) with
  | some r =>
      rw [hf] at h
      cases h
      have hr := find?_fingerprint hf
      exact changed_update hs (fun _ => rfl) (fun _ => rfl) ⟨r, hr⟩
  | none =>
      rw [hf] at h
      dsimp only at h
      split at h
      · exact absurd h (by simp)
      · cases h
        refine changed_append rfl rfl fun x hx he => ?_
        exact absurd he (by simpa using List.find?_eq_none.mp hf x hx)

/-- **Recording** numbers the record of the code anew. -/
theorem recordRuntimeError_ok {o : RecordOptions} {key : Text} {n : Nat}
    (h : recordRuntimeError sha256 disk o = .ok (s', key, n)) :
    Valid sha256 (disk.getD {}) ∧ Valid sha256 s' ∧ n = (disk.getD {}).nextSequence ∧
      Changed (disk.getD {}) s' key := by
  obtain ⟨s, hread, h⟩ := Lib.bind_eq_ok.mp h
  obtain ⟨rfl, hs⟩ := readStore_ok hread
  cases hd : definition? o.code with
  | none => rw [hd] at h; exact absurd h (by simp)
  | some d =>
      simp only [hd] at h
      obtain ⟨time, _, h⟩ := Lib.bind_eq_ok.mp h
      split at h
      · exact absurd h (by simp)
      · obtain ⟨records, hrecords, h⟩ := Lib.bind_eq_ok.mp h
        obtain ⟨written, hw, h⟩ := Lib.bind_eq_ok.mp h
        obtain ⟨rfl, hvalid⟩ := checked_ok hw
        cases h
        exact ⟨hs, hvalid, rfl, changed_occur hs hrecords⟩

/-- **Changing a status** numbers the record anew, or finds nothing to do. -/
theorem setRuntimeErrorStatus_ok {key : Text} {status : Status} {time : Option Int}
    {written : Option Store} (h : setRuntimeErrorStatus sha256 disk key status time = .ok written) :
    Valid sha256 (disk.getD {}) ∧ ∀ s', written = some s' →
      Valid sha256 s' ∧ Changed (disk.getD {}) s' key := by
  rw [setRuntimeErrorStatus] at h
  split at h
  · exact absurd h (by simp)
  · obtain ⟨s, hread, h⟩ := Lib.bind_eq_ok.mp h
    obtain ⟨rfl, hs⟩ := readStore_ok hread
    refine ⟨hs, ?_⟩
    cases hf : (disk.getD {}).records.find? (fun r => r.fingerprint = key) with
    | none => rw [hf] at h; exact absurd h (by simp)
    | some r =>
        simp only [hf] at h
        split at h
        · cases h
          exact fun _ hsome => absurd hsome (by simp)
        · obtain ⟨at', _, h⟩ := Lib.bind_eq_ok.mp h
          obtain ⟨w, hw, h⟩ := Lib.bind_eq_ok.mp h
          obtain ⟨rfl, hvalid⟩ := checked_ok hw
          cases h
          intro s' hsome
          cases hsome
          have hr := find?_fingerprint hf
          exact ⟨hvalid, changed_update hs (fun _ => rfl) (fun _ => rfl) ⟨r, hr⟩⟩

/-! ## Acknowledging and compacting -/

/-- **Acknowledging** moves the cursor up to a number that was given, or leaves it. -/
theorem acknowledgeRuntimeErrors_ok {cursor : Nat}
    (h : acknowledgeRuntimeErrors sha256 disk cursor = .ok s') :
    Valid sha256 (disk.getD {}) ∧ Valid sha256 s' ∧ s' = { disk.getD {} with
      acknowledgedThrough := max (disk.getD {}).acknowledgedThrough cursor } := by
  obtain ⟨_, _, h⟩ := Lib.bind_eq_ok.mp h
  obtain ⟨s, hread, h⟩ := Lib.bind_eq_ok.mp h
  obtain ⟨rfl, hs⟩ := readStore_ok hread
  split at h
  · exact absurd h (by simp)
  · obtain ⟨rfl, hvalid⟩ := checked_ok h
    exact ⟨hs, hvalid, rfl⟩

/-- **Compacting** drops resolved records whose number is acknowledged. -/
theorem compactRuntimeErrors_ok {time : Option Int}
    (h : compactRuntimeErrors sha256 disk time = .ok s') :
    Valid sha256 (disk.getD {}) ∧ Valid sha256 s' ∧
      s'.nextSequence = (disk.getD {}).nextSequence ∧
      s'.acknowledgedThrough = (disk.getD {}).acknowledgedThrough ∧
      (∀ r ∈ s'.records, r ∈ (disk.getD {}).records) ∧
      ∀ r ∈ (disk.getD {}).records, r ∈ s'.records ∨
        (r.status = .resolved ∧ r.sequence ≤ (disk.getD {}).acknowledgedThrough) := by
  obtain ⟨s, hread, h⟩ := Lib.bind_eq_ok.mp h
  obtain ⟨rfl, hs⟩ := readStore_ok hread
  obtain ⟨t, _, h⟩ := Lib.bind_eq_ok.mp h
  obtain ⟨rfl, hvalid⟩ := checked_ok h
  refine ⟨hs, hvalid, rfl, rfl, fun r hr => List.mem_of_mem_filter hr, fun r hr => ?_⟩
  cases hc : compacted (disk.getD {}).acknowledgedThrough (t - retentionMs) r with
  | false => exact .inl (List.mem_filter.mpr ⟨hr, by rw [hc]; rfl⟩)
  | true =>
      rw [compacted, Bool.and_eq_true, Bool.and_eq_true, decide_eq_true_iff,
        decide_eq_true_iff] at hc
      exact .inr hc.1

end Caveat.RuntimeErrors
