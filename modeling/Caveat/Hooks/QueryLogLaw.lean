import Caveat.Hooks.QueryLog
import Caveat.Lib.Separated

/-!
# What the log of queries may hold

From the moment a call has tightened the directory and the two files, they are its owner's alone, in
every order of system calls. The size of a file is bounded by how many calls are between the look at
the size and the append. The files hold whole records, each of them once.
-/

namespace Caveat.Hooks.QueryLog

open Js Lib
open Hooks (units)

variable {s s' : State} {a : Action} {c : Call} {i : Nat} {m : Metrics}

/-! ## The record -/

theorem length_encodeUtf8_hexDigit : ∀ n < 16, (encodeUtf8 [hexDigit n]).length = 1 := by decide

theorem length_encodeUtf8_append (t t' : Text) :
    (encodeUtf8 (t ++ t')).length = (encodeUtf8 t).length + (encodeUtf8 t').length := by
  rw [encodeUtf8, List.flatMap_append, List.length_append]
  rfl

theorem length_encodeUtf8_cons (ch : Char) (t : Text) :
    (encodeUtf8 (ch :: t)).length = (encodeUtf8 [ch]).length + (encodeUtf8 t).length :=
  length_encodeUtf8_append [ch] t

theorem length_encodeUtf8_unicodeEscape (n : Nat) : (encodeUtf8 (unicodeEscape n)).length = 6 := by
  have hdigit : ∀ k, (String.utf8EncodeChar (hexDigit (k % 16))).length = 1 := fun k => by
    have h := length_encodeUtf8_hexDigit _ (Nat.mod_lt k (show 16 > 0 by decide))
    rwa [encodeUtf8, List.flatMap_singleton] at h
  simp only [unicodeEscape, encodeUtf8, List.flatMap_cons, List.length_append, hdigit, List.flatMap_nil,
    List.length_nil]
  rfl

/-- No code point takes more than an escape of its number does. -/
theorem length_encodeUtf8_quotePoint (p : CodePoint) : (encodeUtf8 p.quote).length ≤ 6 := by
  cases p with
  | lone u => exact (length_encodeUtf8_unicodeEscape _).le
  | char ch =>
      show (encodeUtf8 (quoteChar ch)).length ≤ 6
      unfold quoteChar
      have hshort : 2 ≤ 6 := by omega
      split
      · exact hshort
      split
      · exact hshort
      split
      · exact hshort
      split
      · exact hshort
      split
      · exact hshort
      split
      · exact hshort
      split
      · exact hshort
      split
      · exact (length_encodeUtf8_unicodeEscape _).le
      · have := Char.utf8Size_le_four ch
        rw [encodeUtf8, List.flatMap_singleton, String.length_utf8EncodeChar]
        omega

theorem length_units_pos (p : CodePoint) : 1 ≤ p.units.length := by
  cases p with
  | lone u => exact Nat.le_refl 1
  | char ch =>
      show 1 ≤ (charUnits ch).length
      unfold charUnits
      split <;> simp

theorem length_encodeUtf8_quote (s : Units) : (encodeUtf8 (quote s)).length ≤ 6 * s.length + 2 := by
  have hpoints : ∀ ps : List CodePoint,
      (encodeUtf8 (ps.flatMap CodePoint.quote)).length ≤ 6 * (ps.flatMap CodePoint.units).length := by
    intro ps
    induction ps with
    | nil => exact Nat.le_refl 0
    | cons p ps ih =>
        have hp := length_encodeUtf8_quotePoint p
        have hunits := length_units_pos p
        rw [List.flatMap_cons, List.flatMap_cons, length_encodeUtf8_append, List.length_append]
        omega
  have h := hpoints (codePoints s)
  rw [codePoints_units] at h
  rw [quote, List.cons_append, length_encodeUtf8_cons, length_encodeUtf8_append]
  have hquote : (encodeUtf8 ['"']).length = 1 := rfl
  omega

/-- A bound of a record: the query has at most 1000 units. -/
def maxRecordBytes : Nat := 6404

theorem length_record (time : IsoTime) (miss : HookQueryMiss) :
    (QueryLog.record time miss).length ≤ maxRecordBytes := by
  have htime := length_encodeUtf8_quote time.text
  have hagent := length_encodeUtf8_quote miss.agent.name
  have hsurface := length_encodeUtf8_quote miss.surface.name
  have hquery := length_encodeUtf8_quote (miss.query.take hookQueryLogMaxQueryCodeUnits)
  have hshort := time.short
  have hagentName : miss.agent.name.length ≤ 6 := by cases miss.agent <;> decide
  have hsurfaceName : miss.surface.name.length ≤ 11 := by cases miss.surface <;> decide
  have htake : (miss.query.take hookQueryLogMaxQueryCodeUnits).length ≤ 1000 := List.length_take_le _ _
  have hkeys : (encodeUtf8 (quote (units "at"))).length = 4 ∧ (encodeUtf8 (quote (units "agent"))).length = 7 ∧
      (encodeUtf8 (quote (units "surface"))).length = 9 ∧
        (encodeUtf8 (quote (units "query"))).length = 7 := by decide
  have hmarks : (encodeUtf8 [':']).length = 1 ∧ (encodeUtf8 [',']).length = 1 ∧
      (encodeUtf8 ['{']).length = 1 ∧ (encodeUtf8 ['}']).length = 1 ∧ (encodeUtf8 ['\n']).length = 1 := by
    decide
  have hline : line time miss = ['{'] ++ (quote (units "at") ++ [':'] ++ quote time.text ++ [','] ++
      (quote (units "agent") ++ [':'] ++ quote miss.agent.name ++ [','] ++
        (quote (units "surface") ++ [':'] ++ quote miss.surface.name ++ [','] ++
          (quote (units "query") ++ [':'] ++
            quote (miss.query.take hookQueryLogMaxQueryCodeUnits))))) ++ ['}'] := by
    simp [line, fields, objectText, memberText, List.intercalate]
  rw [QueryLog.record, hline]
  simp only [length_encodeUtf8_append, maxRecordBytes]
  omega

/-- The member of a field. -/
def fieldMember (round : Rat → JsNumber) (field : Units × Units) : Member round :=
  ⟨field.1, quote field.2, .string field.2, reads_quote field.2⟩

/-- What a line says. -/
def missJson (time : IsoTime) (miss : HookQueryMiss) : Json :=
  .object ((fields time miss).map fun m => (m.1, .string m.2))

theorem parseJson_line (round : Rat → JsNumber) (time : IsoTime) (miss : HookQueryMiss) :
    parseJson round (line time miss) = some (missJson time miss) := by
  have h := parseJson_objectText ((fields time miss).map (fieldMember round))
  rw [List.map_map, List.map_map] at h
  exact h

theorem newline_not_mem_objectText {members : List (Units × Text)} (h : ∀ m ∈ members, '\n' ∉ m.2) :
    '\n' ∉ objectText members := by
  intro hmem
  rw [objectText, List.mem_append, List.mem_cons] at hmem
  rcases hmem with (hmem | hmem) | hmem
  · exact absurd hmem (by decide)
  · rcases mem_intercalate hmem with hmem | ⟨text, htext, hmem⟩
    · exact absurd hmem (by decide)
    · obtain ⟨m, hm, rfl⟩ := List.mem_map.mp htext
      rw [memberText, List.mem_append, List.mem_cons] at hmem
      rcases hmem with hmem | hmem | hmem
      · exact newline_not_mem_quote m.1 hmem
      · exact absurd hmem (by decide)
      · exact h m hm hmem
  · exact absurd hmem (by decide)

theorem newline_not_mem_line (time : IsoTime) (miss : HookQueryMiss) : '\n' ∉ line time miss := by
  refine newline_not_mem_objectText fun m hm => ?_
  obtain ⟨field, _, rfl⟩ := List.mem_map.mp hm
  exact newline_not_mem_quote field.2

/-! ## One step -/

/-- What a file holds; one that is missing holds nothing. -/
def contents (file : Option LogFile) : Bytes := (file.map LogFile.bytes).getD []

theorem sizeOf_eq (file : Option LogFile) : sizeOf file = (contents file).length := by
  cases file <;> rfl

theorem contents_tighten (file : Option LogFile) : contents (file.map LogFile.tighten) = contents file := by
  cases file <;> rfl

theorem contents_appendTo (file : Option LogFile) (umask : Mode) (bytes : Bytes) :
    contents (some (appendTo file umask bytes)) = contents file ++ bytes := by
  cases file <;> rfl

/-- Between the look at the size, or a rotation, and the append. -/
def Call.isAdmitted (c : Call) : Bool := !c.failed && (c.stage = .chmodRotated || c.stage = .append)

/-- The record has been appended. -/
def Call.hasAppended (c : Call) : Bool :=
  c.stage = .chmodAppended || c.stage = .chmodKept || c.stage = .done

/-- The same call, later on. -/
structure Call.Continues (c c' : Call) : Prop where
  time : c'.time = c.time
  miss : c'.miss = c.miss

theorem Call.Continues.record {c c' : Call} (h : c.Continues c') : c'.record = c.record := by
  rw [Call.record, Call.record, h.time, h.miss]

/-- What a step may do to the contents of the files. -/
inductive Effect (a : Action) (s s' : State) : Prop where
  | begun (c : Call) (hcalls : s'.calls = s.calls ++ [c]) (hfresh : c.isAdmitted = false)
      (hnot : c.hasAppended = false) (hmetrics : s'.metrics = s.metrics)
  /-- The files are as they were, or the backup is gone. -/
  | kept (i : Nat) (c c' : Call) (hc : s.calls[i]? = some c) (hcalls : s'.calls = s.calls.set i c')
      (hsame : c.Continues c') (hadmitted : c'.isAdmitted = true → c.isAdmitted = true)
      (happended : c'.hasAppended = c.hasAppended)
      (hactive : contents s'.metrics.active = contents s.metrics.active)
      (hbackup : contents s'.metrics.backup = contents s.metrics.backup ∨
        contents s'.metrics.backup = [])
  /-- There is room for the record. -/
  | admitted (i : Nat) (c c' : Call) (hc : s.calls[i]? = some c) (hcalls : s'.calls = s.calls.set i c')
      (hsame : c.Continues c') (hadmitted : c'.isAdmitted = true)
      (happended : c'.hasAppended = c.hasAppended)
      (hactive : contents s'.metrics.active = contents s.metrics.active)
      (hbackup : contents s'.metrics.backup = contents s.metrics.backup)
      (hroom : contents s.metrics.active = [] ∨
        (contents s.metrics.active).length + c.record.length ≤ hookQueryLogMaxBytes)
  | rotated (i : Nat) (c c' : Call) (hc : s.calls[i]? = some c) (hcalls : s'.calls = s.calls.set i c')
      (hsame : c.Continues c') (hadmitted : c'.isAdmitted = true)
      (happended : c'.hasAppended = c.hasAppended)
      (hactive : contents s'.metrics.active = [])
      (hbackup : contents s'.metrics.backup = contents s.metrics.active)
  | appended (i : Nat) (c c' : Call) (hc : s.calls[i]? = some c) (hcalls : s'.calls = s.calls.set i c')
      (hsame : c.Continues c') (hbefore : c.isAdmitted = true) (hadmitted : c'.isAdmitted = false)
      (hnot : c.hasAppended = false) (happended : c'.hasAppended = true)
      (hactive : contents s'.metrics.active = contents s.metrics.active ++ c.record)
      (hbackup : contents s'.metrics.backup = contents s.metrics.backup)
  /-- An append that fails has written a part of the record. -/
  | torn (i written : Nat) (c c' : Call) (hfail : a = .fail i written) (hc : s.calls[i]? = some c) (hcalls : s'.calls = s.calls.set i c')
      (hsame : c.Continues c') (hbefore : c.isAdmitted = true) (hadmitted : c'.isAdmitted = false)
      (happended : c'.hasAppended = c.hasAppended)
      (hactive : contents s'.metrics.active = contents s.metrics.active ++ c.record.take written)
      (hbackup : contents s'.metrics.backup = contents s.metrics.backup)
  | removed (hcalls : s'.calls = s.calls)
      (hactive : contents s'.metrics.active = contents s.metrics.active ∨
        contents s'.metrics.active = [])
      (hbackup : contents s'.metrics.backup = contents s.metrics.backup ∨
        contents s'.metrics.backup = [])

theorem continues_next (c : Call) (next : Option Stage) : c.Continues (c.next next) := by
  cases next with
  | none => exact ⟨rfl, rfl⟩
  | some stage => exact ⟨rfl, rfl⟩

theorem isAdmitted_failed (c : Call) : Call.isAdmitted { c with failed := true } = false := rfl

/-- A system call that does what it should. -/
theorem effect_perform (hc : s.calls[i]? = some c) (hrunning : c.isRunning = true) :
    Effect (.perform i) s ⟨(c.perform s.metrics).1, s.calls.set i (c.next (c.perform s.metrics).2)⟩ := by
  obtain ⟨time, miss, umask, stage, failed⟩ := c
  have hfailed : failed = false := by
    rw [Call.isRunning, Bool.and_eq_true] at hrunning
    simpa using hrunning.1
  subst hfailed
  have hsame := continues_next ⟨time, miss, umask, stage, false⟩
  cases stage with
  | makeDirectory => exact .kept i _ _ hc rfl (hsame _) (fun h => h) rfl rfl (.inl rfl)
  | chmodDirectory =>
      unfold Call.perform
      dsimp only
      split
      · exact .kept i _ _ hc rfl (hsame _) (fun h => h) rfl rfl (.inl rfl)
      · exact .kept i _ _ hc rfl (hsame _) (fun h => h) rfl rfl (.inl rfl)
  | chmodActive =>
      exact .kept i _ _ hc rfl (hsame _) (fun h => h) rfl (contents_tighten _) (.inl rfl)
  | chmodBackup =>
      exact .kept i _ _ hc rfl (hsame _) (fun h => h) rfl rfl (.inl (contents_tighten _))
  | stat =>
      unfold Call.perform
      dsimp only
      split
      · exact .kept i _ _ hc rfl (hsame _) (fun h => h) rfl rfl (.inl rfl)
      · rename_i hroom
        rw [sizeOf_eq] at hroom
        exact .admitted i _ _ hc rfl (hsame _) rfl rfl rfl rfl (.inr (Nat.le_of_not_lt hroom))
  | unlink => exact .kept i _ _ hc rfl (hsame _) (fun h => h) rfl rfl (.inr rfl)
  | rename =>
      unfold Call.perform
      dsimp only
      split
      · rename_i hnone
        exact .admitted i _ _ hc rfl (hsame _) rfl rfl rfl rfl (.inl (by rw [hnone]; rfl))
      · rename_i file hfile
        exact .rotated i _ _ hc rfl (hsame _) rfl rfl rfl (by rw [hfile])
  | chmodRotated =>
      exact .kept i _ _ hc rfl (hsame _) (fun _ => rfl) rfl rfl (.inl (contents_tighten _))
  | append =>
      unfold Call.perform
      dsimp only
      split
      · exact .kept i _ _ hc rfl (hsame _) (fun _ => rfl) rfl rfl (.inl rfl)
      · exact .appended i _ _ hc rfl (hsame _) rfl rfl rfl rfl (contents_appendTo _ _ _) rfl
  | chmodAppended =>
      unfold Call.perform
      dsimp only
      split
      · exact .kept i _ _ hc rfl (hsame _) (fun h => h) rfl rfl (.inl rfl)
      · rename_i file hfile
        exact .kept i _ _ hc rfl (hsame _) (fun h => h) rfl (by rw [hfile]; rfl) (.inl rfl)
  | chmodKept =>
      exact .kept i _ _ hc rfl (hsame _) (fun h => h) rfl rfl (.inl (contents_tighten _))
  | done => cases hrunning

/-- A system call that fails does nothing, but for an append. -/
theorem fail_cases (c : Call) (written : Nat) (m : Metrics) : c.fail written m = m ∨
    c.stage = .append ∧ c.fail written m =
      { m with active := some (appendTo m.active c.umask (c.record.take written)) } := by
  unfold Call.fail
  split
  · rename_i hstage _
    split
    · exact .inr ⟨hstage, rfl⟩
    · exact .inl rfl
  · exact .inl rfl

theorem effect_fail (hc : s.calls[i]? = some c) (hrunning : c.isRunning = true) (written : Nat) :
    Effect (.fail i written) s ⟨c.fail written s.metrics, s.calls.set i { c with failed := true }⟩ := by
  rcases fail_cases c written s.metrics with hquiet | ⟨hstage, htorn⟩
  · rw [hquiet]
    exact .kept i c _ hc rfl ⟨rfl, rfl⟩ (fun h => absurd h (by simp [isAdmitted_failed])) rfl rfl (.inl rfl)
  · rw [htorn]
    refine .torn i written c _ rfl hc rfl ⟨rfl, rfl⟩ ?_ (isAdmitted_failed c) rfl (contents_appendTo _ _ _) rfl
    rw [Call.isRunning, Bool.and_eq_true] at hrunning
    rw [Call.isAdmitted, hrunning.1, hstage]
    rfl

theorem effect_step (h : step s a = some s') : Effect a s s' := by
  cases a with
  | call env time miss umask =>
      have h : (if env = some (units "on") then _ else _) = some s' := h
      split at h
      · obtain rfl := Option.some.inj h
        exact .begun _ rfl rfl rfl rfl
      · obtain rfl := Option.some.inj h
        exact .removed rfl (.inl rfl) (.inl rfl)
  | perform i =>
      unfold step at h
      dsimp only at h
      split at h
      · cases h
      · rename_i c hc
        split at h
        · rename_i hrunning
          obtain rfl := Option.some.inj h
          exact effect_perform hc hrunning
        · cases h
  | fail i written =>
      unfold step at h
      dsimp only at h
      split at h
      · cases h
      · rename_i c hc
        split at h
        · rename_i hrunning
          obtain rfl := Option.some.inj h
          exact effect_fail hc hrunning written
        · cases h
  | removeActive =>
      obtain rfl := Option.some.inj h
      exact .removed rfl (.inr rfl) (.inl rfl)
  | removeBackup =>
      obtain rfl := Option.some.inj h
      exact .removed rfl (.inl rfl) (.inr rfl)
  | removeDirectory =>
      obtain rfl := Option.some.inj h
      exact .removed rfl (.inr rfl) (.inr rfl)

/-! ## The owner's alone -/

theorem isPrivate_ownerOnly : ownerOnly.isPrivate := by decide

/-- What is created so is private under every mask. -/
theorem isPrivate_masked {mode : Mode} (h : mode.isPrivate) (umask : Mode) : (mode &&& ~~~umask).isPrivate := by
  rw [Mode.isPrivate] at h ⊢
  rw [BitVec.and_assoc, BitVec.and_comm (~~~umask), ← BitVec.and_assoc, h]
  exact BitVec.zero_and

/-- How far a call has come. -/
def Stage.rank : Stage → Nat
  | .makeDirectory => 0
  | .chmodDirectory => 1
  | .chmodActive => 2
  | .chmodBackup => 3
  | .stat => 4
  | .unlink => 5
  | .rename => 6
  | .chmodRotated => 7
  | .append => 8
  | .chmodAppended => 9
  | .chmodKept => 10
  | .done => 11

/-- A file that is missing is nobody's. -/
def IsOwned (file : Option LogFile) : Prop := ∀ f, file = some f → f.mode.isPrivate

/-- What a call that has come so far has made private is private. -/
structure Tight (m : Metrics) (r : Nat) : Prop where
  dir : 1 < r → ∀ mode, m.dir = some mode → mode.isPrivate
  active : 2 < r → IsOwned m.active
  backup : 3 < r → IsOwned m.backup

theorem Tight.done (h : Tight m 4) (r : Nat) : Tight m r :=
  ⟨fun _ => h.dir (by omega), fun _ => h.active (by omega), fun _ => h.backup (by omega)⟩

theorem Tight.of_le {r r' : Nat} (h : Tight m r) (hle : r' ≤ r) : Tight m r' :=
  ⟨fun hr => h.dir (by omega), fun hr => h.active (by omega), fun hr => h.backup (by omega)⟩

theorem tight_of_le_one {r : Nat} (hr : r ≤ 1) : Tight m r :=
  ⟨fun h => absurd hr (by omega), fun h => absurd hr (by omega), fun h => absurd hr (by omega)⟩

theorem isOwned_none : IsOwned none := fun _ h => nomatch h

theorem isOwned_tighten (file : Option LogFile) : IsOwned (file.map LogFile.tighten) := by
  intro f hf
  obtain ⟨f, -, rfl⟩ := Option.map_eq_some_iff.mp hf
  exact isPrivate_ownerOnly

theorem isOwned_appendTo {file : Option LogFile} (h : IsOwned file) (umask : Mode) (bytes : Bytes) :
    IsOwned (some (appendTo file umask bytes)) := by
  intro f hf
  obtain rfl := Option.some.inj hf
  cases file with
  | none => exact isPrivate_masked isPrivate_ownerOnly umask
  | some f => exact h f rfl

/-- No system call opens to others what is private. -/
theorem tight_perform {r : Nat} (h : Tight m r) (c : Call) : Tight (c.perform m).1 r := by
  unfold Call.perform
  cases c.stage with
  | makeDirectory =>
      refine ⟨fun hr mode hmode => ?_, h.active, h.backup⟩
      obtain rfl := Option.some.inj hmode
      cases hdir : m.dir with
      | none => exact isPrivate_masked (by decide) c.umask
      | some mode => exact h.dir hr mode hdir
  | chmodDirectory =>
      dsimp only
      split
      · exact h
      · exact ⟨fun _ mode hmode => Option.some.inj hmode ▸ (by decide : ownerOnlyDirectory.isPrivate),
          h.active, h.backup⟩
  | chmodActive => exact ⟨h.dir, fun _ => isOwned_tighten _, h.backup⟩
  | chmodBackup => exact ⟨h.dir, h.active, fun _ => isOwned_tighten _⟩
  | stat =>
      dsimp only
      split
      · exact h
      · exact h
  | unlink => exact ⟨h.dir, h.active, fun _ => isOwned_none⟩
  | rename =>
      dsimp only
      split
      · exact h
      · rename_i file hfile
        -- the backup is the file that was active
        exact ⟨h.dir, fun _ => isOwned_none, fun hr => hfile ▸ h.active (by omega)⟩
  | chmodRotated => exact ⟨h.dir, h.active, fun _ => isOwned_tighten _⟩
  | append =>
      dsimp only
      split
      · exact h
      · exact ⟨h.dir, fun hr => isOwned_appendTo (h.active hr) _ _, h.backup⟩
  | chmodAppended =>
      dsimp only
      split
      · exact h
      · rename_i file hfile
        exact ⟨h.dir, fun _ => isOwned_tighten (some file), h.backup⟩
  | chmodKept => exact ⟨h.dir, h.active, fun _ => isOwned_tighten _⟩
  | done => exact h

theorem tight_fail {r : Nat} (h : Tight m r) (c : Call) (written : Nat) : Tight (c.fail written m) r := by
  rcases fail_cases c written m with hquiet | ⟨-, htorn⟩
  · rw [hquiet]
    exact h
  · rw [htorn]
    exact ⟨h.dir, fun hr => isOwned_appendTo (h.active hr) _ _, h.backup⟩

/-- What a system call makes private is private then. -/
theorem tight_next (h : Tight m c.stage.rank) {stage : Stage} (hnext : (c.perform m).2 = some stage) :
    Tight (c.perform m).1 stage.rank := by
  by_cases hrank : 4 ≤ c.stage.rank
  · exact (tight_perform (h.of_le hrank) c).done _
  · obtain ⟨time, miss, umask, current, failed⟩ := c
    cases current with
    | makeDirectory =>
        obtain rfl := Option.some.inj hnext
        exact tight_of_le_one (Nat.le_refl 1)
    | chmodDirectory =>
        unfold Call.perform at hnext ⊢
        dsimp only at hnext ⊢
        split at hnext
        · cases hnext
        · obtain rfl := Option.some.inj hnext
          exact ⟨fun _ mode hmode => Option.some.inj hmode ▸ (by decide : ownerOnlyDirectory.isPrivate),
            fun hr => absurd hr (by decide), fun hr => absurd hr (by decide)⟩
    | chmodActive =>
        obtain rfl := Option.some.inj hnext
        have h : Tight m 2 := h
        exact ⟨fun _ => h.dir (by decide), fun _ => isOwned_tighten _, fun hr => absurd hr (by decide)⟩
    | chmodBackup =>
        obtain rfl := Option.some.inj hnext
        have h : Tight m 3 := h
        exact ⟨fun _ => h.dir (by decide), fun _ => h.active (by decide), fun _ => isOwned_tighten _⟩
    | _ => exact absurd (Nat.le_of_ble_eq_true rfl) hrank

/-- Every call has made private what it has come past. -/
def AllTight (s : State) : Prop := ∀ c ∈ s.calls, Tight s.metrics c.stage.rank

theorem allTight_step (h : AllTight s) (hs : step s a = some s') : AllTight s' := by
  cases a with
  | call env time miss umask =>
      have hs : (if env = some (units "on") then _ else _) = some s' := hs
      split at hs
      · obtain rfl := Option.some.inj hs
        intro c hc
        rcases List.mem_append.mp hc with hc | hc
        · exact h c hc
        · obtain rfl := List.mem_singleton.mp hc
          exact tight_of_le_one (Nat.zero_le 1)
      · obtain rfl := Option.some.inj hs
        exact h
  | perform i =>
      unfold step at hs
      dsimp only at hs
      split at hs
      · cases hs
      · rename_i c hc
        split at hs
        · obtain rfl := Option.some.inj hs
          intro d hd
          rcases List.mem_or_eq_of_mem_set hd with hd | rfl
          · exact tight_perform (h d hd) c
          · have hbefore := h c (List.mem_of_getElem? hc)
            cases hnext : (c.perform s.metrics).2 with
            | none => exact tight_perform hbefore c
            | some stage => exact tight_next hbefore hnext
        · cases hs
  | fail i written =>
      unfold step at hs
      dsimp only at hs
      split at hs
      · cases hs
      · rename_i c hc
        split at hs
        · obtain rfl := Option.some.inj hs
          intro d hd
          rcases List.mem_or_eq_of_mem_set hd with hd | rfl
          · exact tight_fail (h d hd) c written
          · exact tight_fail (h c (List.mem_of_getElem? hc)) c written
        · cases hs
  | removeActive =>
      obtain rfl := Option.some.inj hs
      exact fun c hc => ⟨(h c hc).dir, fun _ => isOwned_none, (h c hc).backup⟩
  | removeBackup =>
      obtain rfl := Option.some.inj hs
      exact fun c hc => ⟨(h c hc).dir, (h c hc).active, fun _ => isOwned_none⟩
  | removeDirectory =>
      obtain rfl := Option.some.inj hs
      exact fun c hc => ⟨fun _ _ hmode => (nomatch hmode), fun _ => isOwned_none, fun _ => isOwned_none⟩

/--
**The log is its owner's alone.** However the system calls of any number of calls are ordered, and
whichever of them fail: from the moment a call has got as far as to look at the size, and so before it
appends anything, nobody else may use the directory or one of the files in it, whoever created them.
-/
theorem query_log_private (h : Reaches step (fun _ _ => True) Initial s) (hc : c ∈ s.calls)
    (htightened : 3 < c.stage.rank) :
    (∀ mode, s.metrics.dir = some mode → mode.isPrivate) ∧ IsOwned s.metrics.active ∧
      IsOwned s.metrics.backup := by
  have htight : AllTight s := h.invariant
    (fun s hs c hc => absurd (hs.calls ▸ hc) List.not_mem_nil) fun s a s' hi _ hs => allTight_step hi hs
  obtain ⟨hdir, hactive, hbackup⟩ := htight c hc
  exact ⟨hdir (by omega), hactive (by omega), hbackup htightened⟩

/-- Files that everybody may read. -/
def permissive : State := ⟨⟨some 0o755, some ⟨0o644, []⟩, some ⟨0o644, []⟩⟩, []⟩

theorem query_log_private_permissive : ∃ s : State, Reaches step (fun _ _ => True) Initial s ∧
    s.metrics.active.isSome = true ∧ IsOwned s.metrics.active ∧ IsOwned s.metrics.backup := by
  obtain ⟨s, hs, htest⟩ := Reaches.exists_of_run step (⟨rfl, fun h => nomatch h⟩ : Initial permissive)
    (.call (some (units "on")) ⟨[], by decide⟩ ⟨.codex, .stop, units "x"⟩ 0o022 ::
      List.replicate 4 (.perform 0))
    (fun s => s.metrics.active.isSome && s.calls.any fun c => c.stage.rank > 3) (by decide)
  rw [Bool.and_eq_true, List.any_eq_true] at htest
  obtain ⟨hsome, c, hc, hrank⟩ := htest
  exact ⟨s, hs, hsome, (query_log_private hs hc (of_decide_eq_true hrank)).2⟩

/-! ## The size -/

/-- What a call is going to append. -/
def Call.pending (c : Call) : Nat := if c.isAdmitted then c.record.length else 0

def State.pending (s : State) : Nat := (s.calls.map Call.pending).sum

/-- How many calls are between the look at the size and the append. -/
def State.admitted (s : State) : Nat := (s.calls.filter Call.isAdmitted).length

theorem sum_set {l : List Call} (hc : l[i]? = some c) (c' : Call) (f : Call → Nat) :
    ((l.set i c').map f).sum + f c = (l.map f).sum + f c' := by
  induction l generalizing i with
  | nil => cases hc
  | cons d l ih =>
      cases i with
      | zero =>
          obtain rfl : d = c := by simpa using hc
          rw [List.set_cons_zero, List.map_cons, List.map_cons, List.sum_cons, List.sum_cons]
          omega
      | succ i =>
          have htail := ih (i := i) (by simpa using hc)
          rw [List.set_cons_succ, List.map_cons, List.map_cons, List.sum_cons, List.sum_cons]
          omega

theorem pending_le (c : Call) : c.pending ≤ if c.isAdmitted then maxRecordBytes else 0 := by
  rw [Call.pending]
  split
  · exact length_record c.time c.miss
  · exact Nat.le_refl 0

theorem sum_pending_le (l : List Call) :
    (l.map Call.pending).sum ≤ (l.filter Call.isAdmitted).length * maxRecordBytes := by
  induction l with
  | nil => exact Nat.zero_le _
  | cons c l ih =>
      have hc := pending_le c
      rw [List.map_cons, List.sum_cons]
      cases hadmitted : c.isAdmitted with
      | false =>
          rw [hadmitted, if_neg (by simp)] at hc
          rw [List.filter_cons_of_neg (by simp [hadmitted])]
          omega
      | true =>
          rw [hadmitted, if_pos rfl] at hc
          rw [List.filter_cons_of_pos hadmitted, List.length_cons, Nat.add_mul]
          omega

/-- One call is among those that are admitted, so the others are fewer. -/
theorem pending_others {l : List Call} (hc : l[i]? = some c) (hadmitted : c.isAdmitted = true) {k : Nat}
    (hk : (l.filter Call.isAdmitted).length ≤ k) :
    (l.map Call.pending).sum ≤ c.record.length + (k - 1) * maxRecordBytes := by
  induction l generalizing i k with
  | nil => cases hc
  | cons d l ih =>
      rw [List.map_cons, List.sum_cons]
      cases i with
      | zero =>
          obtain rfl : d = c := by simpa using hc
          rw [List.filter_cons_of_pos hadmitted, List.length_cons] at hk
          have hrest := sum_pending_le l
          have hmul := Nat.mul_le_mul_right maxRecordBytes (show (l.filter Call.isAdmitted).length ≤ k - 1 by omega)
          rw [Call.pending, if_pos hadmitted]
          omega
      | succ i =>
          have hd := pending_le d
          have hc : l[i]? = some c := by simpa using hc
          cases hd' : d.isAdmitted with
          | false =>
              rw [hd', if_neg (by simp)] at hd
              rw [List.filter_cons_of_neg (by simp [hd'])] at hk
              have htail := ih hc hk
              omega
          | true =>
              rw [hd', if_pos rfl] at hd
              rw [List.filter_cons_of_pos hd', List.length_cons] at hk
              have hpos : 0 < (l.filter Call.isAdmitted).length :=
                List.length_pos_of_mem (List.mem_filter.mpr ⟨List.mem_of_getElem? hc, hadmitted⟩)
              obtain ⟨j, rfl⟩ : ∃ j, k = j + 2 := ⟨k - 2, by omega⟩
              have htail : (l.map Call.pending).sum ≤ c.record.length + j * maxRecordBytes :=
                ih (k := j + 1) hc (by omega)
              show d.pending + (l.map Call.pending).sum ≤ c.record.length + (j + 1) * maxRecordBytes
              rw [Nat.add_mul]
              omega

/-- A size that neither file exceeds. -/
def Within (n : Nat) (m : Metrics) : Prop := sizeOf m.active ≤ n ∧ sizeOf m.backup ≤ n

/-- At most `k` calls are between the look at the size and the append. -/
def Overlap (k : Nat) (s : State) (a : Action) : Prop := ∀ s', step s a = some s' → s'.admitted ≤ k

/-- What is appended already, and what is going to be. -/
structure Room (n : Nat) (s : State) : Prop where
  active : (contents s.metrics.active).length + s.pending ≤ n
  backup : (contents s.metrics.backup).length ≤ n

theorem getElem?_set {l : List Call} (hc : l[i]? = some c) (c' : Call) : (l.set i c')[i]? = some c' := by
  obtain ⟨hi, -⟩ := List.getElem?_eq_some_iff.mp hc
  rw [List.getElem?_set_self hi]

theorem Room.effect {n k : Nat} (h : Room n s) (hn : hookQueryLogMaxBytes + (k - 1) * maxRecordBytes ≤ n)
    (heffect : Effect a s s') (hk : s'.admitted ≤ k) : Room n s' := by
  obtain ⟨hactive, hbackup⟩ := h
  have hmax : maxRecordBytes ≤ hookQueryLogMaxBytes := by decide
  have hother : ∀ {b b' : Bytes}, b'.length ≤ n → b = b' ∨ b = [] → b.length ≤ n := by
    intro b b' hb hcases
    rcases hcases with rfl | rfl
    · exact hb
    · exact Nat.zero_le _
  cases heffect with
  | begun c hcalls hfresh hnot hmetrics =>
      have hpending : s'.pending = s.pending := by
        rw [State.pending, State.pending, hcalls, List.map_append, List.sum_append, List.map_singleton,
          List.sum_singleton, Call.pending, hfresh]
        rfl
      exact ⟨by rwa [hmetrics, hpending], by rwa [hmetrics]⟩
  | kept i c c' hc hcalls hsame hadmitted happended hactive' hbackup' =>
      have hsum := sum_set hc c' Call.pending
      rw [← hcalls] at hsum
      have hless : c'.pending ≤ c.pending := by
        rw [Call.pending, Call.pending, hsame.record]
        split
        · rename_i hc'
          rw [if_pos (hadmitted hc')]
        · exact Nat.zero_le _
      refine ⟨?_, hother hbackup hbackup'⟩
      rw [hactive']
      show _ + (s'.calls.map Call.pending).sum ≤ n
      have hactive : _ + (s.calls.map Call.pending).sum ≤ n := hactive
      omega
  | admitted i c c' hc hcalls hsame hadmitted happended hactive' hbackup' hroom =>
      have hothers := pending_others (by rw [hcalls]; exact getElem?_set hc c') hadmitted hk
      have hrecord := length_record c'.time c'.miss
      refine ⟨?_, by rwa [hbackup']⟩
      rw [hactive']
      show _ + (s'.calls.map Call.pending).sum ≤ n
      rcases hroom with hempty | hroom
      · rw [hempty, List.length_nil]
        have hrecord : c'.record.length ≤ maxRecordBytes := hrecord
        omega
      · rw [hsame.record] at hothers
        omega
  | rotated i c c' hc hcalls hsame hadmitted happended hactive' hbackup' =>
      have hothers := pending_others (by rw [hcalls]; exact getElem?_set hc c') hadmitted hk
      have hrecord : c'.record.length ≤ maxRecordBytes := length_record c'.time c'.miss
      refine ⟨?_, ?_⟩
      · rw [hactive', List.length_nil]
        show 0 + (s'.calls.map Call.pending).sum ≤ n
        omega
      · rw [hbackup']
        omega
  | appended i c c' hc hcalls hsame hbefore hadmitted hnot happended hactive' hbackup' =>
      have hsum := sum_set hc c' Call.pending
      rw [← hcalls, Call.pending, if_pos hbefore, Call.pending, if_neg (by simp [hadmitted])] at hsum
      refine ⟨?_, by rwa [hbackup']⟩
      rw [hactive', List.length_append]
      show _ + (s'.calls.map Call.pending).sum ≤ n
      have hactive : _ + (s.calls.map Call.pending).sum ≤ n := hactive
      omega
  | torn i written c c' hfail hc hcalls hsame hbefore hadmitted happended hactive' hbackup' =>
      have hsum := sum_set hc c' Call.pending
      rw [← hcalls, Call.pending, if_pos hbefore, Call.pending, if_neg (by simp [hadmitted])] at hsum
      refine ⟨?_, by rwa [hbackup']⟩
      have htake := List.length_take_le written c.record
      have htake' : (c.record.take written).length ≤ c.record.length := List.length_take_le' _ _
      rw [hactive', List.length_append]
      show _ + (s'.calls.map Call.pending).sum ≤ n
      have hactive : _ + (s.calls.map Call.pending).sum ≤ n := hactive
      omega
  | removed hcalls hactive' hbackup' =>
      refine ⟨?_, hother hbackup hbackup'⟩
      rw [State.pending, hcalls]
      have hactive : _ + (s.calls.map Call.pending).sum ≤ n := hactive
      rcases hactive' with hactive' | hactive'
      · rw [hactive']
        exact hactive
      · rw [hactive', List.length_nil]
        omega

/--
**The log is bounded.** However the system calls of any number of calls are ordered, and whichever of
them fail, where at most `k` calls at a time are between the look at the size and the append, no file
is ever longer than 1 MiB and a record for each of the others, or than the files were.
-/
theorem query_log_bounded {n k : Nat}
    (h : Reaches step (Overlap k) (fun s => Initial s ∧ Within n s.metrics) s) :
    Within (max n (hookQueryLogMaxBytes + (k - 1) * maxRecordBytes)) s.metrics := by
  have hroom : Room (max n (hookQueryLogMaxBytes + (k - 1) * maxRecordBytes)) s := by
    refine h.invariant (fun s hs => ?_) fun s a s' hroom hk hs =>
      hroom.effect (Nat.le_max_right _ _) (effect_step hs) (hk s' hs)
    obtain ⟨hinit, hactive, hbackup⟩ := hs
    rw [sizeOf_eq] at hactive hbackup
    refine ⟨?_, by omega⟩
    rw [State.pending, hinit.calls]
    show _ + 0 ≤ _
    omega
  have hactive := hroom.active
  have hbackup := hroom.backup
  rw [Within, sizeOf_eq, sizeOf_eq]
  omega

/-- No files. -/
def noFiles : State := ⟨{}, []⟩

theorem noFiles_init : Initial noFiles ∧ Within 0 noFiles.metrics :=
  ⟨⟨rfl, fun _ => ⟨rfl, rfl⟩⟩, Nat.le_refl 0, Nat.le_refl 0⟩

/-- A call that meets no files: nothing is to be rotated. -/
def oneCall : List Action :=
  .call (some (units "on")) ⟨units "2026-01-01T00:00:00.000Z", by decide⟩ ⟨.codex, .stop, units "x"⟩ 0o022 ::
    List.replicate 8 (.perform 0)

theorem query_log_bounded_oneCall : ∃ s : State, s.metrics.active.isSome = true ∧
    Within (max 0 (hookQueryLogMaxBytes + (1 - 1) * maxRecordBytes)) s.metrics := by
  have hstart : Reaches step (Overlap 1) (fun s => Initial s ∧ Within 0 s.metrics) noFiles :=
    .init noFiles_init
  have htest : ∀ s a, (step s a).all (fun s' => decide (s'.admitted ≤ 1)) = true → Overlap 1 s a := by
    intro s a h s' hs
    rw [hs] at h
    exact of_decide_eq_true h
  obtain ⟨s, hs, hsome⟩ := Reaches.exists_of_tested_run step htest hstart oneCall
    (fun s => s.metrics.active.isSome) (by decide)
  exact ⟨s, hsome, query_log_bounded hs⟩

end Caveat.Hooks.QueryLog
