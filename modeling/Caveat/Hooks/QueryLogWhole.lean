import Caveat.Hooks.QueryLogLaw

/-!
# What the log of queries holds

Where no append breaks off, the lines of the two files are those of different calls, and each says what
its call was to log. Where the calls come one after the other, the files hold the latest records, all
of them that fit.
-/

namespace Caveat.Hooks.QueryLog

open Js Lib
open Hooks (units)

variable {s s' : State} {a : Action} {c : Call} {i : Nat}

/-! ## Whole records -/

/-- No append breaks off in the middle of a record. -/
def Untorn (_ : State) : Action → Prop
  | .fail _ written => written = 0
  | _ => True

instance (s : State) (a : Action) : Decidable (Untorn s a) := by
  unfold Untorn
  split <;> infer_instance

def State.recordOf (s : State) (i : Nat) : Bytes := ((s.calls[i]?).map Call.record).getD []

/-- The record of a call has been appended. -/
def State.Appended (s : State) (i : Nat) : Prop := ∃ c, s.calls[i]? = some c ∧ c.hasAppended = true

/-- Which calls the records of the files are from. -/
structure Holds (s : State) (active backup : List Nat) : Prop where
  nodup : (active ++ backup).Nodup
  appended : ∀ i ∈ active ++ backup, s.Appended i
  active : contents s.metrics.active = active.flatMap s.recordOf
  backup : contents s.metrics.backup = backup.flatMap s.recordOf

/-- A step that keeps what has been appended. -/
structure Extends (s s' : State) : Prop where
  appended : ∀ j, s.Appended j → s'.Appended j
  recordOf : ∀ j, s.Appended j → s'.recordOf j = s.recordOf j

theorem extends_append (h : s'.calls = s.calls ++ [c]) : Extends s s' := by
  have hkept : ∀ (j : Nat) d, s.calls[j]? = some d → s'.calls[j]? = some d := by
    intro j d hd
    obtain ⟨hj, -⟩ := List.getElem?_eq_some_iff.mp hd
    rw [h, List.getElem?_append_left hj, hd]
  refine ⟨fun j hj => ?_, fun j hj => ?_⟩
  · obtain ⟨d, hd, happended⟩ := hj
    exact ⟨d, hkept j d hd, happended⟩
  · obtain ⟨d, hd, -⟩ := hj
    rw [State.recordOf, State.recordOf, hkept j d hd, hd]

theorem extends_set {c' : Call} (hc : s.calls[i]? = some c) (h : s'.calls = s.calls.set i c')
    (hsame : c.Continues c') (happended : c.hasAppended = true → c'.hasAppended = true) :
    Extends s s' := by
  have hcases : ∀ (j : Nat) d, s.calls[j]? = some d →
      s'.calls[j]? = some d ∨ j = i ∧ d = c ∧ s'.calls[j]? = some c' := by
    intro j d hd
    rw [h]
    by_cases hj : j = i
    · subst hj
      exact .inr ⟨rfl, Option.some.inj (hd.symm.trans hc), getElem?_set hc c'⟩
    · rw [List.getElem?_set_ne (Ne.symm hj)]
      exact .inl hd
  refine ⟨fun j hj => ?_, fun j hj => ?_⟩
  · obtain ⟨d, hd, hdone⟩ := hj
    rcases hcases j d hd with hkept | ⟨-, rfl, hset⟩
    · exact ⟨d, hkept, hdone⟩
    · exact ⟨c', hset, happended hdone⟩
  · obtain ⟨d, hd, -⟩ := hj
    rw [State.recordOf, State.recordOf, hd]
    rcases hcases j d hd with hkept | ⟨-, rfl, hset⟩
    · rw [hkept]
    · rw [hset]
      exact hsame.record

theorem Extends.flatMap (h : Extends s s') {is : List Nat} (his : ∀ i ∈ is, s.Appended i) :
    is.flatMap s'.recordOf = is.flatMap s.recordOf :=
  List.flatMap_congr fun i hi => h.recordOf i (his i hi)

/-- What the files hold of a step that adds nothing. -/
theorem Holds.less {active backup : List Nat} (h : Holds s active backup) (hextends : Extends s s')
    (hactive : contents s'.metrics.active = contents s.metrics.active ∨ contents s'.metrics.active = [])
    (hbackup : contents s'.metrics.backup = contents s.metrics.backup ∨ contents s'.metrics.backup = []) :
    ∃ active backup, Holds s' active backup := by
  have hactiveApp : ∀ i ∈ active, s.Appended i := fun i hi => h.appended i (List.mem_append_left _ hi)
  have hbackupApp : ∀ i ∈ backup, s.Appended i := fun i hi => h.appended i (List.mem_append_right _ hi)
  have hpart : ∀ (is : List Nat) (b b' : Bytes), (∀ i ∈ is, s.Appended i) → b = is.flatMap s.recordOf →
      b' = b ∨ b' = [] → ∃ js : List Nat, js.Sublist is ∧ b' = js.flatMap s'.recordOf := by
    intro is b b' his hb hcases
    rcases hcases with rfl | rfl
    · exact ⟨is, .refl is, hb.trans (hextends.flatMap his).symm⟩
    · exact ⟨[], List.nil_sublist is, rfl⟩
  obtain ⟨active', hsubA, hA⟩ := hpart active _ _ hactiveApp h.active hactive
  obtain ⟨backup', hsubB, hB⟩ := hpart backup _ _ hbackupApp h.backup hbackup
  have hsub := hsubA.append hsubB
  exact ⟨active', backup', h.nodup.sublist hsub,
    fun i hi => hextends.appended i (h.appended i (hsub.subset hi)), hA, hB⟩

theorem holds_effect {active backup : List Nat} (h : Holds s active backup) (heffect : Effect a s s')
    (huntorn : Untorn s a) : ∃ active backup, Holds s' active backup := by
  cases heffect with
  | begun c hcalls hfresh hnot hmetrics =>
      exact h.less (extends_append hcalls) (.inl (by rw [hmetrics])) (.inl (by rw [hmetrics]))
  | kept i c c' hc hcalls hsame hadmitted happended hactive' hbackup' =>
      exact h.less (extends_set hc hcalls hsame fun hdone => happended ▸ hdone) (.inl hactive') hbackup'
  | admitted i c c' hc hcalls hsame hadmitted happended hactive' hbackup' hroom =>
      exact h.less (extends_set hc hcalls hsame fun hdone => happended ▸ hdone) (.inl hactive') (.inl hbackup')
  | removed hcalls hactive' hbackup' =>
      have hextends : Extends s s' := by
        refine ⟨fun j hj => ?_, fun j _ => ?_⟩
        · rw [State.Appended, hcalls]
          exact hj
        · rw [State.recordOf, hcalls]
          rfl
      exact h.less hextends hactive' hbackup'
  | torn i written c c' hfail hc hcalls hsame hbefore hadmitted happended hactive' hbackup' =>
      subst hfail
      obtain rfl : written = 0 := huntorn
      rw [List.take_zero, List.append_nil] at hactive'
      exact h.less (extends_set hc hcalls hsame fun hdone => happended ▸ hdone) (.inl hactive') (.inl hbackup')
  | rotated i c c' hc hcalls hsame hadmitted happended hactive' hbackup' =>
      have hextends := extends_set hc hcalls hsame fun hdone => happended ▸ hdone
      have hactiveApp : ∀ i ∈ active, s.Appended i := fun i hi => h.appended i (List.mem_append_left _ hi)
      refine ⟨[], active, (List.nodup_append.mp h.nodup).1, fun i hi => hextends.appended i (hactiveApp i hi),
        hactive', ?_⟩
      rw [hbackup', h.active, hextends.flatMap hactiveApp]
  | appended i c c' hc hcalls hsame hbefore hadmitted hnot happended hactive' hbackup' =>
      have hextends := extends_set hc hcalls hsame fun _ => happended
      have hactiveApp : ∀ i ∈ active, s.Appended i := fun i hi => h.appended i (List.mem_append_left _ hi)
      have hbackupApp : ∀ i ∈ backup, s.Appended i := fun i hi => h.appended i (List.mem_append_right _ hi)
      -- this call had appended nothing before
      have hnew : i ∉ active ++ backup := by
        intro hi
        obtain ⟨d, hd, hdone⟩ := h.appended i hi
        obtain rfl := Option.some.inj (hd.symm.trans hc)
        rw [hnot] at hdone
        cases hdone
      have hset : s'.calls[i]? = some c' := hcalls ▸ getElem?_set hc c'
      have hrecord : s'.recordOf i = c.record := by
        rw [State.recordOf, hset]
        exact hsame.record
      have hperm : (active ++ [i] ++ backup).Perm (i :: (active ++ backup)) := by
        rw [List.append_assoc]
        exact List.perm_middle
      refine ⟨active ++ [i], backup, hperm.nodup_iff.mpr (List.nodup_cons.mpr ⟨hnew, h.nodup⟩), ?_, ?_, ?_⟩
      · intro j hj
        rcases List.mem_cons.mp (hperm.mem_iff.mp hj) with rfl | hj
        · exact ⟨c', hset, happended⟩
        · exact hextends.appended j (h.appended j hj)
      · rw [hactive', h.active, List.flatMap_append, List.flatMap_singleton, hrecord,
          hextends.flatMap hactiveApp]
      · rw [hbackup', h.backup, hextends.flatMap hbackupApp]

/-! ## Reading back -/

/-- The lines of a file, each as it is read. -/
def readLines (round : Rat → JsNumber) (bytes : Bytes) : List (Option Json) :=
  (((decodeUtf8 bytes).splitOn '\n').filter (· ≠ [])).map (parseJson round)

theorem line_ne_nil (time : IsoTime) (miss : HookQueryMiss) : line time miss ≠ [] := by
  simp [line, objectText]

theorem readLines_records (round : Rat → JsNumber) (logged : List (IsoTime × HookQueryMiss)) :
    readLines round (logged.flatMap fun l => record l.1 l.2) =
      logged.map fun l => some (missJson l.1 l.2) := by
  have hbytes : (logged.flatMap fun l => record l.1 l.2) =
      encodeUtf8 (logged.flatMap fun l => line l.1 l.2 ++ ['\n']) := by
    induction logged with
    | nil => rfl
    | cons l logged ih =>
        rw [List.flatMap_cons, List.flatMap_cons, ih, encodeUtf8, encodeUtf8, List.flatMap_append]
        rfl
  rw [readLines, hbytes, decodeUtf8_encodeUtf8]
  clear hbytes
  induction logged with
  | nil => rfl
  | cons l logged ih =>
      rw [List.flatMap_cons, List.append_assoc, List.singleton_append,
        List.splitOn_append_cons_self_of_not_mem (newline_not_mem_line l.1 l.2),
        List.filter_cons_of_pos (by simpa using line_ne_nil l.1 l.2), List.map_cons, ih, parseJson_line]
      rfl

/-- What the line of a call says. -/
def State.loggedOf (s : State) (i : Nat) : Option Json := (s.calls[i]?).map fun c => missJson c.time c.miss

theorem readLines_holds (round : Rat → JsNumber) {is : List Nat} (h : ∀ i ∈ is, s.Appended i) :
    readLines round (is.flatMap s.recordOf) = is.map s.loggedOf := by
  obtain ⟨calls, hcalls⟩ : ∃ calls : List Call, is.map (fun i => s.calls[i]?) = calls.map some := by
    induction is with
    | nil => exact ⟨[], rfl⟩
    | cons i is ih =>
        obtain ⟨calls, hcalls⟩ := ih fun j hj => h j (List.mem_cons_of_mem i hj)
        obtain ⟨c, hc, -⟩ := h i List.mem_cons_self
        exact ⟨c :: calls, by rw [List.map_cons, List.map_cons, hcalls, hc]⟩
  have hrecords : is.flatMap s.recordOf = (calls.map fun c => (c.time, c.miss)).flatMap
      fun l => record l.1 l.2 := by
    have := congrArg (List.flatMap fun c : Option Call => (c.map Call.record).getD []) hcalls
    rw [List.flatMap_map, List.flatMap_map] at this
    rw [List.flatMap_map]
    exact this
  have hlogged : is.map s.loggedOf = (calls.map fun c => (c.time, c.miss)).map
      fun l => some (missJson l.1 l.2) := by
    have := congrArg (List.map fun c : Option Call => c.map fun c => missJson c.time c.miss) hcalls
    rw [List.map_map, List.map_map] at this
    rw [List.map_map]
    exact this
  rw [hrecords, readLines_records, hlogged]

/--
**The log holds whole records.** However the system calls of any number of calls are ordered, where no
append breaks off: each line of the two files is read back as what one of the calls was to log, and the
lines are those of different calls.
-/
theorem query_log_whole (round : Rat → JsNumber)
    (h : Reaches step Untorn (fun s => Initial s ∧ Within 0 s.metrics) s) :
    ∃ active backup : List Nat, (active ++ backup).Nodup ∧ (∀ i ∈ active ++ backup, s.Appended i) ∧
      readLines round (contents s.metrics.active) = active.map s.loggedOf ∧
      readLines round (contents s.metrics.backup) = backup.map s.loggedOf := by
  obtain ⟨active, backup, hholds⟩ : ∃ active backup, Holds s active backup := by
    refine h.invariant (I := fun s => ∃ active backup, Holds s active backup) (fun s hs => ?_)
      fun s a s' hi hok hs => ?_
    · obtain ⟨-, hactive, hbackup⟩ := hs
      rw [sizeOf_eq, Nat.le_zero, List.length_eq_zero_iff] at hactive hbackup
      exact ⟨[], [], .nil, fun i hi => absurd hi List.not_mem_nil, hactive, hbackup⟩
    · obtain ⟨active, backup, hholds⟩ := hi
      exact holds_effect hholds (effect_step hs) hok
  refine ⟨active, backup, hholds.nodup, hholds.appended, ?_, ?_⟩
  · rw [hholds.active]
    exact readLines_holds round fun i hi => hholds.appended i (List.mem_append_left _ hi)
  · rw [hholds.backup]
    exact readLines_holds round fun i hi => hholds.appended i (List.mem_append_right _ hi)

theorem query_log_whole_oneCall : ∃ (s : State) (active backup : List Nat), s.Appended 0 ∧
    readLines (fun _ => .nan) (contents s.metrics.active) = active.map s.loggedOf ∧
      readLines (fun _ => .nan) (contents s.metrics.backup) = backup.map s.loggedOf := by
  have hstart : Reaches step Untorn (fun s => Initial s ∧ Within 0 s.metrics) noFiles := .init noFiles_init
  obtain ⟨s, hs, happended⟩ := Reaches.exists_of_tested_run step
    (fun s a (h : decide (Untorn s a) = true) => of_decide_eq_true h) hstart oneCall
    (fun s => s.calls[0]?.any Call.hasAppended) (by decide)
  obtain ⟨active, backup, -, -, hactive, hbackup⟩ := query_log_whole (fun _ => .nan) hs
  cases hc : s.calls[0]? with
  | none =>
      rw [hc] at happended
      cases happended
  | some c =>
      rw [hc] at happended
      exact ⟨s, active, backup, ⟨c, hc, happended⟩, hactive, hbackup⟩

/-! ## Calls one after the other -/

/-- A call begins when those before it are done; nothing fails, and nobody removes anything. -/
def Sequential (s : State) : Action → Prop
  | .call .. => ∀ c ∈ s.calls, c.isRunning = false
  | .perform _ => True
  | _ => False

instance (s : State) (a : Action) : Decidable (Sequential s a) := by
  unfold Sequential
  split <;> infer_instance

/-- The files hold the latest records, in their order. A record is only gone where those behind it, up
to the first one of the active file, are more than a file may hold. -/
structure Window (records : List Bytes) (m : Metrics) : Prop where
  kept : ∃ dropped older newer, records = dropped ++ older ++ newer ∧
    contents m.backup = older.flatten ∧ contents m.active = newer.flatten ∧
      (dropped ≠ [] → hookQueryLogMaxBytes < (older ++ newer.take 1).flatten.length)
  active : (contents m.active).length ≤ hookQueryLogMaxBytes
  backup : (contents m.backup).length ≤ hookQueryLogMaxBytes

/-- The active file is to be rotated, since the record does not fit. -/
structure Rotating (records : List Bytes) (r : Bytes) (m : Metrics) : Prop where
  kept : ∃ dropped newer, records = dropped ++ newer ∧ contents m.active = newer.flatten
  active : (contents m.active).length ≤ hookQueryLogMaxBytes
  full : hookQueryLogMaxBytes < (contents m.active).length + r.length

/-- The active file has been rotated. -/
structure Rotated (records : List Bytes) (r : Bytes) (m : Metrics) : Prop where
  kept : ∃ dropped older, records = dropped ++ older ∧ contents m.backup = older.flatten
  active : contents m.active = []
  backup : (contents m.backup).length ≤ hookQueryLogMaxBytes
  full : hookQueryLogMaxBytes < (contents m.backup).length + r.length

/-- What the files hold where a call is at a stage, with the records before it. -/
def LogAt (records : List Bytes) (r : Bytes) (m : Metrics) : Stage → Prop
  | .unlink => Window records m ∧ hookQueryLogMaxBytes < (contents m.active).length + r.length
  | .rename => Rotating records r m ∧ contents m.backup = []
  | .chmodRotated => Rotated records r m
  | .append => Rotated records r m ∨
      Window records m ∧ (contents m.active).length + r.length ≤ hookQueryLogMaxBytes
  | .chmodAppended => Window (records ++ [r]) m ∧ m.active.isSome = true
  | .chmodKept | .done => Window (records ++ [r]) m
  | _ => Window records m

variable {records : List Bytes} {r : Bytes} {m m' : Metrics}

theorem Window.congr (h : Window records m) (hactive : contents m'.active = contents m.active)
    (hbackup : contents m'.backup = contents m.backup) : Window records m' := by
  obtain ⟨hkept, ha, hb⟩ := h
  rw [← hactive, ← hbackup] at hkept
  exact ⟨hkept, by rwa [hactive], by rwa [hbackup]⟩

/-- The record is the first one of a new file. -/
theorem Rotated.append (h : Rotated records r m) (hr : r.length ≤ hookQueryLogMaxBytes)
    (hactive : contents m'.active = contents m.active ++ r)
    (hbackup : contents m'.backup = contents m.backup) : Window (records ++ [r]) m' := by
  obtain ⟨⟨dropped, older, rfl, holder⟩, hempty, hb, hfull⟩ := h
  rw [hempty, List.nil_append] at hactive
  refine ⟨⟨dropped, older, [r], rfl, hbackup.trans holder, by simp [hactive], fun _ => ?_⟩,
    by rwa [hactive], by rwa [hbackup]⟩
  rw [holder] at hfull
  simpa using hfull

/-- The record fits into the file. -/
theorem Window.append (h : Window records m)
    (hroom : (contents m.active).length + r.length ≤ hookQueryLogMaxBytes)
    (hactive : contents m'.active = contents m.active ++ r)
    (hbackup : contents m'.backup = contents m.backup) : Window (records ++ [r]) m' := by
  obtain ⟨⟨dropped, older, newer, rfl, holder, hnewer, hfull⟩, -, hb⟩ := h
  refine ⟨⟨dropped, older, newer ++ [r], by simp, hbackup.trans holder, by simp [hactive, hnewer],
    fun hdropped => ?_⟩, by rwa [hactive, List.length_append], by rwa [hbackup]⟩
  have hbefore := hfull hdropped
  cases newer with
  | nil =>
      simp only [List.take_nil, List.append_nil] at hbefore
      simp only [List.nil_append, List.take_succ_cons, List.take_zero, List.flatten_append,
        List.length_append]
      omega
  | cons first newer => simpa using hbefore

theorem contents_of_isNone {file : Option LogFile} (h : file = none) : contents file = [] := by
  rw [h]
  rfl

/-- A system call of the only call that runs. -/
theorem logAt_perform (c : Call) (h : LogAt records c.record m c.stage)
    (hdir : c.stage ≠ .makeDirectory → m.dir.isSome = true) (hdone : c.stage ≠ .done) :
    ∃ stage, (c.perform m).2 = some stage ∧ LogAt records c.record (c.perform m).1 stage ∧
      (c.perform m).1.dir.isSome = true := by
  have hrecord : c.record.length ≤ hookQueryLogMaxBytes :=
    (length_record c.time c.miss).trans (by decide)
  have hdir' : c.stage ≠ .makeDirectory → ∃ mode, m.dir = some mode :=
    fun hstage => Option.isSome_iff_exists.mp (hdir hstage)
  unfold Call.perform
  cases hstage : c.stage with
  | makeDirectory =>
      rw [hstage] at h
      exact ⟨_, rfl, h.congr rfl rfl, rfl⟩
  | chmodDirectory =>
      obtain ⟨mode, hmode⟩ := hdir' (by rw [hstage]; decide)
      rw [hstage] at h
      dsimp only
      rw [hmode]
      exact ⟨_, rfl, h.congr rfl rfl, rfl⟩
  | chmodActive =>
      rw [hstage] at h
      exact ⟨_, rfl, h.congr (contents_tighten _) rfl, hdir (by rw [hstage]; decide)⟩
  | chmodBackup =>
      rw [hstage] at h
      exact ⟨_, rfl, h.congr rfl (contents_tighten _), hdir (by rw [hstage]; decide)⟩
  | stat =>
      rw [hstage] at h
      dsimp only
      rw [sizeOf_eq]
      split
      · rename_i hfull
        exact ⟨_, rfl, ⟨h, hfull⟩, hdir (by rw [hstage]; decide)⟩
      · rename_i hroom
        exact ⟨_, rfl, .inr ⟨h, Nat.le_of_not_lt hroom⟩, hdir (by rw [hstage]; decide)⟩
  | unlink =>
      rw [hstage] at h
      obtain ⟨⟨⟨dropped, older, newer, heq, -, hnewer, -⟩, hactive, -⟩, hfull⟩ := h
      exact ⟨_, rfl, ⟨⟨⟨dropped ++ older, newer, heq, hnewer⟩, hactive, hfull⟩, rfl⟩,
        hdir (by rw [hstage]; decide)⟩
  | rename =>
      rw [hstage] at h
      obtain ⟨⟨⟨dropped, newer, heq, hnewer⟩, hactive, hfull⟩, -⟩ := h
      cases hfile : m.active with
      | none =>
          -- a record alone is not more than a file may hold
          rw [contents_of_isNone hfile, List.length_nil] at hfull
          omega
      | some file =>
          rw [hfile] at hnewer hactive hfull
          exact ⟨_, rfl, ⟨⟨dropped, newer, heq, hnewer⟩, rfl, hactive, hfull⟩,
            hdir (by rw [hstage]; decide)⟩
  | chmodRotated =>
      rw [hstage] at h
      obtain ⟨hkept, hactive, hbackup, hfull⟩ := h
      rw [← contents_tighten m.backup] at hkept hbackup hfull
      exact ⟨_, rfl, .inl ⟨hkept, hactive, hbackup, hfull⟩, hdir (by rw [hstage]; decide)⟩
  | append =>
      obtain ⟨mode, hmode⟩ := hdir' (by rw [hstage]; decide)
      rw [hstage] at h
      dsimp only
      rw [hmode]
      refine ⟨_, rfl, ⟨?_, rfl⟩, rfl⟩
      rcases h with h | ⟨h, hroom⟩
      · exact h.append hrecord (contents_appendTo _ _ _) rfl
      · exact h.append hroom (contents_appendTo _ _ _) rfl
  | chmodAppended =>
      rw [hstage] at h
      obtain ⟨h, hsome⟩ := h
      obtain ⟨file, hfile⟩ := Option.isSome_iff_exists.mp hsome
      dsimp only
      rw [hfile]
      exact ⟨_, rfl, h.congr (by rw [hfile]; rfl) rfl, hdir (by rw [hstage]; decide)⟩
  | chmodKept =>
      rw [hstage] at h
      exact ⟨_, rfl, h.congr rfl (contents_tighten _), hdir (by rw [hstage]; decide)⟩
  | done => exact absurd hstage hdone

/-- The last call may be running, behind those that are done. -/
inductive OneByOne (s : State) : Prop where
  | fresh (hcalls : s.calls = []) (hlog : Window [] s.metrics)
  | running (past : List Call) (c : Call) (hcalls : s.calls = past ++ [c])
      (hpast : ∀ d ∈ past, d.isRunning = false) (hfailed : c.failed = false)
      (hlog : LogAt (past.map Call.record) c.record s.metrics c.stage)
      (hdir : c.stage ≠ .makeDirectory → s.metrics.dir.isSome = true)

theorem OneByOne.window (h : OneByOne s) (hdone : ∀ c ∈ s.calls, c.isRunning = false) :
    Window (s.calls.map Call.record) s.metrics := by
  cases h with
  | fresh hcalls hlog =>
      rw [hcalls]
      exact hlog
  | running past c hcalls hpast hfailed hlog hdir =>
      have hc := hdone c (by rw [hcalls]; simp)
      rw [Call.isRunning, hfailed] at hc
      have hstage : c.stage = .done := by simpa using hc
      rw [hstage] at hlog
      rw [hcalls, List.map_append]
      exact hlog

theorem oneByOne_step (h : OneByOne s) (hok : Sequential s a) (hs : step s a = some s') : OneByOne s' := by
  cases a with
  | call env time miss umask =>
      have hs : (if env = some (units "on") then _ else _) = some s' := hs
      split at hs
      · obtain rfl := Option.some.inj hs
        exact .running s.calls _ rfl hok rfl (h.window hok) fun hne => absurd rfl hne
      · obtain rfl := Option.some.inj hs
        exact h
  | perform i =>
      unfold step at hs
      dsimp only at hs
      split at hs
      · cases hs
      · rename_i d hd
        split at hs
        · rename_i hrunning
          obtain rfl := Option.some.inj hs
          cases h with
          | fresh hcalls hlog =>
              rw [hcalls] at hd
              cases hd
          | running past c hcalls hpast hfailed hlog hdir =>
              -- only the last call is running
              have hlast : i = past.length ∧ d = c := by
                rw [hcalls] at hd
                rcases Nat.lt_or_ge i past.length with hi | hi
                · rw [List.getElem?_append_left hi] at hd
                  rw [hpast d (List.mem_of_getElem? hd)] at hrunning
                  cases hrunning
                · rw [List.getElem?_append_right hi] at hd
                  cases hk : i - past.length with
                  | zero =>
                      rw [hk] at hd
                      exact ⟨by omega, (Option.some.inj hd).symm⟩
                  | succ k =>
                      rw [hk] at hd
                      cases hd
              obtain ⟨rfl, rfl⟩ := hlast
              have hnot : d.stage ≠ .done := by
                rw [Call.isRunning, Bool.and_eq_true] at hrunning
                simpa using hrunning.2
              obtain ⟨stage, hnext, hlog', hdir'⟩ := logAt_perform d hlog hdir hnot
              refine .running past { d with stage := stage } ?_ hpast hfailed hlog' fun _ => hdir'
              show s.calls.set past.length (d.next _) = _
              rw [hcalls, hnext, List.set_append_right _ _ (Nat.le_refl _), Nat.sub_self]
              rfl
        · cases hs
  | fail i written => exact absurd hok id
  | removeActive => exact absurd hok id
  | removeBackup => exact absurd hok id
  | removeDirectory => exact absurd hok id

/--
**The log keeps the latest records.** Where calls come one after the other and nothing fails, the two
files hold, the backup first, the records of the latest calls, in their order and without a gap. Neither
is longer than 1 MiB, and where a record is gone, those kept behind it come to more than that.
-/
theorem query_log_window (h : Reaches step Sequential (fun s => Initial s ∧ Within 0 s.metrics) s)
    (hdone : ∀ c ∈ s.calls, c.isRunning = false) : Window (s.calls.map Call.record) s.metrics := by
  refine OneByOne.window ?_ hdone
  refine h.invariant (fun s hs => ?_) fun s a s' hi hok hs => oneByOne_step hi hok hs
  obtain ⟨hinit, hactive, hbackup⟩ := hs
  rw [sizeOf_eq, Nat.le_zero, List.length_eq_zero_iff] at hactive hbackup
  refine .fresh hinit.calls ⟨⟨[], [], [], rfl, hbackup, hactive, fun hne => absurd rfl hne⟩, ?_, ?_⟩
  · rw [hactive]
    exact Nat.zero_le _
  · rw [hbackup]
    exact Nat.zero_le _

theorem query_log_window_oneCall :
    ∃ s : State, s.calls ≠ [] ∧ Window (s.calls.map Call.record) s.metrics := by
  have hstart : Reaches step Sequential (fun s => Initial s ∧ Within 0 s.metrics) noFiles :=
    .init noFiles_init
  obtain ⟨s, hs, hdone⟩ := Reaches.exists_of_tested_run step
    (fun s a (h : decide (Sequential s a) = true) => of_decide_eq_true h) hstart oneCall
    (fun s => !s.calls.isEmpty && s.calls.all fun c => !c.isRunning) (by decide)
  rw [Bool.and_eq_true, List.all_eq_true] at hdone
  refine ⟨s, fun hnil => ?_, query_log_window hs fun c hc => by simpa using hdone.2 c hc⟩
  rw [hnil] at hdone
  cases hdone.1

end Caveat.Hooks.QueryLog
