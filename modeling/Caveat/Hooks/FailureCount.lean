import Caveat.Hooks.CodexSignals
import Mathlib.Data.Finset.Card
import Mathlib.Data.Finset.Dedup

/-!
# Failures of Codex calls

The ids of the calls that have failed are kept, and a failure of a call whose id is kept is not counted.
So a call counts once, through whichever records it is told of, and the end of a command without an id
counts each time.
-/

namespace Caveat.Hooks

open Js

variable {host : TranscriptHost}

/-! ## Records of failures -/

/-- The payload, if it is a record. -/
def recordPayload (v : Json) : Json := recordOr (v.member? "payload".toList)

/-- Type and type of the payload. -/
def isKind (v : Json) (type kind : String) : Bool :=
  isText (v.member? "type".toList) type && isText ((recordPayload v).member? "type".toList) kind

def callIdOf (v : Json) : Units := textOr ((recordPayload v).member? "call_id".toList)

/-- A `function_call_output` with a failure. -/
def failedOutput (v : Json) : Bool :=
  isKind v "response_item" "function_call_output" &&
    (extractExitCode (textOr ((recordPayload v).member? "output".toList))).any (· ≠ 0)

/-- An `exec_command_end` with a failure. -/
def failedEnd (v : Json) : Bool :=
  isKind v "event_msg" "exec_command_end" &&
    (CodexScan.exitNumber (recordPayload v)).any (· ≠ .finite 0)

/-- The id of a call that a record tells has failed. -/
def failedId (v : Json) : Option Units :=
  if (failedOutput v || failedEnd v) ∧ callIdOf v ≠ [] then some (callIdOf v) else none

/-- A command without an id has failed. -/
def failedUnnamed (v : Json) : Bool := failedEnd v && callIdOf v = []

theorem failedId_eq_none {v : Json} (h : failedId v ≠ some (callIdOf v)) : failedId v = none := by
  rw [failedId] at h ⊢
  split
  · rename_i hfailed
    exact absurd (if_pos hfailed) h
  · rfl

/-! ## What is not counted -/

@[simp] theorem stamp_failures (s : SignalScan) (ts : Option Int) :
    (s.stamp ts).toolFailureCount = s.toolFailureCount := by
  cases ts <;> rfl

theorem stamped_failures (s : CodexScan) (ts : Option Int) :
    (s.stamped ts).toolFailureCount = s.toolFailureCount := stamp_failures _ _

@[simp] theorem countBash_failures (s : SignalScan) (command : Units) :
    (s.countBash command).toolFailureCount = s.toolFailureCount := by
  rw [SignalScan.countBash]
  split <;> rfl

@[simp] theorem addEditPath_failures (s : SignalScan) (path : Units) :
    (s.addEditPath path).toolFailureCount = s.toolFailureCount := by
  rw [SignalScan.addEditPath]
  split <;> rfl

@[simp] theorem addQuery_failures (s : SignalScan) (query : Units) :
    (s.addQuery query).toolFailureCount = s.toolFailureCount := by
  rw [SignalScan.addQuery]
  split <;> rfl

@[simp] theorem addFailure_failures (s : SignalScan) (output : Units) :
    (s.addFailure output).toolFailureCount = s.toolFailureCount + 1 := rfl

/-- A loop whose body keeps the count keeps it. -/
theorem foldl_failures {α : Type} {f : SignalScan → α → SignalScan}
    (hf : ∀ s a, (f s a).toolFailureCount = s.toolFailureCount) (as : List α) (s : SignalScan) :
    (as.foldl f s).toolFailureCount = s.toolFailureCount := by
  induction as generalizing s with
  | nil => rfl
  | cons a as ih => rw [List.foldl_cons, ih, hf]

@[simp] theorem callSignals_failures (s : SignalScan) (name : Units) (args : Json) :
    (CodexScan.callSignals s name args).toolFailureCount = s.toolFailureCount := by
  unfold CodexScan.callSignals
  split
  · exact foldl_failures addEditPath_failures _ _
  · split
    · exact addEditPath_failures _ _
    · split
      · exact foldl_failures addQuery_failures _ _
      · rfl

@[simp] theorem bashSeen_failures (s : CodexScan) : s.bashSeen.toolFailureCount = s.toolFailureCount := by
  refine foldl_failures (fun acc call => ?_) _ _
  split <;> rfl

/-! ## One record -/

/-- What a record adds to the failures. -/
structure CountsFailure (v : Json) (s s' : CodexScan) : Prop where
  ids : s'.failedCallIds = match failedId v with
    | some id => if id ∈ s.failedCallIds then s.failedCallIds else s.failedCallIds ++ [id]
    | none => s.failedCallIds
  count : s'.toolFailureCount + s.failedCallIds.length =
    s.toolFailureCount + s'.failedCallIds.length + if failedUnnamed v then 1 else 0

theorem countsFailure_of_same {v : Json} {s s' : CodexScan} (hid : failedId v = none)
    (hunnamed : failedUnnamed v = false) (hids : s'.failedCallIds = s.failedCallIds)
    (hcount : s'.toolFailureCount = s.toolFailureCount) : CountsFailure v s s' := by
  refine ⟨?_, ?_⟩
  · rw [hid, hids]
  · rw [hids, hcount, hunnamed]
    rfl

/-- A value is one text only. -/
theorem isText_eq_false {v : Option Json} {a b : String} (h : isText v a = true)
    (hab : units a ≠ units b) : isText v b = false := by
  rw [isText, decide_eq_true_iff] at h
  rw [isText, h, decide_eq_false_iff_not]
  exact fun heq => hab (Option.some.inj heq)

/-- A record of another kind tells of no failure. -/
theorem not_failed_of_kind {v : Json} (houtput : isKind v "response_item" "function_call_output" = false)
    (hend : isKind v "event_msg" "exec_command_end" = false) :
    failedId v = none ∧ failedUnnamed v = false := by
  simp [failedId, failedUnnamed, failedOutput, failedEnd, houtput, hend]

/-- A failure of a call that is counted keeps its id. -/
theorem countsFailure_of_new {v : Json} {s s' : CodexScan} (hid : failedId v = some (callIdOf v))
    (hunnamed : failedUnnamed v = false) (hnew : callIdOf v ∉ s.failedCallIds)
    (hids : s'.failedCallIds = s.failedCallIds ++ [callIdOf v])
    (hcount : s'.toolFailureCount = s.toolFailureCount + 1) : CountsFailure v s s' := by
  refine ⟨?_, ?_⟩
  · rw [hid, hids]
    exact (if_neg hnew).symm
  · rw [hids, hcount, hunnamed, List.length_append, List.length_singleton]
    simp only [Bool.false_eq_true, if_false]
    omega

/-- A failure of a call whose id is kept changes nothing. -/
theorem countsFailure_of_known {v : Json} {s : CodexScan} (hid : failedId v = some (callIdOf v))
    (hunnamed : failedUnnamed v = false) (hknown : callIdOf v ∈ s.failedCallIds) :
    CountsFailure v s s := by
  refine ⟨?_, ?_⟩
  · rw [hid]
    exact (if_pos hknown).symm
  · rw [hunnamed]
    rfl

theorem functionCallOutput_countsFailure {v : Json} (s : CodexScan)
    (houtput : isKind v "response_item" "function_call_output" = true)
    (hend : isKind v "event_msg" "exec_command_end" = false) :
    CountsFailure v s (s.functionCallOutput (recordPayload v)) := by
  have hunnamed : failedUnnamed v = false := by simp [failedUnnamed, failedEnd, hend]
  have hfailed : failedId v = some (callIdOf v) ↔ callIdOf v ≠ [] ∧
      (extractExitCode (textOr ((recordPayload v).member? "output".toList))).any (· ≠ 0) = true := by
    simp [failedId, failedOutput, failedEnd, houtput, hend, and_comm]
  unfold CodexScan.functionCallOutput
  dsimp only
  split
  · rename_i h
    obtain ⟨hcall, hexit, hnew⟩ := h
    exact countsFailure_of_new (hfailed.mpr ⟨hcall, hexit⟩) hunnamed hnew rfl rfl
  · rename_i h
    by_cases hid : failedId v = some (callIdOf v)
    · obtain ⟨hcall, hexit⟩ := hfailed.mp hid
      refine countsFailure_of_known hid hunnamed ?_
      by_contra hnew
      exact h ⟨hcall, hexit, hnew⟩
    · exact countsFailure_of_same (failedId_eq_none hid) hunnamed rfl rfl

theorem execCommandEnd_countsFailure {v : Json} (s : CodexScan)
    (houtput : isKind v "response_item" "function_call_output" = false)
    (hend : isKind v "event_msg" "exec_command_end" = true) :
    CountsFailure v s (s.execCommandEnd (recordPayload v)) := by
  have hfailed : failedId v = some (callIdOf v) ↔ callIdOf v ≠ [] ∧
      (CodexScan.exitNumber (recordPayload v)).any (· ≠ .finite 0) = true := by
    simp [failedId, failedOutput, failedEnd, houtput, hend, and_comm]
  have hunnamed : failedUnnamed v = true ↔ callIdOf v = [] ∧
      (CodexScan.exitNumber (recordPayload v)).any (· ≠ .finite 0) = true := by
    simp [failedUnnamed, failedEnd, hend, and_comm]
  unfold CodexScan.execCommandEnd
  dsimp only
  split
  · rename_i h
    obtain ⟨hexit, hcall⟩ := h
    by_cases hempty : callIdOf v = []
    · -- without an id it is counted, and nothing is kept
      have hid : failedId v = none := failedId_eq_none fun hid => (hfailed.mp hid).1 hempty
      refine ⟨?_, ?_⟩
      · rw [hid]
        exact if_pos hempty
      · rw [hunnamed.mpr ⟨hempty, hexit⟩]
        show s.toolFailureCount + 1 + _ = _ + (if callIdOf v = [] then _ else _ : List Units).length + _
        rw [if_pos hempty]
        simp only [if_true]
        omega
    · have hnew : callIdOf v ∉ s.failedCallIds := hcall.resolve_left hempty
      refine countsFailure_of_new (hfailed.mpr ⟨hempty, hexit⟩) ?_ hnew (if_neg hempty) rfl
      exact Bool.eq_false_iff.mpr fun h => hempty (hunnamed.mp h).1
  · rename_i h
    have hnot : failedUnnamed v = false := Bool.eq_false_iff.mpr fun hu =>
      h ⟨(hunnamed.mp hu).2, .inl (hunnamed.mp hu).1⟩
    by_cases hid : failedId v = some (callIdOf v)
    · refine countsFailure_of_known hid hnot ?_
      by_contra hnew
      exact h ⟨(hfailed.mp hid).2, .inr hnew⟩
    · exact countsFailure_of_same (failedId_eq_none hid) hnot rfl rfl

/-- A record that is one of the call, the search or nothing known. -/
theorem countsFailure_of_kind {v : Json} {s s' : CodexScan}
    (houtput : isKind v "response_item" "function_call_output" = false)
    (hend : isKind v "event_msg" "exec_command_end" = false)
    (hids : s'.failedCallIds = s.failedCallIds) (hcount : s'.toolFailureCount = s.toolFailureCount) :
    CountsFailure v s s' := by
  obtain ⟨hid, hunnamed⟩ := not_failed_of_kind houtput hend
  exact countsFailure_of_same hid hunnamed hids hcount

/-- The time of a record is no failure. -/
theorem CountsFailure.of_stamp {v : Json} {s s' : CodexScan} {ts : Option Int}
    (h : CountsFailure v (s.stamped ts) s') : CountsFailure v s s' := by
  refine ⟨h.ids, ?_⟩
  have hcount := h.count
  rw [stamped_failures] at hcount
  exact hcount

theorem payload_countsFailure (s : CodexScan) (v : Json) : CountsFailure v s
    (s.payload host (v.member? "type".toList) (recordPayload v)) := by
  have htypes : units "response_item" ≠ units "event_msg" := by decide
  unfold CodexScan.payload
  dsimp only
  split
  · rename_i h
    rw [Bool.and_eq_true] at h
    refine countsFailure_of_kind ?_ ?_ rfl ?_
    · rw [isKind, isText_eq_false h.2 (by decide), Bool.and_false]
    · rw [isKind, isText_eq_false h.1 htypes, Bool.false_and]
    · simp only [CodexScan.functionCall, callSignals_failures, countBash_failures]
  split
  · rename_i h
    rw [Bool.and_eq_true] at h
    refine countsFailure_of_kind ?_ ?_ rfl ?_
    · rw [isKind, isText_eq_false h.2 (by decide), Bool.and_false]
    · rw [isKind, isText_eq_false h.1 htypes, Bool.false_and]
    · simp only [CodexScan.webSearchCall]
      cases textOf? ((recordPayload v).member? "query".toList) with
      | none => rfl
      | some query => exact addQuery_failures _ _
  split
  · rename_i h
    refine functionCallOutput_countsFailure s h ?_
    rw [Bool.and_eq_true] at h
    rw [isKind, isText_eq_false h.1 htypes, Bool.false_and]
  split
  · rename_i houtput h
    exact execCommandEnd_countsFailure s (Bool.eq_false_iff.mpr houtput) h
  · rename_i houtput hend
    exact countsFailure_of_kind (Bool.eq_false_iff.mpr houtput) (Bool.eq_false_iff.mpr hend) rfl rfl

theorem next_countsFailure (host : TranscriptHost) (s : CodexScan) (v : Json) :
    CountsFailure v s (s.next host v) := by
  by_cases h : ∃ members, v.member? "payload".toList = some (.object members)
  · obtain ⟨members, hpayload⟩ := h
    have hrecord : recordPayload v = .object members := by rw [recordPayload, hpayload]; rfl
    rw [s.next_of_record host hpayload, ← hrecord]
    exact (payload_countsFailure _ v).of_stamp
  · have hnot : ∀ members, v.member? "payload".toList ≠ some (.object members) :=
      fun members heq => h ⟨members, heq⟩
    have hrecord : recordPayload v = .object [] := by
      unfold recordPayload recordOr
      split
      · rename_i members heq
        exact absurd heq (hnot members)
      · rfl
    have hkind : ∀ type kind, isKind v type kind = false := by
      intro type kind
      rw [isKind, hrecord]
      exact Bool.and_false _
    rw [s.next_of_no_record host hnot]
    exact countsFailure_of_kind (hkind _ _) (hkind _ _) rfl (stamped_failures _ _)

/-! ## All records -/

/-- The failures of the records that were read. -/
structure Counted (vs : List Json) (s : CodexScan) : Prop where
  nodup : s.failedCallIds.Nodup
  ids : ∀ id, id ∈ s.failedCallIds ↔ id ∈ vs.filterMap failedId
  count : s.toolFailureCount = s.failedCallIds.length + (vs.filter failedUnnamed).length

theorem Counted.next {vs : List Json} {s : CodexScan} (h : Counted vs s) (v : Json) :
    Counted (vs ++ [v]) (s.next host v) := by
  obtain ⟨hids, hcount⟩ := next_countsFailure host s v
  have hunnamed : ((vs ++ [v]).filter failedUnnamed).length =
      (vs.filter failedUnnamed).length + if failedUnnamed v then 1 else 0 := by
    rw [List.filter_append, List.length_append]
    by_cases hv : failedUnnamed v = true
    · rw [List.filter_cons_of_pos hv, if_pos hv]
      rfl
    · rw [List.filter_cons_of_neg hv, if_neg hv]
      rfl
  have hcounted : (s.next host v).toolFailureCount =
      (s.next host v).failedCallIds.length + ((vs ++ [v]).filter failedUnnamed).length := by
    have := h.count
    omega
  cases hid : failedId v with
  | none =>
      rw [hid] at hids
      refine ⟨by rw [hids]; exact h.nodup, fun id => ?_, hcounted⟩
      rw [hids, List.filterMap_append, List.filterMap_cons_none hid, List.filterMap_nil,
        List.append_nil]
      exact h.ids id
  | some new =>
      rw [hid] at hids
      dsimp only at hids
      have hlast : ∀ id, id ∈ (vs ++ [v]).filterMap failedId ↔ id ∈ s.failedCallIds ∨ id = new := by
        intro id
        rw [List.filterMap_append, List.filterMap_cons_some hid, List.mem_append, h.ids]
        simp
      by_cases hknown : new ∈ s.failedCallIds
      · rw [if_pos hknown] at hids
        refine ⟨by rw [hids]; exact h.nodup, fun id => ?_, hcounted⟩
        rw [hids, hlast]
        exact ⟨.inl, fun hmem => hmem.elim (fun hmem => hmem) fun heq => heq ▸ hknown⟩
      · rw [if_neg hknown] at hids
        refine ⟨?_, fun id => ?_, hcounted⟩
        · rw [hids, List.nodup_append]
          refine ⟨h.nodup, List.nodup_singleton _, fun a ha b hb hab => hknown ?_⟩
          rw [← List.mem_singleton.mp hb, ← hab]
          exact ha
        · rw [hids, hlast, List.mem_append, List.mem_singleton]

theorem counted_foldl (host : TranscriptHost) (vs : List Json) :
    Counted vs (vs.foldl (CodexScan.next host) {}) := by
  induction vs using List.reverseRecOn with
  | nil => exact ⟨List.nodup_nil, fun id => by simp, rfl⟩
  | append_singleton vs v ih =>
      rw [List.foldl_append]
      exact ih.next v

/-! ## All lines -/

variable (host)

def transcriptLines (content : Bytes) : List Text := (decodeUtf8 content).splitOn '\n'

/-- The values of some lines, of those that have one. -/
def valuesOf (lines : List Text) : List Json := lines.filterMap (parseJson host.round)

/-- The failures that some values tell of: each id once, and each command without an id. -/
def failuresOf (vs : List Json) : Nat :=
  (vs.filterMap failedId).toFinset.card + (vs.filter failedUnnamed).length

/-- A line that is a record with the id of a call. -/
def carriesId (line : Text) : Bool :=
  match parseJson host.round line with
  | some v => callIdOf v ≠ []
  | none => false

/-- The count that the reader returns. -/
def codexFailureCount (content : Bytes) : Option Nat :=
  match readCodexSessionSignals host (some content) with
  | .ok (some signals) => some signals.toolFailureCount
  | _ => none

variable {host}

/-- Lines that are objects, or empty, are read one after the other. -/
theorem foldlM_records {lines : List Text}
    (h : ∀ line ∈ lines, line = [] ∨ isRecordLine host.round line = true) :
    ∀ s, lines.foldlM (readLine host.round (codexRecord host)) s =
      .ok ((valuesOf host lines).foldl (CodexScan.next host) s) := by
  induction lines with
  | nil => exact fun s => rfl
  | cons line lines ih =>
      intro s
      have hrest := ih fun l hl => h l (List.mem_cons_of_mem _ hl)
      rw [List.foldlM_cons, readLine_eq]
      rcases h line List.mem_cons_self with rfl | hrecord
      · exact hrest s
      · unfold isRecordLine at hrecord
        cases hparse : parseJson host.round line with
        | none => rw [hparse] at hrecord; cases hrecord
        | some v =>
            have hnull : v ≠ .null := by
              rintro rfl
              rw [hparse] at hrecord
              cases hrecord
            have hvalues : valuesOf host (line :: lines) = v :: valuesOf host lines :=
              List.filterMap_cons_some hparse
            rw [hvalues, List.foldl_cons]
            dsimp only
            rw [codexRecord_of_ne_null host s hnull]
            exact hrest _

theorem codexFailureCount_eq {content : Bytes} (h : ∀ line ∈ transcriptLines content,
    line = [] ∨ isRecordLine host.round line = true) :
    codexFailureCount host content = some (failuresOf (valuesOf host (transcriptLines content))) := by
  have hread : readLines host.round (codexRecord host) {} (decodeUtf8 content) =
      .ok ((valuesOf host (transcriptLines content)).foldl (CodexScan.next host) {}) :=
    foldlM_records h {}
  have hcounted := counted_foldl host (valuesOf host (transcriptLines content))
  generalize (valuesOf host (transcriptLines content)).foldl (CodexScan.next host) {} = s
    at hread hcounted
  have hset : s.failedCallIds.toFinset =
      ((valuesOf host (transcriptLines content)).filterMap failedId).toFinset := by
    ext id
    rw [List.mem_toFinset, List.mem_toFinset, hcounted.ids]
  have hcount : s.bashSeen.toolFailureCount = failuresOf (valuesOf host (transcriptLines content)) := by
    rw [bashSeen_failures, hcounted.count, failuresOf, ← hset,
      List.toFinset_card_of_nodup hcounted.nodup]
  rw [codexFailureCount, readCodexSessionSignals, hread]
  exact congrArg some hcount

/-! ## The order and the number of lines -/

theorem failuresOf_perm {vs vs' : List Json} (h : vs'.Perm vs) : failuresOf vs' = failuresOf vs := by
  rw [failuresOf, failuresOf, List.toFinset_eq_of_perm _ _ (h.filterMap failedId),
    (h.filter failedUnnamed).length_eq]

/-- A record with the id of a call counts once. -/
theorem failuresOf_repeat {vs : List Json} {v : Json} (hv : v ∈ vs) (hid : callIdOf v ≠ []) :
    failuresOf (v :: vs) = failuresOf vs := by
  have hunnamed : failedUnnamed v = false := by simp [failedUnnamed, hid]
  have hset : ((v :: vs).filterMap failedId).toFinset = (vs.filterMap failedId).toFinset := by
    cases hfailed : failedId v with
    | none => rw [List.filterMap_cons_none hfailed]
    | some id =>
        rw [List.filterMap_cons_some hfailed, List.toFinset_cons]
        refine Finset.insert_eq_self.mpr (List.mem_toFinset.mpr ?_)
        exact List.mem_filterMap.mpr ⟨v, hv, hfailed⟩
  rw [failuresOf, failuresOf, hset, List.filter_cons_of_neg (by rw [hunnamed]; simp)]

/-- Lines that the reader takes. -/
def AllRecords (host : TranscriptHost) (content : Bytes) : Prop :=
  ∀ line ∈ transcriptLines content, line = [] ∨ isRecordLine host.round line = true

theorem AllRecords.of_subset {content content' : Bytes} (h : AllRecords host content)
    (hsub : transcriptLines content' ⊆ transcriptLines content) : AllRecords host content' :=
  fun line hline => h line (hsub hline)

/--
**A call that fails counts once.** The count is the number of the ids of failures and of the failures
without an id, whatever the order of the lines, and however often a line with an id stands there.
-/
theorem codex_failures_count_once (host : TranscriptHost) (content : Bytes)
    (h : AllRecords host content) :
    codexFailureCount host content = some (failuresOf (valuesOf host (transcriptLines content))) ∧
      (∀ content', (transcriptLines content').Perm (transcriptLines content) →
        codexFailureCount host content' = codexFailureCount host content) ∧
      ∀ content' line, line ∈ transcriptLines content → carriesId host line = true →
        (transcriptLines content').Perm (line :: transcriptLines content) →
          codexFailureCount host content' = codexFailureCount host content := by
  refine ⟨codexFailureCount_eq h, fun content' hperm => ?_, fun content' line hline hid hperm => ?_⟩
  · rw [codexFailureCount_eq h, codexFailureCount_eq (h.of_subset hperm.subset)]
    exact congrArg some (failuresOf_perm (hperm.filterMap _))
  · have hsub : transcriptLines content' ⊆ transcriptLines content := fun l hl =>
      (List.mem_cons.mp (hperm.subset hl)).elim (fun heq => heq ▸ hline) fun hmem => hmem
    rw [codexFailureCount_eq h, codexFailureCount_eq (h.of_subset hsub)]
    refine congrArg some ((failuresOf_perm (hperm.filterMap _)).trans ?_)
    unfold carriesId at hid
    cases hparse : parseJson host.round line with
    | none => rw [hparse] at hid; cases hid
    | some v =>
        rw [hparse] at hid
        rw [List.filterMap_cons_some hparse]
        exact failuresOf_repeat (List.mem_filterMap.mpr ⟨line, hline, hparse⟩) (by simpa using hid)

/-- A failure that two records tell of, and one without an id. -/
def toldTwice : Text :=
  "\x7b\"type\":\"event_msg\",\"payload\":\x7b\"type\":\"exec_command_end\",\"call_id\":\"a\",\"exit_code\":1\x7d\x7d\n".toList ++
  "\x7b\"type\":\"response_item\",\"payload\":\x7b\"type\":\"function_call_output\",\"call_id\":\"a\",".toList ++
  "\"output\":\"Process exited with code 1\"\x7d\x7d\n".toList ++
  "\x7b\"type\":\"event_msg\",\"payload\":\x7b\"type\":\"exec_command_end\",\"exit_code\":1\x7d\x7d\n".toList

/-- The lines of a text are read, and tell of two failures. -/
def TellsOfTwo (t : Text) : Prop :=
  (∀ line ∈ t.splitOn '\n', line = [] ∨ isRecordLine plainHost.round line = true) ∧
    some (failuresOf (valuesOf plainHost (t.splitOn '\n'))) = some 2

instance (t : Text) : Decidable (TellsOfTwo t) := inferInstanceAs (Decidable (_ ∧ _))

theorem tellsOfTwo_ofList {a b c d : List Char} (h : TellsOfTwo (a ++ b ++ c ++ d)) :
    TellsOfTwo ((String.ofList a).toList ++ (String.ofList b).toList ++ (String.ofList c).toList ++
      (String.ofList d).toList) := by
  rw [String.toList_ofList, String.toList_ofList, String.toList_ofList, String.toList_ofList]
  exact h

/-- The literals are taken as lists of characters: `String.toList` decodes their bytes one by one. -/
theorem tellsOfTwo_toldTwice : TellsOfTwo toldTwice := tellsOfTwo_ofList (by decide +kernel)

theorem codex_failures_count_once_told_twice :
    codexFailureCount plainHost (encodeUtf8 toldTwice) = some 2 := by
  have hlines : transcriptLines (encodeUtf8 toldTwice) = toldTwice.splitOn '\n' := by
    rw [transcriptLines, decodeUtf8_encodeUtf8]
  have h : AllRecords plainHost (encodeUtf8 toldTwice) := by
    rw [AllRecords, hlines]
    exact tellsOfTwo_toldTwice.1
  rw [(codex_failures_count_once plainHost _ h).1, hlines]
  exact tellsOfTwo_toldTwice.2

end Caveat.Hooks
