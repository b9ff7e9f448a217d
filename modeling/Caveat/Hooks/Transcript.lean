import Caveat.Hooks.Reminder
import Caveat.Js.Decoder
import Caveat.Js.Stringify
import Caveat.Lib.Separated

/-!
# Transcripts

A transcript is a file of JSON values, one on a line, that another program writes and may tear. A
reader goes through its lines and passes over what it cannot parse. The value `null` parses, and has
no properties to read.
-/

namespace Caveat.Hooks

open Js

/-! ## Values -/

/-- What a reader throws. -/
inductive ScriptError where
  /-- A `TypeError`: `Cannot read properties of null`. -/
  | nullProperty (key : Text)
deriving DecidableEq

/-- `value.key`. -/
def property (value : Json) (key : Text) : Except ScriptError (Option Json) :=
  match value with
  | .null => .error (.nullProperty key)
  | v => .ok (v.member? key)

/-- The string, of a value that is one. -/
def textOf? : Option Json → Option Units
  | some (.string s) => some s
  | _ => none

/-- `typeof v === 'string' ? v : ''`. -/
def textOr (v : Option Json) : Units := (textOf? v).getD []

/-- `v === text`. -/
def isText (v : Option Json) (text : String) : Bool := textOf? v = some (units text)

/-- `isRecord(v) ? v : {}`. -/
def recordOr (v : Option Json) : Json :=
  match v with
  | some (.object members) => .object members
  | _ => .object []

/-- `v ?? other`. -/
def nullish (v other : Option Json) : Option Json :=
  match v with
  | none | some .null => other
  | v => v

/-- Nothing is read of a value that is no object. -/
theorem member?_of_not_object {v : Json} (h : ∀ members, v ≠ .object members) (key : Text) :
    v.member? key = none := by
  cases v with
  | object members => exact absurd rfl (h members)
  | null => rfl
  | bool b => rfl
  | number n => rfl
  | string s => rfl
  | array items => rfl

theorem property_of_ne_null {v : Json} (h : v ≠ .null) (key : Text) :
    property v key = .ok (v.member? key) := by
  cases v with
  | null => exact absurd rfl h
  | object members => rfl
  | bool b => rfl
  | number n => rfl
  | string s => rfl
  | array items => rfl

/-! ## Counts and texts -/

/-- `counts.set(key, (counts.get(key) ?? 0) + 1)`. -/
def countUp (counts : List (Units × Nat)) (key : Units) : List (Units × Nat) :=
  define counts (key, (counts.lookup key).getD 0 + 1)

def maxErrorSnippets : Nat := 10
def maxErrorSnippetLength : Nat := 300
def maxSearchQueries : Nat := 10
def maxSearchQueryLength : Nat := 200
def maxFileEditEntries : Nat := 20

/-- The signals with the error snippets. -/
structure TranscriptSignals extends SessionSignals where
  errorSnippets : List Units

/-- What reading a transcript depends on. -/
structure TranscriptHost where
  /-- The double of a decimal number. -/
  round : Rat → JsNumber
  /-- `Date.parse`, where it is a number. -/
  dateParse : Units → Option Int
  /-- `Math.max(0, Math.round(ms / 60000))`. -/
  minutes : Int → Nat

/-- A host that knows no dates. -/
def plainHost : TranscriptHost :=
  { round := .finite, dateParse := fun _ => none, minutes := fun ms => ((ms + 30000) / 60000).toNat }

/-- `parseTimestamp`. -/
def parseTimestamp (host : TranscriptHost) (raw : Option Json) : Option Int := (textOf? raw).bind host.dateParse

/-- The loop variables that both readers have. -/
structure SignalScan where
  editCounts : List (Units × Nat) := []
  bashCounts : List (Units × Nat) := []
  errorSnippets : List Units := []
  searchQueries : List Units := []
  toolFailureCount : Nat := 0
  webSearchCount : Nat := 0
  webFetchCount : Nat := 0
  firstTs : Option Int := none
  lastTs : Option Int := none

namespace SignalScan

def countBash (s : SignalScan) (command : Units) : SignalScan :=
  if command = [] then s else { s with bashCounts := countUp s.bashCounts command }

/-- `addEditPath`. -/
def addEditPath (s : SignalScan) (path : Units) : SignalScan :=
  if path = [] then s else { s with editCounts := countUp s.editCounts path }

/-- `addQuery`. -/
def addQuery (s : SignalScan) (query : Units) : SignalScan :=
  if maxSearchQueries ≤ s.searchQueries.length then s
  else { s with searchQueries := s.searchQueries ++ [query.take maxSearchQueryLength] }

/-- A failure, with its text on one line. -/
def addFailure (s : SignalScan) (output : Units) : SignalScan :=
  let text := trimUnits (collapseSpace output)
  { s with
    toolFailureCount := s.toolFailureCount + 1
    errorSnippets :=
      if text ≠ [] ∧ s.errorSnippets.length < maxErrorSnippets then
        s.errorSnippets ++ [text.take maxErrorSnippetLength]
      else s.errorSnippets }

/-- The first and the last time of a record. -/
def stamp (s : SignalScan) (ts : Option Int) : SignalScan :=
  match ts with
  | none => s
  | some ts =>
      { s with
        firstTs := if s.firstTs.all (fun first => ts < first) then some ts else s.firstTs
        lastTs := if s.lastTs.all (fun last => last < ts) then some ts else s.lastTs }

/-- What both readers return at the end. -/
def signals (host : TranscriptHost) (s : SignalScan) : TranscriptSignals :=
  { toolFailureCount := s.toolFailureCount
    fileEditCounts := (((s.editCounts.filter (fun e => 1 < e.2)).map
      (fun e => { path := e.1, count := e.2 : FileEditCount })).insertionSort
        (fun a b => b.count ≤ a.count)).take maxFileEditEntries
    webSearchCount := s.webSearchCount
    webFetchCount := s.webFetchCount
    bashRetryCount := (s.bashCounts.filter (fun e => 1 < e.2)).length
    durationMinutes :=
      match s.firstTs, s.lastTs with
      | some first, some last => host.minutes (last - first)
      | _, _ => 0
    searchQueries := s.searchQueries
    errorSnippets := s.errorSnippets }

end SignalScan

/-! ## Lines -/

section

variable {σ : Type} (round : Rat → JsNumber) (step : σ → Json → Except ScriptError σ)

/-- The body of the loop over the lines. -/
def readLine (s : σ) (line : Text) : Except ScriptError σ :=
  if line.isEmpty then .ok s
  else
    match parseJson round line with
    | some parsed => step s parsed
    | none => .ok s

/-- The loop over `raw.split('\n')`. -/
def readLines (init : σ) (raw : Text) : Except ScriptError σ :=
  (raw.splitOn '\n').foldlM (readLine round step) init

/-- A line that is an object. -/
def isRecordLine (line : Text) : Bool :=
  match parseJson round line with
  | some (.object _) => true
  | _ => false

/-- The transcript with every line removed that is not an object. -/
def recordLines (raw : Text) : Text :=
  ['\n'].intercalate ((raw.splitOn '\n').filter (isRecordLine round))

/-- A line that is `null`. -/
def isNullLine (line : Text) : Bool :=
  match parseJson round line with
  | some .null => true
  | _ => false

end

/-- A reader's step takes every object, passes over any other value, and throws at `null`. -/
structure ReadsRecords {σ : Type} (step : σ → Json → Except ScriptError σ) : Prop where
  record : ∀ s members, ∃ s', step s (.object members) = .ok s'
  other : ∀ s v, v ≠ .null → (∀ members, v ≠ .object members) → step s v = .ok s
  null : ∀ s, ∃ e, step s .null = .error e

variable {σ : Type} {round : Rat → JsNumber} {step : σ → Json → Except ScriptError σ}

theorem parseJson_nil : parseJson round [] = none := rfl

theorem readLine_eq (s : σ) (line : Text) : readLine round step s line =
    match parseJson round line with
    | some parsed => step s parsed
    | none => .ok s := by
  rw [readLine]
  cases line with
  | nil => rfl
  | cons c line => rfl

theorem readLine_of_not_record (hstep : ReadsRecords step) (s : σ) {line : Text}
    (hnull : isNullLine round line = false) (hrecord : isRecordLine round line = false) :
    readLine round step s line = .ok s := by
  rw [readLine_eq]
  unfold isNullLine at hnull
  unfold isRecordLine at hrecord
  cases hparse : parseJson round line with
  | none => rfl
  | some v =>
      rw [hparse] at hnull hrecord
      refine hstep.other s v ?_ ?_
      · rintro rfl
        cases hnull
      · rintro members rfl
        cases hrecord

theorem readLine_of_record (hstep : ReadsRecords step) (s : σ) {line : Text}
    (hrecord : isRecordLine round line = true) : ∃ s', readLine round step s line = .ok s' := by
  rw [readLine_eq]
  unfold isRecordLine at hrecord
  cases hparse : parseJson round line with
  | none => rw [hparse] at hrecord; cases hrecord
  | some v =>
      rw [hparse] at hrecord
      cases v with
      | object members => exact hstep.record s members
      | null => cases hrecord
      | bool b => cases hrecord
      | number n => cases hrecord
      | string t => cases hrecord
      | array items => cases hrecord

theorem readLine_of_null (hstep : ReadsRecords step) (s : σ) {line : Text}
    (hnull : isNullLine round line = true) : ∃ e, readLine round step s line = .error e := by
  rw [readLine_eq]
  unfold isNullLine at hnull
  cases hparse : parseJson round line with
  | none => rw [hparse] at hnull; cases hnull
  | some v =>
      rw [hparse] at hnull
      cases v with
      | null => exact hstep.null s
      | object members => cases hnull
      | bool b => cases hnull
      | number n => cases hnull
      | string t => cases hnull
      | array items => cases hnull

/-- Lines of which none is `null` are read like the objects among them. -/
theorem foldlM_filter_records (hstep : ReadsRecords step) {lines : List Text}
    (hnull : ∀ line ∈ lines, isNullLine round line = false) : ∀ s, ∃ s',
      lines.foldlM (readLine round step) s = .ok s' ∧
        (lines.filter (isRecordLine round)).foldlM (readLine round step) s = .ok s' := by
  induction lines with
  | nil => exact fun s => ⟨s, rfl, rfl⟩
  | cons line lines ih =>
      intro s
      have hrest := ih fun l hl => hnull l (List.mem_cons_of_mem _ hl)
      by_cases hrecord : isRecordLine round line = true
      · obtain ⟨s₁, hs₁⟩ := readLine_of_record hstep s hrecord
        obtain ⟨s', hs', hfiltered⟩ := hrest s₁
        refine ⟨s', ?_, ?_⟩
        · rw [List.foldlM_cons, hs₁]
          exact hs'
        · rw [List.filter_cons_of_pos hrecord, List.foldlM_cons, hs₁]
          exact hfiltered
      · have hskip := readLine_of_not_record hstep s (hnull line List.mem_cons_self)
          (Bool.eq_false_iff.mpr hrecord)
        obtain ⟨s', hs', hfiltered⟩ := hrest s
        refine ⟨s', ?_, ?_⟩
        · rw [List.foldlM_cons, hskip]
          exact hs'
        · rw [List.filter_cons_of_neg hrecord]
          exact hfiltered

/-- A line that is `null` ends the reading, wherever it stands. -/
theorem foldlM_null (hstep : ReadsRecords step) {lines : List Text} {line : Text}
    (hline : line ∈ lines) (hnull : isNullLine round line = true) :
    ∀ s, ∃ e, lines.foldlM (readLine round step) s = .error e := by
  induction lines with
  | nil => exact absurd hline List.not_mem_nil
  | cons l lines ih =>
      intro s
      rw [List.foldlM_cons]
      rcases List.mem_cons.mp hline with rfl | hline
      · obtain ⟨e, he⟩ := readLine_of_null hstep s hnull
        exact ⟨e, by rw [he]; rfl⟩
      · cases hread : readLine round step s l with
        | error e => exact ⟨e, rfl⟩
        | ok s' => exact ih hline s'

/-- An empty line is passed over, and no other line is lost. -/
theorem readLines_recordLines (init : σ) (raw : Text) :
    readLines round step init (recordLines round raw) =
      ((raw.splitOn '\n').filter (isRecordLine round)).foldlM (readLine round step) init := by
  rw [readLines, recordLines]
  by_cases hnil : (raw.splitOn '\n').filter (isRecordLine round) = []
  · rw [hnil]
    rfl
  · rw [List.splitOn_intercalate '\n' ?_ hnil]
    intro line hline hmem
    exact (Lib.mem_of_mem_splitOn line (List.mem_filter.mp hline).1 _ hmem).2 rfl

/-- **A reader ignores what is no object where no line is `null`.** -/
theorem readLines_recordLines_iff (round : Rat → JsNumber) (hstep : ReadsRecords step) (init : σ)
    (raw : Text) :
    (∃ s, readLines round step init raw = .ok s ∧
      readLines round step init (recordLines round raw) = .ok s) ↔
      ∀ line ∈ raw.splitOn '\n', isNullLine round line = false := by
  rw [readLines_recordLines]
  constructor
  · rintro ⟨s, hread, _⟩ line hline
    by_contra hnull
    obtain ⟨e, he⟩ := foldlM_null hstep hline (by simpa using hnull) init
    rw [readLines, he] at hread
    cases hread
  · intro hnull
    exact foldlM_filter_records hstep hnull init

end Caveat.Hooks
