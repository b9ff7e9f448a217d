import Caveat.Hooks.ClaudeSignals
import Caveat.Hooks.CodexSignals

/-!
# What the readers of transcripts ignore

Both readers go through the lines in one way, and their steps take every object. A line that is no
JSON, or another value than an object, changes nothing, but `null` is read like an object and throws.
-/

namespace Caveat.Hooks

open Js

variable (host : TranscriptHost)

/-- A transcript is read, and gives what is left of it when only its objects are kept. -/
def IgnoresUnusable (read : Option Bytes → Except ScriptError (Option TranscriptSignals))
    (content : Bytes) : Prop :=
  ∃ signals, read (some content) = .ok (some signals) ∧
    read (some (encodeUtf8 (recordLines host.round (decodeUtf8 content)))) = .ok (some signals)

/-- Some line of a transcript is `null`. -/
def HasNullLine (content : Bytes) : Prop :=
  ∃ line ∈ (decodeUtf8 content).splitOn '\n', isNullLine host.round line = true

variable {host} {σ : Type} {step : σ → Json → Except ScriptError σ}

/-- A reader that goes through the lines with a step for records. -/
theorem ignoresUnusable_iff (hstep : ReadsRecords step) (init : σ) (finish : σ → TranscriptSignals)
    {read : Option Bytes → Except ScriptError (Option TranscriptSignals)}
    (hread : ∀ bytes, read (some bytes) =
      (readLines host.round step init (decodeUtf8 bytes)).map (fun s => some (finish s)))
    (content : Bytes) : IgnoresUnusable host read content ↔ ¬ HasNullLine host content := by
  have hlines := readLines_recordLines_iff host.round hstep init (decodeUtf8 content)
  have hnull : ¬ HasNullLine host content ↔
      ∀ line ∈ (decodeUtf8 content).splitOn '\n', isNullLine host.round line = false := by
    simp [HasNullLine]
  rw [hnull, ← hlines, IgnoresUnusable]
  simp only [hread, decodeUtf8_encodeUtf8]
  constructor
  · rintro ⟨signals, hwhole, _⟩
    -- a line that is `null` would have ended the reading
    refine hlines.mpr fun line hline => ?_
    by_contra hline'
    obtain ⟨e, he⟩ := foldlM_null hstep hline (by simpa using hline') init
    have hstopped : readLines host.round step init (decodeUtf8 content) = .error e := he
    rw [hstopped] at hwhole
    cases hwhole
  · rintro ⟨s, hwhole, hkept⟩
    exact ⟨finish s, by rw [hwhole]; rfl, by rw [hkept]; rfl⟩

/-- **Both readers ignore what they cannot use**, unless a line is `null`. -/
theorem readers_ignore_unusable_iff (host : TranscriptHost) (content : Bytes) :
    (IgnoresUnusable host (readSessionSignals host) content ↔ ¬ HasNullLine host content) ∧
      (IgnoresUnusable host (readCodexSessionSignals host) content ↔ ¬ HasNullLine host content) := by
  refine ⟨ignoresUnusable_iff (claudeRecord_reads host) {} (fun s => s.signals host) ?_ content,
    ignoresUnusable_iff (codexRecord_reads host) {} (fun s => s.bashSeen.signals host) ?_ content⟩
  · intro bytes
    simp only [readSessionSignals]
    cases readLines host.round (claudeRecord host) {} (decodeUtf8 bytes) <;> rfl
  · intro bytes
    simp only [readCodexSessionSignals]
    cases readLines host.round (codexRecord host) {} (decodeUtf8 bytes) <;> rfl

/-- A transcript of one line, `null`, throws in both readers. -/
theorem null_line_throws :
    readSessionSignals plainHost (some (encodeUtf8 "null\n".toList)) =
        .error (.nullProperty "timestamp".toList) ∧
      readCodexSessionSignals plainHost (some (encodeUtf8 "null\n".toList)) =
        .error (.nullProperty "timestamp".toList) ∧
      ¬ IgnoresUnusable plainHost (readSessionSignals plainHost) (encodeUtf8 "null\n".toList) ∧
      ¬ IgnoresUnusable plainHost (readCodexSessionSignals plainHost)
        (encodeUtf8 "null\n".toList) := by
  have hclaude : readSessionSignals plainHost (some (encodeUtf8 "null\n".toList)) =
      .error (.nullProperty "timestamp".toList) := by
    rw [readSessionSignals, decodeUtf8_encodeUtf8]
    rfl
  have hcodex : readCodexSessionSignals plainHost (some (encodeUtf8 "null\n".toList)) =
      .error (.nullProperty "timestamp".toList) := by
    rw [readCodexSessionSignals, decodeUtf8_encodeUtf8]
    rfl
  refine ⟨hclaude, hcodex, ?_, ?_⟩
  · rintro ⟨signals, h, _⟩
    rw [hclaude] at h
    cases h
  · rintro ⟨signals, h, _⟩
    rw [hcodex] at h
    cases h

end Caveat.Hooks
