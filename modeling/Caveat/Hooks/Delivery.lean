import Caveat.Hooks.Reminder

/-!
# What a hook delivers in a session

A hook remembers what a session has been shown: the references of hits, and kinds of signals. From the
texts that it is to show it takes the lines that read as hits, and keeps those that are new.
-/

namespace Caveat.Hooks

open Js
open Publish (isSpaceUnit isDigitUnit)

structure DeliveredState where
  ids : List Units
  signals : List Units
deriving DecidableEq

/-- `{ ids: [], signals: [] }`, where there is no file. -/
def DeliveredState.empty : DeliveredState := ⟨[], []⟩

/-- A line that reads as a hit. -/
structure Hit where
  id : Units
  source : Units
  title : Units
deriving DecidableEq

/-- `${source}/${id}`. -/
def refOf (source id : Units) : Units := source ++ unitOf '/' :: id

def Hit.ref (h : Hit) : Units := refOf h.source h.id

def Hit.line (h : Hit) : Units := h.id ++ units " (" ++ h.source ++ units ") — " ++ h.title

/-- What follows a literal part of a pattern. -/
def after (part : Units) (s : Units) : Option Units :=
  if part.isPrefixOf s then some (s.drop part.length) else none

/-- What a repeated class takes, and what follows. It takes as much as it can, and at least one. -/
def takeSome (p : UInt16 → Bool) (s : Units) : Option (Units × Units) :=
  if s.takeWhile p = [] then none else some (s.takeWhile p, s.dropWhile p)

def isLineEnd (u : UInt16) : Bool :=
  u = unitOf '\n' || u = unitOf '\r' || u = 0x2028 || u = 0x2029

/--
`/^\d+\. ([^\s]+) \(([^)]+)\) — (.+)$/u`. No class of the pattern holds what comes behind it, so each
takes all that it can.
-/
def readHit (line : Units) : Option Hit := do
  let (_, rest) ← takeSome isDigitUnit line
  let rest ← after (units ". ") rest
  let (id, rest) ← takeSome (fun u => !isSpaceUnit u) rest
  let rest ← after (units " (") rest
  let (source, rest) ← takeSome (· ≠ unitOf ')') rest
  let rest ← after (units ") — ") rest
  let (title, rest) ← takeSome (fun u => !isLineEnd u) rest
  if rest = [] then some ⟨id, source, title⟩ else none

/-- An entry of `SIGNAL_LINES`. -/
structure SignalLine where
  start : Units
  kind : Units
  label : Units

def signalPatterns : List SignalLine :=
  [⟨units "- tool failure:", units "tool_failure", units "ツール失敗"⟩,
    ⟨units "- 同一ファイル複数編集:", units "reedit", units "同一ファイルの再編集"⟩,
    ⟨units "- WebSearch:", units "web_search", units "Web検索"⟩,
    ⟨units "- WebFetch:", units "web_fetch", units "Web取得"⟩,
    ⟨units "- 同一 Bash コマンドの再実行:", units "bash_retry", units "同一コマンドの再実行"⟩]

/-- What is known after some lines. -/
structure Scan where
  seenIds : List Units
  seenSignals : List Units
  /-- The new hits, of which `addedIds` holds the references and `hitLines` the lines. -/
  hits : List Hit
  /-- The new signals, of which `addedSignals` holds the kinds. -/
  signals : List SignalLine
  others : List Units

def Scan.addHit (s : Scan) (h : Hit) : Scan :=
  { s with seenIds := h.ref :: s.seenIds, hits := s.hits ++ [h] }

def Scan.addSignal (line : Units) (s : Scan) (pattern : SignalLine) : Scan :=
  if pattern.start.isPrefixOf line && !s.seenSignals.contains pattern.kind then
    { s with seenSignals := pattern.kind :: s.seenSignals, signals := s.signals ++ [pattern] }
  else s

/-- The kinds of signals that a line of a stop reminder shows. -/
def Scan.addSignals (s : Scan) (isStop : Bool) (line : Units) : Scan :=
  if isStop then signalPatterns.foldl (Scan.addSignal line) s else s

def scanLine (isStop : Bool) (s : Scan) (line : Units) : Scan :=
  match readHit line with
  | some h => if s.seenIds.contains h.ref then s else (s.addHit h).addSignals isStop line
  | none => s.addSignals isStop line

/-- `String.prototype.replaceAll`. -/
def replaceAll (old new : Units) : Nat → Units → Units
  | 0, s => s
  | _ + 1, [] => []
  | fuel + 1, u :: s =>
      if old.isPrefixOf (u :: s) then new ++ replaceAll old new fuel ((u :: s).drop old.length)
      else u :: replaceAll old new fuel s

/-- A text as it is scanned. In a managed installation it names no command. -/
def contextText (managed : Bool) (context : Units) : Units :=
  let text := trimUnits context
  if managed && (units "autosync:").isPrefixOf context then
    replaceAll (units "run \x60caveat sync\x60")
      (units "call the Caveat MCP tool caveat_sync with \x7b\x7d; if unavailable, stop without a PATH command") text.length text
  else text

def scanContext (managed : Bool) (s : Scan) (context : Units) : Scan :=
  let text := contextText managed context
  if text = [] then s
  else
    let lines := text.splitOn (unitOf '\n')
    let isStop := stopReminderHead.isPrefixOf text
    let s := lines.foldl (scanLine isStop) s
    if isStop || lines.any (fun line => (readHit line).isSome) || s.others.contains text then s
    else { s with others := s.others ++ [text] }

def managedDeliveryGuidance : Units :=
  units "Use the registered Caveat MCP tools: caveat_get with id + source for details, caveat_update for corrections/last_verified, caveat_record for a new trap after searching for duplicates. Those write tools update the index. Community entries are read-only; use the tool visibility policy. If unavailable, stop; do not use a PATH command or another context."

/-- The texts that are shown. -/
def Scan.texts (managed : Bool) (s : Scan) : List Units :=
  s.others ++
  (if 0 < s.signals.length then
    [units "[caveat] 新しい苦戦シグナル: " ++ List.intercalate (units "、") (s.signals.map (·.label)) ++
      units "。必要ならCaveatで知見を確認してください。"]
  else []) ++
  (if 0 < s.hits.length then
    [units "[caveat] 新しく該当した罠:\n" ++ joinUnits (s.hits.map (fun h => units "- " ++ h.line)) ++
      units "\n詳細はCaveatで取得し、適用条件を確認してください。"]
  else []) ++
  (if managed && (0 < s.signals.length || 0 < s.hits.length) then [managedDeliveryGuidance] else [])

/-- `PreparedDelivery`: the texts, and what is remembered when they are delivered. -/
structure PreparedDelivery where
  texts : List Units
  hits : List Hit
  addedSignals : List Units
  additionallyDeliveredIds : List Units

def PreparedDelivery.addedIds (p : PreparedDelivery) : List Units := p.hits.map Hit.ref

def prepareSessionDelivery (managed : Bool) (state : DeliveredState) (contexts : List Units)
    (additionallyDeliveredIds : List Units) : PreparedDelivery :=
  let start : Scan := ⟨state.ids ++ additionallyDeliveredIds, state.signals, [], [], []⟩
  let s := contexts.foldl (scanContext managed) start
  ⟨s.texts managed, s.hits, s.signals.map (·.kind), additionallyDeliveredIds⟩

/-- The ids that are remembered. -/
def PreparedDelivery.marks (p : PreparedDelivery) : List Units :=
  p.addedIds ++ p.additionallyDeliveredIds

/-- Nothing is remembered where there is nothing new. -/
def PreparedDelivery.isEmpty (p : PreparedDelivery) : Bool :=
  p.hits = [] && p.addedSignals = [] && p.additionallyDeliveredIds = []

/-- What `delivered` writes, given what it has read. -/
def PreparedDelivery.merge (p : PreparedDelivery) (latest : DeliveredState) : DeliveredState :=
  ⟨(latest.ids ++ p.addedIds ++ p.additionallyDeliveredIds).eraseDups,
    (latest.signals ++ p.addedSignals).eraseDups⟩

end Caveat.Hooks
