import Caveat.Lib.Loop
import Caveat.Proposal.Protocol

/-!
# A completed trial used no tool

What a clean pass has seen of the events so far is an invariant of both loops: each event that does
not set a flag is of one of a few kinds, and each kind keeps it.
-/

namespace Caveat.Proposal

open Js
open Hooks (units textOf?)
open Entry (joinLines)

/-! ## Kinds of events -/

theorem units_inj {a b : String} (h : units a = units b) : a = b :=
  String.toList_injective (unitsOf_inj h)

/-- A value has one type only. -/
theorem isType_of_isType {value : Json} {a : String} (h : isType value a = true) (b : String) :
    isType value b = decide (a = b) := by
  have hvalue : typeOf value = some (units a) := by simpa [isType] using h
  rw [isType, hvalue, decide_eq_decide]
  exact ⟨fun he => units_inj (Option.some.inj he), fun he => by rw [he]⟩

theorem filledAt_eq_some {value : Json} {key : String} {text : Units}
    (h : filledAt value key = some text) : textAt value key = some text ∧ text ≠ [] := by
  obtain ⟨htext, hne⟩ := Option.filter_eq_some_iff.mp h
  exact ⟨htext, by simpa using hne⟩

/-- An event that tells of an item. -/
def isItemEvent (event : Json) : Bool :=
  isType event "item.started" || isType event "item.updated" || isType event "item.completed"

def itemTypeOf (event : Json) : Option Units := (recordAt event "item").bind typeOf

/-- An event that tells of the use of a tool. -/
def isToolItem (event : Json) : Bool := isItemEvent event && (itemTypeOf event).any (· ∈ toolTypes)

/-- An event that tells that a message of the agent is complete. -/
def isMessage (event : Json) : Bool :=
  isType event "item.completed" && itemTypeOf event = some (units "agent_message")

def messageText (event : Json) : Option Units := (recordAt event "item").bind (filledAt · "text")

theorem isItemEvent_of_isType {event : Json} {a : String} (h : isType event a = true) :
    isItemEvent event =
      (decide (a = "item.started") || decide (a = "item.updated") || decide (a = "item.completed")) := by
  rw [isItemEvent, isType_of_isType h, isType_of_isType h, isType_of_isType h]

theorem isType_of_isItemEvent {event : Json} (h : isItemEvent event = true) {b : String}
    (hstarted : "item.started" ≠ b) (hupdated : "item.updated" ≠ b) (hcompleted : "item.completed" ≠ b) :
    isType event b = false := by
  simp only [isItemEvent, Bool.or_eq_true, or_assoc] at h
  rcases h with h | h | h
  · rw [isType_of_isType h, decide_eq_false hstarted]
  · rw [isType_of_isType h, decide_eq_false hupdated]
  · rw [isType_of_isType h, decide_eq_false hcompleted]

/-! ## Codex -/

/-- What the events of a completed trial are like. -/
structure CodexTrial (events : List Json) (output : Option Units) : Prop where
  thread : ∃ first rest, events = first :: rest ∧ isType first "thread.started" = true ∧
    ∀ e ∈ rest, isType e "thread.started" = false
  noTool : ∀ e ∈ events, isToolItem e = false
  started : events.countP (isType · "turn.started") = 1
  completed : ∃ before last, events = before ++ [last] ∧ isType last "turn.completed" = true ∧
    ∀ e ∈ before, isType e "turn.completed" = false
  output : ∃ message text, events.reverse.find? isMessage = some message ∧
    (recordAt message "item").bind (textAt · "text") = some text ∧ text ≠ [] ∧ output = some text

/-- No flag is set. -/
def CodexScan.Clean (s : CodexScan) : Prop := s.invalid = false ∧ s.toolAttempted = false

/-- A thread has started, and its turn is not complete. -/
def CodexScan.Open (s : CodexScan) : Prop := s.providerRunId ≠ none ∧ s.turnCompleted = 0

/-- The events that set no flag, and what they do. -/
inductive CodexScan.Admits (s : CodexScan) (event : Json) : Nat → CodexScan → Prop
  | thread {id : Units} (hno : s.providerRunId = none) (htype : isType event "thread.started" = true) :
      Admits s event 0 { s with providerRunId := some id }
  | started {index : Nat} (hopen : s.Open) (htype : isType event "turn.started" = true) :
      Admits s event index { s with turnStarted := s.turnStarted + 1 }
  | completed {index : Nat} (hopen : s.Open) (htype : isType event "turn.completed" = true) :
      Admits s event index { s with turnCompleted := s.turnCompleted + 1 }
  | message {index : Nat} {text : Units} (hopen : s.Open) (hmessage : isMessage event = true)
      (htext : messageText event = some text) : Admits s event index { s with output := some text }
  | passive {index : Nat} (hopen : s.Open) (hitem : isItemEvent event = true)
      (htool : isToolItem event = false) (hmessage : isMessage event = false) :
      Admits s event index s

theorem not_clean_invalid (s : CodexScan) : ¬ CodexScan.Clean { s with invalid := true } := by
  intro h
  exact Bool.noConfusion h.1

theorem not_clean_tool (s : CodexScan) : ¬ CodexScan.Clean { s with toolAttempted := true } := by
  intro h
  exact Bool.noConfusion h.2

theorem not_mem_toolTypes {t : Units} (h : t ∈ passiveTypes) : t ∉ toolTypes := by
  simp only [passiveTypes, List.mem_cons, List.not_mem_nil, or_false] at h
  rcases h with rfl | rfl | rfl
  · decide
  · decide
  · decide

theorem CodexScan.item_clean {s s' : CodexScan} {event : Json} (index : Nat) (hopen : s.Open)
    (hitem : isItemEvent event = true) (hs : s.item event = s') (h : s'.Clean) :
    s.Clean ∧ s.Admits event index s' := by
  unfold CodexScan.item at hs
  split at hs
  · exact absurd (hs ▸ h) (not_clean_invalid s)
  · rename_i item hrecord
    split at hs
    · exact absurd (hs ▸ h) (not_clean_invalid s)
    · rename_i t ht
      have htype : itemTypeOf event = some t := by rw [itemTypeOf, hrecord]; exact ht
      split at hs
      · exact absurd (hs ▸ h) (not_clean_tool s)
      · rename_i hno
        have htool : isToolItem event = false := by simp [isToolItem, htype, hno]
        split at hs
        · exact absurd (hs ▸ h) (not_clean_invalid s)
        · split at hs
          · rename_i hmessage
            have hm : isMessage event = true := by
              rw [isMessage, htype, hmessage.1, hmessage.2]
              simp
            split at hs
            · exact absurd (hs ▸ h) (not_clean_invalid s)
            · rename_i text hfilled
              subst hs
              refine ⟨h, .message hopen hm ?_⟩
              rw [messageText, hrecord]
              exact hfilled
          · rename_i hmessage
            subst hs
            refine ⟨h, .passive hopen hitem htool ?_⟩
            rw [isMessage, htype]
            simpa using hmessage

/-- An event that leaves the pass clean found it clean, and is one of the admitted ones. -/
theorem CodexScan.next_clean {s s' : CodexScan} {event : Json} {index : Nat}
    (hs : s.next event index = s') (h : s'.Clean) : s.Clean ∧ s.Admits event index s' := by
  unfold CodexScan.next at hs
  split at hs
  · rename_i hthread
    split at hs
    · exact absurd (hs ▸ h) (not_clean_invalid s)
    · split at hs
      · exact absurd (hs ▸ h) (not_clean_invalid s)
      · rename_i hfirst
        rw [not_or, not_not, not_not] at hfirst
        obtain ⟨rfl, hno⟩ := hfirst
        subst hs
        exact ⟨h, .thread hno hthread⟩
  · split at hs
    · exact absurd (hs ▸ h) (not_clean_invalid s)
    · rename_i hopen
      have hopen : s.Open := by
        rw [not_or, Nat.not_lt, Nat.le_zero] at hopen
        exact hopen
      split at hs
      · rename_i htype; subst hs; exact ⟨h, .started hopen htype⟩
      · split at hs
        · rename_i htype; subst hs; exact ⟨h, .completed hopen htype⟩
        · split at hs
          · exact absurd (hs ▸ h) (not_clean_invalid s)
          · split at hs
            · exact absurd (hs ▸ h) (not_clean_invalid s)
            · rename_i hitem
              refine item_clean index hopen ?_ hs h
              rw [not_not] at hitem
              simpa [isItemEvent, or_assoc] using hitem

/-- What a clean pass has seen. -/
structure CodexTrace (events : List Json) (s : CodexScan) : Prop where
  empty : events = [] → s.providerRunId = none
  thread : ∀ first rest, events = first :: rest → isType first "thread.started" = true ∧
    s.providerRunId ≠ none ∧ ∀ e ∈ rest, isType e "thread.started" = false
  noTool : ∀ e ∈ events, isToolItem e = false
  started : events.countP (isType · "turn.started") = s.turnStarted
  completed : s.turnCompleted = 0 ∧ (∀ e ∈ events, isType e "turn.completed" = false) ∨
    s.turnCompleted = 1 ∧ ∃ before last, events = before ++ [last] ∧
      isType last "turn.completed" = true ∧ ∀ e ∈ before, isType e "turn.completed" = false
  output : s.output = (events.reverse.find? isMessage).bind messageText

/-- The first event stays the first, and no other starts a thread. -/
theorem CodexTrace.thread_concat {events : List Json} {s : CodexScan} {event : Json}
    (h : CodexTrace events s) (hopen : s.Open) (htype : isType event "thread.started" = false) :
    ∀ first rest, events ++ [event] = first :: rest → isType first "thread.started" = true ∧
      s.providerRunId ≠ none ∧ ∀ e ∈ rest, isType e "thread.started" = false := by
  intro first rest heq
  cases events with
  | nil => exact absurd (h.empty rfl) hopen.1
  | cons a as =>
      obtain ⟨ha, _, has⟩ := h.thread a as rfl
      cases heq
      refine ⟨ha, hopen.1, fun e he => ?_⟩
      rcases List.mem_append.mp he with he | he
      · exact has e he
      · rw [List.mem_singleton.mp he]
        exact htype

/-- No event so far completes the turn, and neither does the next one. -/
theorem CodexTrace.completed_concat {events : List Json} {s : CodexScan} {event : Json}
    (h : CodexTrace events s) (hopen : s.Open) (htype : isType event "turn.completed" = false) :
    ∀ e ∈ events ++ [event], isType e "turn.completed" = false := by
  intro e he
  have hnone : ∀ e ∈ events, isType e "turn.completed" = false := by
    rcases h.completed with ⟨_, hall⟩ | ⟨hone, _⟩
    · exact hall
    · rw [hopen.2] at hone
      cases hone
  rcases List.mem_append.mp he with he | he
  · exact hnone e he
  · rw [List.mem_singleton.mp he]
    exact htype

theorem CodexTrace.noTool_concat {events : List Json} {s : CodexScan} {event : Json}
    (h : CodexTrace events s) (htool : isToolItem event = false) :
    ∀ e ∈ events ++ [event], isToolItem e = false := by
  intro e he
  rcases List.mem_append.mp he with he | he
  · exact h.noTool e he
  · rw [List.mem_singleton.mp he]
    exact htool

theorem isToolItem_of_isType {event : Json} {a : String} (h : isType event a = true)
    (hstarted : a ≠ "item.started") (hupdated : a ≠ "item.updated") (hcompleted : a ≠ "item.completed") :
    isToolItem event = false := by
  rw [isToolItem, isItemEvent_of_isType h, decide_eq_false hstarted, decide_eq_false hupdated,
    decide_eq_false hcompleted]
  rfl

theorem isMessage_of_isType {event : Json} {a : String} (h : isType event a = true)
    (hcompleted : a ≠ "item.completed") : isMessage event = false := by
  rw [isMessage, isType_of_isType h, decide_eq_false hcompleted]
  rfl

theorem isItemEvent_of_isMessage {event : Json} (h : isMessage event = true) :
    isItemEvent event = true ∧ isToolItem event = false := by
  simp only [isMessage, Bool.and_eq_true, decide_eq_true_eq] at h
  refine ⟨by rw [isItemEvent_of_isType h.1]; rfl, ?_⟩
  rw [isToolItem, h.2, Option.any_some, decide_eq_false (not_mem_toolTypes (by decide)), Bool.and_false]

theorem find?_reverse_concat {α : Type} (p : α → Bool) (as : List α) (a : α) :
    (as ++ [a]).reverse.find? p = if p a then some a else as.reverse.find? p := by
  rw [List.reverse_concat, List.find?_cons]
  cases p a <;> rfl

/-- **One event.** What a clean pass has seen grows by each admitted event. -/
theorem CodexTrace.next {events : List Json} {s s' : CodexScan} {event : Json}
    (h : CodexTrace events s) (ha : s.Admits event events.length s') :
    CodexTrace (events ++ [event]) s' := by
  have hne : events ++ [event] ≠ [] := by simp
  generalize hindex : events.length = index at ha
  cases ha with
  | thread hno htype =>
      obtain rfl := List.eq_nil_of_length_eq_zero hindex
      refine ⟨fun hnil => absurd hnil hne, fun first rest heq => ?_, ?_, ?_, ?_, ?_⟩
      · cases heq
        exact ⟨htype, by simp, by simp⟩
      · exact h.noTool_concat (isToolItem_of_isType htype (by decide) (by decide) (by decide))
      · rw [List.countP_append, h.started, List.countP_singleton, isType_of_isType htype]
        rfl
      · refine .inl ⟨?_, fun e he => ?_⟩
        · rcases h.completed with ⟨hzero, _⟩ | ⟨_, before, last, heq, _⟩
          · exact hzero
          · cases before <;> cases heq
        · rw [List.mem_singleton.mp he, isType_of_isType htype]
          rfl
      · rw [find?_reverse_concat, isMessage_of_isType htype (by decide)]
        exact h.output
  | started hopen htype =>
      have hcompleted : isType event "turn.completed" = false := by rw [isType_of_isType htype]; rfl
      refine ⟨fun hnil => absurd hnil hne, h.thread_concat hopen ?_, ?_, ?_, ?_, ?_⟩
      · rw [isType_of_isType htype]
        rfl
      · exact h.noTool_concat (isToolItem_of_isType htype (by decide) (by decide) (by decide))
      · rw [List.countP_append, h.started, List.countP_singleton, if_pos htype]
      · exact .inl ⟨hopen.2, h.completed_concat hopen hcompleted⟩
      · rw [find?_reverse_concat, isMessage_of_isType htype (by decide)]
        exact h.output
  | completed hopen htype =>
      refine ⟨fun hnil => absurd hnil hne, h.thread_concat hopen ?_, ?_, ?_, ?_, ?_⟩
      · rw [isType_of_isType htype]
        rfl
      · exact h.noTool_concat (isToolItem_of_isType htype (by decide) (by decide) (by decide))
      · rw [List.countP_append, h.started, List.countP_singleton, isType_of_isType htype]
        rfl
      · refine .inr ⟨by simp [hopen.2], events, event, rfl, htype, ?_⟩
        rcases h.completed with ⟨_, hall⟩ | ⟨hone, _⟩
        · exact hall
        · rw [hopen.2] at hone
          cases hone
      · rw [find?_reverse_concat, isMessage_of_isType htype (by decide)]
        exact h.output
  | message hopen hmessage htext =>
      obtain ⟨hitem, htool⟩ := isItemEvent_of_isMessage hmessage
      refine ⟨fun hnil => absurd hnil hne, h.thread_concat hopen ?_, h.noTool_concat htool, ?_, ?_, ?_⟩
      · exact isType_of_isItemEvent hitem (by decide) (by decide) (by decide)
      · rw [List.countP_append, h.started, List.countP_singleton,
          isType_of_isItemEvent hitem (by decide) (by decide) (by decide)]
        rfl
      · exact .inl ⟨hopen.2, h.completed_concat hopen
          (isType_of_isItemEvent hitem (by decide) (by decide) (by decide))⟩
      · rw [find?_reverse_concat, if_pos hmessage]
        exact htext.symm
  | passive hopen hitem htool hmessage =>
      refine ⟨fun hnil => absurd hnil hne, h.thread_concat hopen ?_, h.noTool_concat htool, ?_, ?_, ?_⟩
      · exact isType_of_isItemEvent hitem (by decide) (by decide) (by decide)
      · rw [List.countP_append, h.started, List.countP_singleton,
          isType_of_isItemEvent hitem (by decide) (by decide) (by decide)]
        rfl
      · exact .inl ⟨hopen.2, h.completed_concat hopen
          (isType_of_isItemEvent hitem (by decide) (by decide) (by decide))⟩
      · rw [find?_reverse_concat, hmessage]
        exact h.output

theorem codexScan_concat (events : List Json) (event : Json) :
    codexScan (events ++ [event]) = (codexScan events).next event events.length := by
  simp [codexScan, List.zipIdx_append]

/-- **All events.** A pass that ends clean has a trace. -/
theorem codexTrace (events : List Json) (h : (codexScan events).Clean) :
    CodexTrace events (codexScan events) := by
  induction events using List.reverseRecOn with
  | nil =>
      exact ⟨fun _ => rfl, fun _ _ h => absurd h (List.cons_ne_nil _ _).symm,
        fun _ h => absurd h List.not_mem_nil, rfl,
        .inl ⟨rfl, fun _ h => absurd h List.not_mem_nil⟩, rfl⟩
  | append_singleton events event ih =>
      obtain ⟨hclean, hadmits⟩ := CodexScan.next_clean (codexScan_concat events event).symm h
      exact (ih hclean).next hadmits

theorem codexScan_trial {events : List Json} (h : (codexScan events).finish.status = .completed) :
    CodexTrial events (codexScan events).finish.output := by
  unfold CodexScan.finish at h ⊢
  split at h
  · cases h
  · rename_i htool
    split at h
    · cases h
    · rename_i hdone
      simp only [not_or, Bool.not_eq_true, not_not] at htool hdone
      obtain ⟨hvalid, hid, hstarted, hcompleted, houtput⟩ := hdone
      have trace := codexTrace events ⟨hvalid, htool⟩
      rw [if_neg (by simp [htool]), if_neg (by simp [hvalid, hid, hstarted, hcompleted, houtput])]
      refine ⟨?_, trace.noTool, trace.started.trans hstarted, ?_, ?_⟩
      · cases events with
        | nil => exact absurd (trace.empty rfl) hid
        | cons first rest =>
            obtain ⟨hfirst, _, hrest⟩ := trace.thread first rest rfl
            exact ⟨first, rest, rfl, hfirst, hrest⟩
      · rcases trace.completed with ⟨hzero, _⟩ | ⟨_, hlast⟩
        · rw [hcompleted] at hzero
          cases hzero
        · exact hlast
      · obtain ⟨text, htext⟩ := Option.ne_none_iff_exists'.mp houtput
        have hfound := trace.output.symm.trans htext
        obtain ⟨message, hmessage, hfilled⟩ := Option.bind_eq_some_iff.mp hfound
        obtain ⟨item, hitem, hitemText⟩ := Option.bind_eq_some_iff.mp hfilled
        obtain ⟨hread, hne⟩ := filledAt_eq_some hitemText
        refine ⟨message, text, hmessage, ?_, hne, htext⟩
        rw [hitem]
        exact hread

/-! ## Claude -/

/-- The blocks of a message of the assistant. -/
def blocksOf (event : Json) : List Json :=
  ((recordAt event "message").bind (itemsAt · "content")).getD []

def isToolBlock (block : Json) : Bool := isType block "tool_use" || isType block "server_tool_use"

def usesTool (event : Json) : Bool := isType event "assistant" && (blocksOf event).any isToolBlock

def modelOf (event : Json) : Option Units := (recordAt event "message").bind (textAt · "model")

/-- What the events of a completed trial are like. -/
structure ClaudeTrial (events : List Json) (expectedModel : Units) (output : Option Units) : Prop where
  init : ∃ first rest, events = first :: rest ∧ isInit first = true ∧ ∀ e ∈ rest, isInit e = false
  session : ∃ id, id ≠ [] ∧ ∀ e ∈ events, textAt e "session_id" = some id
  noTool : ∀ e ∈ events, usesTool e = false
  models : ∀ e ∈ events, isType e "assistant" = true → modelOf e = some expectedModel
  result : ∃ before last text, events = before ++ [last] ∧ isType last "result" = true ∧
    (∀ e ∈ before, isType e "result" = false) ∧ textAt last "result" = some text ∧ text ≠ [] ∧
      output = some text

def ClaudeScan.Clean (s : ClaudeScan) : Prop := s.invalid = false ∧ s.toolAttempted = false

/-- The session has begun, and its result is not there. -/
def ClaudeScan.Open (s : ClaudeScan) : Prop := s.initModel ≠ none ∧ s.resultSeen = false

/-- The events that set no flag, and what they do. -/
inductive ClaudeScan.Admits (s : ClaudeScan) (event : Json) : Nat → ClaudeScan → Prop
  | init {model : Units} (hno : s.initModel = none) (hinit : isInit event = true) :
      Admits s event 0 { s with initModel := some model }
  | assistant {index : Nat} {model : Units} (hopen : s.Open) (htype : isType event "assistant" = true)
      (hmodel : modelOf event = some model) (htool : usesTool event = false) :
      Admits s event index (s.addModel model)
  | result {index : Nat} (hopen : s.Open) (htype : isType event "result" = true) :
      Admits s event index { s with terminalResult := some event, resultSeen := true }
  /-- Thinking or a rate limit. -/
  | passive {index : Nat} (hopen : s.Open) (hinit : isInit event = false)
      (hassistant : isType event "assistant" = false) (hresult : isType event "result" = false) :
      Admits s event index s

theorem claude_not_clean (s : ClaudeScan) : ¬ ClaudeScan.Clean { s with invalid := true } := by
  intro h
  exact Bool.noConfusion h.1

/-- A block that leaves the pass clean is of no tool and changes nothing. -/
theorem ClaudeScan.block_clean {s : ClaudeScan} {block : Json} (h : (s.block block).Clean) :
    s.block block = s ∧ isToolBlock block = false := by
  generalize hs : s.block block = s' at h ⊢
  unfold ClaudeScan.block at hs
  split at hs
  · exact absurd (hs ▸ h) (claude_not_clean s)
  · rename_i t ht
    split at hs
    · subst hs
      exact Bool.noConfusion h.2
    · rename_i htool
      split at hs
      · exact absurd (hs ▸ h) (claude_not_clean s)
      · refine ⟨hs.symm, ?_⟩
        obtain ⟨r, hr, ht⟩ := Option.bind_eq_some_iff.mp ht
        have hblock : typeOf block = some t := by
          cases block with
          | object members => cases hr; exact ht
          | _ => cases hr
        rw [not_or] at htool
        simp [isToolBlock, isType, hblock, htool]

theorem ClaudeScan.blocks_clean {blocks : List Json} {s : ClaudeScan}
    (h : (blocks.foldl ClaudeScan.block s).Clean) :
    blocks.foldl ClaudeScan.block s = s ∧ blocks.any isToolBlock = false := by
  induction blocks generalizing s with
  | nil => exact ⟨rfl, rfl⟩
  | cons block blocks ih =>
      obtain ⟨hrest, htools⟩ := ih h
      rw [List.foldl_cons] at h ⊢
      rw [hrest] at h ⊢
      obtain ⟨hs, htool⟩ := block_clean h
      exact ⟨hs, by rw [List.any_cons, htool, htools, Bool.or_false]⟩

theorem ClaudeScan.addModel_flags (s : ClaudeScan) (model : Units) :
    (s.addModel model).invalid = s.invalid ∧ (s.addModel model).toolAttempted = s.toolAttempted := by
  unfold ClaudeScan.addModel
  split
  · exact ⟨rfl, rfl⟩
  · exact ⟨rfl, rfl⟩

theorem ClaudeScan.assistant_clean {s s' : ClaudeScan} {event : Json} (index : Nat) (hopen : s.Open)
    (htype : isType event "assistant" = true) (hs : s.assistant event = s') (h : s'.Clean) :
    s.Clean ∧ s.Admits event index s' := by
  unfold ClaudeScan.assistant at hs
  split at hs
  · exact absurd (hs ▸ h) (claude_not_clean s)
  · rename_i message hmessage
    split at hs
    · rename_i model content hmodel hcontent
      subst hs
      obtain ⟨hsame, htool⟩ := blocks_clean h
      rw [hsame] at h ⊢
      obtain ⟨hinvalid, hattempted⟩ := s.addModel_flags model
      refine ⟨⟨hinvalid.symm.trans h.1, hattempted.symm.trans h.2⟩, .assistant hopen htype ?_ ?_⟩
      · rw [modelOf, hmessage]
        exact hmodel
      · rw [usesTool, blocksOf, hmessage, Option.bind_some, hcontent, Option.getD_some, htool,
          Bool.and_false]
    · exact absurd (hs ▸ h) (claude_not_clean s)

theorem isType_of_isThinking {event : Json} (h : isThinking event = true) (b : String)
    (hb : "system" ≠ b) : isType event b = false := by
  rw [isThinking, Bool.and_eq_true] at h
  rw [isType_of_isType h.1, decide_eq_false hb]

theorem isType_of_isInit {event : Json} (h : isInit event = true) (b : String)
    (hb : "system" ≠ b) : isType event b = false := by
  rw [isInit, Bool.and_eq_true] at h
  rw [isType_of_isType h.1, decide_eq_false hb]

theorem ClaudeScan.dispatch_clean {s s' : ClaudeScan} {event : Json} {index : Nat}
    (hs : s.dispatch event index = s') (h : s'.Clean) : s.Clean ∧ s.Admits event index s' := by
  unfold ClaudeScan.dispatch at hs
  split at hs
  · rename_i hinit
    split at hs
    · exact absurd (hs ▸ h) (claude_not_clean s)
    · split at hs
      · exact absurd (hs ▸ h) (claude_not_clean s)
      · rename_i hfirst
        rw [not_or, not_not, not_not] at hfirst
        obtain ⟨rfl, hno⟩ := hfirst
        subst hs
        exact ⟨h, .init hno hinit⟩
  · rename_i hinit
    rw [Bool.not_eq_true] at hinit
    split at hs
    · rename_i hthinking
      split at hs
      · exact absurd (hs ▸ h) (claude_not_clean s)
      · rename_i hcounts
        simp only [not_or, Bool.not_eq_true] at hcounts
        subst hs
        exact ⟨h, .passive ⟨hcounts.1, hcounts.2.1⟩ hinit
          (isType_of_isThinking hthinking _ (by decide)) (isType_of_isThinking hthinking _ (by decide))⟩
    · split at hs
      · exact absurd (hs ▸ h) (claude_not_clean s)
      · rename_i hopen
        have hopen : s.Open := by
          rw [not_or, Bool.not_eq_true] at hopen
          exact hopen
        split at hs
        · rename_i htype
          exact assistant_clean index hopen htype hs h
        · rename_i hassistant
          split at hs
          · rename_i htype
            split at hs
            · exact absurd (hs ▸ h) (claude_not_clean s)
            · subst hs
              refine ⟨h, .passive hopen hinit (by simpa using hassistant) ?_⟩
              rw [isType_of_isType htype]
              rfl
          · split at hs
            · rename_i htype
              subst hs
              exact ⟨h, .result hopen htype⟩
            · exact absurd (hs ▸ h) (claude_not_clean s)

/-- An event that leaves the pass clean is of the session, and one of the admitted ones. -/
theorem ClaudeScan.next_clean {s s' : ClaudeScan} {event : Json} {index : Nat}
    (hs : s.next event index = s') (h : s'.Clean) : s.Clean ∧
      ∃ id, filledAt event "session_id" = some id ∧
        (s.providerRunId = none ∨ s.providerRunId = some id) ∧
          { s with providerRunId := some id }.Admits event index s' := by
  unfold ClaudeScan.next at hs
  split at hs
  · exact absurd (hs ▸ h) (claude_not_clean s)
  · rename_i id hid
    split at hs
    · exact absurd (hs ▸ h) (claude_not_clean s)
    · rename_i hsession
      obtain ⟨hclean, hadmits⟩ := dispatch_clean hs h
      refine ⟨hclean, id, hid, ?_, hadmits⟩
      rw [not_and_or, not_not, not_not] at hsession
      exact hsession

/-- What a clean pass has seen. -/
structure ClaudeTrace (events : List Json) (s : ClaudeScan) : Prop where
  empty : events = [] → s.initModel = none
  init : ∀ first rest, events = first :: rest → isInit first = true ∧ s.initModel ≠ none ∧
    ∀ e ∈ rest, isInit e = false
  unnamed : s.providerRunId = none → events = []
  session : ∀ id, s.providerRunId = some id → id ≠ [] ∧ ∀ e ∈ events, textAt e "session_id" = some id
  noTool : ∀ e ∈ events, usesTool e = false
  models : ∀ e ∈ events, isType e "assistant" = true → ∃ m ∈ s.assistantModels, modelOf e = some m
  result : s.resultSeen = false ∧ s.terminalResult = none ∧ (∀ e ∈ events, isType e "result" = false) ∨
    ∃ before last, events = before ++ [last] ∧ isType last "result" = true ∧ s.resultSeen = true ∧
      s.terminalResult = some last ∧ ∀ e ∈ before, isType e "result" = false

section Next

variable {events : List Json} {s : ClaudeScan} {event : Json}

/-- The first event stays the first, and no other begins a session. -/
theorem ClaudeTrace.init_concat (h : ClaudeTrace events s) (hopen : s.Open)
    (hinit : isInit event = false) :
    ∀ first rest, events ++ [event] = first :: rest → isInit first = true ∧ s.initModel ≠ none ∧
      ∀ e ∈ rest, isInit e = false := by
  intro first rest heq
  cases events with
  | nil => exact absurd (h.empty rfl) hopen.1
  | cons a as =>
      obtain ⟨ha, _, has⟩ := h.init a as rfl
      cases heq
      refine ⟨ha, hopen.1, fun e he => ?_⟩
      rcases List.mem_append.mp he with he | he
      · exact has e he
      · rw [List.mem_singleton.mp he]
        exact hinit

/-- All events are of one session. -/
theorem ClaudeTrace.session_concat {id : Units} (h : ClaudeTrace events s)
    (hid : filledAt event "session_id" = some id)
    (hsession : s.providerRunId = none ∨ s.providerRunId = some id) :
    id ≠ [] ∧ ∀ e ∈ events ++ [event], textAt e "session_id" = some id := by
  obtain ⟨htext, hne⟩ := filledAt_eq_some hid
  refine ⟨hne, fun e he => ?_⟩
  rcases List.mem_append.mp he with he | he
  · rcases hsession with hnone | hsome
    · rw [h.unnamed hnone] at he
      cases he
    · exact (h.session id hsome).2 e he
  · rw [List.mem_singleton.mp he]
    exact htext

theorem ClaudeTrace.noTool_concat (h : ClaudeTrace events s) (htool : usesTool event = false) :
    ∀ e ∈ events ++ [event], usesTool e = false := by
  intro e he
  rcases List.mem_append.mp he with he | he
  · exact h.noTool e he
  · rw [List.mem_singleton.mp he]
    exact htool

/-- An event that is no message names no model. -/
theorem ClaudeTrace.models_concat (h : ClaudeTrace events s)
    (htype : isType event "assistant" = false) : ∀ e ∈ events ++ [event],
      isType e "assistant" = true → ∃ m ∈ s.assistantModels, modelOf e = some m := by
  intro e he ha
  rcases List.mem_append.mp he with he | he
  · exact h.models e he ha
  · rw [List.mem_singleton.mp he, htype] at ha
    cases ha

theorem ClaudeTrace.noResult (h : ClaudeTrace events s) (hopen : s.resultSeen = false) :
    s.terminalResult = none ∧ ∀ e ∈ events, isType e "result" = false := by
  rcases h.result with ⟨_, hnone, hall⟩ | ⟨_, _, _, _, hseen, _⟩
  · exact ⟨hnone, hall⟩
  · rw [hopen] at hseen
    cases hseen

theorem ClaudeTrace.noResult_concat (h : ClaudeTrace events s) (hopen : s.resultSeen = false)
    (htype : isType event "result" = false) : ∀ e ∈ events ++ [event], isType e "result" = false := by
  intro e he
  rcases List.mem_append.mp he with he | he
  · exact (h.noResult hopen).2 e he
  · rw [List.mem_singleton.mp he]
    exact htype

theorem ClaudeScan.mem_addModel (s : ClaudeScan) (model : Units) :
    model ∈ (s.addModel model).assistantModels ∧
      ∀ m ∈ s.assistantModels, m ∈ (s.addModel model).assistantModels := by
  unfold ClaudeScan.addModel
  split
  · rename_i hmem
    exact ⟨hmem, fun m hm => hm⟩
  · exact ⟨by simp, fun m hm => List.mem_append_left _ hm⟩

/-- Recording a model changes no other variable. -/
theorem ClaudeScan.addModel_frame (s : ClaudeScan) (model : Units) :
    (s.addModel model).initModel = s.initModel ∧
      (s.addModel model).providerRunId = s.providerRunId ∧
      (s.addModel model).resultSeen = s.resultSeen ∧
      (s.addModel model).terminalResult = s.terminalResult := by
  unfold ClaudeScan.addModel
  split
  · exact ⟨rfl, rfl, rfl, rfl⟩
  · exact ⟨rfl, rfl, rfl, rfl⟩

/-- **One event.** What a clean pass has seen grows by each admitted event. -/
theorem ClaudeTrace.next {s' : ClaudeScan} {id : Units} (h : ClaudeTrace events s)
    (hid : filledAt event "session_id" = some id)
    (hsession : s.providerRunId = none ∨ s.providerRunId = some id)
    (ha : { s with providerRunId := some id }.Admits event events.length s') :
    ClaudeTrace (events ++ [event]) s' := by
  have hne : events ++ [event] ≠ [] := by simp
  have hsame : ∀ j, some id = some j → j ≠ [] ∧ ∀ e ∈ events ++ [event],
      textAt e "session_id" = some j := by
    intro j hj
    cases hj
    exact h.session_concat hid hsession
  generalize hindex : events.length = index at ha
  cases ha with
  | init hno hinit =>
      obtain rfl := List.eq_nil_of_length_eq_zero hindex
      have hassistant := isType_of_isInit hinit "assistant" (by decide)
      have hresult := isType_of_isInit hinit "result" (by decide)
      refine ⟨fun hnil => absurd hnil hne, fun first rest heq => ?_, fun hnone => ?_, hsame, ?_,
        h.models_concat hassistant, .inl ?_⟩
      · cases heq
        exact ⟨hinit, by simp, by simp⟩
      · cases hnone
      · exact h.noTool_concat (by rw [usesTool, hassistant, Bool.false_and])
      · rcases h.result with ⟨hopen, hnone, _⟩ | ⟨before, last, heq, _⟩
        · exact ⟨hopen, hnone, h.noResult_concat hopen hresult⟩
        · cases before <;> cases heq
  | assistant hopen htype hmodel htool =>
      rename_i model
      obtain ⟨hinitModel, hrun, hseen, hterminal⟩ :=
        ClaudeScan.addModel_frame { s with providerRunId := some id } model
      obtain ⟨hmem, hold⟩ := ClaudeScan.mem_addModel { s with providerRunId := some id } model
      have hinit : isInit event = false := by
        rw [isInit, isType_of_isType htype]
        rfl
      refine ⟨fun hnil => absurd hnil hne, ?_, ?_, ?_, h.noTool_concat htool, ?_, .inl ?_⟩
      · rw [hinitModel]
        exact h.init_concat hopen hinit
      · rw [hrun]
        intro hnone
        cases hnone
      · rw [hrun]
        exact hsame
      · intro e he hassistant
        rcases List.mem_append.mp he with he | he
        · obtain ⟨m, hm, hmodel⟩ := h.models e he hassistant
          exact ⟨m, hold m hm, hmodel⟩
        · rw [List.mem_singleton.mp he]
          exact ⟨model, hmem, hmodel⟩
      · rw [hseen, hterminal]
        refine ⟨hopen.2, (h.noResult hopen.2).1, h.noResult_concat hopen.2 ?_⟩
        rw [isType_of_isType htype]
        rfl
  | result hopen htype =>
      have hassistant : isType event "assistant" = false := by
        rw [isType_of_isType htype]
        rfl
      have hinit : isInit event = false := by
        rw [isInit, isType_of_isType htype]
        rfl
      refine ⟨fun hnil => absurd hnil hne, h.init_concat hopen hinit, fun hnone => ?_, hsame, ?_,
        h.models_concat hassistant,
        .inr ⟨events, event, rfl, htype, rfl, rfl, (h.noResult hopen.2).2⟩⟩
      · cases hnone
      · exact h.noTool_concat (by rw [usesTool, hassistant, Bool.false_and])
  | passive hopen hinit hassistant hresult =>
      refine ⟨fun hnil => absurd hnil hne, h.init_concat hopen hinit, fun hnone => ?_, hsame, ?_,
        h.models_concat hassistant,
        .inl ⟨hopen.2, (h.noResult hopen.2).1, h.noResult_concat hopen.2 hresult⟩⟩
      · cases hnone
      · exact h.noTool_concat (by rw [usesTool, hassistant, Bool.false_and])

end Next

theorem claudeScan_concat (events : List Json) (event : Json) :
    claudeScan (events ++ [event]) = (claudeScan events).next event events.length := by
  simp [claudeScan, List.zipIdx_append]

/-- **All events.** A pass that ends clean has a trace. -/
theorem claudeTrace (events : List Json) (h : (claudeScan events).Clean) :
    ClaudeTrace events (claudeScan events) := by
  induction events using List.reverseRecOn with
  | nil =>
      exact ⟨fun _ => rfl, fun _ _ h => absurd h (List.cons_ne_nil _ _).symm, fun _ => rfl,
        fun _ h => absurd h (Option.some_ne_none _).symm, fun _ h => absurd h List.not_mem_nil,
        fun _ h => absurd h List.not_mem_nil, .inl ⟨rfl, rfl, fun _ h => absurd h List.not_mem_nil⟩⟩
  | append_singleton events event ih =>
      obtain ⟨hclean, id, hid, hsession, hadmits⟩ :=
        ClaudeScan.next_clean (claudeScan_concat events event).symm h
      exact (ih hclean).next hid hsession hadmits

/-- What the last event says is the text of its result. -/
theorem successText_eq_some {result : Json} {model text : Units}
    (h : successText result model = some text) : textAt result "result" = some text ∧ text ≠ [] := by
  unfold successText at h
  split at h
  · split at h
    · rename_i hfilled _
      split at h
      · cases h
        exact filledAt_eq_some hfilled
      · cases h
    · cases h
  · cases h

theorem claudeScan_trial {events : List Json} {model : Units}
    (h : ((claudeScan events).finish model).status = .completed) :
    ClaudeTrial events model ((claudeScan events).finish model).output := by
  generalize hs : (claudeScan events).finish model = parsed at h ⊢
  unfold ClaudeScan.finish at hs
  split at hs
  · subst hs
    cases h
  · rename_i result hresult
    split at hs
    · subst hs
      cases h
    · rename_i htool
      split at hs
      · subst hs
        cases h
      · rename_i hvalid
        split at hs
        · subst hs
          cases h
        · rename_i text htext
          split at hs
          · subst hs
            cases h
          · rename_i hmodels
            subst hs
            simp only [not_or, Bool.not_eq_true, not_not] at htool hvalid hmodels
            have trace := claudeTrace events ⟨hvalid.1, htool.1⟩
            obtain ⟨id, hid⟩ := Option.ne_none_iff_exists'.mp hvalid.2.1
            obtain ⟨hread, hne⟩ := successText_eq_some htext
            refine ⟨?_, ⟨id, trace.session id hid⟩, trace.noTool, fun e he ha => ?_, ?_⟩
            · cases events with
              | nil => exact absurd (trace.empty rfl) hvalid.2.2
              | cons first rest =>
                  obtain ⟨hfirst, _, hrest⟩ := trace.init first rest rfl
                  exact ⟨first, rest, rfl, hfirst, hrest⟩
            · obtain ⟨m, hm, hmodel⟩ := trace.models e he ha
              obtain ⟨only, honly⟩ := List.length_eq_one_iff.mp hmodels.1
              rw [honly, List.mem_singleton] at hm
              have hexpected := hmodels.2.1
              rw [honly, List.mem_singleton] at hexpected
              rw [hmodel, hm, hexpected]
            · rcases trace.result with ⟨_, hnone, _⟩ | ⟨before, last, heq, hlast, _, hterminal, hbefore⟩
              · rw [hnone] at hresult
                cases hresult
              · rw [hterminal] at hresult
                cases hresult
                exact ⟨before, result, text, heq, hlast, hbefore, hread, hne, rfl⟩

/-! ## Completed trials -/

/-- Each line of an output is a JSON object, and these are the events. -/
def Events (round : Rat → JsNumber) (source : Text) (events : List Json) : Prop :=
  List.Forall₂ (fun line event => parseJson round line = some event ∧ ∃ members, event = .object members)
    (protocolTexts source) events

theorem events_of_protocolLines {round : Rat → JsNumber} {source : Text} {events : List Json}
    (h : protocolLines round source = some events) : Events round source events := by
  unfold protocolLines at h
  split at h
  · cases h
  · refine (Lib.forall₂_of_mapM h).imp fun line event hline => ?_
    unfold protocolRecord at hline
    split at hline
    · cases hline
    · cases hjson : parseJson round line with
      | none => rw [hjson] at hline; cases hline
      | some value =>
          rw [hjson] at hline
          cases value with
          | object members => cases hline; exact ⟨rfl, members, rfl⟩
          | _ => cases hline

/--
**No tool was used.** Where the output of a trial counts as completed, each of its lines is a JSON
object, the events are of one thread and one turn, or of one session with a result at its end, none
of them is of a tool, and the text returned is that of the last message, or of the result.
-/
theorem completed_trial_used_no_tool (round : Rat → JsNumber) (source : Text) (model : Units) :
    ((parseCodexProposalExecutionJsonl round source).status = .completed →
      ∃ events, Events round source events ∧
        CodexTrial events (parseCodexProposalExecutionJsonl round source).output) ∧
    ((parseClaudeProposalExecutionJsonl round source model).status = .completed →
      ∃ events, Events round source events ∧
        ClaudeTrial events model (parseClaudeProposalExecutionJsonl round source model).output) := by
  unfold parseCodexProposalExecutionJsonl parseClaudeProposalExecutionJsonl
  cases hlines : protocolLines round source with
  | none =>
      refine ⟨fun h => ?_, fun h => ?_⟩
      · cases h
      · cases h
  | some events =>
      have hevents := events_of_protocolLines hlines
      exact ⟨fun h => ⟨events, hevents, codexScan_trial h⟩,
        fun h => ⟨events, hevents, claudeScan_trial h⟩⟩

/-- A trial of one message. -/
def codexOutput : Text := joinLines
  ["\x7b\"type\":\"thread.started\",\"thread_id\":\"t\"\x7d".toList,
    "\x7b\"type\":\"turn.started\"\x7d".toList,
    "\x7b\"type\":\"item.completed\",\"item\":\x7b\"type\":\"agent_message\",\"text\":\"hi\"\x7d\x7d".toList,
    "\x7b\"type\":\"turn.completed\"\x7d".toList]

def claudeOutput : Text := joinLines
  ["\x7b\"type\":\"system\",\"subtype\":\"init\",\"model\":\"m\",\"session_id\":\"s\"\x7d".toList,
    ("\x7b\"type\":\"assistant\",\"session_id\":\"s\",\"message\":\x7b\"model\":\"m\"," ++
      "\"content\":[\x7b\"type\":\"text\"\x7d]\x7d\x7d").toList,
    ("\x7b\"type\":\"result\",\"session_id\":\"s\",\"subtype\":\"success\",\"is_error\":false," ++
      "\"result\":\"hi\",\"modelUsage\":\x7b\"m\":\x7b\x7d\x7d\x7d").toList]

theorem completed_trial_used_no_tool_hi :
    (∃ events, Events .finite codexOutput events ∧
      CodexTrial events (parseCodexProposalExecutionJsonl .finite codexOutput).output) ∧
    ∃ events, Events .finite claudeOutput events ∧ ClaudeTrial events (units "m")
      (parseClaudeProposalExecutionJsonl .finite claudeOutput (units "m")).output :=
  ⟨(completed_trial_used_no_tool .finite codexOutput (units "m")).1 (by decide +kernel),
    (completed_trial_used_no_tool .finite claudeOutput (units "m")).2 (by decide +kernel)⟩

end Caveat.Proposal
