import Caveat.Hooks.HitLines

/-!
# The reminders and what is read of them

A reminder is read as the hits that it was made of where each of them is legible: its id has no white
space, its source no closing parenthesis, neither is changed when it is shown, and it has a title.
-/

namespace Caveat.Hooks

open Js
open Publish (isSpaceUnit isDigitUnit)

/-! ## The lines of the reminders -/

/-- What the line of a hit reads as. -/
def readBack (h : SearchResult) : Option Hit := readHit (reminderHitLine h 0)

theorem eq_space_of_mem_sanitize {s : Units} {n : Nat} {u : UInt16}
    (h : u ∈ sanitizeReminderDisplay s n) (hspace : isSpaceUnit u = true) : u = unitOf ' ' :=
  (noRuns_sanitize s n).plain u h hspace

theorem isSpaceUnit_of_isLineEnd {u : UInt16} (h : isLineEnd u = true) :
    isSpaceUnit u = true ∧ u ≠ unitOf ' ' := by
  simp only [isLineEnd, Bool.or_eq_true, decide_eq_true_eq] at h
  rcases h with ((rfl | rfl) | rfl) | rfl
  all_goals exact ⟨rfl, by decide⟩

theorem no_lineEnd_sanitize {s : Units} {n : Nat} {u : UInt16}
    (h : u ∈ sanitizeReminderDisplay s n) : isLineEnd u = false := by
  by_cases hend : isLineEnd u = true
  · obtain ⟨hspace, hne⟩ := isSpaceUnit_of_isLineEnd hend
    exact absurd (eq_space_of_mem_sanitize h hspace) hne
  · simpa using hend

theorem newline_not_mem_sanitize (s : Units) (n : Nat) :
    unitOf '\n' ∉ sanitizeReminderDisplay s n := by
  intro h
  have hend := no_lineEnd_sanitize h
  exact absurd hend (by decide)

theorem no_lineEnd_shownTitle {h : SearchResult} {u : UInt16} (hu : u ∈ shownTitle h) :
    isLineEnd u = false := by
  rw [shownTitle] at hu
  rcases List.mem_append.mp hu with hu | hu
  · exact no_lineEnd_sanitize hu
  · have hadvisory : ∀ v ∈ communityContentAdvisory, (!isLineEnd v) = true :=
      List.all_eq_true.mp rfl
    split at hu
    · simpa using hadvisory u hu
    · exact absurd hu (by simp)

theorem newline_not_mem_hitLine (h : SearchResult) (i : Nat) :
    unitOf '\n' ∉ reminderHitLine h i := by
  have htitle : unitOf '\n' ∉ shownTitle h := by
    intro hmem
    have hend := no_lineEnd_shownTitle hmem
    exact absurd hend (by decide)
  have h1 : unitOf '\n' ∉ units ". " := by decide
  have h2 : unitOf '\n' ∉ units " (" := by decide
  have h3 : unitOf '\n' ∉ units ") — " := by decide
  simp only [reminderHitLine, hitLine, List.mem_append, not_or]
  exact ⟨⟨⟨⟨⟨⟨newline_not_mem_digits _, h1⟩, newline_not_mem_sanitize _ _⟩, h2⟩,
    newline_not_mem_sanitize _ _⟩, h3⟩, htitle⟩

theorem reads_reminderHitLine (h : SearchResult) (i : Nat) :
    reads (reminderHitLine h i) = (readBack h).toList := by
  rw [reads_of_line (newline_not_mem_hitLine h i), readBack, reminderHitLine, reminderHitLine,
    readHit_hitLine, readHit_hitLine]

theorem reads_symptomLine {symptom line : Units} (h : reminderSymptomLine symptom = some line) :
    reads line = [] := by
  simp only [reminderSymptomLine] at h
  split at h
  · exact absurd h (by simp)
  · obtain rfl := Option.some.inj h
    have hlabel : Unnumbered (units "   症状: ") := unnumbered_units _ rfl
    exact (hlabel.append (units_ne_nil _ _ (by decide)) (newline_not_mem_sanitize _ _)).reads

theorem flatMap_zipIdx {α β : Type} (l : List α) (f : α → List β) :
    l.zipIdx.flatMap (fun p => f p.1) = l.flatMap f := by
  conv_rhs => rw [← List.zipIdx_map_fst 0 l]
  rw [List.flatMap_map]

theorem reads_hitBlock (hits : List SearchResult) :
    (hitBlock hits).flatMap reads = hits.filterMap readBack := by
  have hone : ∀ p : SearchResult × Nat,
      (reminderHitLine p.1 p.2 :: (reminderSymptomLine p.1.symptomExcerpt).toList).flatMap reads =
        (readBack p.1).toList := by
    intro p
    rw [List.flatMap_cons, reads_reminderHitLine]
    cases hsymptom : reminderSymptomLine p.1.symptomExcerpt with
    | none => simp
    | some line => simp [reads_symptomLine hsymptom]
  rw [hitBlock, List.flatMap_assoc, List.flatMap_congr fun p _ => hone p,
    flatMap_zipIdx hits fun h => (readBack h).toList, List.filterMap_eq_flatMap_toList]

theorem reads_hitLines (hits : List SearchResult) :
    (hits.zipIdx.map (fun h => reminderHitLine h.1 h.2)).flatMap reads = hits.filterMap readBack := by
  rw [List.flatMap_map, List.flatMap_congr fun p _ => reads_reminderHitLine p.1 p.2,
    flatMap_zipIdx hits fun h => (readBack h).toList, List.filterMap_eq_flatMap_toList]

/-! ### The lines around the hits -/

theorem reads_counted {a b : Units} (ha : Unnumbered a) (hne : a ≠ []) (hb : unitOf '\n' ∉ b)
    (n : Nat) : reads (a ++ unitsOf (ofNat n) ++ b) = [] := by
  rw [List.append_assoc]
  refine (ha.append hne fun hmem => ?_).reads
  rcases List.mem_append.mp hmem with hmem | hmem
  · exact newline_not_mem_digits n hmem
  · exact hb hmem

theorem reads_nil : reads [] = [] := rfl

theorem unnumbered_toolName (managed : Bool) {name : String} (h : Unnumbered (units name)) :
    Unnumbered (toolName managed name) := by
  cases managed with
  | true => exact h
  | false =>
      have hserver : Unnumbered (units "mcp__caveat__") := unnumbered_units _ rfl
      exact hserver.append (units_ne_nil _ _ (by decide)) h.one

theorem toolName_ne_nil (managed : Bool) {name : String} (h : units name ≠ []) :
    toolName managed name ≠ [] := by
  simp [toolName, h]

theorem unnumbered_get : Unnumbered (units "caveat_get") := unnumbered_units _ rfl

theorem get_ne_nil : units "caveat_get" ≠ [] := units_ne_nil _ _ (by decide)

set_option maxRecDepth 4000 in
theorem unnumbered_detailGuidance (surface : ReminderActionSurface) (managed : Bool) :
    Unnumbered (detailGuidance surface managed) := by
  cases surface with
  | nativeCli => exact unnumbered_units _ rfl
  | claudeMcp =>
      exact (unnumbered_toolName managed unnumbered_get).append (toolName_ne_nil managed get_ne_nil)
        (newline_not_mem_units _ (by decide))

set_option maxRecDepth 4000 in
theorem unnumbered_promptDetailGuidance (surface : ReminderActionSurface) (managed : Bool) :
    Unnumbered (promptDetailGuidance surface managed) := by
  cases surface with
  | nativeCli => exact unnumbered_units _ rfl
  | claudeMcp =>
      have hstart : Unnumbered (units "詳細は ") := unnumbered_units _ rfl
      have hname := hstart.append (units_ne_nil _ _ (by decide))
        (unnumbered_toolName managed unnumbered_get).one
      exact hname.append (by simp [get_ne_nil, toolName_ne_nil])
        (newline_not_mem_units _ (by decide))

set_option maxRecDepth 4000 in
theorem unnumbered_managedGuidance : Unnumbered managedGuidance :=
  unnumbered_units _ rfl

theorem reads_managedLine (managed : Bool) : (managedLine managed).flatMap reads = [] := by
  cases managed with
  | false => rfl
  | true => simp [managedLine, unnumbered_managedGuidance.reads]

/-- The first line of the reminders, with the number of hits. -/
theorem unnumbered_count {a b : Units} (ha : Unnumbered a) (hne : a ≠ []) (hb : unitOf '\n' ∉ b)
    (n : Nat) : Unnumbered (a ++ unitsOf (ofNat n) ++ b) := by
  rw [List.append_assoc]
  refine ha.append hne fun hmem => ?_
  rcases List.mem_append.mp hmem with hmem | hmem
  · exact newline_not_mem_digits n hmem
  · exact hb hmem

theorem newline_not_mem_found : unitOf '\n' ∉ units " 件あります:" :=
  newline_not_mem_units _ (by decide)

set_option maxRecDepth 4000 in
theorem reads_toolError (hits : List SearchResult) (surface : ReminderActionSurface)
    (managed : Bool) :
    reads (toolErrorReminderText hits surface managed) = hits.filterMap readBack := by
  have hstart : Unnumbered (units "[caveat] 直前のエラーに一致する可能性のある既知の罠が ") :=
    unnumbered_units _ rfl
  have hhead := unnumbered_count hstart (units_ne_nil _ _ (by decide)) newline_not_mem_found
    hits.length
  have hguidance := unnumbered_detailGuidance (actionSurface surface managed) managed
  rw [toolErrorReminderText, reads_joinUnits]
  simp only [List.flatMap_append, List.flatMap_cons, List.flatMap_nil, hhead.reads,
    hguidance.reads, reads_hitBlock, reads_managedLine, reads_nil, List.nil_append,
    List.append_nil]

set_option maxRecDepth 4000 in
theorem reads_userPrompt (hits : List SearchResult) (surface : ReminderActionSurface)
    (managed : Bool) :
    reads (userPromptSubmitReminderText hits surface managed) = hits.filterMap readBack := by
  have hstart : Unnumbered (units "[caveat] このプロンプトに関連する可能性のある既知の罠が ") :=
    unnumbered_units _ rfl
  have hhead := unnumbered_count hstart (units_ne_nil _ _ (by decide)) newline_not_mem_found
    hits.length
  have hguidance := unnumbered_promptDetailGuidance (actionSurface surface managed) managed
  rw [userPromptSubmitReminderText, reads_joinUnits]
  simp only [List.flatMap_append, List.flatMap_cons, List.flatMap_nil, hhead.reads,
    hguidance.reads, reads_hitBlock, reads_managedLine, reads_nil, List.nil_append,
    List.append_nil]

/-! ### The lines around the hits at the end of a session -/

/-- What the lines of the signals read as: a path or a query in them may hold line ends. -/
def signalHits (signals : SessionSignals) : List Hit := reads (joinUnits (signalLines signals))

theorem unnumbered_classificationHint (signals : SessionSignals) :
    Unnumbered (classificationHint signals) := by
  have hlabel : Unnumbered (units "- 分類ヒント: ") := unnumbered_units _ rfl
  refine hlabel.append (units_ne_nil _ _ (by decide)) ?_
  split
  · exact newline_not_mem_units _ (by decide)
  · exact newline_not_mem_units _ (by decide)

set_option maxRecDepth 4000 in
theorem unnumbered_relatedGuidance (surface : ReminderActionSurface) (managed : Bool) :
    Unnumbered (relatedGuidance surface managed) := by
  cases surface with
  | nativeCli => exact unnumbered_units _ rfl
  | claudeMcp =>
      have hstart : Unnumbered (units "上記と異なる新規の罠を踏んでいたら ") :=
        unnumbered_units _ rfl
      have hrecord : Unnumbered (units "caveat_record") := unnumbered_units _ rfl
      have hne : units "上記と異なる新規の罠を踏んでいたら " ≠ [] := units_ne_nil _ _ (by decide)
      exact (hstart.append hne (unnumbered_toolName managed hrecord).one).append (by simp [hne])
        (newline_not_mem_units _ (by decide))

set_option maxRecDepth 4000 in
theorem unnumbered_nothingRelated (surface : ReminderActionSurface) (managed : Bool) :
    Unnumbered (nothingRelated surface managed) := by
  cases surface with
  | nativeCli => exact unnumbered_units _ rfl
  | claudeMcp =>
      have hstart : Unnumbered (units "既存罠に該当なし。外部仕様の罠に苦戦していたなら ") :=
        unnumbered_units _ rfl
      have hrecord : Unnumbered (units "caveat_record") := unnumbered_units _ rfl
      have hne : units "既存罠に該当なし。外部仕様の罠に苦戦していたなら " ≠ [] :=
        units_ne_nil _ _ (by decide)
      exact (hstart.append hne (unnumbered_toolName managed hrecord).one).append (by simp [hne])
        (newline_not_mem_units _ (by decide))

set_option maxRecDepth 4000 in
theorem unnumbered_visibilityGuidance (surface : ReminderActionSurface) :
    Unnumbered (visibilityGuidance surface) := by
  cases surface with
  | nativeCli => exact unnumbered_units _ rfl
  | claudeMcp => exact unnumbered_units _ rfl

set_option maxRecDepth 4000 in
theorem unnumbered_relatedHead (surface : ReminderActionSurface) (managed : Bool) (n : Nat) :
    Unnumbered (relatedHead surface managed n) := by
  have hstart : Unnumbered (units "セッション内容と共起する既存罠 ") :=
    unnumbered_units _ rfl
  have hupdate : Unnumbered (units "caveat_update") := unnumbered_units _ rfl
  refine unnumbered_count hstart (units_ne_nil _ _ (by decide)) ?_ n
  cases surface with
  | nativeCli => exact newline_not_mem_units _ (by decide)
  | claudeMcp =>
      simp only [List.mem_append, not_or]
      exact ⟨⟨newline_not_mem_units _ (by decide), (unnumbered_toolName managed hupdate).one⟩,
        newline_not_mem_units _ (by decide)⟩

theorem reads_relatedBlock (hits : List SearchResult) (surface : ReminderActionSurface)
    (managed : Bool) :
    (relatedBlock hits surface managed).flatMap reads = hits.filterMap readBack := by
  rw [relatedBlock]
  split
  · simp only [List.flatMap_append, List.flatMap_cons, List.flatMap_nil,
      (unnumbered_relatedHead surface managed _).reads,
      reads_hitLines, (unnumbered_relatedGuidance surface managed).reads, reads_nil,
      List.nil_append, List.append_nil]
  · rename_i hnone
    have hempty : hits = [] := List.length_eq_zero_iff.mp (by omega)
    simp [hempty, (unnumbered_nothingRelated surface managed).reads]

set_option maxRecDepth 4000 in
theorem unnumbered_stopReminderHead : Unnumbered stopReminderHead :=
  unnumbered_units _ rfl

theorem reads_stop (signals : SessionSignals) (hits : List SearchResult)
    (surface : ReminderActionSurface) (managed : Bool) :
    reads (stopReminderText signals hits surface managed) =
      signalHits signals ++ hits.filterMap readBack := by
  have hhead := unnumbered_stopReminderHead
  rw [stopReminderText, reads_joinUnits, signalHits, reads_joinUnits]
  simp only [List.flatMap_append, List.flatMap_cons, List.flatMap_nil, hhead.reads,
    (unnumbered_classificationHint signals).reads, reads_relatedBlock,
    (unnumbered_visibilityGuidance _).reads, reads_managedLine, reads_nil, List.nil_append,
    List.append_nil]

/-! ## The texts as they are scanned -/

/-- A text that starts with a bracket and does not end in white space. -/
structure Framed (text : Units) : Prop where
  head : text.head? = some (unitOf '[')
  last : text.getLast?.any isSpaceUnit = false

theorem Framed.contextText {text : Units} (h : Framed text) (managed : Bool) :
    contextText managed text = text := by
  have htight : Tight text := ⟨by rw [h.head]; rfl, h.last⟩
  have hplain : (units "autosync:").isPrefixOf text = false := by
    cases text with
    | nil => rfl
    | cons u text =>
        obtain rfl : u = unitOf '[' := Option.some.inj h.head
        rfl
  rw [Hooks.contextText, hplain, trimUnits_of_tight htight, Bool.and_false]
  rfl

theorem Framed.ne_nil {text : Units} (h : Framed text) : text ≠ [] := by
  rintro rfl
  exact absurd h.head (by simp)

theorem framed_joinUnits {first last : Units} (middle : List Units)
    (hfirst : first.head? = some (unitOf '[')) (hlast : Closing last) :
    Framed (joinUnits (first :: (middle ++ [last]))) := by
  have hne : first ≠ [] := by
    rintro rfl
    exact absurd hfirst (by simp)
  rw [joinUnits_cons, List.flatMap_append, List.flatMap_singleton, ← List.append_assoc,
    List.append_cons]
  refine ⟨?_, (hlast.append _).last⟩
  rw [List.append_assoc, List.append_assoc, List.head?_append_of_ne_nil _ hne, hfirst]

set_option maxRecDepth 4000 in
/-- Nothing but the guidance of a managed installation follows the last line. -/
theorem framed_managed (first line : Units) (middle : List Units) (managed : Bool)
    (hfirst : first.head? = some (unitOf '[')) (hline : Closing line) :
    Framed (joinUnits (first :: (middle ++ [line] ++ managedLine managed))) := by
  cases managed with
  | false =>
      rw [show managedLine false = [] from rfl, List.append_nil]
      exact framed_joinUnits middle hfirst hline
  | true => exact framed_joinUnits (middle ++ [line]) hfirst (closing_units _ rfl)

set_option maxRecDepth 4000 in
theorem closing_detailGuidance (surface : ReminderActionSurface) (managed : Bool) :
    Closing (detailGuidance surface managed) := by
  cases surface with
  | nativeCli => exact closing_units _ rfl
  | claudeMcp => exact (closing_units _ rfl).append _

set_option maxRecDepth 4000 in
theorem closing_promptDetailGuidance (surface : ReminderActionSurface) (managed : Bool) :
    Closing (promptDetailGuidance surface managed) := by
  cases surface with
  | nativeCli => exact closing_units _ rfl
  | claudeMcp => exact (closing_units _ rfl).append _

set_option maxRecDepth 4000 in
theorem closing_visibilityGuidance (surface : ReminderActionSurface) :
    Closing (visibilityGuidance surface) := by
  cases surface with
  | nativeCli => exact closing_units _ rfl
  | claudeMcp => exact closing_units _ rfl

theorem head_count {a : Units} (h : a.head? = some (unitOf '[')) (b : Units) :
    (a ++ b).head? = some (unitOf '[') := by
  cases a with
  | nil => exact absurd h (by simp)
  | cons u a => exact h

set_option maxRecDepth 4000 in
theorem framed_toolError (hits : List SearchResult) (surface : ReminderActionSurface)
    (managed : Bool) : Framed (toolErrorReminderText hits surface managed) := by
  have hstart : (units "[caveat] 直前のエラーに一致する可能性のある既知の罠が ").head? =
      some (unitOf '[') := head_units '[' _ (by decide)
  have hfirst := head_count (head_count hstart (unitsOf (ofNat hits.length)))
    (units " 件あります:")
  have hframed := framed_managed _ (detailGuidance (actionSurface surface managed) managed)
    ([] :: (hitBlock hits ++ [[]])) managed hfirst (closing_detailGuidance _ _)
  simpa only [toolErrorReminderText, List.cons_append, List.append_assoc, List.nil_append]
    using hframed

set_option maxRecDepth 4000 in
theorem framed_userPrompt (hits : List SearchResult) (surface : ReminderActionSurface)
    (managed : Bool) : Framed (userPromptSubmitReminderText hits surface managed) := by
  have hstart : (units "[caveat] このプロンプトに関連する可能性のある既知の罠が ").head? =
      some (unitOf '[') := head_units '[' _ (by decide)
  have hfirst := head_count (head_count hstart (unitsOf (ofNat hits.length)))
    (units " 件あります:")
  have hframed := framed_managed _ (promptDetailGuidance (actionSurface surface managed) managed)
    ([] :: (hitBlock hits ++ [[]])) managed hfirst (closing_promptDetailGuidance _ _)
  simpa only [userPromptSubmitReminderText, List.cons_append, List.append_assoc, List.nil_append]
    using hframed

set_option maxRecDepth 4000 in
theorem framed_stop (signals : SessionSignals) (hits : List SearchResult)
    (surface : ReminderActionSurface) (managed : Bool) :
    Framed (stopReminderText signals hits surface managed) := by
  have hframed := framed_managed stopReminderHead
    (visibilityGuidance (actionSurface surface managed))
    (signalLines signals ++ [classificationHint signals, []] ++
      relatedBlock hits (actionSurface surface managed) managed)
    managed (head_units '[' _ (by decide)) (closing_visibilityGuidance _)
  simpa only [stopReminderText, List.cons_append, List.append_assoc, List.nil_append]
    using hframed

/-! ## What a session keeps of a text -/

theorem addSignal_frame (line : Units) (s : Scan) (pattern : SignalLine) :
    (s.addSignal line pattern).hits = s.hits ∧ (s.addSignal line pattern).seenIds = s.seenIds := by
  rw [Scan.addSignal]
  split
  · exact ⟨rfl, rfl⟩
  · exact ⟨rfl, rfl⟩

theorem addSignals_frame (s : Scan) (isStop : Bool) (line : Units) :
    (s.addSignals isStop line).hits = s.hits ∧ (s.addSignals isStop line).seenIds = s.seenIds := by
  rw [Scan.addSignals]
  split
  · generalize signalPatterns = patterns
    induction patterns generalizing s with
    | nil => exact ⟨rfl, rfl⟩
    | cons pattern patterns ih =>
        obtain ⟨h1, h2⟩ := ih (s.addSignal line pattern)
        obtain ⟨f1, f2⟩ := addSignal_frame line s pattern
        exact ⟨h1.trans f1, h2.trans f2⟩
  · exact ⟨rfl, rfl⟩

/-- The signals have nothing to do with the hits. -/
theorem hits_scanLines (isStop : Bool) (lines : List Units) (s : Scan) :
    (lines.foldl (scanLine isStop) s).hits =
      s.hits ++ newHits s.seenIds (lines.filterMap readHit) := by
  induction lines generalizing s with
  | nil => simp [newHits]
  | cons line lines ih =>
      rw [List.foldl_cons, ih, scanLine, List.filterMap_cons]
      cases hread : readHit line with
      | none =>
          obtain ⟨h1, h2⟩ := addSignals_frame s isStop line
          rw [h1, h2]
      | some h =>
          dsimp only
          rw [newHits]
          split
          · rfl
          · obtain ⟨h1, h2⟩ := addSignals_frame (s.addHit h) isStop line
            rw [h1, h2, Scan.addHit, List.append_assoc]
            rfl

theorem hits_prepareSessionDelivery {text : Units} (h : Framed text) (managed : Bool)
    (state : DeliveredState) (additionally : List Units) :
    (prepareSessionDelivery managed state [text] additionally).hits =
      newHits (state.ids ++ additionally) (reads text) := by
  simp only [prepareSessionDelivery, List.foldl_cons, List.foldl_nil, scanContext, h.contextText,
    if_neg h.ne_nil]
  split
  · rw [hits_scanLines]
    rfl
  · dsimp only
    rw [hits_scanLines]
    rfl

end Caveat.Hooks
