import Caveat.Lib.Loop
import Caveat.Sync.Definition

/-!
# The definitions stand for their command

Every word of the command is read back from the definition as it was, whatever symbols it holds.
-/

namespace Caveat.Sync.Schedule

open Js Lib
open Hooks (units)
open Managed (Sha256 isDigest isHexUnit)

/-! ## Units of systemd -/

theorem undouble_cons_of_ne {c u : UInt16} (h : u ≠ c) (s : Units) :
    undouble c (u :: s) = (undouble c s).map (u :: ·) := by
  cases s with
  | nil => simp [undouble, h]
  | cons v s => rw [undouble, if_neg h]

/-- What is doubled is halved again. -/
theorem undouble_replaceUnit (c : Char) (s : Units) :
    undouble (unitOf c) (replaceUnit c [unitOf c, unitOf c] s) = some s := by
  induction s with
  | nil => rfl
  | cons u s ih =>
      rw [replaceUnit, List.flatMap_cons, ← replaceUnit]
      by_cases hu : u = unitOf c
      · rw [if_pos hu, List.cons_append, List.cons_append, List.nil_append, undouble, if_pos rfl,
          if_pos rfl, ih, hu]
        rfl
      · rw [if_neg hu, List.cons_append, List.nil_append, undouble_cons_of_ne hu, ih]
        rfl

theorem replaceUnit_append (c : Char) (r s t : Units) :
    replaceUnit c r (s ++ t) = replaceUnit c r s ++ replaceUnit c r t := List.flatMap_append

theorem replaceUnit_flatMap (c : Char) (r : Units) (f : UInt16 → Units) (s : Units) :
    replaceUnit c r (s.flatMap f) = s.flatMap fun u => replaceUnit c r (f u) := List.flatMap_assoc

theorem mem_replaceUnit {c : Char} {r s : Units} {u : UInt16} (h : u ∈ replaceUnit c r s) :
    u ∈ r ∨ u ∈ s := by
  obtain ⟨v, hv, hu⟩ := List.mem_flatMap.mp h
  split at hu
  · exact .inl hu
  · rw [List.mem_singleton.mp hu]
    exact .inr hv

/-- A value with its percent and dollar signs doubled. -/
def doubled (value : Units) : Units :=
  replaceUnit '$' (units "$$") (replaceUnit '%' (units "%%") value)

theorem doubled_cons (u : UInt16) (value : Units) : doubled (u :: value) = doubled [u] ++ doubled value := by
  rw [doubled, doubled, doubled, ← replaceUnit_append, ← replaceUnit_append, List.singleton_append]

theorem unitValue_doubled (value : Units) : unitValue (doubled value) = some value := by
  have hswap : doubled value = replaceUnit '%' (units "%%") (replaceUnit '$' (units "$$") value) := by
    rw [doubled]
    conv_lhs => rw [replaceUnit.eq_1 '%', replaceUnit_flatMap]
    conv_rhs => rw [replaceUnit.eq_1 '$', replaceUnit_flatMap]
    refine List.flatMap_congr fun u _ => ?_
    by_cases hp : u = unitOf '%'
    · subst hp
      decide
    · by_cases hd : u = unitOf '$'
      · subst hd
        decide
      · simp [replaceUnit, hp, hd]
  rw [unitValue, hswap]
  have hpercent : units "%%" = [unitOf '%', unitOf '%'] := rfl
  have hdollar : units "$$" = [unitOf '$', unitOf '$'] := rfl
  rw [hpercent, hdollar, undouble_replaceUnit, Option.bind_some, undouble_replaceUnit]

/-- One unit of a word. -/
def unitEscape (u : UInt16) : Units :=
  if u = unitOf '\\' then units "\\\\" else if u = unitOf '"' then units "\\\"" else doubled [u]

theorem unitArg_eq (value : Units) :
    unitArg value = unitOf '"' :: value.flatMap unitEscape ++ [unitOf '"'] := by
  have hescape : replaceUnit '$' (units "$$") (replaceUnit '%' (units "%%")
      (replaceUnit '"' (units "\\\"") (replaceUnit '\\' (units "\\\\") value))) =
        value.flatMap unitEscape := by
    conv_lhs => rw [replaceUnit.eq_1 '\\', replaceUnit_flatMap, replaceUnit_flatMap, replaceUnit_flatMap]
    refine List.flatMap_congr fun u _ => ?_
    by_cases hb : u = unitOf '\\'
    · subst hb
      decide
    · by_cases hq : u = unitOf '"'
      · subst hq
        decide
      · rw [unitEscape, if_neg hb, if_neg hq, if_neg hb, doubled]
        have hkeep : replaceUnit '"' (units "\\\"") [u] = [u] := by simp [replaceUnit, hq]
        rw [hkeep]
  rw [unitArg, hescape]

/-- Within quotation marks a unit that is neither a mark nor a backslash stands for itself. -/
theorem splitUnitWords_plain {u : UInt16} (hb : u ≠ unitOf '\\') (hq : u ≠ unitOf '"') (t s : Units) :
    splitUnitWords (some ⟨some (unitOf '"'), false, t⟩) (u :: s) =
      splitUnitWords (some ⟨some (unitOf '"'), false, t ++ [u]⟩) s := by
  rw [splitUnitWords, if_neg (by simp)]
  have hnext : UnitWord.next ⟨some (unitOf '"'), false, t⟩ u = ⟨some (unitOf '"'), false, t ++ [u]⟩ := by
    rw [UnitWord.next, if_neg Bool.false_ne_true, if_neg hb,
      if_neg (fun he => hq (Option.some.inj he).symm), if_neg (by simp)]
  rw [hnext]

theorem splitUnitWords_plain_append {w : Units} (hw : ∀ u ∈ w, u ≠ unitOf '\\' ∧ u ≠ unitOf '"')
    (t s : Units) :
    splitUnitWords (some ⟨some (unitOf '"'), false, t⟩) (w ++ s) =
      splitUnitWords (some ⟨some (unitOf '"'), false, t ++ w⟩) s := by
  induction w generalizing t with
  | nil => simp
  | cons u w ih =>
      obtain ⟨hb, hq⟩ := hw u List.mem_cons_self
      rw [List.cons_append, splitUnitWords_plain hb hq, ih fun v hv => hw v (List.mem_cons_of_mem u hv),
        List.append_assoc, List.singleton_append]

/-- A backslash and the unit behind it are that unit. -/
theorem splitUnitWords_escape (u : UInt16) (t s : Units) :
    splitUnitWords (some ⟨some (unitOf '"'), false, t⟩) (unitOf '\\' :: u :: s) =
      splitUnitWords (some ⟨some (unitOf '"'), false, t ++ [u]⟩) s := by
  rw [splitUnitWords, if_neg (by simp)]
  have hback : UnitWord.next ⟨some (unitOf '"'), false, t⟩ (unitOf '\\') =
      ⟨some (unitOf '"'), true, t⟩ := by
    rw [UnitWord.next, if_neg Bool.false_ne_true, if_pos rfl]
  rw [hback, splitUnitWords, if_neg (by simp)]
  have hnext : UnitWord.next ⟨some (unitOf '"'), true, t⟩ u = ⟨some (unitOf '"'), false, t ++ [u]⟩ := by
    rw [UnitWord.next, if_pos rfl]
  rw [hnext]

theorem plain_of_mem_twice {u v : UInt16} (hu : u ≠ unitOf '\\' ∧ u ≠ unitOf '"') (hv : v ∈ [u, u]) :
    v ≠ unitOf '\\' ∧ v ≠ unitOf '"' := by
  obtain rfl | rfl := List.mem_pair.mp hv
  · exact hu
  · exact hu

/-- A quoted word is read up to its closing mark. -/
theorem splitUnitWords_quoted (value rest : Units) : ∀ t : Units,
    splitUnitWords (some ⟨some (unitOf '"'), false, t⟩) (value.flatMap unitEscape ++ unitOf '"' :: rest) =
      splitUnitWords (some ⟨none, false, t ++ doubled value⟩) rest := by
  induction value with
  | nil =>
      intro t
      rw [List.flatMap_nil, List.nil_append, splitUnitWords, if_neg (by simp)]
      have hnext : UnitWord.next ⟨some (unitOf '"'), false, t⟩ (unitOf '"') = ⟨none, false, t⟩ := by
        rw [UnitWord.next, if_neg Bool.false_ne_true, if_neg (by decide), if_pos rfl]
      rw [hnext]
      simp [doubled, replaceUnit]
  | cons u value ih =>
      intro t
      rw [List.flatMap_cons, List.append_assoc, doubled_cons, ← List.append_assoc t]
      by_cases hb : u = unitOf '\\'
      · subst hb
        have hescape : unitEscape (unitOf '\\') = [unitOf '\\', unitOf '\\'] := by decide
        have hsame : doubled [unitOf '\\'] = [unitOf '\\'] := by decide
        rw [hescape, List.cons_append, List.cons_append, List.nil_append, splitUnitWords_escape, ih, hsame]
      · by_cases hq : u = unitOf '"'
        · subst hq
          have hescape : unitEscape (unitOf '"') = [unitOf '\\', unitOf '"'] := by decide
          have hsame : doubled [unitOf '"'] = [unitOf '"'] := by decide
          rw [hescape, List.cons_append, List.cons_append, List.nil_append, splitUnitWords_escape, ih, hsame]
        · have hplain : ∀ v ∈ doubled [u], v ≠ unitOf '\\' ∧ v ≠ unitOf '"' := by
            intro v hv
            have hcases : v ∈ units "$$" ∨ v ∈ units "%%" ∨ v = u := by
              rcases mem_replaceUnit hv with hv | hv
              · exact .inl hv
              · rcases mem_replaceUnit hv with hv | hv
                · exact .inr (.inl hv)
                · exact .inr (.inr (List.mem_singleton.mp hv))
            rcases hcases with hv | hv | rfl
            · exact plain_of_mem_twice (u := unitOf '$') (by decide) hv
            · exact plain_of_mem_twice (u := unitOf '%') (by decide) hv
            · exact ⟨hb, hq⟩
          rw [unitEscape, if_neg hb, if_neg hq, splitUnitWords_plain_append hplain, ih]

theorem splitUnitWords_unitArg (value rest : Units) :
    splitUnitWords none (unitArg value ++ rest) =
      splitUnitWords (some ⟨none, false, doubled value⟩) rest := by
  rw [unitArg_eq, List.cons_append, List.cons_append, splitUnitWords, if_neg (by decide), List.append_assoc,
    List.singleton_append]
  have hnext : UnitWord.next ⟨none, false, []⟩ (unitOf '"') = ⟨some (unitOf '"'), false, []⟩ := rfl
  rw [hnext, splitUnitWords_quoted, List.nil_append]

/-- The words of a line. -/
theorem splitUnitWords_joinWords (words : List Units) :
    splitUnitWords none (joinWords (words.map unitArg)) = some (words.map doubled) := by
  induction words with
  | nil => rfl
  | cons value words ih =>
      rw [joinWords] at ih ⊢
      by_cases hnil : words = []
      · subst hnil
        rw [List.map_singleton, List.intercalate_singleton, ← List.append_nil (unitArg value),
          splitUnitWords_unitArg]
        simp [splitUnitWords]
      · rw [List.map_cons, List.intercalate_cons_of_ne_nil (by simpa using hnil), List.append_assoc,
          splitUnitWords_unitArg, List.singleton_append, splitUnitWords,
          if_pos ⟨by decide, rfl, rfl⟩, ih]
        rfl

theorem mapM_eq_some_of_forall {α β : Type} {f : β → Option α} {g : α → β} (h : ∀ a, f (g a) = some a)
    (as : List α) : (as.map g).mapM f = some as := by
  induction as with
  | nil => rfl
  | cons a as ih => simp [List.mapM_cons, h, ih]

/-! ## Services -/

theorem behind_append (key line : Units) : behind key (key ++ line) = some line := by
  rw [behind, if_pos (List.prefix_append key line), List.drop_left]

/-- No word of the command holds a control unit. -/
def Clean (words : List Units) : Prop := ∀ word ∈ words, ∀ u ∈ word, isControl u = false

theorem newline_not_mem_unitArg {value : Units} (h : ∀ u ∈ value, isControl u = false) :
    unitOf '\n' ∉ unitArg value := by
  intro hmem
  have hcontrol : isControl (unitOf '\n') = true := by decide
  rcases List.mem_append.mp hmem with hmem | hmem
  · rcases List.mem_cons.mp hmem with hmem | hmem
    · exact absurd hmem (by decide)
    · rcases mem_replaceUnit hmem with hmem | hmem
      · exact absurd hmem (by decide)
      · rcases mem_replaceUnit hmem with hmem | hmem
        · exact absurd hmem (by decide)
        · rcases mem_replaceUnit hmem with hmem | hmem
          · exact absurd hmem (by decide)
          · rcases mem_replaceUnit hmem with hmem | hmem
            · exact absurd hmem (by decide)
            · rw [h _ hmem] at hcontrol
              cases hcontrol
  · exact absurd (List.mem_singleton.mp hmem) (by decide)

theorem newline_not_mem_start {argv : List Units} (h : Clean argv) :
    unitOf '\n' ∉ units "ExecStart=" ++ joinWords (argv.map unitArg) := by
  intro hmem
  rcases List.mem_append.mp hmem with hmem | hmem
  · exact absurd hmem (by decide)
  · rcases mem_intercalate hmem with hspace | ⟨part, hpart, hmem⟩
    · exact absurd hspace (by decide)
    · obtain ⟨word, hword, rfl⟩ := List.mem_map.mp hpart
      exact newline_not_mem_unitArg (h word hword) hmem

theorem splitOn_serviceLines {argv : List Units} (h : Clean argv) :
    (writeLines (serviceLines argv)).splitOn (unitOf '\n') = serviceLines argv ++ [[]] := by
  refine splitOn_terminated fun line hline => ?_
  simp only [serviceLines, List.mem_cons, List.not_mem_nil, or_false] at hline
  rcases hline with rfl | rfl | rfl | rfl | rfl | rfl | rfl
  · decide
  · decide
  · decide
  · decide
  · decide
  · exact newline_not_mem_start h
  · decide

/-- The service starts the command. -/
theorem readService_serviceLines {argv : List Units} (h : Clean argv) :
    readService (writeLines (serviceLines argv)) = some argv := by
  have hline : (serviceLines argv ++ [[]]).filterMap (behind (units "ExecStart=")) =
      [joinWords (argv.map unitArg)] := by
    have hbefore : [units "[Unit]", units "Description=Caveat private knowledge reception",
        units "[Service]", units "Type=oneshot", units "TimeoutStartSec=10min"].filterMap
          (behind (units "ExecStart=")) = [] := by decide
    have hafter : [units "SuccessExitStatus=2", []].filterMap (behind (units "ExecStart=")) = [] := by
      decide
    show (([units "[Unit]", units "Description=Caveat private knowledge reception", units "[Service]",
      units "Type=oneshot", units "TimeoutStartSec=10min"] ++
        [units "ExecStart=" ++ joinWords (argv.map unitArg)]) ++
          [units "SuccessExitStatus=2", []]).filterMap (behind (units "ExecStart=")) = _
    rw [List.filterMap_append, List.filterMap_append, hbefore, hafter,
      List.filterMap_cons_some (behind_append _ _)]
    rfl
  rw [readService, splitOn_serviceLines h, hline]
  show (splitUnitWords none (joinWords (argv.map unitArg))).bind (fun words => words.mapM unitValue) = _
  rw [splitUnitWords_joinWords, Option.bind_some]
  exact mapM_eq_some_of_forall unitValue_doubled argv

/-! ## XML -/

theorem lawfulEntities : LawfulEntities (unitOf '&') (unitOf ';') xmlEntities where
  amp := by decide
  semi := by decide
  names := by decide

theorem unescapeXml_xml (value : Units) : unescapeXml (xml value) = some value :=
  unescapeText_escapeText lawfulEntities value

theorem lt_not_mem_xml (value : Units) : unitOf '<' ∉ xml value :=
  not_mem_escapeText (by decide) (by decide) (by decide) (by decide) value

/-- Parts that are read back. -/
def AllPlain (parts : List (MarkupPart UInt16)) : Prop := ∀ p ∈ parts, p.Plain (unitOf '<') (unitOf '>')

instance (parts : List (MarkupPart UInt16)) : Decidable (AllPlain parts) :=
  inferInstanceAs (Decidable (∀ p ∈ parts, p.Plain (unitOf '<') (unitOf '>')))

theorem allPlain_append (parts parts' : List (MarkupPart UInt16)) :
    AllPlain (parts ++ parts') ↔ AllPlain parts ∧ AllPlain parts' := List.forall_mem_append

theorem plain_element {name : String} (hname : unitOf '>' ∉ units name) {text : Units}
    (htext : unitOf '<' ∉ text) : AllPlain (element name text) := by
  intro p hp
  simp only [element, List.mem_cons, List.not_mem_nil, or_false] at hp
  rcases hp with rfl | rfl
  · exact ⟨hname, htext⟩
  · refine ⟨fun hmem => ?_, List.not_mem_nil⟩
    rcases List.mem_cons.mp hmem with hmem | hmem
    · exact absurd hmem (by decide)
    · exact hname hmem

theorem map_tag_element (name : String) (text : Units) :
    (element name text).map MarkupPart.tag = [units name, unitOf '/' :: units name] := rfl

/-- Parts of other names are passed over. -/
theorem filterMap_of_not_mem {name : Units} {parts : List (MarkupPart UInt16)}
    (h : name ∉ parts.map MarkupPart.tag) :
    (parts.filterMap fun p => if p.tag = name then some p.text else none) = [] := by
  refine List.filterMap_eq_nil_iff.mpr fun p hp => if_neg fun he => h ?_
  exact List.mem_map.mpr ⟨p, hp, he⟩

/-- A text that is a digest in part holds no symbol of XML. -/
theorem lt_not_mem_id (sha : Sha256) (toLowerCase : Units → Units) (opts : ScheduleOptions) :
    unitOf '<' ∉ scheduleId sha toLowerCase opts := by
  intro hmem
  rcases List.mem_append.mp hmem with hmem | hmem
  · exact absurd hmem (by decide)
  · have hdigest := sha.isDigest_hash
      (toUtf8 (normalizePathCase toLowerCase opts.caveatHome opts.platform))
    rw [isDigest, Bool.and_eq_true] at hdigest
    have hhex := List.all_eq_true.mp hdigest.2 _ (List.mem_of_mem_take hmem)
    exact absurd hhex (by decide)

/-! ## Property lists -/

theorem plain_plistParts {label : Units} (hlabel : unitOf '<' ∉ label) (argv : List Units) :
    AllPlain (plistParts label argv) := by
  have hwords : AllPlain (argv.flatMap fun word => element "string" (xml word)) := by
    intro p hp
    obtain ⟨word, _, hp⟩ := List.mem_flatMap.mp hp
    exact plain_element (by decide) (lt_not_mem_xml word) p hp
  have hstring : AllPlain (element "string" label) := plain_element (by decide) hlabel
  simp only [plistParts, plistHead, allPlain_append, hwords, hstring, and_true]
  decide +kernel

theorem filterMap_strings (argv : List Units) :
    ((argv.flatMap fun word => element "string" (xml word)).filterMap fun p =>
      if p.tag = units "string" then some p.text else none) = argv.map xml := by
  induction argv with
  | nil => rfl
  | cons word argv ih =>
      rw [List.flatMap_cons, List.filterMap_append, ih, List.map_cons]
      have hclose : ¬ unitOf '/' :: units "string" = units "string" := by decide
      simp [element, hclose]

/-- The property list holds the command. -/
theorem readPlist_plistParts {label : Units} (hlabel : unitOf '<' ∉ label) (argv : List Units) :
    readPlist (writeXml (plistParts label argv)) = some argv := by
  have hhead : ∀ p ∈ plistHead label, decide (p.tag ≠ units "array") = true := by
    intro p hp
    have hmem : p.tag ∈ (plistHead label).map MarkupPart.tag := List.mem_map_of_mem hp
    have htags : ∀ t ∈ (plistHead label).map MarkupPart.tag, t ≠ units "array" := by
      have hclosed : (plistHead label).map MarkupPart.tag = (plistHead []).map MarkupPart.tag := by
        simp only [plistHead, List.map_append, map_tag_element]
      rw [hclosed]
      decide +kernel
    exact decide_eq_true (htags _ hmem)
  have hwords : ∀ p ∈ argv.flatMap (fun word => element "string" (xml word)),
      decide (p.tag ≠ units "/array") = true := by
    intro p hp
    obtain ⟨word, _, hp⟩ := List.mem_flatMap.mp hp
    simp only [element, List.mem_cons, List.not_mem_nil, or_false] at hp
    rcases hp with rfl | rfl
    · exact decide_eq_true (show units "string" ≠ units "/array" by decide)
    · exact decide_eq_true (show unitOf '/' :: units "string" ≠ units "/array" by decide)
  have hsplit : plistParts label argv = plistHead label ++ (tag "array" "" ::
      (argv.flatMap (fun word => element "string" (xml word)) ++ (tag "/array" "" ::
        (element "key" (units "StartInterval") ++ element "integer" (units "60") ++
          [tag "/dict" "", tag "/plist" "\n"])))) := by
    simp [plistParts]
  have hstart : decide ((tag "array" "").tag ≠ units "array") = false := by decide
  have hstop : decide ((tag "/array" "").tag ≠ units "/array") = false := by decide
  have hopen : (tag "array" "").tag ≠ units "/array" := by decide
  have hskip : (tag "array" "").tag ≠ units "string" := by decide
  rw [readPlist, writeXml, readParts_write (plain_plistParts hlabel argv), hsplit]
  simp only [Option.toList_none, List.nil_append]
  rw [List.dropWhile_append_of_pos hhead, List.dropWhile_cons_of_neg (by simp [hstart]),
    List.takeWhile_cons_of_pos (p := fun p : MarkupPart UInt16 => decide (p.tag ≠ units "/array"))
      (decide_eq_true hopen), List.takeWhile_append_of_pos hwords,
    List.takeWhile_cons_of_neg (by simp [hstop]), List.append_nil, List.filterMap_cons,
    if_neg hskip]
  show ((argv.flatMap fun word => element "string" (xml word)).filterMap fun p =>
    if p.tag = units "string" then some p.text else none).mapM unescapeXml = _
  rw [filterMap_strings]
  exact mapM_eq_some_of_forall unescapeXml_xml argv

/-! ## Tasks -/

theorem plain_taskParts {id : Units} (hid : unitOf '<' ∉ id) (userId command arguments : Units) :
    AllPlain (taskParts id userId command arguments) := by
  have htext : unitOf '<' ∉ units "Caveat private knowledge reception " ++ id := by
    intro hmem
    rcases List.mem_append.mp hmem with hmem | hmem
    · exact absurd hmem (by decide)
    · exact hid hmem
  have hdescription := plain_element (show unitOf '>' ∉ units "Description" by decide) htext
  have huser := plain_element (show unitOf '>' ∉ units "UserId" by decide) (lt_not_mem_xml userId)
  have hcommand := plain_element (show unitOf '>' ∉ units "Command" by decide) (lt_not_mem_xml command)
  have harguments :=
    plain_element (show unitOf '>' ∉ units "Arguments" by decide) (lt_not_mem_xml arguments)
  unfold taskParts taskHead
  simp only [allPlain_append, hdescription, huser, hcommand, harguments, and_true]
  decide +kernel

/-- The parts of a name, where neither the head nor the end of a task has any. -/
theorem filterMap_taskParts {name : Units} (id userId command arguments : Units)
    (hhead : name ∉ (taskHead [] []).map MarkupPart.tag)
    (hend : name ∉ [tag "/Exec" "", tag "/Actions" "", tag "/Task" "\n"].map MarkupPart.tag) :
    ((taskParts id userId command arguments).filterMap fun p =>
      if p.tag = name then some p.text else none) =
      (element "Command" (xml command) ++ element "Arguments" (xml arguments)).filterMap fun p =>
        if p.tag = name then some p.text else none := by
  have htags : (taskHead id userId).map MarkupPart.tag = (taskHead [] []).map MarkupPart.tag := by
    unfold taskHead
    simp only [List.map_append, map_tag_element]
  have hnone : name ∉ (taskHead id userId).map MarkupPart.tag := by
    rw [htags]
    exact hhead
  rw [taskParts, List.append_assoc, List.append_assoc, List.filterMap_append,
    filterMap_of_not_mem hnone, List.nil_append, ← List.append_assoc, List.filterMap_append, filterMap_of_not_mem hend, List.append_nil]

theorem textsOf_command {id : Units} (hid : unitOf '<' ∉ id) (userId command arguments : Units) :
    textsOf (unitOf '<') (unitOf '>') (units "Command")
      (writeXml (taskParts id userId command arguments)) = [xml command] := by
  rw [writeXml, textsOf_write (plain_taskParts hid userId command arguments),
    filterMap_taskParts _ _ _ _ (by decide +kernel) (by decide)]
  have hopen : ¬ units "Arguments" = units "Command" := by decide
  have hclose : ¬ unitOf '/' :: units "Command" = units "Command" := by decide
  have hother : ¬ unitOf '/' :: units "Arguments" = units "Command" := by decide
  simp [element, hopen, hclose, hother]

theorem textsOf_arguments {id : Units} (hid : unitOf '<' ∉ id) (userId command arguments : Units) :
    textsOf (unitOf '<') (unitOf '>') (units "Arguments")
      (writeXml (taskParts id userId command arguments)) = [xml arguments] := by
  rw [writeXml, textsOf_write (plain_taskParts hid userId command arguments),
    filterMap_taskParts _ _ _ _ (by decide +kernel) (by decide)]
  have hopen : ¬ units "Command" = units "Arguments" := by decide
  have hclose : ¬ unitOf '/' :: units "Command" = units "Arguments" := by decide
  have hother : ¬ unitOf '/' :: units "Arguments" = units "Arguments" := by decide
  simp [element, hopen, hclose, hother]

/-- The task runs the command. -/
theorem readTask_taskParts {id : Units} (hid : unitOf '<' ∉ id) (userId command : Units)
    (words : List Units) :
    readTask (writeXml (taskParts id userId command (joinWords (words.map quoteWindowsArgument)))) =
      some (command :: words) := by
  have hcommand := textsOf_command hid userId command (joinWords (words.map quoteWindowsArgument))
  have harguments := textsOf_arguments hid userId command (joinWords (words.map quoteWindowsArgument))
  have hsplit : splitArguments (unitOf '"') (unitOf '\\') isBlank none
      (joinWords (words.map quoteWindowsArgument)) = words :=
    splitArguments_join (by decide) (by decide) (by decide) (by decide) words
  unfold readTask
  rw [hcommand, harguments]
  simp only [unescapeXml_xml, hsplit]

/-! ## Every definition -/

theorem clean_argv {opts : ScheduleOptions}
    (h : [opts.caveatHome, opts.userHome, opts.nodePath, opts.cliPath].all
      (fun path => isAbsolute opts.platform path && !path.any isControl) = true) : Clean opts.argv := by
  have hpath : ∀ path ∈ [opts.caveatHome, opts.userHome, opts.nodePath, opts.cliPath],
      ∀ u ∈ path, isControl u = false := by
    intro path hpath u hu
    have hclean := List.all_eq_true.mp h path hpath
    rw [Bool.and_eq_true, Bool.not_eq_true', List.any_eq_false] at hclean
    simpa using hclean.2 u hu
  have hplain : ([units "autosync", units "run", units "--json", units "--caveat-home",
      units "--user-home"].all fun word => !word.any isControl) = true := by decide
  have hfixed : ∀ word ∈ [units "autosync", units "run", units "--json", units "--caveat-home",
      units "--user-home"], ∀ u ∈ word, isControl u = false := by
    intro word hword u hu
    have hclean := List.all_eq_true.mp hplain word hword
    rw [Bool.not_eq_true', List.any_eq_false] at hclean
    simpa using hclean u hu
  intro word hword
  simp only [ScheduleOptions.argv, ScheduleOptions.words, List.mem_cons, List.not_mem_nil, or_false]
    at hword
  rcases hword with rfl | rfl | rfl | rfl | rfl | rfl | rfl | rfl | rfl
  · exact hpath _ (by simp)
  · exact hpath _ (by simp)
  · exact hfixed _ (by simp)
  · exact hfixed _ (by simp)
  · exact hfixed _ (by simp)
  · exact hfixed _ (by simp)
  · exact hpath _ (by simp)
  · exact hfixed _ (by simp)
  · exact hpath _ (by simp)

/-- **A definition stands for its command**: read as its system reads it, it gives the words that are
reported. -/
theorem schedule_definition_reads_argv (sha : Sha256) (toLowerCase : Units → Units)
    (opts : ScheduleOptions) (definition : Definition)
    (h : nativeSyncSchedule sha toLowerCase opts = .ok definition) :
    readArgv definition = some definition.argv := by
  have hid := lt_not_mem_id sha toLowerCase opts
  unfold nativeSyncSchedule at h
  split at h
  · cases h
  · rename_i hpaths
    have hclean := clean_argv (not_not.mp hpaths)
    split at h
    · rw [← Except.ok.inj h]
      simp only [readArgv, List.head?_cons, Option.bind_some]
      exact readService_serviceLines hclean
    · split at h
      · cases h
      · rw [← Except.ok.inj h]
        simp only [readArgv, List.head?_cons, Option.bind_some]
        refine readPlist_plistParts (fun hmem => ?_) opts.argv
        rcases List.mem_append.mp hmem with hmem | hmem
        · exact absurd hmem (by decide)
        · exact hid hmem
    · split at h
      · cases h
      · rw [← Except.ok.inj h]
        simp only [readArgv, List.head?_cons, Option.bind_some]
        exact readTask_taskParts hid _ opts.nodePath opts.words
    · cases h

/-! ### Paths with special symbols -/

theorem isDigest_zeros : isDigest (List.replicate 64 (unitOf '0')) = true := by decide

/-- A hash that is always the same. -/
def zeroSha : Sha256 := ⟨fun _ => List.replicate 64 (unitOf '0'), fun _ => isDigest_zeros⟩

def specialOptions (platform : Platform) : ScheduleOptions where
  caveatHome := units "/a \"b\\"
  userHome := units "/%h$x"
  nodePath := units "/<n>&"
  cliPath := units "/c\\\"'"
  platform := platform
  uid := some (.finite 501)
  userId := some (units "S-1-5")

theorem exists_definition_special (platform : Platform) (h : platform ≠ .other) :
    ∃ definition, nativeSyncSchedule zeroSha (fun path => path) (specialOptions platform) =
      .ok definition := by
  cases platform with
  | linux => exact ⟨_, rfl⟩
  | darwin => exact ⟨_, rfl⟩
  | win32 => exact ⟨_, rfl⟩
  | other => exact absurd rfl h

theorem schedule_definition_reads_argv_special :
    (∃ definition, nativeSyncSchedule zeroSha (fun path => path) (specialOptions .linux) =
      .ok definition ∧ readArgv definition = some definition.argv) ∧
    (∃ definition, nativeSyncSchedule zeroSha (fun path => path) (specialOptions .darwin) =
      .ok definition ∧ readArgv definition = some definition.argv) ∧
    (∃ definition, nativeSyncSchedule zeroSha (fun path => path) (specialOptions .win32) =
      .ok definition ∧ readArgv definition = some definition.argv) := by
  obtain ⟨unit, hunit⟩ := exists_definition_special .linux (by simp)
  obtain ⟨plist, hplist⟩ := exists_definition_special .darwin (by simp)
  obtain ⟨task, htask⟩ := exists_definition_special .win32 (by simp)
  exact ⟨⟨unit, hunit, schedule_definition_reads_argv _ _ _ _ hunit⟩,
    ⟨plist, hplist, schedule_definition_reads_argv _ _ _ _ hplist⟩,
    ⟨task, htask, schedule_definition_reads_argv _ _ _ _ htask⟩⟩

end Caveat.Sync.Schedule
