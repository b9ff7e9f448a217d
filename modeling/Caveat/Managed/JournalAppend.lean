import Caveat.Managed.JournalCrash

/-!
# What an append adds

An append that changes a journal's file has begun to write one event more, and the event may follow
those before it. So the file of a journal is known by its events, and who appends an intent knows that
none is open and that no result before it is unknown.
-/

namespace Caveat.Managed

open Js

variable {doubles : Doubles} {sha : Sha256} {plan : Units} {f : JournalFile} {e e' : JournalEvent}
  {es : List JournalEvent} {row : JsObject} {n n' : Nat} {prev prev' : Units} {fault : AppendFault}

/-! ## Events of records -/

theorem IsRecord.field_eq (h : IsRecord row n prev e) (h' : IsRecord row n' prev' e') {name : Text}
    {x y : Json} (hx : (unitsOf name, x) ∈ e.fields) (hy : (unitsOf name, y) ∈ e'.fields) : x = y :=
  Option.some.inj ((h.field hx).symm.trans (h'.field hy))

theorem operation_eq {o o' : GlobalJournalOperation}
    (h : Json.string (unitsOf o.text) = .string (unitsOf o'.text)) : o = o' := by
  have hsome := operation?_text o
  rw [Json.string.inj h, operation?_text] at hsome
  exact (Option.some.inj hsome).symm

theorem outcome_eq {o o' : JournalOutcome} (h : Json.string o.units = .string o'.units) : o = o' := by
  cases o <;> cases o'
  · rfl
  · exact absurd (Json.string.inj h) (by decide)
  · exact absurd (Json.string.inj h) (by decide)
  · rfl

/-- A row is the record of one event. -/
theorem IsRecord.event_eq (h : IsRecord row n prev e) (h' : IsRecord row n' prev' e') : e = e' := by
  have hkind : e.kind = e'.kind := h.kind.symm.trans h'.kind
  cases e with
  | intent step operation stateSha256 =>
      cases e' with
      | intent step' operation' stateSha256' =>
          have hstep := h.field_eq h' (.tail _ (.head _)) (.tail _ (.head _))
          have hoperation := h.field_eq h' (.tail _ (.tail _ (.head _))) (.tail _ (.tail _ (.head _)))
          have hsha := h.field_eq h' (.tail _ (.tail _ (.tail _ (.head _))))
            (.tail _ (.tail _ (.tail _ (.head _))))
          rw [Json.string.inj hstep, operation_eq hoperation, Json.string.inj hsha]
      | result => cases hkind
      | complete => cases hkind
  | result step operation outcome stateSha256 =>
      cases e' with
      | intent => cases hkind
      | result step' operation' outcome' stateSha256' =>
          have hstep := h.field_eq h' (.tail _ (.head _)) (.tail _ (.head _))
          have hoperation := h.field_eq h' (.tail _ (.tail _ (.head _))) (.tail _ (.tail _ (.head _)))
          have houtcome := h.field_eq h' (.tail _ (.tail _ (.tail _ (.head _))))
            (.tail _ (.tail _ (.tail _ (.head _))))
          have hsha := h.field_eq h' (.tail _ (.tail _ (.tail _ (.tail _ (.head _)))))
            (.tail _ (.tail _ (.tail _ (.tail _ (.head _)))))
          rw [Json.string.inj hstep, operation_eq hoperation, outcome_eq houtcome]
          cases stateSha256 with
          | none => cases stateSha256' with
            | none => rfl
            | some _ => cases hsha
          | some s => cases stateSha256' with
            | none => cases hsha
            | some s' => rw [Json.string.inj hsha]
      | complete => cases hkind
  | complete stateSha256 =>
      cases e' with
      | intent => cases hkind
      | result => cases hkind
      | complete stateSha256' =>
          have hsha := h.field_eq h' (.tail _ (.head _)) (.tail _ (.head _))
          rw [Json.string.inj hsha]

/-! ## One more record -/

/-- One more line is read from where the others were. -/
theorem readLines_snoc {lines : List Text} {header : JsObject} {st : JournalState} {text : Text}
    (h : readLines doubles sha plan lines = .ok (header, st)) :
    readLines doubles sha plan (lines ++ [text]) =
      (readRow doubles sha st text).map (fun st' => (header, st')) := by
  cases lines with
  | nil => cases h
  | cons first lines =>
      rw [readLines] at h
      rw [List.cons_append, readLines]
      cases hdecode : decodeRecord doubles first with
      | error err =>
          rw [hdecode] at h
          cases h
      | ok header' =>
          rw [hdecode] at h
          dsimp only at h ⊢
          cases hcheck : checkHeader plan header' with
          | error err =>
              rw [hcheck] at h
              cases h
          | ok _ =>
              rw [hcheck] at h
              dsimp only at h ⊢
              rw [List.foldlM_append]
              cases hfold : lines.foldlM (readRow doubles sha)
                  { previousSha256 := sha.hash (encodeUtf8 (first ++ ['\n'])) } with
              | error err =>
                  rw [hfold] at h
                  cases h
              | ok st₀ =>
                  rw [hfold] at h
                  obtain ⟨rfl, rfl⟩ := Prod.mk.inj (Except.ok.inj h)
                  cases hrow : readRow doubles sha st₀ text <;>
                    simp [bind, Except.bind, hrow, Except.map, pure, Except.pure]

section Append

variable {header : JsObject} {rows : List JsObject} {last : Units} {j : ParsedJournal}

/-- The lines of a legal journal and of one record more. -/
theorem LegalJournal.linesOf_snoc (h : LegalJournal doubles sha plan header rows es last) :
    LinesOf (serialize doubles header rows ++ line doubles (recordOf (rows.length + 1) last e)) []
      (journalLines doubles header rows ++
        [stringify doubles (.object (recordOf (rows.length + 1) last e))]) [] := by
  have hlines := h.lines
  obtain ⟨hnewline, rest, hbrace⟩ := newline_not_mem_record doubles (rows.length + 1)
    (by unfold maxJournalLines at hlines; omega) last e
  have hbytes : serialize doubles header rows ++ line doubles (recordOf (rows.length + 1) last e) =
      encodeUtf8 (unlines (journalLines doubles header rows ++
        [stringify doubles (.object (recordOf (rows.length + 1) last e))])) := by
    rw [unlines_append, encodeUtf8_append, ← serialize_eq, unlines_cons, unlines_nil]
    rfl
  refine ⟨?_, .inr ⟨rfl, fun heq => ?_⟩, by simp, fun l hl => ?_, List.not_mem_nil⟩
  · rw [← hbytes, List.nil_append, List.append_nil]
  · have hhead := congrArg List.head? heq
    rw [← hbytes, List.head?_take, if_neg (by omega), List.head?_append, h.head] at hhead
    exact absurd hhead (by simp [bom])
  · rcases List.mem_append.mp hl with hl | hl
    · exact (h.newline l hl).1
    · rw [List.mem_singleton.mp hl]
      exact hnewline

/-- Bytes have one list of lines, where neither a mark nor a torn record is with them. -/
theorem LinesOf.unique {bytes mark torn : Bytes} {lines lines' : List Text}
    (h : LinesOf bytes [] lines []) (h' : LinesOf bytes mark lines' torn) (hmark : mark = [])
    (htorn : torn = []) : lines' = lines := by
  have hbytes : encodeUtf8 (unlines lines') = encodeUtf8 (unlines lines) := by
    have heq := h'.bytes.symm.trans h.bytes
    rw [hmark, htorn] at heq
    simpa using heq
  have htext : unlines lines' = unlines lines := by
    have heq := congrArg decodeUtf8 hbytes
    rwa [decodeUtf8_encodeUtf8, decodeUtf8_encodeUtf8] at heq
  have hsplit := congrArg (·.splitOn '\n') htext
  rw [splitOn_unlines h.newline, splitOn_unlines h'.newline] at hsplit
  exact List.append_cancel_right hsplit

/-- The fields of a record are read back as they were written. -/
theorem reads_record (n : Nat) (hn : n < 2 ^ 53) (prev : Units) (e : JournalEvent) :
    ∀ m ∈ recordOf n prev e, Reads doubles.round (stringify doubles m.2) m.2 := by
  intro m hm
  rcases List.mem_cons.mp hm with rfl | hm
  · exact reads_nat hn
  rcases List.mem_cons.mp hm with rfl | hm
  · exact reads_string prev
  cases e with
  | intent step operation stateSha256 =>
      simp only [JournalEvent.fields, List.mem_cons, List.not_mem_nil, or_false] at hm
      rcases hm with rfl | rfl | rfl | rfl <;> exact reads_string _
  | result step operation outcome stateSha256 =>
      simp only [JournalEvent.fields, List.mem_cons, List.not_mem_nil, or_false] at hm
      rcases hm with rfl | rfl | rfl | rfl | rfl
      · exact reads_string _
      · exact reads_string _
      · exact reads_string _
      · exact reads_string _
      · cases stateSha256 with
        | none => exact reads_null
        | some s => exact reads_string s
  | complete stateSha256 =>
      simp only [JournalEvent.fields, List.mem_cons, List.not_mem_nil, or_false] at hm
      rcases hm with rfl | rfl <;> exact reads_string _

/-- What an accepted append makes of a legal journal. -/
structure Appended (doubles : Doubles) (sha : Sha256) (plan : Units) (header : JsObject)
    (rows : List JsObject) (es : List JournalEvent) (last : Units) (e : JournalEvent)
    (j : ParsedJournal) : Prop where
  follows : Follows es e
  records : j.records = rows ++ [recordOf (rows.length + 1) last e]
  legal : ∃ last', LegalJournal doubles sha plan header
    (rows ++ [recordOf (rows.length + 1) last e]) (es ++ [e]) last'
  length : (serialize doubles header (rows ++ [recordOf (rows.length + 1) last e])).length ≤
    maxJournalBytes

theorem serialize_snoc (row : JsObject) :
    serialize doubles header (rows ++ [row]) = serialize doubles header rows ++ line doubles row := by
  rw [serialize, serialize, ← List.cons_append, List.flatMap_append, List.flatMap_singleton]

/-- **A line that is accepted behind a legal journal** is the record of an event that follows. -/
theorem LegalJournal.append (h : LegalJournal doubles sha plan header rows es last)
    (hparse : parseGlobalMutationJournal doubles sha
      (serialize doubles header rows ++ line doubles (recordOf (rows.length + 1) last e)) plan = .ok j) :
    Appended doubles sha plan header rows es last e j := by
  have hlast : (serialize doubles header rows ++
      line doubles (recordOf (rows.length + 1) last e)).getLast? = some 10 := by
    rw [List.getLast?_append, line_getLast?]
    rfl
  obtain ⟨mark, lines, torn, header', st', hlines, -, hlen, hcount, hread, rfl⟩ :=
    linesOf_of_parse hparse
  have htorn : torn = [] := List.length_eq_zero_iff.mp (tornBytes_eq_zero hparse hlast)
  have hmark : mark = [] := by
    rcases hlines.mark with rfl | ⟨rfl, -⟩
    · -- the file begins with a brace
      have hhead := congrArg List.head? hlines.bytes
      rw [List.head?_append, h.head] at hhead
      exact absurd hhead (by simp [bom])
    · rfl
  rw [h.linesOf_snoc.unique hlines hmark htorn] at hread hcount
  obtain ⟨runId, hrun, hperm⟩ := h.headed
  obtain ⟨st, hst, hrecords, hprev, htracks⟩ :=
    readLines_of_records h.planned hrun hperm h.records h.lines h.bound
  rw [readLines_snoc hst] at hread
  obtain ⟨st'', hrow, hpair⟩ : ∃ st'', readRow doubles sha st
      (stringify doubles (.object (recordOf (rows.length + 1) last e))) = .ok st'' ∧
        (header, st'') = (header', st') := by
    cases hrow : readRow doubles sha st
        (stringify doubles (.object (recordOf (rows.length + 1) last e))) with
    | error err =>
        rw [hrow] at hread
        cases hread
    | ok st'' =>
        rw [hrow] at hread
        exact ⟨st'', rfl, Except.ok.inj hread⟩
  obtain ⟨rfl, rfl⟩ := Prod.mk.inj hpair
  -- what is read back is what was written
  have hrecord : IsRecord (recordOf (rows.length + 1) last e) (rows.length + 1) last e := List.Perm.refl _
  obtain ⟨row, hdecode, e', hrecord', hvalid, hfollows⟩ := holdsEvent_of_readRow htracks hrow
  obtain ⟨htext, hbound⟩ := decodeRecord_ok (plainNames_row e'.kind) hdecode hrecord'.keys
  have hline : line doubles row = line doubles (recordOf (rows.length + 1) last e) := by
    rw [line, line, lineText, lineText, htext]
  have hcounted : rows.length + 1 < maxJournalLines := by
    rw [List.length_append, List.length_singleton, journalLines, List.length_map,
      List.length_cons] at hcount
    omega
  rw [hline] at hbound
  have hdecode' := decodeRecord_stringify doubles (plainNames_row e.kind) hrecord.keys
    (reads_record _ (by unfold maxJournalLines at hcounted; omega) last e) hbound
  obtain rfl : row = recordOf (rows.length + 1) last e :=
    Except.ok.inj (hdecode.symm.trans hdecode')
  obtain rfl := hrecord'.event_eq hrecord
  obtain ⟨st₁, hread₁, hextends, -⟩ := readRow_of_isRecord sha htracks hdecode hrecord' hvalid hfollows
  obtain rfl : st'' = st₁ := Except.ok.inj (hrow.symm.trans hread₁)
  refine ⟨hfollows, ?_, ⟨_, h.planned, h.headed, .snoc h.records hrecord hvalid hfollows, ?_, ?_⟩, ?_⟩
  · show st''.records = _
    rw [hextends.records, hrecords]
  · rw [List.length_append, List.length_singleton]
    exact hcounted
  · intro v hv
    rcases List.mem_cons.mp hv with rfl | hv
    · exact h.bound _ List.mem_cons_self
    · rcases List.mem_append.mp hv with hv | hv
      · exact h.bound v (List.mem_cons_of_mem _ hv)
      · rw [List.mem_singleton.mp hv]
        exact hbound
  · rw [serialize_snoc]
    exact hlen

end Append

/-- Where nothing fails, an event that may follow a legal journal is written, as the bounds admit. -/
theorem LegalJournal.appendEvent_ok {es' : List JournalEvent} {header : JsObject}
    {last last' : Units} (h : LegalJournal doubles sha plan header f.attempted es last)
    (hopen : f.failed = false) (hbytes : f.bytes = serialize doubles header f.attempted)
    (h' : LegalJournal doubles sha plan header
      (f.attempted ++ [recordOf (f.attempted.length + 1) last e]) es' last')
    (hlen : (serialize doubles header
      (f.attempted ++ [recordOf (f.attempted.length + 1) last e])).length ≤ maxJournalBytes) :
    ∃ j, appendEvent doubles sha plan f e .none = (.ok j, {
      bytes := serialize doubles header (f.attempted ++ [recordOf (f.attempted.length + 1) last e])
      attempted := f.attempted ++ [recordOf (f.attempted.length + 1) last e] }) := by
  obtain ⟨st', hparse', hrecords', -, -⟩ := h'.parse (.inr rfl) List.not_mem_nil
    (by rw [List.nil_append, List.append_nil]) hlen
  rw [serialize_snoc] at hlen hparse' ⊢
  rw [List.length_append] at hlen
  obtain ⟨st, hparse, hrecords, hprev, -⟩ := h.parse (.inr rfl) List.not_mem_nil
    (by rw [List.nil_append, List.append_nil]) (by omega)
  have hrecord := h'.bound _ (List.mem_cons_of_mem _ List.mem_concat_self)
  refine ⟨parsedOf sha (serialize doubles header f.attempted ++
    line doubles (recordOf (f.attempted.length + 1) last e)) [] header st', ?_⟩
  unfold appendEvent
  rw [if_neg (by rw [hopen]; exact Bool.false_ne_true), hbytes, hparse]
  dsimp only
  have hcurrent : recordOf (parsedOf sha (serialize doubles header f.attempted) [] header
      st).nextSequence (parsedOf sha (serialize doubles header f.attempted) [] header st).lastSha256 e =
        recordOf (f.attempted.length + 1) last e := by
    rw [ParsedJournal.nextSequence, parsedOf, hrecords, hprev]
  rw [hcurrent, hparse']
  dsimp only
  unfold writeRecord
  have hadmitted : ¬ (maxRecordBytes + 1 < (line doubles (recordOf (f.attempted.length + 1) last e)).length ∨
      maxJournalBytes < f.bytes.length +
        (line doubles (recordOf (f.attempted.length + 1) last e)).length) := by
    rw [hbytes]
    omega
  rw [if_neg (by rw [Bool.or_eq_true, decide_eq_true_iff, decide_eq_true_iff]; exact hadmitted), hbytes]
  dsimp only
  rw [parsedOf, hrecords']

/-! ## Journals by their events -/

/-- The file of a journal of these events, or a cut of it. -/
structure Written (doubles : Doubles) (sha : Sha256) (plan : Units) (f : JournalFile)
    (es : List JournalEvent) : Prop where
  legal : ∃ header last, LegalJournal doubles sha plan header f.attempted es last ∧
    (serialize doubles header f.attempted).length ≤ maxJournalBytes ∧
    f.bytes <+: serialize doubles header f.attempted ∧
    (f.failed = false → f.bytes = serialize doubles header f.attempted)

/-- **An append** leaves the file as it is and fails, or writes an event that follows. -/
theorem Written.append (h : Written doubles sha plan f es) (e : JournalEvent) (fault : AppendFault) :
    ((appendEvent doubles sha plan f e fault).2 = f ∧
        ∃ err, (appendEvent doubles sha plan f e fault).1 = .error err) ∨
      (f.failed = false ∧ Follows es e ∧
        Written doubles sha plan (appendEvent doubles sha plan f e fault).2 (es ++ [e]) ∧
        ((appendEvent doubles sha plan f e fault).1.isOk = true →
          (appendEvent doubles sha plan f e fault).2.failed = false)) := by
  obtain ⟨header, last, hlegal, hlen, hprefix, hwhole⟩ := h.legal
  unfold appendEvent
  split
  · exact .inl ⟨rfl, _, rfl⟩
  rename_i hfailed
  have hopen : f.failed = false := by simpa using hfailed
  obtain ⟨st, hparse, hrecords, hprev, -⟩ := hlegal.parse (.inr rfl) List.not_mem_nil
    (by rw [List.nil_append, List.append_nil]) hlen
  rw [hwhole hopen, hparse]
  dsimp only
  split
  · exact .inl ⟨rfl, _, rfl⟩
  rename_i next hnext
  have hcurrent : line doubles (recordOf (parsedOf sha (serialize doubles header f.attempted) [] header
      st).nextSequence (parsedOf sha (serialize doubles header f.attempted) [] header st).lastSha256 e) =
        line doubles (recordOf (f.attempted.length + 1) last e) := by
    rw [ParsedJournal.nextSequence, parsedOf, hrecords, hprev]
  rw [hcurrent] at hnext ⊢
  obtain ⟨hfollows, hnextrecords, ⟨last', hlegal'⟩, hlen'⟩ := hlegal.append hnext
  unfold writeRecord
  split
  · exact .inl ⟨rfl, _, rfl⟩
  have hbytes : f.bytes ++ line doubles (recordOf (f.attempted.length + 1) last e) =
      serialize doubles header next.records := by
    rw [hwhole hopen, hnextrecords, serialize_snoc]
  have hstarts : f.bytes ++ line doubles (recordOf (f.attempted.length + 1) last e) <+:
      serialize doubles header next.records := hbytes ▸ List.prefix_rfl
  have hwritten : ∀ f' : JournalFile, f'.attempted = next.records →
      f'.bytes <+: serialize doubles header next.records →
      (f'.failed = false → f'.bytes = serialize doubles header next.records) →
        Written doubles sha plan f' (es ++ [e]) := by
    intro f' hattempted hprefix' hwhole'
    refine ⟨header, last', ?_, ?_, ?_, ?_⟩
    · rw [hattempted, hnextrecords]
      exact hlegal'
    · rw [hattempted, hnextrecords]
      exact hlen'
    · rw [hattempted]
      exact hprefix'
    · rw [hattempted]
      exact hwhole'
  cases fault with
  | refused => exact .inl ⟨rfl, _, rfl⟩
  | none =>
      exact .inr ⟨hopen, hfollows, hwritten _ rfl hstarts fun _ => hbytes, fun _ => rfl⟩
  | torn written =>
      refine .inr ⟨hopen, hfollows, hwritten _ rfl ?_ nofun, nofun⟩
      rw [← hbytes]
      exact (List.prefix_append_right_inj _).mpr (List.take_prefix _ _)
  | unconfirmed =>
      exact .inr ⟨hopen, hfollows, hwritten _ rfl hstarts nofun, nofun⟩
  | unread =>
      exact .inr ⟨hopen, hfollows, hwritten _ rfl hstarts (fun _ => hbytes), nofun⟩

theorem written_start (h : JournalStart doubles plan f) : Written doubles sha plan f [] := by
  have hstart : WritesLegal doubles sha plan f := writesLegal_start h
  obtain ⟨header, es, last, hlegal, hlen, hprefix, hwhole⟩ := hstart.legal
  have hattempted : f.attempted = [] := by cases h <;> rfl
  have hnil : es = [] := by
    rw [hattempted] at hlegal
    generalize hrows : ([] : List JsObject) = rows at hlegal
    cases hlegal.records with
    | nil => rfl
    | snoc _ _ _ _ => exact absurd hrows (by simp)
  rw [hnil] at hlegal
  exact ⟨header, last, hlegal, hlen, hprefix, hwhole⟩

theorem Written.grammatical (h : Written doubles sha plan f es) : Grammatical es := by
  obtain ⟨header, last, hlegal, -⟩ := h.legal
  exact hlegal.records.grammatical

/-- Each row is the record of its event. -/
def RecordsOf (rows : List JsObject) (es : List JournalEvent) : Prop :=
  List.Forall₂ (fun row e => ∃ n prev, IsRecord row n prev e) rows es

/-- The file of a journal that did not fail is read back. -/
theorem Written.parse (h : Written doubles sha plan f es) (hopen : f.failed = false) :
    ∃ j st, parseGlobalMutationJournal doubles sha f.bytes plan = .ok j ∧ RecordsOf j.records es ∧
      j.status = statusOf [] st ∧ Tracks st es := by
  obtain ⟨header, last, hlegal, hlen, -, hwhole⟩ := h.legal
  obtain ⟨st, hparse, hrecords, -, htracks⟩ := hlegal.parse (.inr rfl) List.not_mem_nil
    (by rw [List.nil_append, List.append_nil]) hlen
  refine ⟨_, st, by rw [hwhole hopen]; exact hparse, ?_, rfl, htracks⟩
  show RecordsOf st.records es
  rw [hrecords]
  exact hlegal.records.forall₂

/-- What can be read of any cut is records of the first events. -/
theorem Written.parse_cut (h : Written doubles sha plan f es) {j : ParsedJournal}
    (hparse : parseGlobalMutationJournal doubles sha f.bytes plan = .ok j) :
    ∃ es', es' <+: es ∧ RecordsOf j.records es' := by
  obtain ⟨header, last, hlegal, hlen, hprefix, -⟩ := h.legal
  have hheader : (10 : UInt8) ∈ f.bytes := by
    obtain ⟨mark, lines, torn, header', st, hlines, -⟩ := linesOf_of_parse hparse
    obtain ⟨w, hw⟩ := exists_newline hlines.nonempty
    rw [hlines.bytes, hw]
    simp
  obtain ⟨j', hparse', hrows⟩ := hlegal.parse_cut hlen hprefix hheader
  obtain rfl := Except.ok.inj (hparse.symm.trans hparse')
  have hall := hlegal.records.forall₂
  rw [List.prefix_iff_eq_take.mp hrows]
  exact ⟨es.take j.records.length, List.take_prefix _ _, List.forall₂_take _ hall⟩

/-- Nothing before an event that follows is unknown or the last. -/
theorem Grammatical.open (h : Grammatical es) (hclosed : closed es = false) :
    ∀ e ∈ es, e.closes = false := by
  intro e he
  obtain ⟨before, after, rfl⟩ := List.append_of_mem he
  cases hcloses : e.closes with
  | false => rfl
  | true =>
      have hafter := h.closing before e after rfl hcloses
      rw [hafter, closed, getLast?_snoc, Option.any_some] at hclosed
      rw [JournalEvent.closes, hclosed] at hcloses
      cases hcloses

/-- Where no intent is open, every step has its result. -/
theorem Grammatical.settled (h : Grammatical es) (hopen : openIntent es = none) :
    Managed.unsettled es = [] := by
  obtain ⟨heq, -⟩ := h.opens
  rw [hopen, Option.map_none, Option.toList_none, List.append_nil] at heq
  rw [Managed.unsettled, heq, List.filter_eq_nil_iff]
  simp

/-- What is left without the last event. -/
theorem Grammatical.init (h : Grammatical (es ++ [e])) : Grammatical es := by
  generalize hes : es ++ [e] = es' at h
  cases h with
  | nil => exact absurd hes (by simp)
  | snoc hgrammatical _ =>
      rw [(List.append_inj' hes rfl).1]
      exact hgrammatical

/--
The journal says that a step is about to be done behind these events: its intent is the last record,
every intent before it has its result, and all these results are confirmed.
-/
structure Announced (doubles : Doubles) (sha : Sha256) (plan : Units) (f : JournalFile)
    (es : List JournalEvent) (step : Units) : Prop where
  read : ∃ j operation stateSha256, parseGlobalMutationJournal doubles sha f.bytes plan = .ok j ∧
    j.status = .pending ∧ RecordsOf j.records (es ++ [.intent step operation stateSha256])
  settled : unsettled es = []
  confirmed : ∀ e ∈ es, e.closes = false

/-- Who has appended an intent may rely on the journal. -/
theorem Written.announced {step stateSha256 : Units} {operation : GlobalJournalOperation}
    (h : Written doubles sha plan f (es ++ [.intent step operation stateSha256]))
    (hfollows : Follows es (.intent step operation stateSha256)) (hopen : f.failed = false) :
    Announced doubles sha plan f es step := by
  obtain ⟨j, st, hparse, hrecords, hstatus, htracks⟩ := h.parse hopen
  have hgrammatical := h.grammatical.init
  refine ⟨⟨j, operation, stateSha256, hparse, ?_, hrecords⟩, hgrammatical.settled hfollows.2.1,
    hgrammatical.open hfollows.1⟩
  have hlast : openIntent (es ++ [JournalEvent.intent step operation stateSha256]) =
      some (step, operation) := by
    rw [openIntent, getLast?_snoc]
  obtain ⟨p, hpending, -⟩ := htracks.pending step operation hlast
  have hunknown := htracks.unknown
  have hcomplete := htracks.complete
  rw [getLast?_snoc, Option.any_some] at hunknown hcomplete
  rw [hstatus, statusOf, if_neg (by simp), hunknown, hcomplete, hpending]
  rfl

end Caveat.Managed
