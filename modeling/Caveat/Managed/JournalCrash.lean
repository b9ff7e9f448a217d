import Caveat.Lib.Transition
import Caveat.Managed.JournalExact

/-!
# A journal that a crash cut

A journal's file is its canonical serialization, and after a write that failed a part of one. So a
cut of the file holds the header and the first records, and then a torn one. A journal with a torn
record takes no other: a second brace in the line would have to be in a string, and no field of a
record holds one.
-/

namespace Caveat.Managed

open Js

variable {doubles : Doubles} {sha : Sha256} {plan : Units} {f f' : JournalFile} {j : ParsedJournal}
  {es : List JournalEvent} {bytes : Bytes}

/-! ## Parsed journals -/

/-- The step that an event opens. -/
def JournalEvent.opens : JournalEvent → Option Units
  | .intent step _ _ => some step
  | _ => none

/-- Nothing may come after the event. -/
def JournalEvent.closes (e : JournalEvent) : Bool := e.isUnknown || e.isComplete

/-- The steps that have no result. -/
def unsettled (es : List JournalEvent) : List Units :=
  (es.filterMap JournalEvent.opens).filter (· ∉ es.filterMap JournalEvent.settles)

/-- **The rules of a parsed journal**, about the events that its records are. -/
structure JournalSound (j : ParsedJournal) (es : List JournalEvent) : Prop where
  records : List.Forall₂ (fun row e => ∃ n prev, IsRecord row n prev e) j.records es
  unique : (es.filterMap JournalEvent.opens).Nodup
  unsettled : (unsettled es).length ≤ 1
  closing : ∀ before e after, es = before ++ e :: after → e.closes = true → after = []

/-- Events that follow one another. -/
inductive Grammatical : List JournalEvent → Prop where
  | nil : Grammatical []
  | snoc {es : List JournalEvent} {e : JournalEvent} :
      Grammatical es → Follows es e → Grammatical (es ++ [e])

theorem Records.grammatical {first last : Units} {rows : List JsObject}
    (h : Records doubles sha first rows es last) : Grammatical es := by
  induction h with
  | nil => exact .nil
  | snoc _ _ _ hfollows ih => exact .snoc ih hfollows

theorem Records.forall₂ {first last : Units} {rows : List JsObject}
    (h : Records doubles sha first rows es last) :
    List.Forall₂ (fun row e => ∃ n prev, IsRecord row n prev e) rows es := by
  induction h with
  | nil => exact .nil
  | snoc _ hrecord _ _ ih => exact List.rel_append ih (.cons ⟨_, _, hrecord⟩ .nil)

theorem opens_snoc (es : List JournalEvent) (e : JournalEvent) :
    (es ++ [e]).filterMap JournalEvent.opens =
      es.filterMap JournalEvent.opens ++ e.opens.toList := by
  rw [List.filterMap_append]
  cases h : e.opens <;> simp [h]

theorem openIntent_snoc (es : List JournalEvent) (e : JournalEvent) :
    (openIntent (es ++ [e])).map Prod.fst = e.opens := by
  rw [openIntent, getLast?_snoc]
  cases e <;> rfl

/-- The steps that were opened: those that were settled, and the open one. -/
theorem Grammatical.opens (h : Grammatical es) :
    es.filterMap JournalEvent.opens =
        es.filterMap JournalEvent.settles ++ ((openIntent es).map Prod.fst).toList ∧
      (es.filterMap JournalEvent.opens).Nodup := by
  induction h with
  | nil => exact ⟨rfl, List.nodup_nil⟩
  | @snoc es e hgram hfollows ih =>
      obtain ⟨heq, hnodup⟩ := ih
      rw [settles_snoc, opens_snoc, openIntent_snoc]
      cases e with
      | intent step operation stateSha256 =>
          obtain ⟨hnone, hnew⟩ := hfollows.2
          rw [hnone, Option.map_none, Option.toList_none, List.append_nil] at heq
          rw [heq] at hnodup ⊢
          refine ⟨by simp [JournalEvent.settles], List.nodup_append.mpr ⟨hnodup, by simp [JournalEvent.opens], ?_⟩⟩
          rintro a ha b hb rfl
          have hb' : a = step := by simpa [JournalEvent.opens] using hb
          exact hnew (hb' ▸ ha)
      | result step operation outcome stateSha256 =>
          have hopenes : openIntent es = some (step, operation) := hfollows.2
          rw [hopenes] at heq
          refine ⟨?_, by simpa [JournalEvent.opens] using hnodup⟩
          rw [heq]
          simp [JournalEvent.opens, JournalEvent.settles]
      | complete stateSha256 =>
          have hopenes : openIntent es = none := hfollows.2
          rw [hopenes] at heq
          refine ⟨?_, by simpa [JournalEvent.opens] using hnodup⟩
          rw [heq]
          simp [JournalEvent.opens, JournalEvent.settles]

theorem Grammatical.unsettled (h : Grammatical es) : (unsettled es).length ≤ 1 := by
  obtain ⟨heq, _⟩ := h.opens
  rw [Managed.unsettled, heq, List.filter_append, List.filter_eq_nil_iff.mpr (by simp),
    List.nil_append]
  refine (List.length_filter_le _ _).trans ?_
  cases openIntent es <;> simp

theorem Grammatical.closing (h : Grammatical es) : ∀ before e after, es = before ++ e :: after →
    e.closes = true → after = [] := by
  induction h with
  | nil => exact fun before e after heq => absurd heq (by simp)
  | @snoc es e' hgram hfollows ih =>
      intro before e after heq hcloses
      rcases List.eq_nil_or_concat after with hnil | ⟨after', e'', hafter⟩
      · exact hnil
      · -- the event would be before the last one, which then cannot follow
        rw [hafter, List.concat_eq_append, ← List.cons_append, ← List.append_assoc] at heq
        obtain ⟨hes, -⟩ := List.append_inj' heq rfl
        have hlast := ih before e after' hes hcloses
        rw [hes, hlast] at hfollows
        have hopen := hfollows.1
        rw [closed, getLast?_snoc, Option.any_some] at hopen
        rw [JournalEvent.closes, hopen] at hcloses
        exact absurd hcloses (by simp)

/-- Every parsed journal keeps the rules. -/
theorem journalSound_of_parse (h : parseGlobalMutationJournal doubles sha bytes plan = .ok j) :
    ∃ es, JournalSound j es := by
  obtain ⟨mark, torn, es, last, _, _, _, _, _, _, hlegal⟩ := legal_of_parse h
  have hgram := hlegal.records.grammatical
  exact ⟨es, hlegal.records.forall₂, hgram.opens.2, hgram.unsettled, hgram.closing⟩

/-! ## Reachable journals -/

/-- The file is the journal of the records that were tried, whole or cut. -/
structure WritesLegal (doubles : Doubles) (sha : Sha256) (plan : Units) (f : JournalFile) : Prop where
  legal : ∃ header es last, LegalJournal doubles sha plan header f.attempted es last ∧
    (serialize doubles header f.attempted).length ≤ maxJournalBytes ∧
    f.bytes <+: serialize doubles header f.attempted ∧
    (f.failed = false → f.bytes = serialize doubles header f.attempted)

theorem writesLegal_start (h : JournalStart doubles plan f) : WritesLegal doubles sha plan f := by
  have hlegal : ∀ runId, isDigest plan = true → isRunId runId = true →
      (line doubles (headerOf plan runId)).length ≤ maxRecordBytes + 1 →
      LegalJournal doubles sha plan (headerOf plan runId) [] []
        (sha.hash (line doubles (headerOf plan runId))) :=
    fun runId hplan hrun hlen => ⟨hplan, ⟨runId, hrun, .refl _⟩, .nil, by decide, by
      intro v hv
      rw [List.mem_singleton.mp hv]
      exact hlen⟩
  have hserialize : ∀ runId, serialize doubles (headerOf plan runId) [] =
      line doubles (headerOf plan runId) := fun runId => by simp [serialize]
  have hbound : maxRecordBytes + 1 ≤ maxJournalBytes := by decide
  cases h with
  | @created runId hplan hrun hlen =>
      refine ⟨headerOf plan runId, [], _, hlegal runId hplan hrun hlen, ?_, ?_, fun _ => ?_⟩
      · rw [hserialize]
        omega
      · exact hserialize runId ▸ List.prefix_rfl
      · rw [hserialize]
  | @failed runId written hplan hrun hlen =>
      refine ⟨headerOf plan runId, [], _, hlegal runId hplan hrun hlen, ?_, ?_,
        fun hfailed => absurd hfailed (by simp)⟩
      · rw [hserialize]
        omega
      · rw [hserialize]
        exact List.take_prefix _ _

theorem tornBytes_eq_zero (h : parseGlobalMutationJournal doubles sha bytes plan = .ok j)
    (hlast : bytes.getLast? = some 10) : j.tornBytes = 0 := by
  obtain ⟨mark, torn, es, last, _, htorn, hbytes, hlen, _⟩ := legal_of_parse h
  rw [← hlen, List.length_eq_zero_iff]
  rcases List.eq_nil_or_concat torn with hnil | ⟨rest, b, hrest⟩
  · exact hnil
  · rw [hbytes, hrest, List.concat_eq_append, ← List.append_assoc, List.getLast?_concat] at hlast
    rw [hrest, List.concat_eq_append, Option.some.inj hlast] at htorn
    exact absurd (by simp) htorn

theorem line_getLast? (v : JsObject) : (line doubles v).getLast? = some 10 := by
  rw [line, lineText, encodeUtf8_append]
  exact List.getLast?_concat

variable (doubles sha plan) in
/-- An append leaves the file as it is, or begins to write a record that makes a legal journal. -/
theorem appendEvent_cases (f : JournalFile) (event : JournalEvent) (fault : AppendFault) :
    (appendEvent doubles sha plan f event fault).2 = f ∨
      f.failed = false ∧ ∃ next v,
        parseGlobalMutationJournal doubles sha (f.bytes ++ line doubles v) plan = .ok next ∧
        (appendEvent doubles sha plan f event fault).2.attempted = next.records ∧
        (appendEvent doubles sha plan f event fault).2.bytes <+: f.bytes ++ line doubles v ∧
        ((appendEvent doubles sha plan f event fault).2.failed = false →
          (appendEvent doubles sha plan f event fault).2.bytes = f.bytes ++ line doubles v) := by
  unfold appendEvent
  split
  · exact .inl rfl
  rename_i hfailed
  split
  · exact .inl rfl
  rename_i current hparse
  dsimp only
  split
  · exact .inl rfl
  rename_i next hnext
  unfold writeRecord
  split
  · exact .inl rfl
  have hopen : f.failed = false := by simpa using hfailed
  cases fault with
  | refused => exact .inl rfl
  | none =>
      exact .inr ⟨hopen, next, _, hnext, rfl, List.prefix_refl _, fun _ => rfl⟩
  | torn written =>
      refine .inr ⟨hopen, next, _, hnext, rfl, ?_, fun h => absurd h (by simp)⟩
      exact (List.prefix_append_right_inj _).mpr (List.take_prefix _ _)
  | unconfirmed =>
      exact .inr ⟨hopen, next, _, hnext, rfl, List.prefix_refl _, fun h => absurd h (by simp)⟩
  | unread =>
      exact .inr ⟨hopen, next, _, hnext, rfl, List.prefix_refl _, fun _ => rfl⟩

theorem writesLegal_step {a : JournalEvent × AppendFault} (h : WritesLegal doubles sha plan f)
    (hs : journalStep doubles sha plan f a = some f') : WritesLegal doubles sha plan f' := by
  cases hs
  rcases appendEvent_cases doubles sha plan f a.1 a.2 with
    hsame | ⟨hopen, next, v, hparse, hattempted, hstarts, hwhole⟩
  · rw [hsame]
    exact h
  · obtain ⟨header, es, last, hlegal, hlen, _, hbytes⟩ := h.legal
    have hlast : (f.bytes ++ line doubles v).getLast? = some 10 := by
      rw [List.getLast?_append, line_getLast?]
      rfl
    obtain ⟨mark, torn, es', last', hmark, _, hnext, htorn, hbound, _, hlegal'⟩ :=
      legal_of_parse hparse
    have hnil : torn = [] :=
      List.length_eq_zero_iff.mp (htorn.trans (tornBytes_eq_zero hparse hlast))
    -- the file begins with the header's brace, so there is no mark in front of it
    have hplain : mark = [] := by
      rcases hmark with rfl | hnone
      · have hhead := congrArg List.head? hnext
        rw [hbytes hopen, List.head?_append, hlegal.head] at hhead
        exact absurd hhead (by simp [bom])
      · exact hnone
    rw [hnil, hplain, List.nil_append, List.append_nil] at hnext
    refine ⟨next.header, es', last', ?_, ?_, ?_, ?_⟩
    · rw [hattempted]
      exact hlegal'
    · rw [hattempted, ← hnext]
      exact hbound
    · rw [hattempted, ← hnext]
      exact hstarts
    · intro hok
      rw [hattempted, ← hnext]
      exact hwhole hok

theorem writesLegal_reachable
    (h : Lib.Reaches (journalStep doubles sha plan) (fun _ _ => True) (JournalStart doubles plan) f) :
    WritesLegal doubles sha plan f :=
  h.invariant (fun _ hs => writesLegal_start hs) fun _ _ _ hi _ hs => writesLegal_step hi hs

/-! ## Cuts -/

theorem Records.take {first last : Units} {rows : List JsObject}
    (h : Records doubles sha first rows es last) (k : Nat) :
    ∃ es' last', Records doubles sha first (rows.take k) es' last' := by
  induction h with
  | nil => exact ⟨[], first, by rw [List.take_nil]; exact .nil⟩
  | @snoc rows es prev row e h hrecord hvalid hfollows ih =>
      by_cases hk : k ≤ rows.length
      · rw [List.take_append_of_le_length hk]
        exact ih
      · rw [List.take_of_length_le (by rw [List.length_append, List.length_singleton]; omega)]
        exact ⟨_, _, .snoc h hrecord hvalid hfollows⟩

theorem LegalJournal.take {header : JsObject} {rows : List JsObject} {last : Units}
    (h : LegalJournal doubles sha plan header rows es last) (k : Nat) :
    ∃ es' last', LegalJournal doubles sha plan header (rows.take k) es' last' := by
  obtain ⟨es', last', hrecords⟩ := h.records.take k
  refine ⟨es', last', h.planned, h.headed, hrecords, ?_, ?_⟩
  · exact (List.length_take_le' k rows).trans_lt h.lines
  · intro v hv
    refine h.bound v ?_
    rcases List.mem_cons.mp hv with rfl | hmem
    · exact List.mem_cons_self
    · exact List.mem_cons_of_mem _ (List.mem_of_mem_take hmem)

/-- A cut behind the header's line break is parsed, with the first of the records. -/
theorem LegalJournal.parse_cut {header : JsObject} {rows : List JsObject} {last : Units}
    (h : LegalJournal doubles sha plan header rows es last)
    (hlen : (serialize doubles header rows).length ≤ maxJournalBytes) {p : Bytes}
    (hp : p <+: serialize doubles header rows) (hheader : (10 : UInt8) ∈ p) :
    ∃ j, parseGlobalMutationJournal doubles sha p plan = .ok j ∧ j.records <+: rows := by
  rw [serialize_eq] at hp
  obtain ⟨k, torn, hk, hbytes, htorn⟩ :=
    exists_take_of_cut (fun l hl => (h.newline l hl).1) hp
  cases k with
  | zero =>
      rw [List.take_zero, unlines_nil] at hbytes
      rw [hbytes] at hheader
      exact absurd hheader htorn
  | succ k =>
      have hlines : (journalLines doubles header rows).take (k + 1) =
          journalLines doubles header (rows.take k) := by
        rw [journalLines, journalLines, List.map_cons, List.take_succ_cons, ← List.map_take]
        rfl
      rw [hlines, ← serialize_eq] at hbytes
      obtain ⟨es', last', hlegal⟩ := h.take k
      have hbound : p.length ≤ maxJournalBytes := by
        rw [serialize_eq] at hlen
        exact hp.length_le.trans hlen
      obtain ⟨st, hparse, hrecords, _⟩ := hlegal.parse (.inr rfl) htorn
        (by rw [List.nil_append]; exact hbytes) hbound
      refine ⟨_, hparse, ?_⟩
      show st.records <+: rows
      rw [hrecords]
      exact List.take_prefix k rows

/-! ## Torn journals -/

theorem exists_newline_journal (header : JsObject) (rows : List JsObject) :
    ∃ w, encodeUtf8 (unlines (journalLines doubles header rows)) = w ++ [10] :=
  exists_newline (by simp [journalLines])

/-- The bytes end in the middle of a line. -/
def TornTail (bytes : Bytes) : Prop := bytes.getLast? ≠ some 10

variable (doubles) in
/-- What is written as a record is one line. -/
theorem newline_not_mem_record (n : Nat) (hn : n < 2 ^ 53) (prev : Units) (e : JournalEvent) :
    '\n' ∉ stringify doubles (.object (recordOf n prev e)) ∧
      ∃ rest, stringify doubles (.object (recordOf n prev e)) = '{' :: rest := by
  have hstring : ∀ s : Units, '\n' ∉ stringify doubles (.string s) := by
    intro s
    rw [stringify]
    exact newline_not_mem_quote s
  have hvalue : ∀ m ∈ recordOf n prev e, '\n' ∉ stringify doubles m.2 := by
    intro m hm
    rcases List.mem_cons.mp hm with rfl | hm
    · exact (flat_nat hn).newline
    · rcases List.mem_cons.mp hm with rfl | hm
      · exact hstring prev
      · cases e with
        | intent step operation stateSha256 =>
            simp only [JournalEvent.fields, List.mem_cons, List.not_mem_nil, or_false] at hm
            rcases hm with rfl | rfl | rfl | rfl <;> exact hstring _
        | result step operation outcome stateSha256 =>
            simp only [JournalEvent.fields, List.mem_cons, List.not_mem_nil, or_false] at hm
            rcases hm with rfl | rfl | rfl | rfl | rfl
            · exact hstring _
            · exact hstring _
            · exact hstring _
            · exact hstring _
            · cases stateSha256 with
              | none => exact flat_null.newline
              | some s => exact hstring s
        | complete stateSha256 =>
            simp only [JournalEvent.fields, List.mem_cons, List.not_mem_nil, or_false] at hm
            rcases hm with rfl | rfl <;> exact hstring _
  have hown : properties (recordOf n prev e) = recordOf n prev e := by
    refine properties_eq_self (recordOf_nodup n prev e) fun m hm => ?_
    exact (plainNames_row e.kind).2 m.1
      ((recordOf_keys n prev e).mem_iff.mpr (List.mem_map_of_mem hm))
  have htail : '\n' ∉ [','].intercalate
      (((recordOf n prev e).map (fun m => (m.1, stringify doubles m.2))).map memberText) ++
        ['}'] := by
    refine not_mem_objectTail (by decide) fun m' hm' => ?_
    obtain ⟨m, hm, rfl⟩ := List.mem_map.mp hm'
    exact ⟨newline_not_mem_quote m.1, hvalue m hm⟩
  have htext : stringify doubles (.object (recordOf n prev e)) = '{' ::
      ([','].intercalate (((recordOf n prev e).map (fun m => (m.1, stringify doubles m.2))).map
        memberText) ++ ['}']) := by
    rw [stringify_object, hown, objectText]
    rfl
  refine ⟨?_, _, htext⟩
  rw [htext, List.mem_cons, not_or]
  exact ⟨by decide, htail⟩

/-- The lines of a journal begin with a brace that is their only one. -/
theorem LegalJournal.one_brace {header : JsObject} {rows : List JsObject} {last : Units}
    (h : LegalJournal doubles sha plan header rows es last) :
    ∀ row ∈ rows, ∃ rest, stringify doubles (.object row) = '{' :: rest ∧ '{' ∉ rest := by
  intro row hrow
  have hlines := h.lines
  obtain ⟨e, hkeys, hflat⟩ := h.records.flat (sha.isDigest_hash _)
    (by unfold maxJournalLines at hlines; omega) row hrow
  obtain ⟨rest, htext, hbrace, _⟩ := stringify_flat (plainNames_row e.kind) (braceless_row e.kind)
    hkeys hflat
  exact ⟨rest, htext, hbrace⟩

/-- **A torn record and a new one are no record.** -/
theorem torn_not_parsed {header : JsObject} {rows : List JsObject} {last : Units} {mark torn : Bytes}
    (h : LegalJournal doubles sha plan header rows es last) (hmark : mark = bom ∨ mark = [])
    (htorn : (10 : UInt8) ∉ torn) (hne : torn ≠ []) (n : Nat) (hn : n < 2 ^ 53) (prev : Units)
    (e : JournalEvent) :
    parseGlobalMutationJournal doubles sha
      (mark ++ serialize doubles header rows ++ torn ++ line doubles (recordOf n prev e)) plan ≠
        .ok j := by
  intro hparse
  obtain ⟨hnewline, rest, hbrace⟩ := newline_not_mem_record doubles n hn prev e
  have hlast : (mark ++ serialize doubles header rows ++ torn ++
      line doubles (recordOf n prev e)).getLast? = some 10 := by
    rw [List.getLast?_append, line_getLast?]
    rfl
  obtain ⟨mark', torn', es', last', hmark', _, hbytes, htorn', _, _, hlegal⟩ := legal_of_parse hparse
  rw [List.length_eq_zero_iff.mp (htorn'.trans (tornBytes_eq_zero hparse hlast)),
    List.append_nil] at hbytes
  -- the marks are the same, and so is what follows them
  have hsame : serialize doubles header rows ++ (torn ++ line doubles (recordOf n prev e)) =
      serialize doubles j.header j.records := by
    have hnomark : ∀ {x y : Bytes}, x.head? = some 123 → bom ++ y ≠ x := by
      rintro x y hx rfl
      exact absurd hx (by simp [bom])
    simp only [List.append_assoc] at hbytes
    rcases hmark with rfl | rfl
    · rcases hmark' with rfl | rfl
      · exact List.append_cancel_left hbytes
      · exact absurd hbytes (hnomark (by rw [List.nil_append, hlegal.head]))
    · rcases hmark' with rfl | rfl
      · exact absurd hbytes.symm (hnomark (by
          rw [List.nil_append, List.head?_append, h.head]
          rfl))
      · simpa using hbytes
  -- what the torn bytes are in is one line of the new journal
  obtain ⟨w, hw⟩ := exists_newline_journal header rows
  have hsplit : encodeUtf8 (unlines (journalLines doubles j.header j.records)) =
      w ++ UInt8.ofNat '\n'.toNat :: (torn ++ line doubles (recordOf n prev e)) := by
    rw [← serialize_eq, ← hsame, serialize_eq, hw, List.append_assoc]
    rfl
  obtain ⟨t₁, t₂, htext, -, hrest⟩ := encodeUtf8_split (by decide) hsplit
  have hline : encodeUtf8 t₂ = torn ++ UInt8.ofNat '{'.toNat :: encodeUtf8 (rest ++ ['\n']) := by
    rw [← hrest, line, lineText, hbrace]
    rfl
  obtain ⟨u₁, u₂, rfl, hu₁, hu₂⟩ := encodeUtf8_split (by decide) hline
  have hu₂ : u₂ = rest ++ ['\n'] := by
    have hdecode := congrArg decodeUtf8 hu₂
    rw [decodeUtf8_encodeUtf8, decodeUtf8_encodeUtf8] at hdecode
    exact hdecode.symm
  have hnewline₁ : '\n' ∉ u₁ := by
    intro hmem
    rw [hu₁] at htorn
    exact htorn (List.mem_flatMap.mpr ⟨'\n', hmem, by decide⟩)
  obtain ⟨lines, hlinesne, hlinesnewline, hlines⟩ := exists_lines (t := t₁ ++ ['\n']) ⟨t₁, rfl⟩
  have hlast' : ∀ l ∈ lines ++ [u₁ ++ '{' :: rest], '\n' ∉ l := by
    intro l hl
    rcases List.mem_append.mp hl with hl | hl
    · exact hlinesnewline l hl
    · rw [List.mem_singleton.mp hl, List.mem_append, not_or]
      rw [hbrace] at hnewline
      exact ⟨hnewline₁, hnewline⟩
  have hjoin : unlines (journalLines doubles j.header j.records) =
      unlines (lines ++ [u₁ ++ '{' :: rest]) := by
    rw [unlines_append, ← hlines, htext, hu₂]
    simp
  have hsame' : journalLines doubles j.header j.records = lines ++ [u₁ ++ '{' :: rest] := by
    have hparts := congrArg (fun t => (t.splitOn '\n').dropLast) hjoin
    rwa [splitOn_unlines (fun l hl => (hlegal.newline l hl).1), splitOn_unlines hlast',
      List.dropLast_concat, List.dropLast_concat] at hparts
  -- that line is a record's, with a second brace in it
  obtain ⟨l, lines', rfl⟩ := List.exists_cons_of_ne_nil hlinesne
  rw [journalLines, List.map_cons, List.cons_append] at hsame'
  have hin : u₁ ++ '{' :: rest ∈ j.records.map (fun v => stringify doubles (.object v)) := by
    rw [(List.cons.inj hsame').2]
    simp
  obtain ⟨row, hrow, hrowtext⟩ := List.mem_map.mp hin
  obtain ⟨rest', hrest', hbrace'⟩ := hlegal.one_brace row hrow
  rw [hrowtext] at hrest'
  cases u₁ with
  | nil => exact hne hu₁
  | cons c u₁ =>
      obtain ⟨-, rfl⟩ := List.cons.inj hrest'
      exact hbrace' (by simp)

/-- **A torn journal takes no record**: the append fails, and the file is as it was. -/
theorem append_torn (f : JournalFile) (event : JournalEvent) (fault : AppendFault)
    (h : TornTail f.bytes) : ∃ e, appendEvent doubles sha plan f event fault = (.error e, f) := by
  unfold appendEvent
  split
  · exact ⟨_, rfl⟩
  split
  · exact ⟨_, rfl⟩
  rename_i current hparse
  dsimp only
  split
  · exact ⟨_, rfl⟩
  rename_i next hnext
  obtain ⟨mark, torn, es, last, hmark, htorn, hbytes, _, _, _, hlegal⟩ := legal_of_parse hparse
  have hne : torn ≠ [] := by
    rintro rfl
    obtain ⟨w, hw⟩ := exists_newline_journal current.header current.records
    rw [List.append_nil, serialize_eq, hw, ← List.append_assoc] at hbytes
    exact h (by rw [hbytes, List.getLast?_concat])
  have hcount : current.nextSequence < 2 ^ 53 := by
    have := hlegal.lines
    unfold maxJournalLines at this
    unfold ParsedJournal.nextSequence
    omega
  rw [hbytes] at hnext
  exact absurd hnext (torn_not_parsed hlegal hmark htorn hne _ hcount _ _)

/-! ## The result -/

variable (doubles sha plan) in
/-- **What a crash leaves of a journal can be read.** -/
structure CrashSafe (f : JournalFile) : Prop where
  /-- A cut behind the header's line holds the first of the records that were tried. -/
  cut : ∀ p, p <+: f.bytes → (10 : UInt8) ∈ p →
    ∃ j, parseGlobalMutationJournal doubles sha p plan = .ok j ∧ j.records <+: f.attempted
  /-- Whatever is parsed keeps the rules. -/
  sound : ∀ bytes j, parseGlobalMutationJournal doubles sha bytes plan = .ok j →
    ∃ es, JournalSound j es
  /-- A torn file takes no record. -/
  torn : ∀ torn event fault, TornTail torn.bytes →
    ∃ e, appendEvent doubles sha plan torn event fault = (.error e, torn)

/--
**Journals are crash safe**: a cut of a reachable journal is read as far as its records are whole,
every journal that is read keeps the rules, and a torn one takes no record.
-/
theorem journal_crash_safe (doubles : Doubles) (sha : Sha256) (plan : Units) (f : JournalFile)
    (h : Lib.Reaches (journalStep doubles sha plan) (fun _ _ => True) (JournalStart doubles plan) f) :
    CrashSafe doubles sha plan f where
  cut p hp hheader := by
    obtain ⟨header, es, last, hlegal, hlen, hstarts, _⟩ := (writesLegal_reachable h).legal
    exact hlegal.parse_cut hlen (hp.trans hstarts) hheader
  sound _ _ hparse := journalSound_of_parse hparse
  torn torn event fault htorn := append_torn torn event fault htorn

/-- A new journal whose first intent is cut in the middle. -/
theorem journal_crash_safe_torn : CrashSafe someDoubles someSha somePlan
    (appendEvent someDoubles someSha somePlan
      { bytes := line someDoubles (headerOf somePlan someRunId) }
      (.intent (unitsOf ['a']) .retain somePlan) (.torn 20)).2 :=
  have hstart : JournalStart someDoubles somePlan
      { bytes := line someDoubles (headerOf somePlan someRunId) } :=
    .created (by decide) (by decide) length_someHeader
  have hstep : journalStep someDoubles someSha somePlan
      { bytes := line someDoubles (headerOf somePlan someRunId) }
      (.intent (unitsOf ['a']) .retain somePlan, .torn 20) = some _ := rfl
  journal_crash_safe someDoubles someSha somePlan _ (.tail (.init hstart) trivial hstep)

end Caveat.Managed
