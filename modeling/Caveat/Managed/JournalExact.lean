import Caveat.Managed.JournalProof

/-!
# A journal is its own serialization

The parser accepts a journal without a torn record exactly where its bytes are what its header and
its records are written as, with one exception: the decoder drops an encoding mark in front of the
header, and nothing looks at it again.
-/

namespace Caveat.Managed

open Js

variable {doubles : Doubles} {sha : Sha256} {row header : JsObject} {n : Nat} {prev plan : Units}
  {e : JournalEvent} {es : List JournalEvent} {st st' : JournalState} {text : Text}

/-! ## Canonical journals -/

variable (doubles sha) in
/-- Records with numbers and hashes in a chain, of events that follow one another. -/
inductive Records (first : Units) : List JsObject → List JournalEvent → Units → Prop where
  | nil : Records first [] [] first
  | snoc {rows : List JsObject} {es : List JournalEvent} {prev : Units} {row : JsObject}
      {e : JournalEvent} : Records first rows es prev →
      IsRecord row (rows.length + 1) prev e → e.Valid → Follows es e →
        Records first (rows ++ [row]) (es ++ [e]) (sha.hash (line doubles row))

variable (doubles) in
def serialize (header : JsObject) (rows : List JsObject) : Bytes :=
  (header :: rows).flatMap (line doubles)

/-- The format's bounds. -/
structure WithinBounds (doubles : Doubles) (header : JsObject) (rows : List JsObject) : Prop where
  bytes : (serialize doubles header rows).length ≤ maxJournalBytes
  lines : rows.length + 1 ≤ maxJournalLines
  records : ∀ v ∈ header :: rows, (line doubles v).length ≤ maxRecordBytes + 1

/-- **The serialization of a header and of legal records**, which no bound excludes. -/
def Canonical (doubles : Doubles) (sha : Sha256) (plan : Units) (bytes : Bytes) : Prop :=
  ∃ runId header rows es last, isDigest plan = true ∧ isRunId runId = true ∧
    header.Perm (headerOf plan runId) ∧
    Records doubles sha (sha.hash (line doubles header)) rows es last ∧
    WithinBounds doubles header rows ∧ bytes = serialize doubles header rows

/-! ## Names of fields -/

/-- Names that are no array indices, each once. -/
def PlainNames (names : List Text) : Prop :=
  (names.map unitsOf).Nodup ∧ ∀ key ∈ names.map unitsOf, unitIndex? key = none

theorem plainNames_row (kind : RowKind) : PlainNames (rowKeys kind) := by
  cases kind <;> exact ⟨by decide, by decide⟩

def headerNames : List Text := ["schema".toList, "planSha256".toList, "runId".toList]

theorem plainNames_header : PlainNames headerNames := ⟨by decide, by decide⟩

/-- An object with plain names is its own list of properties. -/
theorem properties_of_names {names : List Text} (hplain : PlainNames names)
    (h : row.hasKeys names = true) : properties row = row := by
  rw [JsObject.hasKeys, List.isPerm_iff] at h
  refine properties_eq_self (h.nodup_iff.mpr hplain.1) fun m hm => ?_
  exact hplain.2 m.1 (h.mem_iff.mp (List.mem_map_of_mem hm))

/-! ## Reading one line -/

theorem length_line (v : JsObject) :
    (line doubles v).length = (encodeUtf8 (stringify doubles (.object v))).length + 1 := by
  rw [line, lineText, encodeUtf8_append, List.length_append]
  rfl

/-- A line that is accepted is what its object is written as. -/
theorem decodeRecord_ok {names : List Text} (hplain : PlainNames names)
    (h : decodeRecord doubles text = .ok row) (hkeys : row.hasKeys names = true) :
    text = stringify doubles (.object row) ∧ (line doubles row).length ≤ maxRecordBytes + 1 := by
  have hown := properties_of_names hplain hkeys
  unfold decodeRecord at h
  split at h
  · exact absurd h (by simp)
  rename_i hlen
  split at h
  · exact absurd h (by simp)
  · rename_i members hparse
    split at h
    · rename_i htext
      have hrow := Except.ok.inj h
      have hsame : text = stringify doubles (.object row) := by
        rw [stringify_object, hown, ← hrow, ← stringify_object, htext]
      refine ⟨hsame, ?_⟩
      rw [length_line, ← hsame]
      omega
    · exact absurd h (by simp)
  · exact absurd h (by simp)

variable (doubles) in
/-- What an object is written as is accepted, if its values are read back. -/
theorem decodeRecord_stringify {names : List Text} (hplain : PlainNames names)
    (hkeys : row.hasKeys names = true)
    (hread : ∀ m ∈ row, Reads doubles.round (stringify doubles m.2) m.2)
    (hlen : (line doubles row).length ≤ maxRecordBytes + 1) :
    decodeRecord doubles (stringify doubles (.object row)) = .ok row := by
  have hown := properties_of_names hplain hkeys
  rw [length_line] at hlen
  unfold decodeRecord
  rw [if_neg (by omega), parseJson_stringify (by rwa [hown])]
  dsimp only
  rw [stringify_object, stringify_object, hown, hown, if_pos rfl]

/-! ## Texts of records -/

/-- What an object's text has behind its first brace. -/
theorem not_mem_objectTail {c : Char} {ms : List (Units × Text)}
    (hc : c ≠ ',' ∧ c ≠ ':' ∧ c ≠ '}') (h : ∀ m ∈ ms, c ∉ quote m.1 ∧ c ∉ m.2) :
    c ∉ [','].intercalate (ms.map memberText) ++ ['}'] := by
  intro hmem
  rcases List.mem_append.mp hmem with hmem | hmem
  · rcases Lib.mem_intercalate hmem with rfl | ⟨part, hpart, hmem⟩
    · exact hc.1 rfl
    · obtain ⟨m, hm, rfl⟩ := List.mem_map.mp hpart
      rw [memberText, List.mem_append, List.mem_cons] at hmem
      rcases hmem with hmem | rfl | hmem
      · exact (h m hm).1 hmem
      · exact hc.2.1 rfl
      · exact (h m hm).2 hmem
  · exact hc.2.2 (List.mem_singleton.mp hmem)

/-- A value that is written without a brace or a line break, and read back. -/
structure Flat (doubles : Doubles) (v : Json) : Prop where
  brace : '{' ∉ stringify doubles v
  newline : '\n' ∉ stringify doubles v
  reads : Reads doubles.round (stringify doubles v) v

theorem flat_string {s : Units} (h : unitOf '{' ∉ s) : Flat doubles (.string s) where
  brace := by
    rw [stringify]
    exact brace_not_mem_quote h
  newline := by
    rw [stringify]
    exact newline_not_mem_quote s
  reads := reads_string s

theorem flat_null : Flat doubles .null where
  brace := by rw [stringify]; decide
  newline := by rw [stringify]; decide
  reads := reads_null

theorem flat_nat (h : n < 2 ^ 53) : Flat doubles (.number (.finite n)) where
  brace := by
    rw [stringify, doubles.text_nat n h]
    exact fun hmem => absurd (isDigit_of_mem_ofNat hmem) (by decide)
  newline := by
    rw [stringify, doubles.text_nat n h]
    exact fun hmem => absurd (isDigit_of_mem_ofNat hmem) (by decide)
  reads := reads_nat h

/-- Units of which a class holds are no brace if the brace is not in the class. -/
theorem brace_not_mem_of_all {p : UInt16 → Bool} {s : Units} (hp : p (unitOf '{') = false)
    (h : s.all p = true) : unitOf '{' ∉ s := fun hmem => by
  rw [List.all_eq_true.mp h _ hmem] at hp
  exact absurd hp (by simp)

theorem flat_digest {s : Units} (h : isDigest s = true) : Flat doubles (.string s) := by
  rw [isDigest, Bool.and_eq_true] at h
  exact flat_string (brace_not_mem_of_all (by decide) h.2)

theorem flat_step {s : Units} (h : isStep s = true) : Flat doubles (.string s) := by
  rw [isStep, Bool.and_eq_true] at h
  exact flat_string (brace_not_mem_of_all (by decide) h.2)

theorem flat_runId {s : Units} (h : isRunId s = true) : Flat doubles (.string s) := by
  rw [isRunId, Bool.and_eq_true] at h
  exact flat_string (brace_not_mem_of_all (by decide) h.2)

theorem flat_operation (o : GlobalJournalOperation) :
    Flat doubles (.string (unitsOf o.text)) := by
  cases o <;> exact flat_string (by decide)

/-- The fields of a valid event are flat. -/
theorem flat_fields (h : e.Valid) : ∀ p ∈ e.fields, Flat doubles p.2 := by
  intro p hp
  cases e with
  | intent step operation stateSha256 =>
      simp only [JournalEvent.fields, List.mem_cons, List.not_mem_nil, or_false] at hp
      rcases hp with rfl | rfl | rfl | rfl
      · exact flat_string (by decide)
      · exact flat_step h.1
      · exact flat_operation operation
      · exact flat_digest h.2
  | result step operation outcome stateSha256 =>
      have hstep : isStep step = true := by cases outcome <;> exact h.1
      have hstate : ∀ s, stateSha256 = some s → isDigest s = true := by
        rintro s rfl
        cases outcome with
        | confirmed =>
            obtain ⟨_, s', hs', hdigest⟩ := h
            cases hs'
            exact hdigest
        | unknown => exact h.2 s rfl
      simp only [JournalEvent.fields, List.mem_cons, List.not_mem_nil, or_false] at hp
      rcases hp with rfl | rfl | rfl | rfl | rfl
      · exact flat_string (by decide)
      · exact flat_step hstep
      · exact flat_operation operation
      · cases outcome <;> exact flat_string (by decide)
      · cases stateSha256 with
        | none => exact flat_null
        | some s => exact flat_digest (hstate s rfl)
  | complete stateSha256 =>
      simp only [JournalEvent.fields, List.mem_cons, List.not_mem_nil, or_false] at hp
      rcases hp with rfl | rfl
      · exact flat_string (by decide)
      · exact flat_digest h

variable (doubles) in
theorem flat_record (h : IsRecord row n prev e) (hn : n < 2 ^ 53) (hprev : isDigest prev = true)
    (hvalid : e.Valid) : ∀ m ∈ row, Flat doubles m.2 := by
  intro m hm
  have hmem := h.mem_iff.mp hm
  rcases List.mem_cons.mp hmem with rfl | hmem
  · exact flat_nat hn
  · rcases List.mem_cons.mp hmem with rfl | hmem
    · exact flat_digest hprev
    · exact flat_fields hvalid m hmem

theorem flat_header {runId : Units} (h : header.Perm (headerOf plan runId))
    (hplan : isDigest plan = true) (hrun : isRunId runId = true) :
    ∀ m ∈ header, Flat doubles m.2 := by
  intro m hm
  have hmem := h.mem_iff.mp hm
  simp only [headerOf, List.mem_cons, List.not_mem_nil, or_false] at hmem
  rcases hmem with rfl | rfl | rfl
  · exact flat_string (by decide)
  · exact flat_digest hplan
  · exact flat_runId hrun

/-- Names without braces. -/
def BracelessNames (names : List Text) : Prop := ∀ key ∈ names.map unitsOf, unitOf '{' ∉ key

theorem braceless_row (kind : RowKind) : BracelessNames (rowKeys kind) := by
  unfold BracelessNames
  cases kind <;> decide

theorem braceless_header : BracelessNames headerNames := by
  unfold BracelessNames
  decide

/-- **A flat object is one line with one brace**, its first character. -/
theorem stringify_flat {names : List Text} (hplain : PlainNames names)
    (hbraceless : BracelessNames names) (hkeys : row.hasKeys names = true)
    (hflat : ∀ m ∈ row, Flat doubles m.2) :
    ∃ rest, stringify doubles (.object row) = '{' :: rest ∧ '{' ∉ rest ∧
      '\n' ∉ stringify doubles (.object row) := by
  have hown := properties_of_names hplain hkeys
  rw [JsObject.hasKeys, List.isPerm_iff] at hkeys
  have hmember : ∀ m ∈ row.map (fun m => (m.1, stringify doubles m.2)),
      ('{' ∉ quote m.1 ∧ '{' ∉ m.2) ∧ ('\n' ∉ quote m.1 ∧ '\n' ∉ m.2) := by
    intro m' hm'
    obtain ⟨m, hm, rfl⟩ := List.mem_map.mp hm'
    have hkey := hbraceless m.1 (hkeys.mem_iff.mp (List.mem_map_of_mem hm))
    exact ⟨⟨brace_not_mem_quote hkey, (hflat m hm).brace⟩,
      ⟨newline_not_mem_quote m.1, (hflat m hm).newline⟩⟩
  have hnewline := not_mem_objectTail (c := '\n') (by decide) fun m hm => (hmember m hm).2
  refine ⟨_, by rw [stringify_object, hown, objectText]; rfl,
    not_mem_objectTail (by decide) fun m hm => (hmember m hm).1, ?_⟩
  rw [stringify_object, hown, objectText, List.cons_append, List.mem_cons, not_or]
  exact ⟨by decide, hnewline⟩

/-! ## The lines of records -/

/-- The parser's state after records that it read. -/
structure ReadState (doubles : Doubles) (sha : Sha256) (first : Units) (st : JournalState)
    (es : List JournalEvent) : Prop where
  records : Records doubles sha first st.records es st.previousSha256
  tracks : Tracks st es

theorem readState_nil (first : Units) :
    ReadState doubles sha first { previousSha256 := first } [] := ⟨.nil, tracks_nil first⟩

/-- One more line: a record of an event that follows. -/
theorem ReadState.readRow {first : Units} (h : ReadState doubles sha first st es)
    (hread : readRow doubles sha st text = .ok st') :
    ∃ row e, text = stringify doubles (.object row) ∧
      (line doubles row).length ≤ maxRecordBytes + 1 ∧ st'.records = st.records ++ [row] ∧
        ReadState doubles sha first st' (es ++ [e]) := by
  obtain ⟨row, hdecode, e, hrecord, hvalid, hfollows⟩ := holdsEvent_of_readRow h.tracks hread
  obtain ⟨htext, hlen⟩ := decodeRecord_ok (plainNames_row e.kind) hdecode hrecord.keys
  obtain ⟨st'', hok, hextends, htracks⟩ := readRow_of_isRecord sha h.tracks hdecode hrecord
    hvalid hfollows
  obtain rfl : st' = st'' := Except.ok.inj (hread.symm.trans hok)
  refine ⟨row, e, htext, hlen, hextends.records, ?_, htracks⟩
  rw [hextends.records, hextends.previous, htext]
  exact .snoc h.records hrecord hvalid hfollows

theorem ReadState.readRows {first : Units} {lines : List Text}
    (h : ReadState doubles sha first st es)
    (hread : lines.foldlM (Managed.readRow doubles sha) st = .ok st') :
    ∃ rows es', st'.records = st.records ++ rows ∧
      lines = rows.map (fun row => stringify doubles (.object row)) ∧
        (∀ row ∈ rows, (line doubles row).length ≤ maxRecordBytes + 1) ∧
          ReadState doubles sha first st' es' := by
  induction lines generalizing st es with
  | nil =>
      cases hread
      exact ⟨[], es, by simp, rfl, by simp, h⟩
  | cons text lines ih =>
      rw [List.foldlM_cons] at hread
      cases hfirst : Managed.readRow doubles sha st text with
      | error err =>
          rw [hfirst] at hread
          cases hread
      | ok st₁ =>
      rw [hfirst] at hread
      have hrest : lines.foldlM (Managed.readRow doubles sha) st₁ = .ok st' := hread
      obtain ⟨row, e, rfl, hlen, hrecords, h₁⟩ := h.readRow hfirst
      obtain ⟨rows, es', hrecords', rfl, hlens, h'⟩ := ih h₁ hrest
      refine ⟨row :: rows, es', ?_, rfl, ?_, h'⟩
      · rw [hrecords', hrecords, List.append_assoc]
        rfl
      · intro row' hrow'
        rcases List.mem_cons.mp hrow' with rfl | hmem
        · exact hlen
        · exact hlens row' hmem

/-- The hash that a chain of records begins with is a digest, and so is the one it ends with. -/
theorem Records.isDigest_last {first last : Units} {rows : List JsObject}
    (h : Records doubles sha first rows es last) (hfirst : isDigest first = true) :
    isDigest last = true := by
  cases h with
  | nil => exact hfirst
  | snoc => exact sha.isDigest_hash _

theorem Records.length_eq {first last : Units} {rows : List JsObject}
    (h : Records doubles sha first rows es last) : es.length = rows.length := by
  induction h with
  | nil => rfl
  | snoc _ _ _ _ ih => rw [List.length_append, List.length_append, ih]; rfl

/-- Each of the records has the names of some event and flat values. -/
theorem Records.flat {first last : Units} {rows : List JsObject}
    (h : Records doubles sha first rows es last) (hfirst : isDigest first = true)
    (hlen : rows.length < 2 ^ 53) : ∀ row ∈ rows, ∃ e : JournalEvent,
      row.hasKeys (rowKeys e.kind) = true ∧ ∀ m ∈ row, Flat doubles m.2 := by
  induction h with
  | nil => exact fun row hrow => absurd hrow (by simp)
  | snoc h hrecord hvalid hfollows ih =>
      intro row' hrow'
      rw [List.length_append, List.length_singleton] at hlen
      rcases List.mem_append.mp hrow' with hold | hnew
      · exact ih (by omega) row' hold
      · rw [List.mem_singleton.mp hnew]
        exact ⟨_, hrecord.keys, flat_record doubles hrecord (by omega) (h.isDigest_last hfirst) hvalid⟩

/-- **Legal records are read back.** -/
theorem readRows_of_records {first last : Units} {rows : List JsObject}
    (h : Records doubles sha first rows es last) (hfirst : isDigest first = true)
    (hcount : rows.length < maxJournalLines)
    (hlen : ∀ row ∈ rows, (line doubles row).length ≤ maxRecordBytes + 1) :
    ∃ st, (rows.map (fun row => stringify doubles (.object row))).foldlM (readRow doubles sha)
        { previousSha256 := first } = .ok st ∧ st.records = rows ∧ st.previousSha256 = last ∧
      Tracks st es := by
  induction h with
  | nil => exact ⟨_, rfl, rfl, rfl, tracks_nil first⟩
  | snoc h hrecord hvalid hfollows ih =>
      rename_i rows es prev row e
      rw [List.length_append, List.length_singleton] at hcount
      obtain ⟨st, hfold, hrecords, hprev, htracks⟩ := ih (by omega)
        fun row' hrow' => hlen row' (List.mem_append_left _ hrow')
      have hbound : rows.length + 1 < 2 ^ 53 := by
        unfold maxJournalLines at hcount
        omega
      have hflat := flat_record doubles hrecord hbound (h.isDigest_last hfirst) hvalid
      have hdecode := decodeRecord_stringify doubles (plainNames_row e.kind) hrecord.keys
        (fun m hm => (hflat m hm).reads) (hlen row (by simp))
      obtain ⟨st', hread, hextends, htracks'⟩ := readRow_of_isRecord sha htracks hdecode
        (by rw [hrecords, hprev]; exact hrecord) hvalid hfollows
      refine ⟨st', ?_, by rw [hextends.records, hrecords], hextends.previous, htracks'⟩
      rw [List.map_append, List.foldlM_append, hfold]
      show List.foldlM (readRow doubles sha) st [stringify doubles (.object row)] = _
      rw [List.foldlM_cons, hread]
      rfl

/-! ## The header -/

theorem checkHeader_iff : checkHeader plan header = .ok () ↔
    ∃ runId, isRunId runId = true ∧ header.Perm (headerOf plan runId) := by
  have hnodup : ∀ runId, ((headerOf plan runId).map Prod.fst).Nodup := fun _ =>
    plainNames_header.1
  unfold checkHeader
  constructor
  · intro h
    split at h
    · exact absurd h (by simp)
    rename_i hkeys
    split at h
    · rename_i hfields
      rw [Bool.and_eq_true, Bool.and_eq_true, decide_eq_true_iff, decide_eq_true_iff,
        Option.any_eq_true] at hfields
      obtain ⟨⟨hschema, hplan⟩, runId, hrun, hvalid⟩ := hfields
      rw [Bool.not_eq_true', Bool.not_eq_false, JsObject.hasKeys, List.isPerm_iff] at hkeys
      refine ⟨runId, hvalid, perm_of_get hkeys (hnodup runId) ?_⟩
      intro p hp
      simp only [headerOf, List.mem_cons, List.not_mem_nil, or_false] at hp
      rcases hp with rfl | rfl | rfl
      · exact ⟨_, rfl, string_eq_some.mp hschema⟩
      · exact ⟨_, rfl, string_eq_some.mp hplan⟩
      · exact ⟨_, rfl, string_eq_some.mp hrun⟩
    · exact absurd h (by simp)
  · rintro ⟨runId, hvalid, hperm⟩
    have hkeys : header.hasKeys ["schema".toList, "planSha256".toList, "runId".toList] = true := by
      rw [JsObject.hasKeys, List.isPerm_iff]
      exact hperm.map Prod.fst
    rw [hkeys, if_neg (by simp), if_pos]
    rw [string_eq_some.mpr (get_of_perm hperm (hnodup runId) (.head _)),
      string_eq_some.mpr (get_of_perm hperm (hnodup runId) (.tail _ (.head _))),
      string_eq_some.mpr (get_of_perm hperm (hnodup runId) (.tail _ (.tail _ (.head _)))),
      Option.any_some, hvalid]
    simp

theorem header_keys {runId : Units} (h : header.Perm (headerOf plan runId)) :
    header.hasKeys headerNames = true := by
  rw [JsObject.hasKeys, List.isPerm_iff]
  exact h.map Prod.fst

/-! ## All lines -/

/-- The lines that a header and records are written in. -/
def journalLines (doubles : Doubles) (header : JsObject) (rows : List JsObject) : List Text :=
  (header :: rows).map (fun v => stringify doubles (.object v))

theorem serialize_eq (header : JsObject) (rows : List JsObject) :
    serialize doubles header rows = encodeUtf8 (unlines (journalLines doubles header rows)) := by
  rw [serialize, journalLines, unlines, encodeUtf8, List.flatMap_map, List.flatMap_assoc]
  rfl

/-- What the lines of a parsed journal hold. -/
structure HoldsRecords (doubles : Doubles) (sha : Sha256) (plan : Units) (header : JsObject)
    (st : JournalState) (es : List JournalEvent) : Prop where
  headed : ∃ runId, isRunId runId = true ∧ header.Perm (headerOf plan runId)
  read : ReadState doubles sha (sha.hash (line doubles header)) st es
  bound : ∀ v ∈ header :: st.records, (line doubles v).length ≤ maxRecordBytes + 1

theorem readLines_ok {lines : List Text} (h : readLines doubles sha plan lines = .ok (header, st)) :
    lines = journalLines doubles header st.records ∧
      ∃ es, HoldsRecords doubles sha plan header st es := by
  cases lines with
  | nil => exact absurd h (by simp [readLines])
  | cons first lines =>
      rw [readLines] at h
      cases hdecode : decodeRecord doubles first with
      | error err =>
          rw [hdecode] at h
          cases h
      | ok header' =>
      rw [hdecode] at h
      dsimp only at h
      cases hcheck : checkHeader plan header' with
      | error err =>
          rw [hcheck] at h
          cases h
      | ok _ =>
      rw [hcheck] at h
      dsimp only at h
      cases hfold : lines.foldlM (readRow doubles sha)
          { previousSha256 := sha.hash (encodeUtf8 (first ++ ['\n'])) } with
      | error err =>
          rw [hfold] at h
          cases h
      | ok st' =>
      rw [hfold] at h
      obtain ⟨rfl, rfl⟩ := Prod.mk.inj (Except.ok.inj h)
      obtain ⟨runId, hrun, hperm⟩ := checkHeader_iff.mp hcheck
      obtain ⟨htext, hlen⟩ := decodeRecord_ok plainNames_header hdecode (header_keys hperm)
      obtain ⟨rows, es, hrecords, rfl, hlens, hread⟩ := (readState_nil _).readRows hfold
      rw [List.nil_append] at hrecords
      refine ⟨by rw [journalLines, List.map_cons, hrecords, htext], es, ⟨runId, hrun, hperm⟩, ?_, ?_⟩
      · rw [htext] at hread
        exact hread
      · rw [hrecords]
        intro v hv
        rcases List.mem_cons.mp hv with rfl | hmem
        · exact hlen
        · exact hlens v hmem

/-- **A legal journal's lines are read back.** -/
theorem readLines_of_records {runId last : Units} {rows : List JsObject}
    (hplan : isDigest plan = true) (hrun : isRunId runId = true)
    (hperm : header.Perm (headerOf plan runId))
    (hrecords : Records doubles sha (sha.hash (line doubles header)) rows es last)
    (hcount : rows.length < maxJournalLines)
    (hlen : ∀ v ∈ header :: rows, (line doubles v).length ≤ maxRecordBytes + 1) :
    ∃ st, readLines doubles sha plan (journalLines doubles header rows) = .ok (header, st) ∧
      st.records = rows ∧ st.previousSha256 = last ∧ Tracks st es := by
  have hdecode := decodeRecord_stringify doubles plainNames_header (header_keys hperm)
    (fun m hm => (flat_header hperm hplan hrun m hm).reads) (hlen header (by simp))
  obtain ⟨st, hfold, hst⟩ := readRows_of_records hrecords (sha.isDigest_hash _) hcount
    fun row hrow => hlen row (List.mem_cons_of_mem _ hrow)
  refine ⟨st, ?_, hst⟩
  rw [journalLines, List.map_cons, readLines, hdecode]
  dsimp only
  rw [checkHeader_iff.mpr ⟨runId, hrun, hperm⟩]
  dsimp only
  rw [show encodeUtf8 (stringify doubles (.object header) ++ ['\n']) = line doubles header from rfl,
    hfold]

/-- The lines of a legal journal hold no line breaks. -/
theorem newline_not_mem_journalLines {runId last : Units} {rows : List JsObject}
    (hplan : isDigest plan = true) (hrun : isRunId runId = true)
    (hperm : header.Perm (headerOf plan runId))
    (hrecords : Records doubles sha (sha.hash (line doubles header)) rows es last)
    (hcount : rows.length < maxJournalLines) :
    ∀ l ∈ journalLines doubles header rows, '\n' ∉ l ∧ ∃ rest, l = '{' :: rest := by
  intro l hl
  obtain ⟨v, hv, rfl⟩ := List.mem_map.mp hl
  have hflat : ∃ names, PlainNames names ∧ BracelessNames names ∧
      JsObject.hasKeys v names = true ∧
      ∀ m ∈ v, Flat doubles m.2 := by
    rcases List.mem_cons.mp hv with rfl | hrow
    · exact ⟨_, plainNames_header, braceless_header, header_keys hperm,
        flat_header hperm hplan hrun⟩
    · obtain ⟨e, hkeys, hall⟩ := hrecords.flat (sha.isDigest_hash _)
        (by unfold maxJournalLines at hcount; omega) v hrow
      exact ⟨_, plainNames_row e.kind, braceless_row e.kind, hkeys, hall⟩
  obtain ⟨names, hplain, hbraceless, hkeys, hall⟩ := hflat
  obtain ⟨rest, htext, _, hnewline⟩ := stringify_flat hplain hbraceless hkeys hall
  exact ⟨hnewline, rest, htext⟩

/-! ## All bytes -/

/-- What the parser returns for the lines that it read. -/
def parsedOf (sha : Sha256) (bytes torn : Bytes) (header : JsObject) (st : JournalState) :
    ParsedJournal :=
  { header
    records := st.records
    pending := st.pending
    lastSha256 := st.previousSha256
    bytesSha256 := sha.hash bytes
    tornBytes := torn.length
    status := statusOf torn st }

/-- The bytes of some lines and of a torn one, with or without an encoding mark. -/
structure LinesOf (bytes mark : Bytes) (lines : List Text) (torn : Bytes) : Prop where
  bytes : bytes = mark ++ encodeUtf8 (unlines lines) ++ torn
  mark : mark = bom ∨ mark = [] ∧ (encodeUtf8 (unlines lines)).take 3 ≠ bom
  nonempty : lines ≠ []
  newline : ∀ l ∈ lines, '\n' ∉ l
  torn : (10 : UInt8) ∉ torn

/-- The lines end with a line break. -/
theorem exists_newline {lines : List Text} (h : lines ≠ []) :
    ∃ w, encodeUtf8 (unlines lines) = w ++ [10] := by
  obtain ⟨lines, l, rfl⟩ := List.eq_nil_or_concat lines |>.resolve_left h
  refine ⟨encodeUtf8 (unlines lines ++ l), ?_⟩
  rw [List.concat_eq_append, unlines_append, unlines_cons, unlines_nil,
    show unlines lines ++ (l ++ ['\n']) = unlines lines ++ l ++ ['\n'] by simp,
    encodeUtf8_append]
  rfl

theorem parse_of_lines {bytes mark torn : Bytes} {lines : List Text}
    (h : LinesOf bytes mark lines torn) (hplan : isDigest plan = true)
    (hbytes : bytes.length ≤ maxJournalBytes) (hcount : lines.length ≤ maxJournalLines) :
    parseGlobalMutationJournal doubles sha bytes plan =
      (readLines doubles sha plan lines).map (fun r => parsedOf sha bytes torn r.1 r.2) := by
  obtain ⟨w, hw⟩ := exists_newline h.nonempty
  have hwhole : bytes = (mark ++ w) ++ 10 :: torn := by
    rw [h.bytes, hw]
    simp
  have hne : bytes ≠ [] := by rw [hwhole]; simp
  have hsplit : splitTorn bytes = some (mark ++ encodeUtf8 (unlines lines), torn) := by
    rw [hwhole, splitTorn_append h.torn, hw, List.append_assoc]
  have hdecode : decodeFatal (mark ++ encodeUtf8 (unlines lines)) = some (unlines lines) := by
    rcases h.mark with rfl | ⟨rfl, hbom⟩
    · exact decodeFatal_bom _
    · exact decodeFatal_encodeUtf8 hbom
  have hlines : ((unlines lines).splitOn '\n').dropLast = lines := by
    rw [splitOn_unlines h.newline, List.dropLast_concat]
  unfold parseGlobalMutationJournal
  rw [if_neg (by simp [hne]; omega), if_neg (by simp [hplan]), hsplit]
  dsimp only
  rw [hdecode]
  dsimp only
  rw [hlines, if_neg (by omega)]
  cases readLines doubles sha plan lines with
  | error e => rfl
  | ok r => rfl

/-- **What is parsed is lines**, within the bounds. -/
theorem linesOf_of_parse {bytes : Bytes} {j : ParsedJournal}
    (h : parseGlobalMutationJournal doubles sha bytes plan = .ok j) :
    ∃ mark lines torn header st, LinesOf bytes mark lines torn ∧ isDigest plan = true ∧
      bytes.length ≤ maxJournalBytes ∧ lines.length ≤ maxJournalLines ∧
        readLines doubles sha plan lines = .ok (header, st) ∧ j = parsedOf sha bytes torn header st := by
  have hparse := h
  unfold parseGlobalMutationJournal at h
  split at h
  · exact absurd h (by simp)
  rename_i hbytes
  rw [Bool.or_eq_true, decide_eq_true_iff, decide_eq_true_iff, not_or] at hbytes
  split at h
  · exact absurd h (by simp)
  rename_i hplan
  rw [Bool.not_eq_true', Bool.not_eq_false] at hplan
  split at h
  · exact absurd h (by simp)
  rename_i w torn hsplit
  obtain ⟨hwhole, htorn, w', hw'⟩ := splitTorn_cases hsplit
  split at h
  · exact absurd h (by simp)
  rename_i text hdecode
  -- the decoded text ends with the line break that the bytes end with
  have hmark : ∃ mark, w = mark ++ encodeUtf8 text ∧
      (mark = bom ∨ mark = [] ∧ (encodeUtf8 text).take 3 ≠ bom) := by
    rcases decodeFatal_cases hdecode with ⟨hbom, hplain⟩ | hmarked
    · exact ⟨[], by rw [hplain]; rfl, .inr ⟨rfl, by rw [← hplain]; exact hbom⟩⟩
    · exact ⟨bom, hmarked, .inl rfl⟩
  obtain ⟨mark, hwmark, hbom⟩ := hmark
  have hends : ∃ t, text = t ++ ['\n'] := by
    have hlast : encodeUtf8 text = [] ∨ ∃ x, encodeUtf8 text = x ++ [10] := by
      rcases List.eq_nil_or_concat (encodeUtf8 text) with hnil | ⟨x, b, hx⟩
      · exact .inl hnil
      · rw [List.concat_eq_append] at hx
        have heq := hwmark.symm.trans hw'
        rw [hx, ← List.append_assoc] at heq
        rw [(List.append_inj' heq rfl).2] at hx
        exact .inr ⟨x, hx⟩
    rcases hlast with hnil | ⟨x, hx⟩
    · -- an encoding mark alone does not end with a line break
      rw [hnil, List.append_nil, hw'] at hwmark
      rcases hbom with hbom | ⟨hempty, _⟩
      · rw [hbom] at hwmark
        exact absurd (congrArg List.getLast? hwmark) (by simp [bom])
      · rw [hempty] at hwmark
        exact absurd hwmark (by simp)
    · obtain ⟨t₁, t₂, rfl, _, htail⟩ := encodeUtf8_split (d := '\n') (by decide) hx
      refine ⟨t₁, ?_⟩
      cases t₂ with
      | nil => rfl
      | cons c t₂ =>
          have hpos := length_le_encodeUtf8 (c :: t₂)
          rw [← htail] at hpos
          exact absurd hpos (by simp)
  obtain ⟨lines, hne, hnewline, rfl⟩ := exists_lines hends
  dsimp only at h
  rw [splitOn_unlines hnewline, List.dropLast_concat] at h
  split at h
  · exact absurd h (by simp)
  rename_i hcount
  have hlinesof : LinesOf bytes mark lines torn :=
    ⟨by rw [hwhole, hwmark], hbom, hne, hnewline, htorn⟩
  rw [parse_of_lines hlinesof hplan (by omega) (by omega)] at hparse
  cases hread : readLines doubles sha plan lines with
  | error err =>
      rw [hread] at hparse
      cases hparse
  | ok r =>
      rw [hread] at hparse
      exact ⟨mark, lines, torn, r.1, r.2, hlinesof, hplan, by omega, by omega, hread,
        (Except.ok.inj hparse).symm⟩

/-! ## The result -/

variable (doubles sha plan) in
/-- The bytes that the parser takes without a torn record are those it would write. -/
structure AcceptedExactly (bytes : Bytes) : Prop where
  accepted : (∃ j, parseGlobalMutationJournal doubles sha bytes plan = .ok j ∧ j.tornBytes = 0) ↔
    Canonical doubles sha plan bytes
  reserialized : ∀ j, parseGlobalMutationJournal doubles sha bytes plan = .ok j →
    j.tornBytes = 0 → bytes = serialize doubles j.header j.records

variable (doubles sha plan) in
/-- An encoding mark and a canonical journal, which the decoder does not tell from the journal. -/
def MarkedCanonical (bytes : Bytes) : Prop :=
  ∃ rest, bytes = bom ++ rest ∧ Canonical doubles sha plan rest ∧ bytes.length ≤ maxJournalBytes

/-- A legal header and legal records. -/
structure LegalJournal (doubles : Doubles) (sha : Sha256) (plan : Units) (header : JsObject)
    (rows : List JsObject) (es : List JournalEvent) (last : Units) : Prop where
  planned : isDigest plan = true
  headed : ∃ runId, isRunId runId = true ∧ header.Perm (headerOf plan runId)
  records : Records doubles sha (sha.hash (line doubles header)) rows es last
  lines : rows.length < maxJournalLines
  bound : ∀ v ∈ header :: rows, (line doubles v).length ≤ maxRecordBytes + 1

theorem canonical_iff {bytes : Bytes} : Canonical doubles sha plan bytes ↔
    ∃ header rows es last, LegalJournal doubles sha plan header rows es last ∧
      (serialize doubles header rows).length ≤ maxJournalBytes ∧
        bytes = serialize doubles header rows := by
  constructor
  · rintro ⟨runId, header, rows, es, last, hplan, hrun, hperm, hrecords, hbounds, hbytes⟩
    exact ⟨header, rows, es, last, ⟨hplan, ⟨runId, hrun, hperm⟩, hrecords, hbounds.lines,
      hbounds.records⟩, hbounds.bytes, hbytes⟩
  · rintro ⟨header, rows, es, last, ⟨hplan, ⟨runId, hrun, hperm⟩, hrecords, hlines, hbound⟩,
      hlen, hbytes⟩
    exact ⟨runId, header, rows, es, last, hplan, hrun, hperm, hrecords, ⟨hlen, hlines, hbound⟩,
      hbytes⟩

section Legal

variable {rows : List JsObject} {last : Units} {bytes mark torn : Bytes}

theorem LegalJournal.newline (h : LegalJournal doubles sha plan header rows es last) :
    ∀ l ∈ journalLines doubles header rows, '\n' ∉ l ∧ ∃ rest, l = '{' :: rest :=
  let ⟨_, hrun, hperm⟩ := h.headed
  newline_not_mem_journalLines h.planned hrun hperm h.records h.lines

/-- A legal journal begins with a brace. -/
theorem LegalJournal.head (h : LegalJournal doubles sha plan header rows es last) :
    (serialize doubles header rows).head? = some 123 := by
  obtain ⟨_, text, htext⟩ := h.newline (stringify doubles (.object header)) (by simp [journalLines])
  rw [serialize_eq, journalLines, List.map_cons, unlines_cons, htext, List.cons_append,
    encodeUtf8, List.flatMap_cons, show String.utf8EncodeChar '{' = [123] from by decide]
  rfl

theorem LegalJournal.no_bom (h : LegalJournal doubles sha plan header rows es last) :
    (serialize doubles header rows).take 3 ≠ bom := by
  intro heq
  have hhead := congrArg List.head? heq
  rw [List.head?_take, if_neg (by omega), h.head] at hhead
  exact absurd hhead (by decide)

theorem LegalJournal.linesOf (h : LegalJournal doubles sha plan header rows es last)
    (hmark : mark = bom ∨ mark = []) (htorn : (10 : UInt8) ∉ torn)
    (hbytes : bytes = mark ++ serialize doubles header rows ++ torn) :
    LinesOf bytes mark (journalLines doubles header rows) torn where
  bytes := by rw [hbytes, serialize_eq]
  mark := hmark.imp_right fun hnil => ⟨hnil, by rw [← serialize_eq]; exact h.no_bom⟩
  nonempty := by simp [journalLines]
  newline l hl := (h.newline l hl).1
  torn := htorn

/-- **A legal journal is parsed**, with what is torn behind it. -/
theorem LegalJournal.parse (h : LegalJournal doubles sha plan header rows es last)
    (hmark : mark = bom ∨ mark = []) (htorn : (10 : UInt8) ∉ torn)
    (hbytes : bytes = mark ++ serialize doubles header rows ++ torn)
    (hlen : bytes.length ≤ maxJournalBytes) :
    ∃ st, parseGlobalMutationJournal doubles sha bytes plan = .ok (parsedOf sha bytes torn header st) ∧
      st.records = rows ∧ st.previousSha256 = last ∧ Tracks st es := by
  obtain ⟨runId, hrun, hperm⟩ := h.headed
  obtain ⟨st, hread, hst⟩ := readLines_of_records h.planned hrun hperm h.records h.lines h.bound
  refine ⟨st, ?_, hst⟩
  rw [parse_of_lines (h.linesOf hmark htorn hbytes) h.planned hlen
    (by rw [journalLines, List.length_map, List.length_cons]; exact h.lines), hread]
  rfl

end Legal

theorem Canonical.parse {bytes rest mark : Bytes} (h : Canonical doubles sha plan rest)
    (hbytes : bytes = mark ++ rest) (hmark : mark = bom ∨ mark = [])
    (hlen : bytes.length ≤ maxJournalBytes) :
    ∃ j, parseGlobalMutationJournal doubles sha bytes plan = .ok j ∧ j.tornBytes = 0 := by
  obtain ⟨header, rows, es, last, hlegal, _, rfl⟩ := canonical_iff.mp h
  obtain ⟨st, hparse, _⟩ := hlegal.parse hmark List.not_mem_nil
    (by rw [hbytes, List.append_nil]) hlen
  exact ⟨_, hparse, rfl⟩

/-- What is parsed is a legal journal, behind a mark if there is one, and before a torn record. -/
theorem legal_of_parse {bytes : Bytes} {j : ParsedJournal}
    (h : parseGlobalMutationJournal doubles sha bytes plan = .ok j) :
    ∃ mark torn es last, (mark = bom ∨ mark = []) ∧ (10 : UInt8) ∉ torn ∧
      bytes = mark ++ serialize doubles j.header j.records ++ torn ∧ torn.length = j.tornBytes ∧
      bytes.length ≤ maxJournalBytes ∧ j.lastSha256 = last ∧
        LegalJournal doubles sha plan j.header j.records es last := by
  obtain ⟨mark, lines, torn, header, st, hlines, hplan, hlen, hcount, hread, rfl⟩ :=
    linesOf_of_parse h
  obtain ⟨rfl, es, hholds⟩ := readLines_ok hread
  refine ⟨mark, torn, es, st.previousSha256, hlines.mark.imp_right And.left, hlines.torn,
    by rw [serialize_eq]; exact hlines.bytes, rfl, hlen, rfl, hplan, hholds.headed,
    hholds.read.records, ?_, hholds.bound⟩
  rw [journalLines, List.length_map, List.length_cons] at hcount
  exact hcount

/-- A journal that is accepted without a torn record is canonical, behind a mark if there is one. -/
theorem canonical_of_parse {bytes : Bytes} {j : ParsedJournal}
    (h : parseGlobalMutationJournal doubles sha bytes plan = .ok j) (htorn : j.tornBytes = 0) :
    ∃ mark, (mark = bom ∨ mark = []) ∧ bytes = mark ++ serialize doubles j.header j.records ∧
      bytes.length ≤ maxJournalBytes ∧
        Canonical doubles sha plan (serialize doubles j.header j.records) := by
  obtain ⟨mark, torn, es, last, hmark, _, hbytes, htornlen, hlen, _, hlegal⟩ := legal_of_parse h
  have hnil : torn = [] := List.length_eq_zero_iff.mp (htornlen.trans htorn)
  rw [hnil, List.append_nil] at hbytes
  refine ⟨mark, hmark, hbytes, hlen, canonical_iff.mpr ⟨_, _, es, last, hlegal, ?_, rfl⟩⟩
  have := congrArg List.length hbytes
  rw [List.length_append] at this
  omega

/-- No canonical journal begins with an encoding mark. -/
theorem not_canonical_bom (rest : Bytes) : ¬ Canonical doubles sha plan (bom ++ rest) := by
  intro h
  obtain ⟨header, rows, es, last, hlegal, _, hbytes⟩ := canonical_iff.mp h
  refine hlegal.no_bom ?_
  rw [← hbytes]
  exact List.take_left' rfl

/--
**Journals are accepted exactly**: a journal without a torn record is accepted where its bytes are
the canonical serialization of what it is parsed into, unless they are an encoding mark and a
canonical journal.
-/
theorem accepted_exactly_iff (doubles : Doubles) (sha : Sha256) (plan : Units) (bytes : Bytes) :
    AcceptedExactly doubles sha plan bytes ↔ ¬ MarkedCanonical doubles sha plan bytes := by
  constructor
  · rintro h ⟨rest, rfl, hcanonical, hlen⟩
    exact not_canonical_bom rest (h.accepted.mp (hcanonical.parse rfl (.inl rfl) hlen))
  · intro hnot
    have hunmarked : ∀ j, parseGlobalMutationJournal doubles sha bytes plan = .ok j →
        j.tornBytes = 0 → bytes = serialize doubles j.header j.records ∧
          Canonical doubles sha plan bytes := by
      intro j hparse htorn
      obtain ⟨mark, hmark, hbytes, hlen, hcanonical⟩ := canonical_of_parse hparse htorn
      rcases hmark with rfl | rfl
      · exact absurd ⟨_, hbytes, hcanonical, hlen⟩ hnot
      · rw [List.nil_append] at hbytes
        exact ⟨hbytes, hbytes ▸ hcanonical⟩
    refine ⟨⟨?_, ?_⟩, fun j hparse htorn => (hunmarked j hparse htorn).1⟩
    · rintro ⟨j, hparse, htorn⟩
      exact (hunmarked j hparse htorn).2
    · intro hcanonical
      obtain ⟨header, rows, es, last, _, hlen, hbytes⟩ := canonical_iff.mp hcanonical
      exact hcanonical.parse (List.nil_append bytes).symm (.inr rfl) (by rw [hbytes]; exact hlen)

/-- Doubles that are all rational numbers. -/
def someDoubles : Doubles := plainDoubles

/-- A hash that does not look at the bytes. -/
def someSha : Sha256 where
  hash _ := List.replicate 64 (unitOf '0')
  isDigest_hash _ := by decide

def somePlan : Units := List.replicate 64 (unitOf 'a')

def someRunId : Units := List.replicate 32 (unitOf '1')

theorem length_someHeader :
    (line someDoubles (headerOf somePlan someRunId)).length ≤ maxRecordBytes + 1 := by
  decide +kernel

theorem canonical_header : Canonical someDoubles someSha somePlan
    (serialize someDoubles (headerOf somePlan someRunId) []) :=
  ⟨someRunId, headerOf somePlan someRunId, [], [], _, by decide, by decide, .refl _, .nil,
    ⟨by decide +kernel, by decide, by
      intro v hv
      rw [List.mem_singleton.mp hv]
      exact length_someHeader⟩, rfl⟩

/-- A journal behind an encoding mark is accepted. -/
theorem marked_journal_accepted : ∃ (doubles : Doubles) (sha : Sha256) (plan : Units)
    (bytes : Bytes), ¬ AcceptedExactly doubles sha plan bytes := by
  refine ⟨someDoubles, someSha, somePlan,
    bom ++ serialize someDoubles (headerOf somePlan someRunId) [], fun h => ?_⟩
  exact not_canonical_bom _
    (h.accepted.mp (canonical_header.parse rfl (.inl rfl) (by decide +kernel)))

end Caveat.Managed
