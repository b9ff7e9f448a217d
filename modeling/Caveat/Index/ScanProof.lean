import Caveat.Index.Scan
import Caveat.Lib.Loop

/-!
# What a scan leaves in the index

The contents of a source are a function from ids to records, without row numbers. `rescanned` is
what a scan makes of them: an id that a file carries has that file's record, an id whose row lies
at the path of a refused file keeps its record, and every other id is gone. A scan that ends
well leaves exactly that (`scanFiles_contents`), whatever the other sources hold, and it ends well
just when every file passes a test against the files before it (`scanFiles_ok_iff`).

The loop invariant is `Progress`: the contents are those of the files done so far, and a row's
number is in `touched` just when one of them has claimed its id.
-/

namespace Caveat.Index

open Js Entry

abbrev Contents := Text → Option Record

variable (host : Host) (source : Source) (o : ScanOptions)

/-- The id a file is stored under. -/
def storedId (item : WalkItem) : Option Text :=
  match readRow host source item with
  | .ok row => (bindText host row.id).toOption.join
  | .error _ => none

/-- The file breaks a limit. -/
def refused (item : WalkItem) : Bool :=
  match readRow host source item with
  | .error (.constraint _) => true
  | _ => false

/-- The columns a file is stored with. -/
def freshColumns (item : WalkItem) : Option Columns :=
  match readRow host source item with
  | .ok row => (row.columns host).toOption
  | .error _ => none

/-- The record of a file over the contents `P`. -/
def recordOf (P : Contents) (item : WalkItem) (id : Text) : Option Record :=
  if o.skipUnchanged && (P id).any (fun r => unchanged r.columns item) then P id
  else (freshColumns host o.source item).map (fun columns =>
    { columns, indexedAt := item.now, lastHitAt := (P id).bind Record.lastHitAt })

/-- The contents once the files `done` have been handled. -/
def indexed (P : Contents) (done : List WalkItem) (id : Text) : Option Record :=
  match done.find? (fun item => storedId host o.source item = some id) with
  | some item => recordOf host o P item id
  | none => P id

/-- A file carries the id, or a refused file lies where its row does. -/
def claimed (P : Contents) (done : List WalkItem) (id : Text) : Bool :=
  done.any (fun item => storedId host o.source item = some id) ||
    (P id).any (fun r => done.any (fun item =>
      refused host o.source item && item.file.path = r.columns.path))

/-- What a scan of `walk` makes of the contents `P`. -/
def rescanned (P : Contents) (walk : List WalkItem) (id : Text) : Option Record :=
  if claimed host o P walk id then indexed host o P walk id else none

/-- The test of a file with a row: its id is new to the scan, and the row can be stored. -/
def PassesRow (P : Contents) (done : List WalkItem) (item : WalkItem) (row : UpsertRow) : Prop :=
  item.fault ≠ some .lookup ∧ item.fault ≠ some .touch ∧
    ∃ id, bindText host row.id = .ok (some id) ∧ claimed host o P done id = false ∧
      ((o.skipUnchanged && (P id).any (fun r => unchanged r.columns item)) = true ∨
        (item.fault ≠ some .upsert ∧ ∃ columns, row.columns host = .ok columns))

/-- The test of a refused file: no row at its path has been claimed. -/
def PassesRefused (P : Contents) (done : List WalkItem) (item : WalkItem) : Prop :=
  item.fault ≠ some .lookup ∧ item.fault ≠ some .touch ∧
    ∀ id r, indexed host o P done id = some r → r.columns.path = item.file.path →
      claimed host o P done id = false

/-- The test of a file against the files done before it. -/
def Passes (P : Contents) (done : List WalkItem) (item : WalkItem) : Prop :=
  item.fault ≠ some .read ∧
    match readRow host o.source item with
    | .ok row => PassesRow host o P done item row
    | .error (.constraint _) => PassesRefused host o P done item
    | .error _ => False

structure Progress (prior : Table) (done : List WalkItem) (st : ScanState) : Prop where
  contents : ∀ id, st.table.contents o.source id =
    indexed host o (prior.contents o.source) done id
  others : ∀ s, s ≠ o.source → st.table.rowsOf s = prior.rowsOf s
  touched : ∀ id r, st.table.find? (o.source, id) = some r →
    (r.rowid ∈ st.touched ↔ claimed host o (prior.contents o.source) done id = true)
  known : ∀ n ∈ st.touched, ∃ id r, st.table.find? (o.source, id) = some r ∧ r.rowid = n
  present : ∀ id, claimed host o (prior.contents o.source) done id = true →
    ∃ r, st.table.find? (o.source, id) = some r

variable {host : Host} {source : Source} {o : ScanOptions}

/-! ## How the abstract contents grow by one file -/

theorem storedId_of_row {item : WalkItem} {row : UpsertRow} {id : Text}
    (hrow : readRow host source item = .ok row) (hid : bindText host row.id = .ok (some id)) :
    storedId host source item = some id := by
  simp [storedId, hrow, hid, Except.toOption]

theorem refused_of_row {item : WalkItem} {row : UpsertRow}
    (hrow : readRow host source item = .ok row) : refused host source item = false := by
  simp [refused, hrow]

theorem storedId_of_refused {item : WalkItem} {e : EntryInputConstraintError}
    (h : readRow host source item = .error (.constraint e)) :
    storedId host source item = none := by
  simp [storedId, h]

theorem not_stored_of_not_claimed {P : Contents} {done : List WalkItem} {id : Text}
    (h : claimed host o P done id = false) :
    done.find? (fun item => storedId host o.source item = some id) = none := by
  rw [claimed, Bool.or_eq_false_iff] at h
  rw [List.find?_eq_none]
  intro item hitem
  have := List.any_eq_false.mp h.1 item hitem
  simpa using this

theorem indexed_of_not_claimed {P : Contents} {done : List WalkItem} {id : Text}
    (h : claimed host o P done id = false) : indexed host o P done id = P id := by
  rw [indexed, not_stored_of_not_claimed h]

theorem indexed_snoc_self {P : Contents} {done : List WalkItem} {item : WalkItem} {id : Text}
    (h : claimed host o P done id = false) (hid : storedId host o.source item = some id) :
    indexed host o P (done ++ [item]) id = recordOf host o P item id := by
  rw [indexed, List.find?_append, not_stored_of_not_claimed h]
  simp [hid]

theorem indexed_snoc_of_ne {P : Contents} {done : List WalkItem} {item : WalkItem} {id : Text}
    (hid : storedId host o.source item ≠ some id) :
    indexed host o P (done ++ [item]) id = indexed host o P done id := by
  rw [indexed, indexed, List.find?_append]
  cases done.find? (fun item => storedId host o.source item = some id) with
  | some _ => rfl
  | none => simp [hid]

theorem claimed_snoc_row {P : Contents} {done : List WalkItem} {item : WalkItem}
    {row : UpsertRow} {id : Text} (hrow : readRow host o.source item = .ok row)
    (hid : bindText host row.id = .ok (some id)) (i : Text) :
    claimed host o P (done ++ [item]) i = (claimed host o P done i || decide (i = id)) := by
  have hne : (some id = some i) ↔ i = id := by
    rw [Option.some.injEq]
    exact eq_comm
  simp only [claimed, List.any_append, List.any_cons, List.any_nil, Bool.or_false,
    storedId_of_row hrow hid, refused_of_row hrow, Bool.false_and, hne]
  cases decide (i = id) <;> simp

theorem claimed_snoc_refused {P : Contents} {done : List WalkItem} {item : WalkItem}
    {e : EntryInputConstraintError} (h : readRow host o.source item = .error (.constraint e))
    (i : Text) :
    claimed host o P (done ++ [item]) i =
      (claimed host o P done i || (P i).any (fun r => item.file.path = r.columns.path)) := by
  have href : refused host o.source item = true := by simp [refused, h]
  simp only [claimed, List.any_append, List.any_cons, List.any_nil, Bool.or_false,
    storedId_of_refused h, href, Bool.true_and, reduceCtorEq, decide_false]
  cases P i with
  | none => simp
  | some r => simp [Bool.or_assoc]

/-! ## `touched` -/

theorem touch_ok {touched : List Nat} {n : Nat} (h : n ∉ touched) :
    touch touched n = .ok (touched ++ [n]) := by
  rw [touch, if_neg h]

theorem touch_error {touched : List Nat} {n : Nat} (h : n ∈ touched) :
    touch touched n = .error .touchedTwice := by
  rw [touch, if_pos h]

theorem touchAll_ok {ns : List Nat} : ∀ {touched : List Nat}, (∀ n ∈ ns, n ∉ touched) →
    ns.Nodup → ns.foldlM touch touched = .ok (touched ++ ns) := by
  induction ns with
  | nil => intro touched _ _; simp [pure, Except.pure]
  | cons n ns ih =>
      intro touched hnew hnodup
      obtain ⟨hn, hns⟩ := List.nodup_cons.mp hnodup
      rw [List.foldlM_cons, touch_ok (hnew n (by simp))]
      have hrest : ∀ m ∈ ns, m ∉ touched ++ [n] := by
        intro m hm hin
        rcases List.mem_append.mp hin with hin | hin
        · exact hnew m (List.mem_cons_of_mem n hm) hin
        · exact hn (List.mem_singleton.mp hin ▸ hm)
      have := ih hrest hns
      simpa [bind, Except.bind] using this

theorem touchAll_error {ns : List Nat} : ∀ {touched : List Nat}, (∃ n ∈ ns, n ∈ touched) →
    ∃ e, ns.foldlM touch touched = .error e := by
  induction ns with
  | nil => intro touched h; exact absurd h (by simp)
  | cons n ns ih =>
      intro touched h
      by_cases hn : n ∈ touched
      · exact ⟨.touchedTwice, by rw [List.foldlM_cons, touch_error hn]; rfl⟩
      · rw [List.foldlM_cons, touch_ok hn]
        obtain ⟨m, hm, hin⟩ := h
        rcases List.mem_cons.mp hm with rfl | hm
        · exact absurd hin hn
        · exact ih ⟨m, hm, List.mem_append_left _ hin⟩

/-! ## One file -/

theorem contents_of_find? {t : Table} {s : Source} {id : Text} {r : Row}
    (h : t.find? (s, id) = some r) : t.contents s id = some r.value := by
  rw [Table.contents, Lib.RowStore.value?, h]
  rfl

theorem find?_of_contents {t : Table} {s : Source} {id : Text} {v : Record}
    (h : t.contents s id = some v) : ∃ r, t.find? (s, id) = some r ∧ r.value = v := by
  rw [Table.contents, Lib.RowStore.value?, Option.map_eq_some_iff] at h
  exact h

/-- Rows of one source with one number have one id. -/
theorem id_of_rowid {t : Table} {s : Source} {id i : Text} {r r' : Row}
    (h : t.find? (s, id) = some r) (h' : t.find? (s, i) = some r') (heq : r.rowid = r'.rowid) :
    id = i := by
  obtain ⟨hm, hk⟩ := Lib.RowStore.find?_eq_some.mp h
  obtain ⟨hm', hk'⟩ := Lib.RowStore.find?_eq_some.mp h'
  have hr : r = r' := Lib.RowStore.row_inj hm hm' heq
  rw [← hr, hk] at hk'
  exact congrArg Prod.snd hk'

variable {prior : Table} {done : List WalkItem} {st : ScanState} {item : WalkItem}
  {row : UpsertRow} {id : Text}

/-- The record of an id no file has claimed is the prior one. -/
theorem Progress.value_eq (h : Progress host o prior done st)
    (hnew : claimed host o (prior.contents o.source) done id = false) :
    st.table.contents o.source id = prior.contents o.source id := by
  rw [h.contents, indexed_of_not_claimed hnew]

/-- An unchanged file: its row is touched and stays. -/
theorem Progress.keep (h : Progress host o prior done st)
    (hrow : readRow host o.source item = .ok row) (hid : bindText host row.id = .ok (some id))
    (hnew : claimed host o (prior.contents o.source) done id = false) {r : Row}
    (hr : st.table.find? (o.source, id) = some r)
    (hskip : (o.skipUnchanged && unchanged r.value.columns item) = true) :
    Progress host o prior (done ++ [item]) { st with touched := st.touched ++ [r.rowid] } where
  contents := by
    intro i
    by_cases hi : i = id
    · have hP : prior.contents o.source id = some r.value := by
        rw [← h.value_eq hnew, contents_of_find? hr]
      rw [hi, indexed_snoc_self hnew (storedId_of_row hrow hid), recordOf, hP]
      rw [if_pos (by simpa using hskip)]
      exact contents_of_find? hr
    · rw [indexed_snoc_of_ne (by rw [storedId_of_row hrow hid]; simpa using fun he => hi he.symm)]
      exact h.contents i
  others := h.others
  touched := by
    intro i r' hr'
    rw [claimed_snoc_row hrow hid, List.mem_append, List.mem_singleton, h.touched i r' hr',
      Bool.or_eq_true, decide_eq_true_iff]
    refine or_congr_right ⟨fun heq => id_of_rowid hr' hr heq, fun hi => ?_⟩
    rw [hi, hr] at hr'
    rw [Option.some.inj hr']
  known := by
    intro n hn
    rcases List.mem_append.mp hn with hn | hn
    · exact h.known n hn
    · exact ⟨id, r, hr, (List.mem_singleton.mp hn).symm⟩
  present := by
    intro i hi
    rw [claimed_snoc_row hrow hid, Bool.or_eq_true, decide_eq_true_iff] at hi
    rcases hi with hi | rfl
    · exact h.present i hi
    · exact ⟨r, hr⟩

/-- The number of a written row was not touched before when its id was not claimed. -/
theorem Progress.write_new (h : Progress host o prior done st)
    (hnew : claimed host o (prior.contents o.source) done id = false) (columns : Columns)
    (at' : Int) : (st.table.write o.source id columns at').2 ∉ st.touched := by
  intro hin
  rw [Table.write, Lib.RowStore.put_rowid] at hin
  cases hf : st.table.find? (o.source, id) with
  | none =>
      rw [hf] at hin
      obtain ⟨i, r, hr, hn⟩ := h.known _ hin
      have hlt := st.table.rowid_lt r (Lib.RowStore.find?_eq_some.mp hr).1
      rw [hn] at hlt
      exact absurd hlt (Nat.lt_irrefl _)
  | some r =>
      rw [hf] at hin
      have := (h.touched id r hf).mp hin
      rw [hnew] at this
      exact absurd this (by simp)

/-- A written file: its row holds the file's record and is touched. -/
theorem Progress.write (h : Progress host o prior done st)
    (hrow : readRow host o.source item = .ok row) (hid : bindText host row.id = .ok (some id))
    (hnew : claimed host o (prior.contents o.source) done id = false) {columns : Columns}
    (hcols : row.columns host = .ok columns)
    (hskip : (o.skipUnchanged && (prior.contents o.source id).any
      (fun r => unchanged r.columns item)) = false) (added updated : Nat) :
    Progress host o prior (done ++ [item])
      { st with
        table := (st.table.write o.source id columns item.now).1
        touched := st.touched ++ [(st.table.write o.source id columns item.now).2]
        added, updated } where
  contents := by
    intro i
    by_cases hi : i = id
    · rw [hi, indexed_snoc_self hnew (storedId_of_row hrow hid), recordOf,
        if_neg (by rw [hskip]; simp), contents_write, if_pos ⟨rfl, rfl⟩, h.value_eq hnew]
      simp [freshColumns, hrow, hcols, Except.toOption]
    · rw [indexed_snoc_of_ne (by rw [storedId_of_row hrow hid]; simpa using fun he => hi he.symm),
        contents_write, if_neg (fun he => hi he.2)]
      exact h.contents i
  others := fun s hs => (rowsOf_write _ hs _ _ _).trans (h.others s hs)
  touched := by
    intro i r' hr'
    rw [claimed_snoc_row hrow hid, List.mem_append, List.mem_singleton, Bool.or_eq_true,
      decide_eq_true_iff]
    have hfresh := h.write_new hnew columns item.now
    rw [Table.write] at hr' hfresh ⊢
    rw [Lib.RowStore.find?_put] at hr'
    by_cases hi : i = id
    · rw [if_pos (by rw [hi])] at hr'
      have : r'.rowid = _ := congrArg Lib.StoredRow.rowid (Option.some.inj hr').symm
      exact ⟨fun _ => .inr hi, fun _ => .inr this⟩
    · rw [if_neg (fun he => hi (congrArg Prod.snd he))] at hr'
      rw [h.touched i r' hr']
      refine or_congr_right ⟨fun heq => ?_, fun he => absurd he hi⟩
      have hself : (st.table.put (o.source, id) fun old =>
          { columns, indexedAt := item.now, lastHitAt := old.bind Record.lastHitAt }).1.find?
          (o.source, i) = some r' := by
        rw [Lib.RowStore.find?_put, if_neg (fun he => hi (congrArg Prod.snd he))]
        exact hr'
      exact id_of_rowid hself (Lib.RowStore.find?_put _ _ _ _ |>.trans (if_pos rfl)) heq
  known := by
    intro n hn
    rcases List.mem_append.mp hn with hold | hself
    · obtain ⟨i, r', hr', hn'⟩ := h.known n hold
      have hclaimed := (h.touched i r' hr').mp (by rw [hn']; exact hold)
      have hi : i ≠ id := by
        intro he
        rw [he, hnew] at hclaimed
        exact absurd hclaimed (by simp)
      refine ⟨i, r', ?_, hn'⟩
      rw [Table.write, Lib.RowStore.find?_put, if_neg (fun he => hi (congrArg Prod.snd he))]
      exact hr'
    · have hrow' := Lib.RowStore.find?_put st.table (o.source, id) (o.source, id) (fun old =>
          { columns, indexedAt := item.now, lastHitAt := old.bind Record.lastHitAt })
      rw [if_pos rfl] at hrow'
      exact ⟨id, _, hrow', (List.mem_singleton.mp hself).symm⟩
  present := by
    intro i hi
    rw [claimed_snoc_row hrow hid, Bool.or_eq_true, decide_eq_true_iff] at hi
    rw [Table.write, Lib.RowStore.find?_put]
    split
    · exact ⟨_, rfl⟩
    · rename_i hne
      rcases hi with hi | rfl
      · exact h.present i hi
      · exact absurd rfl hne

theorem mem_rowsAt {t : Table} {s : Source} {path : Text} {r : Row} :
    r ∈ rowsAt t s path ↔ ∃ i, t.find? (s, i) = some r ∧ r.value.columns.path = path := by
  simp only [rowsAt, Table.rowsOf, List.mem_filter, decide_eq_true_iff]
  constructor
  · rintro ⟨⟨hmem, rfl⟩, hpath⟩
    exact ⟨r.key.2, Lib.RowStore.find?_key hmem, hpath⟩
  · rintro ⟨i, hf, hpath⟩
    obtain ⟨hmem, hkey⟩ := Lib.RowStore.find?_eq_some.mp hf
    exact ⟨⟨hmem, by rw [hkey]⟩, hpath⟩

theorem rowsAt_nodup (t : Table) (s : Source) (path : Text) :
    ((rowsAt t s path).map Lib.StoredRow.rowid).Nodup :=
  t.nodup_rowid.sublist ((List.filter_sublist.trans List.filter_sublist).map _)

/-- A refused file: the rows at its path are touched and stay. -/
theorem Progress.skip (h : Progress host o prior done st) {e : EntryInputConstraintError}
    (href : readRow host o.source item = .error (.constraint e))
    (hpass : ∀ i r, indexed host o (prior.contents o.source) done i = some r →
      r.columns.path = item.file.path →
      claimed host o (prior.contents o.source) done i = false) (diagnostics : List Diagnostic) :
    Progress host o prior (done ++ [item])
      { st with
        touched := st.touched ++
          (rowsAt st.table o.source item.file.path).map Lib.StoredRow.rowid
        diagnostics } where
  contents := by
    intro i
    rw [indexed_snoc_of_ne (by rw [storedId_of_refused href]; simp)]
    exact h.contents i
  others := h.others
  touched := by
    intro i r' hr'
    rw [claimed_snoc_refused href, List.mem_append, Bool.or_eq_true, h.touched i r' hr']
    have hval : indexed host o (prior.contents o.source) done i = some r'.value := by
      rw [← h.contents, contents_of_find? hr']
    constructor
    · rintro (hc | hat)
      · exact .inl hc
      · obtain ⟨r, hr, heq⟩ := List.mem_map.mp hat
        obtain ⟨j, hj, hpath⟩ := mem_rowsAt.mp hr
        have hij : j = i := id_of_rowid hj hr' heq
        rw [hij, hr', Option.some.injEq] at hj
        rw [← hj] at hpath
        have hnew := hpass i r'.value hval hpath
        rw [indexed_of_not_claimed hnew] at hval
        exact .inr (by simp [hval, hpath])
    · rintro (hc | hany)
      · exact .inl hc
      · by_cases hc : claimed host o (prior.contents o.source) done i = true
        · exact .inl hc
        · rw [indexed_of_not_claimed (by simpa using hc)] at hval
          rw [hval] at hany
          have hpath : item.file.path = r'.value.columns.path := by simpa using hany
          exact .inr (List.mem_map.mpr ⟨r', mem_rowsAt.mpr ⟨i, hr', hpath.symm⟩, rfl⟩)
  known := by
    intro n hn
    rcases List.mem_append.mp hn with hold | hat
    · exact h.known n hold
    · obtain ⟨r, hr, heq⟩ := List.mem_map.mp hat
      obtain ⟨i, hi, _⟩ := mem_rowsAt.mp hr
      exact ⟨i, r, hi, heq⟩
  present := by
    intro i hi
    by_cases hc : claimed host o (prior.contents o.source) done i = true
    · exact h.present i hc
    · rw [claimed_snoc_refused href, Bool.or_eq_true] at hi
      obtain ⟨v, hv, _⟩ := (Option.any_eq_true _ _).mp (hi.resolve_left hc)
      obtain ⟨r, hr, _⟩ := find?_of_contents ((h.value_eq (by simpa using hc)).trans hv)
      exact ⟨r, hr⟩

/-! ## The test decides the step -/

theorem strike_ok {point : FaultPoint} {t : Table} (h : item.fault ≠ some point) :
    strike item point t = .ok () := by
  rw [strike, if_neg h]

theorem strike_error {point : FaultPoint} {t : Table} (h : item.fault = some point) :
    strike item point t = .error { error := .io, table := t } := by
  rw [strike, if_pos h]

theorem select_eq {t : Table} (s : Source) {i : Option Text} (hid : bindText host row.id = .ok i) :
    select host t s row.id = .ok (i.bind (fun i => t.find? (s, i))) := by
  rw [select, hid]
  rfl

theorem upsertEntry_ok {t : Table} {columns : Columns} (hid : bindText host row.id = .ok (some id))
    (hcols : row.columns host = .ok columns) :
    upsertEntry host t row = .ok (t.write row.source id columns row.indexedAt) := by
  rw [upsertEntry, hid, hcols]
  rfl

theorem upsertEntry_passes {t : Table} {res : Table × Nat}
    (h : upsertEntry host t row = .ok res) :
    ∃ i columns, bindText host row.id = .ok (some i) ∧ row.columns host = .ok columns ∧
      res = t.write row.source i columns row.indexedAt := by
  rw [upsertEntry] at h
  obtain ⟨i, hid, h⟩ := Lib.bind_eq_ok.mp h
  obtain ⟨columns, hcols, h⟩ := Lib.bind_eq_ok.mp h
  cases i with
  | none => exact absurd h (by simp)
  | some i =>
      cases h
      exact ⟨i, columns, hid, hcols, rfl⟩

theorem strike_passes {point : FaultPoint} {t : Table} {u : Unit}
    (h : strike item point t = .ok u) : item.fault ≠ some point := by
  intro hf
  rw [strike_error hf] at h
  exact absurd h (by simp)

theorem orAbort_eq_ok {α : Type} {t : Table} {x : Except DbError α} {a : α} :
    orAbort t x = .ok a ↔ x = .ok a := by
  cases x with
  | error e => simp [orAbort]
  | ok b => simp [orAbort]

/-- A row carries the source, the time and the clock of its file. -/
theorem readRow_fields (hrow : readRow host o.source item = .ok row) :
    row.source = o.source ∧ row.indexedAt = item.now ∧ row.path = item.file.path ∧
      row.fileMtime = mtimeOf item.file.mtimeMs := by
  rw [readRow] at hrow
  split at hrow
  · exact absurd hrow (by simp)
  · rw [buildEntryUpsertRow] at hrow
    obtain ⟨parsed, _, h⟩ := Lib.bind_eq_ok.mp hrow
    cases h
    exact ⟨rfl, rfl, rfl, rfl⟩

/-- The row a search by the file's id finds says what the prior contents say. -/
theorem Progress.existing_any (h : Progress host o prior done st)
    (hnew : claimed host o (prior.contents o.source) done id = false) (p : Record → Bool) :
    (st.table.find? (o.source, id)).any (fun r => p r.value) =
      (prior.contents o.source id).any p := by
  rw [← h.value_eq hnew, Table.contents, Lib.RowStore.value?, Option.any_map]

theorem indexRow_ok (h : Progress host o prior done st)
    (hrow : readRow host o.source item = .ok row)
    (hpass : PassesRow host o (prior.contents o.source) done item row) :
    ∃ st', indexRow host o st item row = .ok st' ∧ Progress host o prior (done ++ [item]) st' := by
  obtain ⟨hlookup, htouch, id, hid, hnew, hstore⟩ := hpass
  have hany := h.existing_any hnew (fun r => unchanged r.columns item)
  obtain ⟨hsrc, hat, _, _⟩ := readRow_fields hrow
  -- the branch that writes, whether or not a row exists
  have hwrite : (o.skipUnchanged && (prior.contents o.source id).any
      (fun r => unchanged r.columns item)) = false → ∀ existing, ∃ st',
      writeRow host st item row existing = .ok st' ∧
        Progress host o prior (done ++ [item]) st' := by
    intro hskip existing
    rcases hstore with hkeep | ⟨hup, columns, hcols⟩
    · rw [hskip] at hkeep
      exact absurd hkeep (by simp)
    · refine ⟨_, ?_, h.write hrow hid hnew hcols hskip
        (if existing.isSome then st.added else st.added + 1)
        (if existing.isSome then st.updated + 1 else st.updated)⟩
      have hfresh := h.write_new hnew columns item.now
      rw [writeRow, strike_ok hup, upsertEntry_ok hid hcols, hsrc, hat]
      simp only [orAbort, bind, Except.bind, strike_ok htouch, touch_ok hfresh]
      rfl
  rw [indexRow, strike_ok hlookup, select_eq o.source hid]
  simp only [orAbort, bind, Except.bind, Option.bind_some]
  cases hf : st.table.find? (o.source, id) with
  | none =>
      rw [hf] at hany
      exact hwrite (by rw [← hany]; simp) none
  | some r =>
      rw [hf] at hany
      by_cases hskip : (o.skipUnchanged && unchanged r.value.columns item) = true
      · have hr := h.touched id r hf
        rw [hnew] at hr
        refine ⟨_, ?_, h.keep hrow hid hnew hf hskip⟩
        simp only [if_pos hskip, keepRow, strike_ok htouch, bind, Except.bind, orAbort,
          touch_ok (show r.rowid ∉ st.touched by simpa using hr)]
        rfl
      · simp only [if_neg hskip]
        exact hwrite (by rw [← hany]; simpa using hskip) (some r)

/-- A touch that succeeds is of a row no file had claimed. -/
theorem Progress.not_claimed (h : Progress host o prior done st) {r : Row} {touched : List Nat}
    (hr : st.table.find? (o.source, id) = some r) (ht : touch st.touched r.rowid = .ok touched) :
    claimed host o (prior.contents o.source) done id = false := by
  by_contra hc
  have hin := (h.touched id r hr).mpr (by simpa using hc)
  rw [touch_error hin] at ht
  exact absurd ht (by simp)

theorem Progress.not_claimed_of_write (h : Progress host o prior done st) {columns : Columns}
    {at' : Int} {touched : List Nat}
    (ht : touch st.touched (st.table.write o.source id columns at').2 = .ok touched) :
    claimed host o (prior.contents o.source) done id = false := by
  by_contra hc
  obtain ⟨r, hr⟩ := h.present id (by simpa using hc)
  rw [Table.write, Lib.RowStore.put_rowid, hr] at ht
  exact hc (h.not_claimed hr ht)

theorem indexRow_passes (h : Progress host o prior done st) {st' : ScanState}
    (hrow : readRow host o.source item = .ok row) (hres : indexRow host o st item row = .ok st') :
    PassesRow host o (prior.contents o.source) done item row := by
  obtain ⟨hsrc, _, _, _⟩ := readRow_fields hrow
  rw [indexRow] at hres
  obtain ⟨_, hlookup, hres⟩ := Lib.bind_eq_ok.mp hres
  obtain ⟨existing, hsel, hres⟩ := Lib.bind_eq_ok.mp hres
  rw [orAbort_eq_ok] at hsel
  obtain ⟨bound, hid, hex⟩ := Lib.bind_eq_ok.mp (show _ >>= _ = _ from hsel)
  cases hex
  -- what the writing branch tells
  have hwrite : ∀ existing, writeRow host st item row existing = .ok st' →
      PassesRow host o (prior.contents o.source) done item row := by
    intro existing hres
    rw [writeRow] at hres
    obtain ⟨_, hup, hres⟩ := Lib.bind_eq_ok.mp hres
    obtain ⟨⟨table, rowid⟩, hups, hres⟩ := Lib.bind_eq_ok.mp hres
    rw [orAbort_eq_ok] at hups
    obtain ⟨i, columns, hi, hcols, heq⟩ := upsertEntry_passes hups
    obtain ⟨_, htouch, hres⟩ := Lib.bind_eq_ok.mp hres
    obtain ⟨touched, htch, _⟩ := Lib.bind_eq_ok.mp hres
    rw [orAbort_eq_ok, show rowid = _ from congrArg Prod.snd heq, hsrc] at htch
    exact ⟨strike_passes hlookup, strike_passes htouch, i, hi, h.not_claimed_of_write htch,
      .inr ⟨strike_passes hup, columns, hcols⟩⟩
  cases hfound : bound.bind (fun i => st.table.find? (o.source, i)) with
  | none =>
      rw [hfound] at hres
      exact hwrite none hres
  | some r =>
      rw [hfound] at hres
      obtain ⟨i, rfl, hr⟩ := Option.bind_eq_some_iff.mp hfound
      by_cases hskip : (o.skipUnchanged && unchanged r.value.columns item) = true
      · simp only [if_pos hskip, keepRow] at hres
        obtain ⟨_, htouch, hres⟩ := Lib.bind_eq_ok.mp hres
        obtain ⟨touched, htch, _⟩ := Lib.bind_eq_ok.mp hres
        have hnew := h.not_claimed hr (orAbort_eq_ok.mp htch)
        refine ⟨strike_passes hlookup, strike_passes htouch, i, hid, hnew, .inl ?_⟩
        rw [← h.existing_any hnew (fun r => unchanged r.columns item), hr]
        simpa using hskip
      · simp only [if_neg hskip] at hres
        exact hwrite (some r) hres

theorem skipFile_ok (h : Progress host o prior done st) {e : EntryInputConstraintError}
    (href : readRow host o.source item = .error (.constraint e))
    (hpass : PassesRefused host o (prior.contents o.source) done item) :
    ∃ st', skipFile o st item e = .ok st' ∧ Progress host o prior (done ++ [item]) st' := by
  obtain ⟨hlookup, htouch, hpaths⟩ := hpass
  refine ⟨_, ?_, h.skip href hpaths
    (st.diagnostics ++ [constraintDiagnostic st.table o.source item e])⟩
  have hnew : ∀ n ∈ (rowsAt st.table o.source item.file.path).map Lib.StoredRow.rowid,
      n ∉ st.touched := by
    intro n hn hin
    obtain ⟨r, hr, rfl⟩ := List.mem_map.mp hn
    obtain ⟨i, hi, hpath⟩ := mem_rowsAt.mp hr
    have hclaimed := (h.touched i r hi).mp hin
    have hval := (h.contents i).symm.trans (contents_of_find? hi)
    rw [hpaths i r.value hval hpath] at hclaimed
    exact absurd hclaimed (by simp)
  rw [skipFile, strike_ok hlookup, strike_ok htouch,
    touchAll_ok hnew (rowsAt_nodup st.table o.source item.file.path)]
  rfl

theorem skipFile_passes (h : Progress host o prior done st) {e : EntryInputConstraintError}
    {st' : ScanState} (hres : skipFile o st item e = .ok st') :
    PassesRefused host o (prior.contents o.source) done item := by
  rw [skipFile] at hres
  obtain ⟨_, hlookup, hres⟩ := Lib.bind_eq_ok.mp hres
  obtain ⟨_, htouch, hres⟩ := Lib.bind_eq_ok.mp hres
  obtain ⟨touched, htch, _⟩ := Lib.bind_eq_ok.mp hres
  refine ⟨strike_passes hlookup, strike_passes htouch, ?_⟩
  intro i v hv hpath
  by_contra hc
  rw [← h.contents] at hv
  obtain ⟨r, hr, hrv⟩ := find?_of_contents hv
  have hin := (h.touched i r hr).mpr (by simpa using hc)
  have hat : r.rowid ∈ (rowsAt st.table o.source item.file.path).map Lib.StoredRow.rowid :=
    List.mem_map.mpr ⟨r, mem_rowsAt.mpr ⟨i, hr, by rw [hrv]; exact hpath⟩, rfl⟩
  obtain ⟨err, herr⟩ := touchAll_error ⟨r.rowid, hat, hin⟩
  rw [orAbort_eq_ok, herr] at htch
  exact absurd htch (by simp)

/-- **One file.** A file that passes its test is indexed or skipped, and the progress goes on. -/
theorem scanFile_ok (h : Progress host o prior done st)
    (hpass : Passes host o (prior.contents o.source) done item) :
    ∃ st', scanFile host o st item = .ok st' ∧ Progress host o prior (done ++ [item]) st' := by
  obtain ⟨hread, hpass⟩ := hpass
  rw [scanFile, strike_ok hread]
  simp only [bind, Except.bind]
  cases hrow : readRow host o.source item with
  | ok row =>
      rw [hrow] at hpass
      exact indexRow_ok h hrow hpass
  | error err =>
      rw [hrow] at hpass
      cases err with
      | constraint e => exact skipFile_ok h hrow hpass
      | format => exact hpass.elim
      | yaml => exact hpass.elim

theorem scanFile_passes (h : Progress host o prior done st) {st' : ScanState}
    (hres : scanFile host o st item = .ok st') :
    Passes host o (prior.contents o.source) done item := by
  rw [scanFile] at hres
  obtain ⟨_, hread, hres⟩ := Lib.bind_eq_ok.mp hres
  refine ⟨strike_passes hread, ?_⟩
  cases hrow : readRow host o.source item with
  | ok row =>
      rw [hrow] at hres
      exact indexRow_passes h hrow hres
  | error err =>
      rw [hrow] at hres
      cases err with
      | constraint e => exact skipFile_passes h hres
      | format => exact absurd hres (by simp)
      | yaml => exact absurd hres (by simp)

/-! ## A whole scan -/

theorem Progress.init (host : Host) (o : ScanOptions) (prior : Table) :
    Progress host o prior [] { table := prior } where
  contents _ := rfl
  others _ _ := rfl
  touched := by
    intro i r _
    have : claimed host o (prior.contents o.source) [] i = false := by
      rw [claimed]
      cases prior.contents o.source i <;> rfl
    simp [this]
  known := by simp
  present := by
    intro i hi
    have : claimed host o (prior.contents o.source) [] i = false := by
      rw [claimed]
      cases prior.contents o.source i <;> rfl
    rw [this] at hi
    exact absurd hi (by simp)

/-- A scan ends well just when each file passes its test and the deletion does not fail. -/
theorem scanFiles_ok_iff {walk : List WalkItem} {sweepFault : Bool} :
    (∃ res, scanFiles host o prior walk sweepFault = .ok res) ↔
      Lib.EachStep (Passes host o (prior.contents o.source)) [] walk ∧ sweepFault = false := by
  constructor
  · rintro ⟨res, hres⟩
    rw [scanFiles] at hres
    obtain ⟨st, hloop, hres⟩ := Lib.bind_eq_ok.mp hres
    refine ⟨Lib.eachStep_of_foldlM_ok (fun _ _ _ h hp => scanFile_ok h hp)
      (fun _ _ _ _ h hr => scanFile_passes h hr) (Progress.init host o prior) hloop, ?_⟩
    by_contra hf
    rw [if_pos (by simpa using hf)] at hres
    exact absurd hres (by simp)
  · rintro ⟨hall, hf⟩
    obtain ⟨st, hloop, _⟩ := Lib.foldlM_ok (fun _ _ _ h hp => scanFile_ok h hp)
      (Progress.init host o prior) hall
    exact ⟨_, by rw [scanFiles, hloop, hf]; rfl⟩

/--
**What a scan leaves.** The source holds the rescanned contents, and the rows of every other
source are the same rows.
-/
theorem scanFiles_contents {walk : List WalkItem} {sweepFault : Bool} {t : Table}
    {res : ScanResult} (hres : scanFiles host o prior walk sweepFault = .ok (t, res)) :
    (∀ i, t.contents o.source i = rescanned host o (prior.contents o.source) walk i) ∧
      ∀ s, s ≠ o.source → t.rowsOf s = prior.rowsOf s := by
  obtain ⟨hall, hf⟩ := scanFiles_ok_iff.mp ⟨_, hres⟩
  obtain ⟨st, hloop, hp⟩ := Lib.foldlM_ok (fun _ _ _ h hp => scanFile_ok h hp)
    (Progress.init host o prior) hall
  rw [scanFiles, hloop, hf] at hres
  cases hres
  rw [List.nil_append] at hp
  constructor
  · intro i
    rw [Table.contents, Lib.RowStore.value?, Table.sweep, Lib.RowStore.find?_keep, rescanned,
      ← hp.contents, Table.contents, Lib.RowStore.value?]
    cases hf : st.table.find? (o.source, i) with
    | none => simp
    | some r =>
        have hkey : r.key.1 = o.source := by rw [(Lib.RowStore.find?_eq_some.mp hf).2]
        have htouched := hp.touched i r hf
        by_cases hc : claimed host o (prior.contents o.source) walk i = true
        · rw [if_pos hc, Option.filter_some_pos (by simp [htouched.mpr hc])]
        · rw [if_neg hc, Option.filter_some_neg (by simp [hkey, mt htouched.mp hc])]
          rfl
  · intro s hs
    rw [← hp.others s hs, Table.rowsOf, Table.rowsOf, Table.sweep, Lib.RowStore.keep,
      List.filter_filter]
    refine List.filter_congr ?_
    intro r _
    by_cases hr : r.key.1 = s
    · simp [hr, hs]
    · simp [hr]

/-! ## What every table of a scan has in common -/

/-- A scan changes the table by writing rows of files it read and by deleting. -/
structure KeptByScan (host : Host) (o : ScanOptions) (walk : List WalkItem)
    (I : Table → Prop) : Prop where
  write : ∀ item ∈ walk, ∀ row, readRow host o.source item = .ok row →
    ∀ id, bindText host row.id = .ok (some id) → ∀ columns, row.columns host = .ok columns →
    ∀ t : Table, I t → I (t.write o.source id columns item.now).1
  sweep : ∀ touched, ∀ t : Table, I t → I (t.sweep o.source touched)

variable {walk : List WalkItem} {I : Table → Prop}

/-- A computation ends with `Q`, or with an exception over a table that satisfies `I`. -/
def Leaves {α : Type} (I : Table → Prop) (Q : α → Prop) (x : Except ScanAbort α) : Prop :=
  (∀ a, x = .ok a → Q a) ∧ ∀ e, x = .error e → I e.table

section Leaves

variable {α β : Type} {Q : α → Prop} {R : β → Prop} {t : Table}

theorem leaves_ok {a : α} (h : Q a) : Leaves I Q (.ok a) :=
  ⟨fun b hb => by cases hb; exact h, fun e he => absurd he (by simp)⟩

theorem leaves_error {e : ScanAbort} (h : I e.table) : Leaves I Q (.error e) :=
  ⟨fun b hb => absurd hb (by simp), fun e' he => by cases he; exact h⟩

theorem Leaves.bind {x : Except ScanAbort α} {k : α → Except ScanAbort β} (h : Leaves I Q x)
    (hk : ∀ a, Q a → Leaves I R (k a)) : Leaves I R (x >>= k) := by
  cases x with
  | error e => exact leaves_error (h.2 e rfl)
  | ok a => exact hk a (h.1 a rfl)

theorem leaves_strike {point : FaultPoint} (h : I t) :
    Leaves I (fun _ => True) (strike item point t) := by
  rw [strike]
  split
  · exact leaves_error h
  · exact leaves_ok trivial

theorem leaves_orAbort {x : Except DbError α} (h : I t) (hQ : ∀ a, x = .ok a → Q a) :
    Leaves I Q (orAbort t x) := by
  cases x with
  | error e => exact leaves_error h
  | ok a => exact leaves_ok (hQ a rfl)

end Leaves

theorem writeRow_leaves (hI : KeptByScan host o walk I) (hitem : item ∈ walk)
    (hrow : readRow host o.source item = .ok row) {existing : Option Row} (h : I st.table) :
    Leaves I (fun st' => I st'.table) (writeRow host st item row existing) := by
  obtain ⟨hsrc, hat, _, _⟩ := readRow_fields hrow
  have hups : ∀ res, upsertEntry host st.table row = .ok res → I res.1 := by
    intro res hres
    obtain ⟨id, columns, hid, hcols, rfl⟩ := upsertEntry_passes hres
    rw [hsrc, hat]
    exact hI.write item hitem row hrow id hid columns hcols st.table h
  refine (leaves_strike h).bind fun _ _ => (leaves_orAbort h hups).bind fun res hres => ?_
  refine (leaves_strike hres).bind fun _ _ => ?_
  exact (leaves_orAbort hres fun _ _ => trivial).bind fun _ _ => leaves_ok hres

theorem scanFile_leaves (hI : KeptByScan host o walk I) (hitem : item ∈ walk) (h : I st.table) :
    Leaves I (fun st' => I st'.table) (scanFile host o st item) := by
  refine (leaves_strike h).bind fun _ _ => ?_
  cases hrow : readRow host o.source item with
  | error err =>
      cases err with
      | constraint e =>
          refine (leaves_strike h).bind fun _ _ => (leaves_strike h).bind fun _ _ => ?_
          exact (leaves_orAbort h fun _ _ => trivial).bind fun _ _ => leaves_ok h
      | format => exact leaves_error h
      | yaml => exact leaves_error h
  | ok row =>
      refine (leaves_strike h).bind fun _ _ => ?_
      refine (leaves_orAbort h fun _ _ => trivial).bind fun existing _ => ?_
      cases existing with
      | none => exact writeRow_leaves hI hitem hrow h
      | some r =>
          simp only []
          split
          · refine (leaves_strike h).bind fun _ _ => ?_
            exact (leaves_orAbort h fun _ _ => trivial).bind fun _ _ => leaves_ok h
          · exact writeRow_leaves hI hitem hrow h

/-- **What writes and deletions keep, a scan keeps, however it ends.** -/
theorem scanFiles_leaves (hI : KeptByScan host o walk I) (h : I prior) (sweepFault : Bool) :
    Leaves I (fun res => I res.1) (scanFiles host o prior walk sweepFault) := by
  have hloop : Leaves I (fun st' => I st'.table)
      (walk.foldlM (scanFile host o) { table := prior }) :=
    Lib.foldlM_keeps (fun _ hitem _ hs => scanFile_leaves hI hitem hs) h
  refine hloop.bind fun st hst => ?_
  split
  · exact leaves_error hst
  · exact leaves_ok (hI.sweep st.touched st.table hst)

end Caveat.Index
