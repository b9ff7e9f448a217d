import Caveat.Hooks.Retrieval

/-!
# What the gathering knows

While the tokens are asked for one by one, every entry of `perEntry` is what its tokens so far make of
its row, and the rows are those that some token has found.
-/

namespace Caveat.Hooks

open Js

variable (uni : Unicode)

/-! ## Sets -/

theorem mem_addTo {α : Type} [DecidableEq α] {value x : α} {set : List α} :
    x ∈ addTo value set ↔ x = value ∨ x ∈ set := by
  rw [addTo]
  split
  · rename_i h
    exact ⟨.inr, fun hx => hx.elim (fun hx => hx ▸ h) id⟩
  · simp [or_comm]

theorem nodup_addTo {α : Type} [DecidableEq α] {value : α} {set : List α} (h : set.Nodup) :
    (addTo value set).Nodup := by
  rw [addTo]
  split
  · exact h
  · rename_i hnew
    exact List.nodup_append.mpr ⟨h, List.nodup_singleton _, fun a ha b hb => by
      rintro rfl
      exact hnew (List.mem_singleton.mp hb ▸ ha)⟩

/-! ## What the index says -/

/-- The rows of a token, none where its query is rejected. -/
def Index.rowsOf (ix : Index) (c : PromptCandidate) : List EntryRow :=
  (ix.search (phrase c.token)).getD []

/-- A token matches an entry. -/
def Index.finds (ix : Index) (c : PromptCandidate) (r : EntryRow) : Bool :=
  (ix.rowsOf c).any (·.rowid = r.rowid)

/-- The document frequency of a token. -/
def Index.df (ix : Index) (c : PromptCandidate) : Nat := (ix.rowsOf c).length

theorem Index.row_ext (ix : Index) {r r' : EntryRow} (hr : r ∈ ix.entries) (hr' : r' ∈ ix.entries)
    (h : r.rowid = r'.rowid) : r = r' :=
  List.inj_on_of_nodup_map ix.rowids hr hr' h

theorem Index.rowsOf_entries (ix : Index) (c : PromptCandidate) :
    (ix.rowsOf c).Nodup ∧ ∀ r ∈ ix.rowsOf c, r ∈ ix.entries := by
  rw [Index.rowsOf]
  cases h : ix.search (phrase c.token) with
  | none => exact ⟨List.nodup_nil, fun r hr => absurd hr (by simp)⟩
  | some rows => exact ix.found _ rows h

theorem Index.nodup_rowids (ix : Index) (c : PromptCandidate) :
    ((ix.rowsOf c).map (·.rowid)).Nodup := by
  obtain ⟨hnodup, hentries⟩ := ix.rowsOf_entries c
  exact hnodup.map_on fun r hr r' hr' h => ix.row_ext (hentries r hr) (hentries r' hr') h

theorem Index.finds_iff (ix : Index) (c : PromptCandidate) (r : EntryRow) :
    ix.finds c r = true ↔ r.rowid ∈ (ix.rowsOf c).map (·.rowid) := by
  simp [Index.finds]

/-! ## The entries of the gathering -/

/-- `perEntry` holds what `f` makes of the rows of which `R` is true. -/
structure Holds (ix : Index) (f : EntryRow → PerEntry) (R : EntryRow → Prop)
    (es : List PerEntry) : Prop where
  rowids : (es.map (·.row.rowid)).Nodup
  exact : ∀ e ∈ es, e = f e.row ∧ e.row ∈ ix.entries
  rows : ∀ r ∈ ix.entries, r.rowid ∈ es.map (·.row.rowid) ↔ R r
  fresh : ∀ r ∈ ix.entries, ¬ R r → f r = .fresh uni r
  row : ∀ r, (f r).row = r

variable {uni}

variable (uni) in
theorem rowids_addRow (evidence : Option (List Units)) (token : Units) (group : Nat)
    (row : EntryRow) (es : List PerEntry) :
    (addRow uni evidence token group row es).map (·.row.rowid) =
      addTo row.rowid (es.map (·.row.rowid)) := by
  induction es with
  | nil => rfl
  | cons e es ih =>
      rw [addRow]
      by_cases he : e.row.rowid = row.rowid
      · rw [if_pos he, addTo, if_pos (by simp [he])]
        rfl
      · rw [if_neg he, List.map_cons, ih, addTo, addTo]
        by_cases hmem : row.rowid ∈ es.map (·.row.rowid)
        · rw [if_pos hmem, if_pos (by simp [hmem])]
          rfl
        · have hnot : row.rowid ∉ List.map (·.row.rowid) (e :: es) := by
            rw [List.map_cons, List.mem_cons, not_or]
            exact ⟨fun h => he h.symm, hmem⟩
          rw [if_neg hmem, if_neg hnot]
          rfl

theorem mem_addRow {evidence : Option (List Units)} {token : Units} {group : Nat} {row : EntryRow}
    {es : List PerEntry} (hnodup : (es.map (·.row.rowid)).Nodup) {e' : PerEntry}
    (h : e' ∈ addRow uni evidence token group row es) :
    (e' ∈ es ∧ e'.row.rowid ≠ row.rowid) ∨
      (∃ e ∈ es, e.row.rowid = row.rowid ∧ e' = e.add uni evidence token group) ∨
      (row.rowid ∉ es.map (·.row.rowid) ∧
        e' = (PerEntry.fresh uni row).add uni evidence token group) := by
  induction es with
  | nil => exact .inr (.inr ⟨by simp, List.mem_singleton.mp h⟩)
  | cons e es ih =>
      obtain ⟨hhead, hrest⟩ := List.nodup_cons.mp hnodup
      rw [addRow] at h
      by_cases he : e.row.rowid = row.rowid
      · rw [if_pos he] at h
        rcases List.mem_cons.mp h with rfl | h
        · exact .inr (.inl ⟨e, List.mem_cons_self, he, rfl⟩)
        · refine .inl ⟨List.mem_cons_of_mem _ h, fun heq => hhead ?_⟩
          show e.row.rowid ∈ es.map (·.row.rowid)
          rw [he, ← heq]
          exact List.mem_map_of_mem h
      · rw [if_neg he] at h
        rcases List.mem_cons.mp h with rfl | h
        · exact .inl ⟨List.mem_cons_self, he⟩
        · rcases ih hrest h with ⟨h1, h2⟩ | ⟨d, hd, h1, h2⟩ | ⟨h1, h2⟩
          · exact .inl ⟨List.mem_cons_of_mem _ h1, h2⟩
          · exact .inr (.inl ⟨d, List.mem_cons_of_mem _ hd, h1, h2⟩)
          · refine .inr (.inr ⟨?_, h2⟩)
            rw [List.map_cons, List.mem_cons, not_or]
            exact ⟨fun heq => he heq.symm, h1⟩

theorem Holds.addRow {ix : Index} {f : EntryRow → PerEntry} {R : EntryRow → Prop}
    {es : List PerEntry} (h : Holds uni ix f R es) (evidence : Option (List Units)) (token : Units)
    (group : Nat) {row : EntryRow} (hrow : row ∈ ix.entries) :
    Holds uni ix
      (fun r => if r.rowid = row.rowid then (f r).add uni evidence token group else f r)
      (fun r => R r ∨ r.rowid = row.rowid) (addRow uni evidence token group row es) := by
  have hids := rowids_addRow uni evidence token group row es
  refine ⟨?_, fun e' he' => ?_, fun r hr => ?_, fun r hr hnot => ?_, fun r => ?_⟩
  · rw [hids]
    exact nodup_addTo h.rowids
  · rcases mem_addRow h.rowids he' with ⟨hmem, hne⟩ | ⟨e, he, heq, rfl⟩ | ⟨hnew, rfl⟩
    · rw [if_neg hne]
      exact h.exact e' hmem
    · obtain ⟨hf, hentry⟩ := h.exact e he
      refine ⟨?_, hentry⟩
      show e.add uni evidence token group = if e.row.rowid = row.rowid then _ else _
      rw [if_pos heq]
      exact congrArg (PerEntry.add uni evidence token group) hf
    · have hfresh := h.fresh row hrow fun hR => hnew ((h.rows row hrow).mpr hR)
      refine ⟨?_, hrow⟩
      show _ = if row.rowid = row.rowid then (f row).add uni evidence token group else _
      rw [if_pos rfl, hfresh]
  · rw [hids, mem_addTo, h.rows r hr, or_comm]
  · rw [not_or] at hnot
    rw [if_neg hnot.2]
    exact h.fresh r hr hnot.1
  · split
    · exact h.row r
    · exact h.row r

theorem Holds.addRows {ix : Index} (evidence : Option (List Units)) (token : Units) (group : Nat)
    (rows : List EntryRow) {f : EntryRow → PerEntry} {R : EntryRow → Prop} {es : List PerEntry}
    (h : Holds uni ix f R es) (hrows : ∀ r ∈ rows, r ∈ ix.entries)
    (hnodup : (rows.map (·.rowid)).Nodup) :
    Holds uni ix
      (fun r => if r.rowid ∈ rows.map (·.rowid) then (f r).add uni evidence token group else f r)
      (fun r => R r ∨ r.rowid ∈ rows.map (·.rowid))
      (rows.foldl (fun es row => Hooks.addRow uni evidence token group row es) es) := by
  induction rows generalizing f R es with
  | nil => simpa using h
  | cons row rows ih =>
      obtain ⟨hhead, hrest⟩ := List.nodup_cons.mp hnodup
      have hstep := ih (h.addRow evidence token group (hrows row List.mem_cons_self))
        (fun r hr => hrows r (List.mem_cons_of_mem _ hr)) hrest
      rw [List.foldl_cons]
      convert hstep using 1
      · funext r
        by_cases hr : r.rowid = row.rowid
        · rw [if_pos (by simp [hr]), if_neg (by rw [hr]; exact hhead), if_pos hr]
        · by_cases hmem : r.rowid ∈ rows.map (·.rowid)
          · rw [if_pos (by rw [List.map_cons]; exact List.mem_cons_of_mem _ hmem), if_pos hmem,
              if_neg hr]
          · rw [if_neg (by rw [List.map_cons, List.mem_cons, not_or]; exact ⟨hr, hmem⟩), if_neg hmem,
              if_neg hr]
      · funext r
        rw [List.map_cons, List.mem_cons, or_assoc]

/-! ## The tokens one by one -/

variable (uni) in
/-- What some tokens make of a row. -/
def entryOf (ix : Index) (evidence : Option (List Units)) (cs : List PromptCandidate)
    (r : EntryRow) : PerEntry :=
  cs.foldl (fun e c => if ix.finds c r then e.add uni evidence (uni.lower c.token) c.group else e)
    (.fresh uni r)

theorem entryOf_concat (ix : Index) (evidence : Option (List Units)) (cs : List PromptCandidate)
    (c : PromptCandidate) (r : EntryRow) :
    entryOf uni ix evidence (cs ++ [c]) r =
      if ix.finds c r then
        (entryOf uni ix evidence cs r).add uni evidence (uni.lower c.token) c.group
      else entryOf uni ix evidence cs r := by
  rw [entryOf, List.foldl_append]
  rfl

variable (uni) in
/-- What is known when some tokens have been asked for. -/
structure Known (ix : Index) (evidence : Option (List Units)) (cs : List PromptCandidate)
    (s : Gathered) : Prop where
  df : s.tokenDf = cs.map (fun c => (uni.lower c.token, ix.df c))
  perEntry : Holds uni ix (entryOf uni ix evidence cs) (fun r => ∃ c ∈ cs, ix.finds c r = true)
    s.perEntry

theorem known_nil (ix : Index) (evidence : Option (List Units)) :
    Known uni ix evidence [] ⟨[], []⟩ :=
  ⟨rfl, List.nodup_nil, fun e he => absurd he (by simp), fun r hr => by simp, fun r _ _ => rfl,
    fun r => rfl⟩

theorem Known.gatherToken {ix : Index} {evidence : Option (List Units)} {cs : List PromptCandidate}
    {s : Gathered} (h : Known uni ix evidence cs s) {c : PromptCandidate}
    (hnew : uni.lower c.token ∉ cs.map (fun c => uni.lower c.token)) :
    Known uni ix evidence (cs ++ [c]) (gatherToken uni ix evidence s c) := by
  have hnone : s.tokenDf.any (·.1 = uni.lower c.token) = false := by
    rw [h.df, List.any_map, List.any_eq_false]
    intro d hd heq
    exact hnew (List.mem_map.mpr ⟨d, hd, by simpa using heq⟩)
  have hrows : Holds uni ix (entryOf uni ix evidence (cs ++ [c]))
      (fun r => ∃ d ∈ cs ++ [c], ix.finds d r = true)
      ((ix.rowsOf c).foldl
        (fun es row => addRow uni evidence (uni.lower c.token) c.group row es) s.perEntry) := by
    convert h.perEntry.addRows evidence (uni.lower c.token) c.group (ix.rowsOf c)
      (ix.rowsOf_entries c).2 (ix.nodup_rowids c) using 1
    · funext r
      rw [entryOf_concat]
      by_cases hfinds : ix.finds c r = true
      · rw [if_pos hfinds, if_pos ((ix.finds_iff c r).mp hfinds)]
      · rw [if_neg hfinds, if_neg fun hmem => hfinds ((ix.finds_iff c r).mpr hmem)]
    · funext r
      simp only [List.mem_append, List.mem_singleton, or_and_right, exists_or, exists_eq_left,
        ix.finds_iff c r]
  have hdf : s.tokenDf ++ [(uni.lower c.token, ix.df c)] =
      (cs ++ [c]).map (fun c => (uni.lower c.token, ix.df c)) := by
    rw [h.df, List.map_append]
    rfl
  rw [Hooks.gatherToken, if_neg (by rw [hnone]; simp)]
  cases hsearch : ix.search (phrase c.token) with
  | none =>
      have hempty : ix.rowsOf c = [] := by rw [Index.rowsOf, hsearch]; rfl
      rw [Index.df, hempty] at hdf
      rw [hempty] at hrows
      exact ⟨hdf, hrows⟩
  | some rows =>
      have hall : ix.rowsOf c = rows := by rw [Index.rowsOf, hsearch]; rfl
      rw [Index.df, hall] at hdf
      rw [hall] at hrows
      exact ⟨hdf, hrows⟩

/-- When all tokens have been asked for. -/
theorem known_gathered (ix : Index) (evidence : Option (List Units)) (cs : List PromptCandidate)
    (hkeys : (cs.map (fun c => uni.lower c.token)).Nodup) :
    Known uni ix evidence cs (cs.foldl (gatherToken uni ix evidence) ⟨[], []⟩) := by
  induction cs using List.reverseRecOn with
  | nil => exact known_nil ix evidence
  | append_singleton cs c ih =>
      rw [List.map_append, List.nodup_append] at hkeys
      rw [List.foldl_append]
      refine (ih hkeys.1).gatherToken fun hmem => ?_
      exact hkeys.2.2 _ hmem _ List.mem_cons_self rfl

/-! ## What the tokens make of a row -/

variable (uni) in
/-- A token is found in the symptom, and counts there. -/
def inSymptom (evidence : Option (List Units)) (c : PromptCandidate) (r : EntryRow) : Bool :=
  isEvidence evidence (uni.lower c.token) &&
    (lowerText uni r.symptomText).any (tokenAppearsIn uni (uni.lower c.token))

variable (uni) in
/-- A token is found in the topic. -/
def inTopic (c : PromptCandidate) (r : EntryRow) : Bool :=
  (lowerText uni r.topicalText).any (tokenAppearsIn uni (uni.lower c.token))

variable (uni) in
/-- The sets of an entry, in terms of the tokens that have found it. -/
structure Gathers (ix : Index) (evidence : Option (List Units)) (cs : List PromptCandidate)
    (r : EntryRow) (e : PerEntry) : Prop where
  nodup : e.groups.Nodup
  groups : ∀ g, g ∈ e.groups ↔ ∃ c ∈ cs, ix.finds c r = true ∧ c.group = g
  symptom : ∀ t, t ∈ e.symptomTokens ↔
    ∃ c ∈ cs, ix.finds c r = true ∧ inSymptom uni evidence c r = true ∧ uni.lower c.token = t
  topic : ∀ t, t ∈ e.topicalTokens ↔
    ∃ c ∈ cs, ix.finds c r = true ∧ inTopic uni c r = true ∧ uni.lower c.token = t
  symptomLower : e.symptomLower = lowerText uni r.symptomText
  topicalLower : e.topicalLower = lowerText uni r.topicalText

theorem exists_concat {p : PromptCandidate → Prop} (cs : List PromptCandidate) (c : PromptCandidate) :
    (∃ d ∈ cs ++ [c], p d) ↔ (∃ d ∈ cs, p d) ∨ p c := by
  simp only [List.mem_append, List.mem_singleton, or_and_right, exists_or, exists_eq_left]

/-- A set to which a value is added under a condition. -/
theorem mem_addTo_if {b : Bool} {value x : Units} {set : List Units} :
    x ∈ (if b then addTo value set else set) ↔ x ∈ set ∨ b = true ∧ value = x := by
  cases b with
  | true => rw [if_pos rfl, mem_addTo, or_comm, eq_comm (a := x)]; simp
  | false => simp

theorem gathers_entryOf (ix : Index) (evidence : Option (List Units)) (cs : List PromptCandidate)
    (r : EntryRow) : Gathers uni ix evidence cs r (entryOf uni ix evidence cs r) := by
  induction cs using List.reverseRecOn with
  | nil =>
      refine ⟨List.nodup_nil, fun g => ?_, fun t => ?_, fun t => ?_, rfl, rfl⟩
      all_goals simp [entryOf, PerEntry.fresh]
  | append_singleton cs c ih =>
      rw [entryOf_concat]
      by_cases hfinds : ix.finds c r = true
      · rw [if_pos hfinds]
        refine ⟨nodup_addTo ih.nodup, fun g => ?_, fun t => ?_, fun t => ?_, ih.symptomLower,
          ih.topicalLower⟩
        · rw [exists_concat, ← ih.groups g]
          simp only [PerEntry.add, mem_addTo, hfinds, true_and]
          rw [or_comm, eq_comm]
        · rw [exists_concat, ← ih.symptom t]
          simp only [PerEntry.add, mem_addTo_if, ih.symptomLower, inSymptom, hfinds, true_and]
        · rw [exists_concat, ← ih.topic t]
          simp only [PerEntry.add, mem_addTo_if, ih.topicalLower, inTopic, hfinds, true_and]
      · rw [if_neg hfinds]
        refine ⟨ih.nodup, fun g => ?_, fun t => ?_, fun t => ?_, ih.symptomLower, ih.topicalLower⟩
        · rw [exists_concat, ih.groups g]
          simp [hfinds]
        · rw [exists_concat, ih.symptom t]
          simp [hfinds]
        · rw [exists_concat, ih.topic t]
          simp [hfinds]

/-! ## Document frequencies -/

theorem foldl_minDf (dfs : List Nat) (start : Option Nat) (m : Nat) :
    dfs.foldl (fun m df => if m.all (df < ·) then some df else m) start = some m ↔
      (start = some m ∨ m ∈ dfs) ∧ (∀ s ∈ start, m ≤ s) ∧ ∀ df ∈ dfs, m ≤ df := by
  induction dfs generalizing start with
  | nil =>
      simp only [List.foldl_nil, List.not_mem_nil, or_false, false_imp_iff, implies_true, and_true]
      refine ⟨fun h => ⟨h, fun s hs => ?_⟩, fun h => h.1⟩
      rw [h] at hs
      exact Nat.le_of_eq (Option.some.inj hs)
  | cons df dfs ih =>
      rw [List.foldl_cons, ih]
      cases start with
      | none =>
          have hm : df = m ↔ m = df := eq_comm
          simp only [Option.all_none, if_true, Option.some.injEq, List.mem_cons,
            forall_eq_or_imp, Option.mem_def, forall_eq', reduceCtorEq, false_or,
            false_imp_iff, implies_true, true_and, hm]
      | some s =>
          simp only [Option.all_some, decide_eq_true_eq, List.mem_cons, Option.mem_def,
            Option.some.injEq, forall_eq', forall_eq_or_imp]
          by_cases hlt : df < s
          · simp only [if_pos hlt, Option.some.injEq, forall_eq']
            refine ⟨fun ⟨h1, h2, h3⟩ => ⟨?_, by omega, h2, h3⟩, fun ⟨h1, h2, h3, h4⟩ => ⟨?_, h3, h4⟩⟩
            · rcases h1 with h1 | h1
              · exact .inr (.inl h1.symm)
              · exact .inr (.inr h1)
            · rcases h1 with h1 | h1 | h1
              · omega
              · exact .inl h1.symm
              · exact .inr h1
          · simp only [if_neg hlt, Option.some.injEq, forall_eq']
            refine ⟨fun ⟨h1, h2, h3⟩ => ⟨?_, h2, by omega, h3⟩, fun ⟨h1, h2, h3, h4⟩ => ⟨?_, h2, h4⟩⟩
            · rcases h1 with h1 | h1
              · exact .inl h1
              · exact .inr (.inr h1)
            · rcases h1 with h1 | h1 | h1
              · exact .inl h1
              · left
                omega
              · exact .inr h1

/-- The least of some numbers. -/
theorem minDf_eq_some {dfs : List Nat} {m : Nat} :
    minDf dfs = some m ↔ m ∈ dfs ∧ ∀ df ∈ dfs, m ≤ df := by
  rw [minDf, foldl_minDf]
  simp

/-- A token with the least document frequency of those that are found at all. -/
def Rarest (ix : Index) (cs : List PromptCandidate) (c : PromptCandidate) : Prop :=
  0 < ix.df c ∧ ∀ d ∈ cs, 0 < ix.df d → ix.df c ≤ ix.df d

theorem mem_validDfs {ix : Index} {cs : List PromptCandidate} {t : Units} {df : Nat} :
    (t, df) ∈ validDfs (cs.map (fun c => (uni.lower c.token, ix.df c))) ↔
      ∃ c ∈ cs, uni.lower c.token = t ∧ ix.df c = df ∧ 0 < df := by
  simp only [validDfs, List.mem_filter, List.mem_map, Prod.mk.injEq, decide_eq_true_eq]
  refine ⟨fun ⟨⟨c, hc, ht, hdf⟩, hpos⟩ => ⟨c, hc, ht, hdf, hpos⟩,
    fun ⟨c, hc, ht, hdf, hpos⟩ => ⟨⟨c, hc, ht, hdf⟩, hpos⟩⟩

theorem mem_rareTokens {ix : Index} {cs : List PromptCandidate} {t : Units} :
    t ∈ rareTokens (cs.map (fun c => (uni.lower c.token, ix.df c))) ↔
      ∃ c ∈ cs, uni.lower c.token = t ∧ Rarest ix cs c := by
  rw [rareTokens, List.mem_map]
  refine ⟨?_, ?_⟩
  · rintro ⟨⟨t', df⟩, hmem, rfl⟩
    obtain ⟨hvalid, hmin⟩ := List.mem_filter.mp hmem
    obtain ⟨c, hc, ht, rfl, hpos⟩ := mem_validDfs.mp hvalid
    refine ⟨c, hc, ht, hpos, fun d hd hdpos => ?_⟩
    have hleast := (minDf_eq_some.mp (by simpa using hmin)).2
    exact hleast _ (List.mem_map.mpr ⟨_, mem_validDfs.mpr ⟨d, hd, rfl, rfl, hdpos⟩, rfl⟩)
  · rintro ⟨c, hc, ht, hpos, hleast⟩
    have hvalid := mem_validDfs.mpr ⟨c, hc, ht, rfl, hpos⟩
    refine ⟨(t, ix.df c), List.mem_filter.mpr ⟨hvalid, ?_⟩, rfl⟩
    rw [decide_eq_true_eq]
    refine minDf_eq_some.mpr ⟨List.mem_map.mpr ⟨_, hvalid, rfl⟩, fun df hdf => ?_⟩
    obtain ⟨⟨t', df'⟩, hmem, rfl⟩ := List.mem_map.mp hdf
    obtain ⟨d, hd, _, rfl, hdpos⟩ := mem_validDfs.mp hmem
    exact hleast d hd hdpos

end Caveat.Hooks
