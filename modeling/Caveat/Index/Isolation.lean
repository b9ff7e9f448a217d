import Caveat.Index.Completion
import Caveat.Index.Reindex

/-!
# Sources do not reach each other

What `reindexAllSources` leaves of a source is a function of what the source had and of its own
scan: nothing when the scan throws or does not run, and the scan's contents otherwise
(`reindex_isolated`). A scan reads and writes one source only (`Confined`), so each turn of the
loop settles its source and leaves the ones before and after it alone.
-/

namespace Caveat.Index

open Js Entry

/-! ## Savepoints restore -/

/-- A failed scan leaves the connection as it was. -/
theorem withSourceSavepoint_error {c : Connection} {scan : SourceScan} {e : ScanAbort}
    (h : scan c.table = .error e) (releaseFault : Bool) :
    withSourceSavepoint c scan releaseFault = (c, .error e.error) := by
  simp [withSourceSavepoint, Connection.savepoint, Connection.rollbackTo, Connection.release, h]

theorem withSourceSavepoint_releaseFault {c : Connection} {scan : SourceScan}
    {res : Table × ScanResult} (h : scan c.table = .ok res) :
    withSourceSavepoint c scan true = (c, .error .io) := by
  simp [withSourceSavepoint, Connection.savepoint, Connection.rollbackTo, Connection.release, h]

/-- A scan that ends well leaves its table and the savepoints that were open before. -/
theorem withSourceSavepoint_ok {c : Connection} {scan : SourceScan} {t : Table}
    {result : ScanResult} (h : scan c.table = .ok (t, result)) :
    withSourceSavepoint c scan false = ({ c with table := t }, .ok result) := by
  simp [withSourceSavepoint, Connection.savepoint, Connection.release, h]

/-! ## Scans are confined to their source -/

/-- The scan sees and changes one source. -/
structure Confined (source : Source) (scan : SourceScan) : Prop where
  others : ∀ t t' res, scan t = .ok (t', res) → ∀ s, s ≠ source → t'.rowsOf s = t.rowsOf s
  congr : ∀ t u, t.contents source = u.contents source → ∀ t' res, scan t = .ok (t', res) →
    ∃ u' res', scan u = .ok (u', res') ∧ u'.contents source = t'.contents source

theorem confined_scanFiles (host : Host) (o : ScanOptions) (walk : List WalkItem)
    (sweepFault : Bool) :
    Confined o.source (fun t => scanFiles host o t walk sweepFault) where
  others := fun _ _ _ h => (scanFiles_contents h).2
  congr := by
    intro t u heq t' res h
    have hok := scanFiles_ok_iff.mp ⟨_, h⟩
    rw [heq] at hok
    obtain ⟨⟨u', res'⟩, hu⟩ := scanFiles_ok_iff.mpr hok
    refine ⟨u', res', hu, funext fun id => ?_⟩
    rw [(scanFiles_contents hu).1, (scanFiles_contents h).1, heq]

/-! ## A source's own scan -/

/-- A scan with the release that follows it: both have to go well. -/
def released (scan : SourceScan) (releaseFault : Bool) : SourceScan := fun t =>
  match scan t with
  | .ok res => if releaseFault then .error { error := .io, table := res.1 } else .ok res
  | .error e => .error e

/-- The scan of a community directory, `none` when none is attempted. -/
def entryScan (host : Host) (input : ReindexInput) (entry : CommunityEntry) : Option SourceScan :=
  match entry.dir with
  | .sealedBundle bundle =>
      if input.keyProvider then some (released
        (fun t => scanSealedSource host t (.community entry.handle) bundle entry.faults.sweep)
        entry.faults.release)
      else none
  | .entries walk => some (released
      (fun t => scanSource host t (.community entry.handle) (some walk) input.force
        entry.faults.sweep) entry.faults.release)
  | .rootless => none

/-- The scan of a source by itself: `none` for a missing, key-less or root-less source. -/
def ownScan (host : Host) (input : ReindexInput) : Source → Option SourceScan
  | .own => input.own.map (fun walk => released
      (fun t => scanSource host t .own (some walk) input.force input.ownFaults.sweep)
      input.ownFaults.release)
  | .community handle =>
      (input.community.find? (fun e => e.handle = handle)).bind (entryScan host input)

theorem confined_released {s : Source} {scan : SourceScan} (h : Confined s scan)
    (releaseFault : Bool) : Confined s (released scan releaseFault) := by
  have hok : ∀ t res, released scan releaseFault t = .ok res →
      releaseFault = false ∧ scan t = .ok res := by
    intro t res hr
    rw [released] at hr
    cases hs : scan t with
    | error e => rw [hs] at hr; exact absurd hr (by simp)
    | ok res' =>
        rw [hs] at hr
        by_cases hf : releaseFault = true
        · simp only [hf, if_true] at hr
          exact absurd hr (by simp)
        · simp only [hf] at hr
          exact ⟨by simpa using hf, by simpa using hr⟩
  constructor
  · intro t t' res hr
    exact h.others t t' res (hok t (t', res) hr).2
  · intro t u heq t' res hr
    obtain ⟨hf, hs⟩ := hok t (t', res) hr
    obtain ⟨u', res', hu, hcontents⟩ := h.congr t u heq t' res hs
    exact ⟨u', res', by simp [released, hu, hf], hcontents⟩

theorem confined_sealed (host : Host) (s : Source) (bundle : Option Unsealed) (sweepFault : Bool) :
    Confined s (fun t => scanSealedSource host t s bundle sweepFault) := by
  cases bundle with
  | some u => exact confined_scanFiles host { source := s, skipUnchanged := false } u.walk sweepFault
  | none =>
      exact ⟨fun _ _ _ h => absurd h (by simp [scanSealedSource]),
        fun _ _ _ _ _ h => absurd h (by simp [scanSealedSource])⟩

theorem confined_entryScan {host : Host} {input : ReindexInput} {entry : CommunityEntry}
    {scan : SourceScan} (h : entryScan host input entry = some scan) :
    Confined (.community entry.handle) scan := by
  rw [entryScan] at h
  split at h
  · split at h
    · cases h
      exact confined_released (confined_sealed host _ _ _) _
    · exact absurd h (by simp)
  · cases h
    exact confined_released (confined_scanFiles host
      { source := .community entry.handle, skipUnchanged := !input.force } _ _) _
  · exact absurd h (by simp)

/-! ## One source of the loop -/

/-- What the call leaves of a source, given the table `t₀` before the call. -/
def Outcome (scan : Option SourceScan) (t₀ t : Table) (s : Source) : Prop :=
  match scan with
  | none => t.rowsOf s = t₀.rowsOf s
  | some scan =>
      match scan t₀ with
      | .ok (t', _) => t.contents s = t'.contents s
      | .error _ => t.rowsOf s = t₀.rowsOf s

theorem Outcome.of_rowsOf {scan : Option SourceScan} {t₀ t t' : Table} {s : Source}
    (h : Outcome scan t₀ t s) (heq : t'.rowsOf s = t.rowsOf s) : Outcome scan t₀ t' s := by
  unfold Outcome at h ⊢
  cases scan with
  | none => exact heq.trans h
  | some scan =>
      simp only [] at h ⊢
      cases hs : scan t₀ with
      | error e => rw [hs] at h; exact heq.trans h
      | ok res =>
          rw [hs] at h
          exact (funext (contents_eq_of_rowsOf heq)).trans h

/-- A turn of the loop: the savepoints are restored, the other sources keep their rows, and the
source, if it still has the rows it started with, gets its outcome. -/
structure Turn (scan : Option SourceScan) (s : Source) (st st' : Reindexed) : Prop where
  savepoints : st'.connection.savepoints = st.connection.savepoints
  others : ∀ s', s' ≠ s → st'.connection.table.rowsOf s' = st.connection.table.rowsOf s'
  outcome : ∀ t₀ : Table, st.connection.table.rowsOf s = t₀.rowsOf s →
    Outcome scan t₀ st'.connection.table s

theorem turn_none {s : Source} {st st' : Reindexed} (h : st'.connection = st.connection) :
    Turn none s st st' where
  savepoints := by rw [h]
  others := fun _ _ => by rw [h]
  outcome := fun t₀ ht => by rw [Outcome, h]; exact ht

theorem turn_scan {s : Source} {scan : SourceScan} (hc : Confined s scan) (st : Reindexed)
    (releaseFault : Bool) :
    Turn (some (released scan releaseFault)) s st (st.scan s scan releaseFault) := by
  have hrel := confined_released hc releaseFault
  have hkept : ∀ {e : ScanAbort}, released scan releaseFault st.connection.table = .error e →
      (st.scan s scan releaseFault).connection = st.connection →
      Turn (some (released scan releaseFault)) s st (st.scan s scan releaseFault) := by
    intro e he hconn
    refine ⟨by rw [hconn], fun _ _ => by rw [hconn], fun t₀ ht => ?_⟩
    rw [Outcome, hconn]
    cases h₀ : released scan releaseFault t₀ with
    | error e' => exact ht
    | ok res =>
        -- a scan that ends well on the same rows would have ended well here
        obtain ⟨u', res', hu, _⟩ :=
          hrel.congr t₀ _ (funext (contents_eq_of_rowsOf ht.symm)) res.1 res.2 h₀
        rw [he] at hu
        exact absurd hu (by simp)
  cases hs : scan st.connection.table with
  | error e =>
      refine hkept (e := e) (by simp [released, hs]) ?_
      rw [Reindexed.scan, withSourceSavepoint_error hs]
  | ok res =>
      cases releaseFault with
      | true =>
          refine hkept (e := { error := .io, table := res.1 }) (by simp [released, hs]) ?_
          rw [Reindexed.scan, withSourceSavepoint_releaseFault hs]
      | false =>
          have hconn : (st.scan s scan false).connection =
              { st.connection with table := res.1 } := by
            rw [Reindexed.scan, withSourceSavepoint_ok hs]
          refine ⟨by rw [hconn], fun s' hne => ?_, fun t₀ ht => ?_⟩
          · rw [hconn]
            exact hc.others _ _ res.2 hs s' hne
          · rw [Outcome, hconn]
            obtain ⟨u', res', hu, hcontents⟩ :=
              hrel.congr _ t₀ (funext (contents_eq_of_rowsOf ht)) res.1 res.2
                (by simp [released, hs])
            rw [hu]
            exact hcontents.symm

theorem turn_own (host : Host) (input : ReindexInput) (st : Reindexed) :
    Turn (ownScan host input .own) .own st (reindexOwn host input st) := by
  rw [reindexOwn, ownScan]
  cases input.own with
  | none => exact turn_none rfl
  | some walk =>
      exact turn_scan (confined_scanFiles host { source := .own, skipUnchanged := !input.force }
        walk input.ownFaults.sweep) st input.ownFaults.release

theorem turn_community (host : Host) (input : ReindexInput) (st : Reindexed)
    (entry : CommunityEntry) :
    Turn (entryScan host input entry) (.community entry.handle) st
      (reindexCommunity host input st entry) := by
  rw [reindexCommunity, entryScan]
  cases entry.dir with
  | rootless => exact turn_none rfl
  | entries walk =>
      exact turn_scan (confined_scanFiles host
        { source := .community entry.handle, skipUnchanged := !input.force } walk
        entry.faults.sweep) st entry.faults.release
  | sealedBundle bundle =>
      simp only []
      split
      · exact turn_scan (confined_sealed host _ bundle entry.faults.sweep) st entry.faults.release
      · exact turn_none rfl

/-! ## The loop over the community directories -/

/-- What the loop over some directories, each listed once, does to every source. -/
structure Loop (host : Host) (input : ReindexInput) (entries : List CommunityEntry)
    (st st' : Reindexed) : Prop where
  savepoints : st'.connection.savepoints = st.connection.savepoints
  others : ∀ s, (∀ e ∈ entries, s ≠ .community e.handle) →
    st'.connection.table.rowsOf s = st.connection.table.rowsOf s
  outcome : ∀ e ∈ entries, ∀ t₀ : Table,
    st.connection.table.rowsOf (.community e.handle) = t₀.rowsOf (.community e.handle) →
    Outcome (entryScan host input e) t₀ st'.connection.table (.community e.handle)

theorem community_loop (host : Host) (input : ReindexInput) :
    ∀ (entries : List CommunityEntry) (st : Reindexed),
      (entries.map CommunityEntry.handle).Nodup →
      Loop host input entries st (entries.foldl (reindexCommunity host input) st) := by
  intro entries
  induction entries with
  | nil => intro st _; exact ⟨rfl, fun _ _ => rfl, fun e he => absurd he (by simp)⟩
  | cons e entries ih =>
      intro st hnodup
      obtain ⟨hnew, hnodup⟩ := List.nodup_cons.mp hnodup
      have hturn := turn_community host input st e
      have hloop := ih (reindexCommunity host input st e) hnodup
      have hne : ∀ e' ∈ entries, e'.handle ≠ e.handle := by
        intro e' he' heq
        exact hnew (heq ▸ List.mem_map_of_mem he')
      refine ⟨hloop.savepoints.trans hturn.savepoints, fun s hs => ?_, fun e' he' t₀ ht => ?_⟩
      · rw [List.forall_mem_cons] at hs
        exact (hloop.others s hs.2).trans (hturn.others s hs.1)
      · rcases List.mem_cons.mp he' with rfl | he'
        · refine (hturn.outcome t₀ ht).of_rowsOf (hloop.others _ fun e'' he'' heq => ?_)
          exact hne e'' he'' (Source.community.inj heq).symm
        · refine hloop.outcome e' he' t₀ ((hturn.others _ fun heq => ?_).trans ht)
          exact hne e' he' (Source.community.inj heq)

/-! ## The purge -/

theorem rowsOf_deleteSource (t : Table) (s s' : Source) :
    (deleteSource t s).rowsOf s' = if s' = s then [] else t.rowsOf s' := by
  rw [Table.rowsOf, Table.rowsOf, deleteSource, Lib.RowStore.keep, List.filter_filter]
  split
  · rename_i heq
    rw [List.filter_eq_nil_iff]
    intro r _
    simp [heq]
  · rename_i hne
    refine List.filter_congr fun r _ => ?_
    by_cases hr : r.key.1 = s'
    · simp [hr, hne]
    · simp [hr]

/-- A community source that is not present. -/
def absent (present : List Text) (s : Source) : Bool :=
  s ≠ .own && present.all (fun h => s ≠ .community h)

theorem absent_community {present : List Text} {handle : Text} :
    absent present (.community handle) = true ↔ handle ∉ present := by
  simp only [absent, ne_eq, reduceCtorEq, not_false_eq_true, decide_true, Bool.true_and,
    List.all_eq_true, decide_eq_true_eq, Source.community.injEq]
  constructor
  · intro h hmem
    exact h handle hmem rfl
  · rintro h h' hmem rfl
    exact h hmem

theorem rowsOf_purgeLoop (present : List Text) (s : Source) : ∀ (handles : List Text) (t : Table),
    (handles.foldl (fun t handle =>
      if handle ∈ present then t else deleteSource t (.community handle)) t).rowsOf s =
      if absent present s && handles.any (fun h => s = .community h) then [] else t.rowsOf s := by
  intro handles
  induction handles with
  | nil => intro t; simp
  | cons h handles ih =>
      intro t
      rw [List.foldl_cons, ih, List.any_cons]
      by_cases hs : s = .community h
      · by_cases hp : h ∈ present
        · have ha : absent present (.community h) = false := by
            simpa using fun ha => absent_community.mp ha hp
          simp [hs, hp, ha]
        · simp [hs, hp, absent_community.mpr hp, rowsOf_deleteSource]
      · by_cases hp : h ∈ present
        · simp [hs, hp]
        · simp [hs, hp, rowsOf_deleteSource]

/-- **The purge** empties the community sources that are not present and leaves the rest. -/
theorem rowsOf_purge (t : Table) (present : List Text) (s : Source) :
    (purge t present).rowsOf s = if absent present s then [] else t.rowsOf s := by
  rw [purge, rowsOf_purgeLoop]
  cases s with
  | own => rfl
  | community handle =>
      by_cases hmem : handle ∈ communitySources t
      · simp [hmem]
      · -- a source that is not in the list has no rows to begin with
        have hnil : t.rowsOf (.community handle) = [] := by
          rw [Table.rowsOf, List.filter_eq_nil_iff]
          intro r hr hkey
          refine hmem ?_
          rw [communitySources, List.mem_dedup, List.mem_filterMap]
          exact ⟨r, hr, by rw [of_decide_eq_true hkey]⟩
        rw [hnil, ite_self, ite_self]

/-! ## The whole call -/

/-- A source whose directory exists, or the own source. -/
def Listed (input : ReindexInput) : Source → Prop
  | .own => True
  | .community handle => handle ∈ input.community.map CommunityEntry.handle

theorem find?_entry {input : ReindexInput} {e : CommunityEntry} (he : e ∈ input.community) :
    input.community.find? (fun e' => e'.handle = e.handle) = some e := by
  cases hf : input.community.find? (fun e' => e'.handle = e.handle) with
  | none => exact absurd (List.find?_eq_none.mp hf e he) (by simp)
  | some e' =>
      have hkey : e'.handle = e.handle := by simpa using List.find?_some hf
      exact congrArg some
        (List.inj_on_of_nodup_map input.nodup (List.mem_of_find?_eq_some hf) he hkey)

/-- Every listed source has its outcome, and the savepoints are as they were. -/
theorem reindex_outcome (host : Host) (input : ReindexInput) (c : Connection) (s : Source)
    (hs : Listed input s) :
    Outcome (ownScan host input s) c.table
      (reindexAllSources host input c).connection.table s := by
  have hown := turn_own host input { connection := c }
  have hloop := community_loop host input input.community
    (reindexOwn host input { connection := c }) input.nodup
  have hpurge : ∀ t : Table,
      (purge t (input.community.map CommunityEntry.handle)).rowsOf s = t.rowsOf s := by
    intro t
    rw [rowsOf_purge, if_neg]
    cases s with
    | own => simp [absent]
    | community handle => exact fun ha => absent_community.mp ha hs
  refine Outcome.of_rowsOf ?_ (hpurge _)
  cases s with
  | own => exact (hown.outcome c.table rfl).of_rowsOf (hloop.others _ fun _ _ => by simp)
  | community handle =>
      obtain ⟨e, he, rfl⟩ := List.mem_map.mp hs
      have hscan : ownScan host input (.community e.handle) = entryScan host input e := by
        rw [ownScan, find?_entry he]
        rfl
      rw [hscan]
      exact hloop.outcome e he c.table (hown.others _ (by simp))

/-- The savepoints that were open before the call are open after it. -/
theorem reindex_savepoints (host : Host) (input : ReindexInput) (c : Connection) :
    (reindexAllSources host input c).connection.savepoints = c.savepoints :=
  (community_loop host input input.community (reindexOwn host input { connection := c })
    input.nodup).savepoints.trans (turn_own host input { connection := c }).savepoints

theorem ownScan_perm (host : Host) {input input' : ReindexInput}
    (hperm : input'.community.Perm input.community) (hown : input'.own = input.own)
    (hfaults : input'.ownFaults = input.ownFaults) (hkey : input'.keyProvider = input.keyProvider)
    (hforce : input'.force = input.force) (s : Source) :
    ownScan host input' s = ownScan host input s := by
  have hentry : entryScan host input' = entryScan host input := by
    funext e
    rw [entryScan, entryScan, hkey, hforce]
  cases s with
  | own => rw [ownScan, ownScan, hown, hfaults, hforce]
  | community handle =>
      rw [ownScan, ownScan, hentry]
      congr 1
      cases hf : input.community.find? (fun e => e.handle = handle) with
      | none =>
          rw [List.find?_eq_none] at hf ⊢
          exact fun e he => hf e (hperm.mem_iff.mp he)
      | some e =>
          have hkey : e.handle = handle := by simpa using List.find?_some hf
          rw [← hkey]
          exact find?_entry (hperm.mem_iff.mpr (List.mem_of_find?_eq_some hf))

/--
**Source isolation.** After `reindexAllSources`, a listed source whose scan throws or does not run
has the rows it had, one whose scan by itself ends well has that scan's contents, a community
source that is not listed has no rows, and the contents do not depend on the listing order.
-/
theorem reindex_isolated (host : Host) (input : ReindexInput) (c : Connection) :
    (∀ s, Listed input s → ownScan host input s = none →
      (reindexAllSources host input c).connection.table.rowsOf s = c.table.rowsOf s) ∧
    (∀ s scan e, Listed input s → ownScan host input s = some scan → scan c.table = .error e →
      (reindexAllSources host input c).connection.table.rowsOf s = c.table.rowsOf s) ∧
    (∀ s scan t result, Listed input s → ownScan host input s = some scan →
      scan c.table = .ok (t, result) →
      (reindexAllSources host input c).connection.table.contents s = t.contents s) ∧
    (∀ handle, handle ∉ input.community.map CommunityEntry.handle →
      (reindexAllSources host input c).connection.table.rowsOf (.community handle) = []) ∧
    ∀ input' : ReindexInput, input'.community.Perm input.community → input'.own = input.own →
      input'.ownFaults = input.ownFaults → input'.keyProvider = input.keyProvider →
      input'.force = input.force → ∀ s,
      (reindexAllSources host input' c).connection.table.contents s =
        (reindexAllSources host input c).connection.table.contents s := by
  have hnone : ∀ input s, Listed input s → ownScan host input s = none →
      (reindexAllSources host input c).connection.table.rowsOf s = c.table.rowsOf s := by
    intro input s hs hscan
    have := reindex_outcome host input c s hs
    simpa only [Outcome, hscan] using this
  have herror : ∀ input s scan e, Listed input s → ownScan host input s = some scan →
      scan c.table = .error e →
      (reindexAllSources host input c).connection.table.rowsOf s = c.table.rowsOf s := by
    intro input s scan e hs hscan he
    have := reindex_outcome host input c s hs
    simpa only [Outcome, hscan, he] using this
  have hok : ∀ input s scan t result, Listed input s → ownScan host input s = some scan →
      scan c.table = .ok (t, result) →
      (reindexAllSources host input c).connection.table.contents s = t.contents s := by
    intro input s scan t result hs hscan hres
    have := reindex_outcome host input c s hs
    simpa only [Outcome, hscan, hres] using this
  have hgone : ∀ (input : ReindexInput) handle,
      handle ∉ input.community.map CommunityEntry.handle →
      (reindexAllSources host input c).connection.table.rowsOf (.community handle) = [] := by
    intro input handle hnot
    exact (rowsOf_purge _ _ _).trans (if_pos (absent_community.mpr hnot))
  refine ⟨hnone input, herror input, hok input, hgone input, ?_⟩
  intro input' hperm hown hfaults hkey hforce s
  have hscan := ownScan_perm host hperm hown hfaults hkey hforce s
  have hlisted : Listed input' s ↔ Listed input s := by
    cases s with
    | own => exact Iff.rfl
    | community handle => exact (hperm.map _).mem_iff
  by_cases hs : Listed input s
  · cases hcase : ownScan host input s with
    | none =>
        exact funext (contents_eq_of_rowsOf ((hnone input' s (hlisted.mpr hs)
          (hscan.trans hcase)).trans (hnone input s hs hcase).symm))
    | some scan =>
        cases hres : scan c.table with
        | error e =>
            exact funext (contents_eq_of_rowsOf ((herror input' s scan e (hlisted.mpr hs)
              (hscan.trans hcase) hres).trans (herror input s scan e hs hcase hres).symm))
        | ok res =>
            exact (hok input' s scan res.1 res.2 (hlisted.mpr hs) (hscan.trans hcase) hres).trans
              (hok input s scan res.1 res.2 hs hcase hres).symm
  · cases s with
    | own => exact absurd trivial hs
    | community handle =>
        exact funext (contents_eq_of_rowsOf ((hgone input' handle (mt hlisted.mp hs)).trans
          (hgone input handle hs).symm))

/-- Own entries, a bundle whose key is missing and a directory with a file that does not parse. -/
def mixedInput : ReindexInput where
  own := some [plainFile "a.md" "a"]
  community :=
    [{ handle := "sealed".toList, dir := .sealedBundle none },
     { handle := "broken".toList
       dir := .entries [{ file := { path := "x.md".toList, mtimeMs := 0, size := 0, content := [] }
                          fault := some .read }] }]
  nodup := by decide
  keyProvider := false
  force := false

theorem reindex_isolated_mixed :
    let t := (reindexAllSources flatHost mixedInput { table := Lib.RowStore.empty }).connection.table
    t.rowsOf (.community "sealed".toList) = [] ∧ t.rowsOf (.community "broken".toList) = [] ∧
      (t.contents .own "a".toList).isSome = true := by
  obtain ⟨hnone, herror, hok, _, _⟩ :=
    reindex_isolated flatHost mixedInput { table := Lib.RowStore.empty }
  obtain ⟨⟨u, result⟩, hu⟩ := exists_ok (x := scanSource flatHost Lib.RowStore.empty .own
    mixedInput.own mixedInput.force false) (by decide +kernel)
  refine ⟨hnone _ (by simp [Listed, mixedInput]) rfl,
    herror _ _ { error := .io, table := Lib.RowStore.empty } (by simp [Listed, mixedInput]) rfl rfl,
    ?_⟩
  have hrow : ((scanSource flatHost Lib.RowStore.empty .own mixedInput.own mixedInput.force
      false).toOption.any (fun r => (r.1.contents .own "a".toList).isSome)) = true := by
    decide +kernel
  rw [hu] at hrow
  have hscan : released (fun t => scanSource flatHost t .own mixedInput.own mixedInput.force false)
      false Lib.RowStore.empty = .ok (u, result) := by rw [released, hu]; rfl
  rw [hok .own _ u result trivial rfl hscan]
  exact hrow

end Caveat.Index
