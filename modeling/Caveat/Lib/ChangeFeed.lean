import Mathlib.Data.List.Sort
import Mathlib.Data.List.Nodup

/-!
# Tables that are read as a feed of changes

Every record has a key and a number. A change of a record gives it a number above all numbers ever
given, so the records in the order of their numbers are the latest changes. A reader takes a page
of the records above its cursor, moves the cursor to the last of them and comes back, while the
records go on changing. What it has read is complete up to its cursor (`Read`), whatever changed.
-/

namespace Caveat.Lib.ChangeFeed

variable {κ ρ : Type*} (key : ρ → κ) (seq : ρ → Nat)

/-- The records are in order, one for each key, and numbered below `next`. -/
structure Ordered (next : Nat) (records : List ρ) : Prop where
  sorted : records.Pairwise (fun a b => seq a < seq b)
  keys : (records.map key).Nodup
  below : ∀ r ∈ records, seq r < next

/-- A record that was not there is numbered above everything that was. -/
structure Advance (next next' : Nat) (records records' : List ρ) : Prop where
  next_le : next ≤ next'
  fresh : ∀ r ∈ records', r ∈ records ∨ next ≤ seq r

/-- What has been read, when all records above `start` up to the cursor were asked for. -/
structure Read (start cursor : Nat) (records rows : List ρ) : Prop where
  start_le : start ≤ cursor
  sorted : rows.Pairwise (fun a b => seq a < seq b)
  above : ∀ r ∈ rows, start < seq r
  upTo : ∀ r ∈ rows, seq r ≤ cursor
  /-- Nothing between start and cursor is missing. -/
  all : ∀ r ∈ records, start < seq r → seq r ≤ cursor → r ∈ rows
  /-- No version was read that is newer than the record. -/
  newest : ∀ row ∈ rows, ∀ r ∈ records, key r = key row → seq row ≤ seq r

/-- The records above the cursor. -/
def pending (cursor : Nat) (records : List ρ) : List ρ :=
  records.filter (fun r => cursor < seq r)

/-- A page of them. -/
def page (cursor limit : Nat) (records : List ρ) : List ρ := (pending seq cursor records).take limit

/-- The cursor after a page. -/
def nextCursor (cursor : Nat) (rows : List ρ) : Nat := (rows.getLast?.map seq).getD cursor

variable {key seq} {next next' start cursor limit : Nat} {records records' rows : List ρ}

/-! ## Changes -/

theorem Advance.refl (next : Nat) (records : List ρ) : Advance seq next next records records where
  next_le := le_rfl
  fresh := fun _ hr => .inl hr

/-- What has been read stays complete when the records change. -/
theorem Read.advance (h : Read key seq start cursor records rows) (hc : cursor < next)
    (ha : Advance seq next next' records records') : Read key seq start cursor records' rows where
  start_le := h.start_le
  sorted := h.sorted
  above := h.above
  upTo := h.upTo
  all := by
    intro r hr hs hle
    rcases ha.fresh r hr with hold | hnew
    · exact h.all r hold hs hle
    · omega
  newest := by
    intro row hrow r hr hkey
    have hle := h.upTo row hrow
    rcases ha.fresh r hr with hold | hnew
    · exact h.newest row hrow r hold hkey
    · omega

theorem Read.nothing (cursor : Nat) (records : List ρ) : Read key seq cursor cursor records [] where
  start_le := le_rfl
  sorted := .nil
  above := by simp
  upTo := by simp
  all := fun r _ hs hle => by omega
  newest := by simp

/-! ## Pages -/

theorem mem_page {r : ρ} (h : r ∈ page seq cursor limit records) : r ∈ records ∧ cursor < seq r := by
  have := List.mem_filter.mp (List.mem_of_mem_take h)
  exact ⟨this.1, by simpa using this.2⟩

theorem pending_sorted (h : Ordered key seq next records) (cursor : Nat) :
    (pending seq cursor records).Pairwise (fun a b => seq a < seq b) :=
  h.sorted.sublist List.filter_sublist

theorem page_sorted (h : Ordered key seq next records) :
    (page seq cursor limit records).Pairwise (fun a b => seq a < seq b) :=
  (pending_sorted h cursor).sublist (List.take_sublist ..)

/-- The last record of a page has the highest number on it. -/
theorem le_nextCursor {r : ρ} (hsorted : rows.Pairwise (fun a b => seq a < seq b))
    (h : r ∈ rows) : seq r ≤ nextCursor seq cursor rows := by
  rcases List.eq_nil_or_concat' rows with rfl | ⟨l, a, rfl⟩
  · exact absurd h (by simp)
  · rw [nextCursor, List.getLast?_append, List.getLast?_singleton]
    rcases List.mem_append.mp h with hl | ha
    · exact le_of_lt ((List.pairwise_append.mp hsorted).2.2 r hl a (by simp))
    · rw [List.mem_singleton.mp ha]
      exact le_rfl

theorem cursor_le_nextCursor (h : ∀ r ∈ rows, cursor < seq r) :
    cursor ≤ nextCursor seq cursor rows := by
  rcases List.eq_nil_or_concat' rows with rfl | ⟨l, a, rfl⟩
  · exact le_rfl
  · rw [nextCursor, List.getLast?_append, List.getLast?_singleton]
    exact le_of_lt (h a (by simp))

/-- The cursor stays at a number that was given. -/
theorem nextCursor_lt (hc : cursor < next) (h : ∀ r ∈ rows, seq r < next) :
    nextCursor seq cursor rows < next := by
  rcases List.eq_nil_or_concat' rows with rfl | ⟨l, a, rfl⟩
  · exact hc
  · rw [nextCursor, List.getLast?_append, List.getLast?_singleton]
    exact h a (by simp)

/-- A pending record is on the page or behind its last one. -/
theorem mem_page_or_lt (h : Ordered key seq next records) (hlimit : 0 < limit) {r : ρ}
    (hr : r ∈ records) (hc : cursor < seq r) :
    r ∈ page seq cursor limit records ∨
      nextCursor seq cursor (page seq cursor limit records) < seq r := by
  have hmem : r ∈ pending seq cursor records := List.mem_filter.mpr ⟨hr, by simpa using hc⟩
  have hsorted := pending_sorted h cursor
  rw [← List.take_append_drop limit (pending seq cursor records)] at hmem
  rcases List.mem_append.mp hmem with htake | hdrop
  · exact .inl htake
  · right
    rw [← List.take_append_drop limit (pending seq cursor records)] at hsorted
    have hbefore := (List.pairwise_append.mp hsorted).2.2
    -- something is left for later, so the page is not empty
    have hne : (pending seq cursor records).take limit ≠ [] := by
      intro hnil
      rcases List.take_eq_nil_iff.mp hnil with h0 | hnil
      · omega
      · rw [hnil] at hdrop
        exact absurd hdrop (by simp)
    rcases List.eq_nil_or_concat' ((pending seq cursor records).take limit) with hnil | ⟨l, a, hl⟩
    · exact absurd hnil hne
    · rw [page, hl, nextCursor, List.getLast?_append, List.getLast?_singleton]
      exact hbefore a (by rw [hl]; simp) r hdrop

/-- **A page more.** Reading the page above the cursor completes what was read up to the new one. -/
theorem Read.page (h : Read key seq start cursor records rows)
    (ho : Ordered key seq next records) (hlimit : 0 < limit) :
    Read key seq start (nextCursor seq cursor (page seq cursor limit records)) records
      (rows ++ page seq cursor limit records) := by
  have habove : ∀ r ∈ ChangeFeed.page seq cursor limit records, cursor < seq r :=
    fun r hr => (mem_page hr).2
  have hle := cursor_le_nextCursor habove
  have hstart := h.start_le
  constructor
  · omega
  · refine List.pairwise_append.mpr ⟨h.sorted, page_sorted ho, fun a ha b hb => ?_⟩
    have hale := h.upTo a ha
    have hbgt := habove b hb
    omega
  · intro r hr
    rcases List.mem_append.mp hr with hold | hnew
    · exact h.above r hold
    · have := habove r hnew
      omega
  · intro r hr
    rcases List.mem_append.mp hr with hold | hnew
    · have := h.upTo r hold
      omega
    · exact le_nextCursor (page_sorted ho) hnew
  · intro r hr hs hle'
    by_cases hc : seq r ≤ cursor
    · exact List.mem_append_left _ (h.all r hr hs hc)
    · have hgt : cursor < seq r := by omega
      rcases mem_page_or_lt ho hlimit hr hgt with hmem | hlt
      · exact List.mem_append_right _ hmem
      · omega
  · intro row hrow r hr hkey
    rcases List.mem_append.mp hrow with hold | hnew
    · exact h.newest row hold r hr hkey
    · rw [List.inj_on_of_nodup_map ho.keys hr (mem_page hnew).1 hkey]

/-- A page leaves something out just when records above its cursor remain. -/
theorem truncated_iff (ho : Ordered key seq next records) (hlimit : 0 < limit) :
    (ChangeFeed.page seq cursor limit records).length < (pending seq cursor records).length ↔
      ∃ r ∈ records, nextCursor seq cursor (ChangeFeed.page seq cursor limit records) < seq r := by
  constructor
  · intro hlt
    rw [ChangeFeed.page, List.length_take] at hlt
    have hdrop : (pending seq cursor records).drop limit ≠ [] := by
      rw [Ne, List.drop_eq_nil_iff]
      omega
    obtain ⟨r, rest, hr⟩ := List.exists_cons_of_ne_nil hdrop
    have hmem : r ∈ (pending seq cursor records).drop limit := by
      rw [hr]
      exact List.mem_cons_self
    have hpending := List.mem_filter.mp (List.mem_of_mem_drop hmem)
    refine ⟨r, hpending.1, ?_⟩
    rcases mem_page_or_lt ho hlimit hpending.1 (by simpa using hpending.2) with hpage | hlt
    · -- no record is on the page and behind it
      have hsorted := pending_sorted ho cursor
      rw [← List.take_append_drop limit (pending seq cursor records)] at hsorted
      exact absurd ((List.pairwise_append.mp hsorted).2.2 r hpage r hmem) (lt_irrefl _)
    · exact hlt
  · rintro ⟨r, hr, hlt⟩
    by_contra hge
    have hall : ChangeFeed.page seq cursor limit records = pending seq cursor records := by
      rw [ChangeFeed.page, List.length_take] at hge
      exact List.take_of_length_le (by omega)
    have hc : cursor ≤ nextCursor seq cursor (ChangeFeed.page seq cursor limit records) :=
      cursor_le_nextCursor fun r hr => (mem_page hr).2
    have hmem : r ∈ ChangeFeed.page seq cursor limit records := by
      rw [hall]
      exact List.mem_filter.mpr ⟨hr, by simpa using lt_of_le_of_lt hc hlt⟩
    have hle : seq r ≤ nextCursor seq cursor (ChangeFeed.page seq cursor limit records) :=
      le_nextCursor (page_sorted ho) hmem
    omega

/-- The last version read of a record that is not above the cursor is the record. -/
theorem Read.last [DecidableEq κ] (h : Read key seq start cursor records rows) {r : ρ}
    (hr : r ∈ records) (hs : start < seq r) (hc : seq r ≤ cursor) :
    (rows.filter (fun row => key row = key r)).getLast? = some r := by
  have hmem : r ∈ rows.filter (fun row => key row = key r) :=
    List.mem_filter.mpr ⟨h.all r hr hs hc, by simp⟩
  have hsorted := h.sorted.sublist (List.filter_sublist (p := fun row => key row = key r))
  have hnewest : ∀ row ∈ rows.filter (fun row => key row = key r), seq row ≤ seq r := by
    intro row hrow
    obtain ⟨hrow, hkey⟩ := List.mem_filter.mp hrow
    exact h.newest row hrow r hr (by simpa using (of_decide_eq_true hkey).symm)
  rcases List.eq_nil_or_concat' (rows.filter (fun row => key row = key r)) with hnil | ⟨l, a, hl⟩
  · rw [hnil] at hmem
    exact absurd hmem (by simp)
  · rw [hl] at hmem hsorted hnewest ⊢
    rw [List.getLast?_append, List.getLast?_singleton]
    rcases List.mem_append.mp hmem with hbefore | hlast
    · -- a record before the last one has a lower number than it
      have hlt := (List.pairwise_append.mp hsorted).2.2 r hbefore a (by simp)
      have hle := hnewest a (by simp)
      omega
    · rw [List.mem_singleton.mp hlast]
      rfl

end Caveat.Lib.ChangeFeed
