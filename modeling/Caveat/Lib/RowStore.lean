import Mathlib.Data.List.Nodup

/-!
# Tables with a unique key and automatic row numbers

A row is found by its key or by its number. Both are unique, and a number is never given twice:
the next one is above every number in use (SQLite's `AUTOINCREMENT`). The store carries these
facts, so every operation on it has to keep them and no caller has to prove them again.
-/

namespace Caveat.Lib

structure StoredRow (κ ρ : Type*) where
  rowid : Nat
  key : κ
  value : ρ

structure RowStore (κ ρ : Type*) where
  rows : List (StoredRow κ ρ)
  next : Nat
  rowid_lt : ∀ r ∈ rows, r.rowid < next
  nodup_rowid : (rows.map StoredRow.rowid).Nodup
  nodup_key : (rows.map StoredRow.key).Nodup

namespace RowStore

variable {κ ρ : Type*} [DecidableEq κ]

def empty : RowStore κ ρ where
  rows := []
  next := 1
  rowid_lt := by simp
  nodup_rowid := by simp
  nodup_key := by simp

def find? (t : RowStore κ ρ) (k : κ) : Option (StoredRow κ ρ) :=
  t.rows.find? (fun r => r.key = k)

/-- The value stored under a key. -/
def value? (t : RowStore κ ρ) (k : κ) : Option ρ := (t.find? k).map StoredRow.value

/-- Change the value stored under a key. -/
def modify (t : RowStore κ ρ) (k : κ) (f : ρ → ρ) : RowStore κ ρ where
  rows := t.rows.map (fun r => if r.key = k then { r with value := f r.value } else r)
  next := t.next
  rowid_lt := by
    intro r hr
    obtain ⟨r₀, hr₀, rfl⟩ := List.mem_map.mp hr
    have := t.rowid_lt r₀ hr₀
    split <;> exact this
  nodup_rowid := by
    rw [List.map_map]
    refine (congrArg List.Nodup (List.map_congr_left ?_)).mpr t.nodup_rowid
    intro r _
    simp only [Function.comp]
    split <;> rfl
  nodup_key := by
    rw [List.map_map]
    refine (congrArg List.Nodup (List.map_congr_left ?_)).mpr t.nodup_key
    intro r _
    simp only [Function.comp]
    split <;> rfl

theorem find?_eq_none {t : RowStore κ ρ} {k : κ} :
    t.find? k = none ↔ ∀ r ∈ t.rows, r.key ≠ k := by
  simp [find?, List.find?_eq_none]

/-- Add a row under a key that is not in use. -/
def insert (t : RowStore κ ρ) (k : κ) (v : ρ) (h : t.find? k = none) : RowStore κ ρ where
  rows := t.rows ++ [{ rowid := t.next, key := k, value := v }]
  next := t.next + 1
  rowid_lt := by
    intro r hr
    rcases List.mem_append.mp hr with hr | hr
    · have := t.rowid_lt r hr
      omega
    · rw [List.mem_singleton.mp hr]
      exact Nat.lt_succ_self _
  nodup_rowid := by
    rw [List.map_append, List.nodup_append]
    refine ⟨t.nodup_rowid, by simp, ?_⟩
    intro n hn m hm
    obtain ⟨r, hr, rfl⟩ := List.mem_map.mp hn
    rw [List.map_singleton, List.mem_singleton] at hm
    rw [hm]
    exact Nat.ne_of_lt (t.rowid_lt r hr)
  nodup_key := by
    rw [List.map_append, List.nodup_append]
    refine ⟨t.nodup_key, by simp, ?_⟩
    intro a ha b hb
    obtain ⟨r, hr, rfl⟩ := List.mem_map.mp ha
    rw [List.map_singleton, List.mem_singleton] at hb
    rw [hb]
    exact find?_eq_none.mp h r hr

/-- Keep the rows that pass a test. -/
def keep (t : RowStore κ ρ) (p : StoredRow κ ρ → Bool) : RowStore κ ρ where
  rows := t.rows.filter p
  next := t.next
  rowid_lt := fun r hr => t.rowid_lt r (List.mem_of_mem_filter hr)
  nodup_rowid := t.nodup_rowid.sublist (List.filter_sublist.map _)
  nodup_key := t.nodup_key.sublist (List.filter_sublist.map _)

/-- Store a value under a key: the row's number, which a row that exists keeps. -/
def put (t : RowStore κ ρ) (k : κ) (v : Option ρ → ρ) : RowStore κ ρ × Nat :=
  match h : t.find? k with
  | some r => (t.modify k (fun old => v (some old)), r.rowid)
  | none => (t.insert k (v none) h, t.next)

/-! ## What a search finds -/

theorem find?_eq_some {t : RowStore κ ρ} {k : κ} {r : StoredRow κ ρ} :
    t.find? k = some r ↔ r ∈ t.rows ∧ r.key = k := by
  constructor
  · intro h
    exact ⟨List.mem_of_find?_eq_some h, by simpa using List.find?_some h⟩
  · rintro ⟨hmem, hkey⟩
    cases hf : t.find? k with
    | none => exact absurd hkey (find?_eq_none.mp hf r hmem)
    | some r' =>
        have hr' : r' ∈ t.rows := List.mem_of_find?_eq_some hf
        have hk' : r'.key = k := by simpa using List.find?_some hf
        exact congrArg some (List.inj_on_of_nodup_map t.nodup_key hr' hmem (hk'.trans hkey.symm))

theorem find?_key {t : RowStore κ ρ} {r : StoredRow κ ρ} (h : r ∈ t.rows) :
    t.find? r.key = some r := find?_eq_some.mpr ⟨h, rfl⟩

omit [DecidableEq κ] in
/-- Two rows with one number are one row. -/
theorem row_inj {t : RowStore κ ρ} {r r' : StoredRow κ ρ} (h : r ∈ t.rows) (h' : r' ∈ t.rows)
    (heq : r.rowid = r'.rowid) : r = r' := List.inj_on_of_nodup_map t.nodup_rowid h h' heq

@[simp] theorem find?_empty (k : κ) : (empty : RowStore κ ρ).find? k = none := rfl

theorem find?_modify (t : RowStore κ ρ) (k k' : κ) (f : ρ → ρ) :
    (t.modify k f).find? k' =
      (t.find? k').map (fun r => if k' = k then { r with value := f r.value } else r) := by
  have hkey : ∀ r : StoredRow κ ρ,
      (if r.key = k then { r with value := f r.value } else r).key = r.key := by
    intro r
    split <;> rfl
  rw [find?, modify, List.find?_map, find?]
  have hcomp : ((fun r : StoredRow κ ρ => decide (r.key = k')) ∘
      fun r => if r.key = k then { r with value := f r.value } else r) =
      fun r => decide (r.key = k') := by
    funext r
    simp only [Function.comp, hkey]
  rw [hcomp]
  cases hf : t.rows.find? (fun r => decide (r.key = k')) with
  | none => rfl
  | some r =>
      have hr : r.key = k' := by simpa using List.find?_some hf
      simp only [Option.map_some, hr]

theorem find?_insert (t : RowStore κ ρ) (k k' : κ) (v : ρ) (h : t.find? k = none) :
    (t.insert k v h).find? k' =
      if k' = k then some { rowid := t.next, key := k, value := v } else t.find? k' := by
  by_cases hk : k' = k
  · rw [if_pos hk, hk]
    exact find?_eq_some.mpr ⟨by simp [insert], rfl⟩
  · rw [if_neg hk]
    have : ¬ k = k' := fun he => hk he.symm
    simp [find?, insert, List.find?_append, this]

theorem find?_keep (t : RowStore κ ρ) (p : StoredRow κ ρ → Bool) (k : κ) :
    (t.keep p).find? k = (t.find? k).filter p := by
  cases hf : t.find? k with
  | none =>
      rw [Option.filter_none, find?_eq_none]
      intro r hr
      exact find?_eq_none.mp hf r (List.mem_of_mem_filter hr)
  | some r =>
      obtain ⟨hmem, hkey⟩ := find?_eq_some.mp hf
      by_cases hp : p r = true
      · rw [Option.filter_some_pos hp]
        exact find?_eq_some.mpr ⟨List.mem_filter.mpr ⟨hmem, hp⟩, hkey⟩
      · rw [Option.filter_some_neg (by simpa using hp), find?_eq_none]
        intro r' hr' hkey'
        obtain ⟨hmem', hp'⟩ := List.mem_filter.mp hr'
        have : r' = r := List.inj_on_of_nodup_map t.nodup_key hmem' hmem (hkey'.trans hkey.symm)
        exact hp (this ▸ hp')

/-- **`put` stores the value under its key and leaves the other keys alone.** -/
theorem find?_put (t : RowStore κ ρ) (k k' : κ) (v : Option ρ → ρ) :
    (t.put k v).1.find? k' =
      if k' = k then some { rowid := (t.put k v).2, key := k, value := v (t.value? k) }
      else t.find? k' := by
  unfold put
  split
  · rename_i r hr
    rw [find?_modify]
    by_cases hk : k' = k
    · have hkey : r.key = k := (find?_eq_some.mp hr).2
      rw [hk, if_pos rfl, hr, value?, hr]
      simp [hkey]
    · rw [if_neg hk]
      cases t.find? k' <;> simp [hk]
  · rename_i hr
    rw [find?_insert]
    by_cases hk : k' = k
    · have hv : t.value? k = none := by rw [value?, hr]; rfl
      rw [if_pos hk, if_pos hk, hv]
    · rw [if_neg hk, if_neg hk]

/-- The number `put` returns: the row's own, or the next one. -/
theorem put_rowid (t : RowStore κ ρ) (k : κ) (v : Option ρ → ρ) :
    (t.put k v).2 = ((t.find? k).map StoredRow.rowid).getD t.next := by
  unfold put
  split
  · rename_i r hr
    simp [hr]
  · rename_i hr
    simp [hr]

@[simp] theorem value?_empty (k : κ) : (empty : RowStore κ ρ).value? k = none := rfl

theorem value?_put (t : RowStore κ ρ) (k k' : κ) (v : Option ρ → ρ) :
    (t.put k v).1.value? k' = if k' = k then some (v (t.value? k)) else t.value? k' := by
  rw [value?, find?_put]
  split
  · rfl
  · rfl

/-! ## Rows under other keys -/

/-- `put` leaves the list of rows outside a set of keys alone when its key is in the set. -/
theorem filter_put (t : RowStore κ ρ) (k : κ) (v : Option ρ → ρ) (p : κ → Bool)
    (hp : p k = false) :
    (t.put k v).1.rows.filter (fun r => p r.key) = t.rows.filter (fun r => p r.key) := by
  unfold put
  split
  · simp only [modify, List.filter_map]
    have hcomp : (fun r : StoredRow κ ρ => p r.key) ∘
        (fun r => if r.key = k then { r with value := v (some r.value) } else r) =
        fun r => p r.key := by
      funext r
      simp only [Function.comp]
      split <;> rfl
    rw [hcomp]
    conv_rhs => rw [← List.map_id (t.rows.filter fun r => p r.key)]
    refine List.map_congr_left ?_
    intro r hr
    have hpr : p r.key = true := (List.mem_filter.mp hr).2
    have hne : r.key ≠ k := by
      intro he
      rw [he, hp] at hpr
      exact absurd hpr (by simp)
    rw [if_neg hne]
    rfl
  · simp [insert, List.filter_append, hp]

end RowStore

end Caveat.Lib
