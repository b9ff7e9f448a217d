import Caveat.Write.Record
import Mathlib.Data.List.Perm.Subperm

/-!
# What a new entry is given

`resolveCollision` ends with an id that the source does not hold: the wanted one, or the wanted one
with the first free number after it. `prepareRecord_ok_iff` says when a call gets to its write and
with what.
-/

namespace Caveat.Write

open Js Entry Index

variable {host : Host} {t : Table} {source : Source} {base id : JsValue}

attribute [local simp] numberedId

/-- `${baseId}-${n}`. -/
def candidate (host : Host) (base : JsValue) (n : Nat) : Text := template host base ++ '-' :: ofNat n

theorem candidate_injective {m n : Nat} (h : candidate host base m = candidate host base n) :
    m = n := by
  unfold candidate at h
  have htail := List.append_cancel_left h
  exact ofNat_inj.mp (List.cons.inj htail).2

theorem numberedId_succ (fuel n : Nat) : numberedId host t source base (fuel + 1) n =
    if (t.find? (source, candidate host base n)).isSome then
      numberedId host t source base fuel (n + 1)
    else some (candidate host base n) := rfl

theorem numberedId_some {n : Nat} {id : Text} : ∀ {fuel : Nat},
    numberedId host t source base fuel n = some id →
      ∃ m, id = candidate host base m ∧ t.find? (source, id) = none := by
  intro fuel
  induction fuel generalizing n with
  | zero => intro h; exact absurd h (by simp)
  | succ fuel ih =>
      intro h
      rw [numberedId_succ] at h
      by_cases hheld : (t.find? (source, candidate host base n)).isSome = true
      · rw [if_pos hheld] at h
        exact ih h
      · rw [if_neg hheld] at h
        have hid : candidate host base n = id := Option.some.inj h
        exact ⟨n, hid.symm, by simpa [hid] using hheld⟩

/-- Where no candidate is free, the source holds all of them. -/
theorem numberedId_none {n : Nat} : ∀ {fuel : Nat},
    numberedId host t source base fuel n = none →
      ∀ m, n ≤ m → m < n + fuel → (t.find? (source, candidate host base m)).isSome = true := by
  intro fuel
  induction fuel generalizing n with
  | zero => intro _ m hle hlt; omega
  | succ fuel ih =>
      intro h m hle hlt
      rw [numberedId_succ] at h
      by_cases hheld : (t.find? (source, candidate host base n)).isSome = true
      · rw [if_pos hheld] at h
        by_cases hm : m = n
        · rw [hm]; exact hheld
        · exact ih h m (by omega) (by omega)
      · rw [if_neg hheld] at h
        exact absurd h (by simp)

/-- **The search for a free number ends.** There are more candidates than rows. -/
theorem numberedId_isSome (host : Host) (t : Table) (source : Source) (base : JsValue) :
    (numberedId host t source base (t.rows.length + 1) 2).isSome = true := by
  by_contra hnone
  have hheld := numberedId_none (Option.not_isSome_iff_eq_none.mp hnone)
  -- the keys of the candidates are distinct and all among the keys of the rows
  let keys := (List.range (t.rows.length + 1)).map (fun i => (source, candidate host base (i + 2)))
  have hnodup : keys.Nodup := by
    refine List.Nodup.map (fun i j he => ?_) List.nodup_range
    have := candidate_injective (congrArg Prod.snd he)
    omega
  have hsub : keys ⊆ t.rows.map Lib.StoredRow.key := by
    intro k hk
    obtain ⟨i, hi, rfl⟩ := List.mem_map.mp hk
    have hi' := List.mem_range.mp hi
    obtain ⟨r, hr⟩ := Option.isSome_iff_exists.mp (hheld (i + 2) (by omega) (by omega))
    have hkey : r.key = (source, candidate host base (i + 2)) := by
      simpa using List.find?_some hr
    exact List.mem_map.mpr ⟨r, List.mem_of_find?_eq_some hr, hkey⟩
  have hle := (List.subperm_of_subset hnodup hsub).length_le
  simp only [keys, List.length_map, List.length_range] at hle
  omega

/-- The wanted id is taken when it is free, and the first free numbered one when it is held. -/
theorem resolveCollision_cases (h : resolveCollision host t source base = .ok id) :
    (select host t source base = .ok none ∧ base = id) ∨
      ∃ r found, select host t source base = .ok (some r) ∧
        numberedId host t source base (t.rows.length + 1) 2 = some found ∧ .string found = id := by
  rw [resolveCollision] at h
  obtain ⟨held, hexists, h⟩ := Lib.bind_eq_ok.mp h
  rw [entryExists] at hexists
  obtain ⟨row?, hselect, hheld⟩ := Lib.bind_eq_ok.mp hexists
  have hheld : row?.isSome = held := Except.ok.inj hheld
  subst hheld
  cases row? with
  | none => exact .inl ⟨hselect, Except.ok.inj h⟩
  | some r =>
      obtain ⟨found, hnum⟩ := Option.isSome_iff_exists.mp (numberedId_isSome host t source base)
      refine .inr ⟨r, found, hselect, hnum, ?_⟩
      rw [hnum] at h
      exact Except.ok.inj h

theorem select_string (found : Text) :
    select host t source (.string found) = .ok (t.find? (source, found)) := rfl

/-- **The id of a new entry is free**: it is the wanted one, or a numbered one when that is held. -/
theorem resolveCollision_ok (h : resolveCollision host t source base = .ok id) :
    select host t source id = .ok none ∧
      (id = base ∨ (∃ r, select host t source base = .ok (some r)) ∧
        ∃ n, id = .string (candidate host base n)) := by
  rcases resolveCollision_cases h with ⟨hselect, rfl⟩ | ⟨r, found, hselect, hnum, rfl⟩
  · exact ⟨hselect, .inl rfl⟩
  · obtain ⟨n, hcand, hfree⟩ := numberedId_some hnum
    exact ⟨by rw [select_string, hfree], .inr ⟨⟨r, hselect⟩, n, by rw [hcand]⟩⟩

variable {input : RecordInput} {ctx : RecordContext} {p : Prepared}

theorem prepareUnder_ok_iff : prepareUnder host input ctx id = .ok p ↔
    ∃ built, buildEntry host (recordFrontmatter input ctx id) (recordSections input) = .ok built ∧
      { relPath := recordPath host input id, content := built.content
        row := recordRow host input ctx id built.body } = p := by
  rw [prepareUnder, Lib.bind_eq_ok]
  simp only [liftEntry_ok, pure, Except.pure, Except.ok.injEq]

theorem prepareRecord_ok_iff : prepareRecord host input ctx t = .ok p ↔
    ∃ id built, resolveCollision host t ctx.source (baseId host input ctx) = .ok id ∧
      buildEntry host (recordFrontmatter input ctx id) (recordSections input) = .ok built ∧
      { relPath := recordPath host input id, content := built.content
        row := recordRow host input ctx id built.body } = p := by
  rw [prepareRecord, Lib.bind_eq_ok]
  simp only [liftDb_ok, prepareUnder_ok_iff]
  constructor
  · rintro ⟨id, hid, built, hbuilt, hp⟩
    exact ⟨id, built, hid, hbuilt, hp⟩
  · rintro ⟨id, built, hid, hbuilt, hp⟩
    exact ⟨id, hid, built, hbuilt, hp⟩

end Caveat.Write
