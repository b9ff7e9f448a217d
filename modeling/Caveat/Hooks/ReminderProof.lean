import Mathlib.Data.List.Chain
import Caveat.Hooks.Delivery

/-!
# Lines that are read back

The pattern that reads hit lines finds the id and the source of a line again, if the id has no white
space, the source no closing parenthesis, and neither is changed when it is shown.
-/

namespace Caveat.Hooks

open Js
open Publish (isSpaceUnit isDigitUnit)

/-! ## What is shown -/

theorem mem_collapseSpace {u : UInt16} {s : Units} (h : u ∈ collapseSpace s) :
    u = unitOf ' ' ∨ u ∈ s ∧ isSpaceUnit u = false := by
  induction s with
  | nil => exact absurd h (by simp [collapseSpace])
  | cons v s ih =>
      have hrest : u ∈ collapseSpace s → u = unitOf ' ' ∨ u ∈ v :: s ∧ isSpaceUnit u = false :=
        fun hu => (ih hu).imp_right fun h => ⟨List.mem_cons_of_mem _ h.1, h.2⟩
      rw [collapseSpace] at h
      split at h
      · split at h
        · exact hrest h
        · rcases List.mem_cons.mp h with rfl | h
          · exact .inl rfl
          · exact hrest h
      · rename_i hspace
        rcases List.mem_cons.mp h with rfl | h
        · exact .inr ⟨List.mem_cons_self, by simpa using hspace⟩
        · exact hrest h

theorem length_collapseSpace (s : Units) : (collapseSpace s).length ≤ s.length := by
  induction s with
  | nil => simp [collapseSpace]
  | cons v s ih =>
      rw [collapseSpace]
      split
      · split
        · simp only [List.length_cons]
          omega
        · simp only [List.length_cons]
          omega
      · simp only [List.length_cons]
        omega

/-- White space is single spaces. -/
structure NoRuns (s : Units) : Prop where
  chain : s.IsChain (fun a b => ¬ (isSpaceUnit a = true ∧ isSpaceUnit b = true))
  plain : ∀ u ∈ s, isSpaceUnit u = true → u = unitOf ' '

theorem collapseSpace_of_noRuns {s : Units} (h : NoRuns s) : collapseSpace s = s := by
  induction s with
  | nil => rfl
  | cons u s ih =>
      have hrest : collapseSpace s = s :=
        ih ⟨h.chain.tail, fun v hv => h.plain v (List.mem_cons_of_mem _ hv)⟩
      rw [collapseSpace, hrest]
      by_cases hu : isSpaceUnit u = true
      · rw [if_pos hu]
        have hnext : s.head?.any isSpaceUnit = false := by
          cases s with
          | nil => rfl
          | cons v s =>
              have hpair := (List.isChain_cons_cons.mp h.chain).1
              simpa [hu] using hpair
        rw [hnext, h.plain u List.mem_cons_self hu]
        rfl
      · rw [if_neg hu]

theorem head_collapseSpace (s : Units) :
    (collapseSpace s).head?.any isSpaceUnit = s.head?.any isSpaceUnit := by
  induction s with
  | nil => rfl
  | cons u s ih =>
      rw [collapseSpace]
      by_cases hu : isSpaceUnit u = true
      · rw [if_pos hu]
        by_cases hnext : s.head?.any isSpaceUnit = true
        · rw [if_pos hnext, ih, hnext]
          simp [hu]
        · rw [if_neg hnext]
          simp only [List.head?_cons, Option.any_some, hu]
          decide
      · rw [if_neg hu]
        simp [hu]

theorem noRuns_collapseSpace (s : Units) : NoRuns (collapseSpace s) := by
  refine ⟨?_, fun u hu hspace => ?_⟩
  · induction s with
    | nil => exact List.isChain_nil
    | cons u s ih =>
        have hcons : ∀ v, (isSpaceUnit v = true → s.head?.any isSpaceUnit = false) →
            (v :: collapseSpace s).IsChain
              (fun a b => ¬ (isSpaceUnit a = true ∧ isSpaceUnit b = true)) := by
          intro v hv
          refine List.isChain_cons.mpr ⟨fun w hw hboth => ?_, ih⟩
          have hhead := head_collapseSpace s
          rw [hw, hv hboth.1] at hhead
          simp only [Option.any_some] at hhead
          rw [hboth.2] at hhead
          exact absurd hhead (by simp)
        rw [collapseSpace]
        by_cases hu : isSpaceUnit u = true
        · rw [if_pos hu]
          by_cases hnext : s.head?.any isSpaceUnit = true
          · rw [if_pos hnext]
            exact ih
          · rw [if_neg hnext]
            exact hcons _ fun _ => by simpa using hnext
        · rw [if_neg hu]
          exact hcons u fun h => absurd h hu
  · rcases mem_collapseSpace hu with hplain | ⟨_, hnot⟩
    · exact hplain
    · rw [hnot] at hspace
      exact absurd hspace (by simp)

/-! ### Trimming -/

theorem trimUnits_within (s : Units) : trimUnits s <:+: s :=
  (List.rdropWhile_prefix _ _).isInfix.trans (List.dropWhile_suffix _).isInfix

theorem length_trimUnits (s : Units) : (trimUnits s).length ≤ s.length :=
  (trimUnits_within s).length_le

/-- No white space at the ends. -/
structure Tight (s : Units) : Prop where
  head : s.head?.any isSpaceUnit = false
  last : s.getLast?.any isSpaceUnit = false

theorem trimUnits_of_tight {s : Units} (h : Tight s) : trimUnits s = s := by
  have hstart : s.dropWhile isSpaceUnit = s := by
    cases s with
    | nil => rfl
    | cons u s =>
        have hu : isSpaceUnit u = false := h.head
        rw [List.dropWhile_cons_of_neg (by simp [hu])]
  rw [trimUnits, hstart, List.rdropWhile_eq_self_iff]
  intro hne
  have hlast := h.last
  rw [List.getLast?_eq_some_getLast hne, Option.any_some] at hlast
  simp [hlast]

theorem tight_trimUnits (s : Units) : Tight (trimUnits s) := by
  refine ⟨?_, ?_⟩
  · cases htrim : trimUnits s with
    | nil => rfl
    | cons u t =>
        -- the head is that of what is left of the start
        obtain ⟨rest, hrest⟩ : trimUnits s <+: s.dropWhile isSpaceUnit := List.rdropWhile_prefix _ _
        rw [htrim] at hrest
        have hne : s.dropWhile isSpaceUnit ≠ [] := by
          rw [← hrest]
          simp
        have hhead := List.head_dropWhile_not isSpaceUnit hne
        have heq : (s.dropWhile isSpaceUnit).head hne = u := by
          simp only [← hrest, List.cons_append, List.head_cons]
        rw [heq] at hhead
        simpa using hhead
  · cases hlast : (trimUnits s).getLast? with
    | none => rfl
    | some u =>
        have hne : trimUnits s ≠ [] := by
          rintro hnil
          rw [hnil] at hlast
          exact absurd hlast (by simp)
        have hnot := List.rdropWhile_last_not isSpaceUnit (s.dropWhile isSpaceUnit) hne
        rw [List.getLast?_eq_some_getLast hne] at hlast
        have heq : (trimUnits s).getLast hne = u := Option.some.inj hlast
        rw [Option.any_some, ← heq]
        simpa [trimUnits] using hnot

/-! ### Angle brackets -/

theorem isSpaceUnit_disarmUnit (u : UInt16) : isSpaceUnit (disarmUnit u) = isSpaceUnit u := by
  rw [disarmUnit]
  split
  · rename_i h
    rw [h]
    decide +kernel
  · split
    · rename_i h
      rw [h]
      decide +kernel
    · rfl

/-- Neither angle bracket. -/
def unarmed (u : UInt16) : Bool := u ≠ unitOf '<' && u ≠ unitOf '>'

theorem unarmed_disarmUnit (u : UInt16) : unarmed (disarmUnit u) = true := by
  rw [disarmUnit]
  split
  · decide
  · split
    · decide
    · rename_i h1 h2
      simp [unarmed, h1, h2]

theorem disarmUnit_of_unarmed {u : UInt16} (h : unarmed u = true) : disarmUnit u = u := by
  simp only [unarmed, Bool.and_eq_true, decide_eq_true_eq] at h
  rw [disarmUnit, if_neg h.1, if_neg h.2]

theorem map_disarmUnit_of_unarmed {s : Units} (h : ∀ u ∈ s, unarmed u = true) :
    s.map disarmUnit = s := by
  rw [List.map_congr_left fun u hu => disarmUnit_of_unarmed (h u hu), List.map_id']

theorem NoRuns.map_disarmUnit {s : Units} (h : NoRuns s) : NoRuns (s.map disarmUnit) := by
  refine ⟨?_, fun u hu hspace => ?_⟩
  · rw [List.isChain_map]
    simpa only [isSpaceUnit_disarmUnit] using h.chain
  · obtain ⟨v, hv, rfl⟩ := List.mem_map.mp hu
    rw [isSpaceUnit_disarmUnit] at hspace
    rw [h.plain v hv hspace]
    decide

theorem NoRuns.of_within {s t : Units} (h : NoRuns s) (hin : t <:+: s) : NoRuns t := by
  refine ⟨?_, fun u hu => h.plain u (hin.subset hu)⟩
  exact List.IsChain.infix h.chain hin

theorem Tight.map_disarmUnit {s : Units} (h : Tight s) : Tight (s.map disarmUnit) := by
  have hany : ∀ o : Option UInt16, (o.map disarmUnit).any isSpaceUnit = o.any isSpaceUnit := by
    intro o
    cases o with
    | none => rfl
    | some u => exact isSpaceUnit_disarmUnit u
  refine ⟨?_, ?_⟩
  · rw [List.head?_map, hany]
    exact h.head
  · rw [List.getLast?_map, hany]
    exact h.last

/-! ### What is shown of a value -/

/-- A value that is shown as it is. -/
structure Displayed (maxLength : Nat) (s : Units) : Prop where
  runs : NoRuns s
  tight : Tight s
  unarmed : ∀ u ∈ s, unarmed u = true
  short : s.length ≤ maxLength

theorem sanitize_of_displayed {n : Nat} {s : Units} (h : Displayed n s) :
    sanitizeReminderDisplay s n = s := by
  rw [sanitizeReminderDisplay, collapseSpace_of_noRuns h.runs, trimUnits_of_tight h.tight,
    map_disarmUnit_of_unarmed h.unarmed, List.take_of_length_le h.short]

theorem length_sanitize (s : Units) (n : Nat) : (sanitizeReminderDisplay s n).length ≤ n :=
  List.length_take_le _ _

theorem unarmed_sanitize {s : Units} {n : Nat} {u : UInt16}
    (h : u ∈ sanitizeReminderDisplay s n) : unarmed u = true := by
  obtain ⟨v, _, rfl⟩ := List.mem_map.mp (List.mem_of_mem_take h)
  exact unarmed_disarmUnit v

theorem noRuns_sanitize (s : Units) (n : Nat) : NoRuns (sanitizeReminderDisplay s n) :=
  (((noRuns_collapseSpace s).of_within (trimUnits_within _)).map_disarmUnit).of_within
    (List.take_prefix _ _).isInfix

/-- Of a short value nothing is cut off, so that it stays as it is when it is shown again. -/
theorem displayed_sanitize {s : Units} {n : Nat} (h : s.length ≤ n) :
    Displayed n (sanitizeReminderDisplay s n) := by
  have hwhole : sanitizeReminderDisplay s n = (trimUnits (collapseSpace s)).map disarmUnit := by
    refine List.take_of_length_le ?_
    have h1 := length_trimUnits (collapseSpace s)
    have h2 := length_collapseSpace s
    rw [List.length_map]
    omega
  refine ⟨noRuns_sanitize s n, ?_, fun u hu => unarmed_sanitize hu, length_sanitize s n⟩
  rw [hwhole]
  exact (tight_trimUnits _).map_disarmUnit

theorem noRuns_of_solid {s : Units} (h : ∀ u ∈ s, isSpaceUnit u = false) : NoRuns s := by
  refine ⟨List.Pairwise.isChain (List.pairwise_of_forall_mem_list fun u hu v _ hboth => ?_),
    fun u hu hspace => ?_⟩
  · rw [h u hu] at hboth
    exact absurd hboth.1 (by simp)
  · rw [h u hu] at hspace
    exact absurd hspace (by simp)

theorem tight_of_solid {s : Units} (h : ∀ u ∈ s, isSpaceUnit u = false) : Tight s := by
  have hnone : ∀ o : Option UInt16, (∀ u ∈ o, u ∈ s) → o.any isSpaceUnit = false := by
    rintro (_ | u) ho
    · rfl
    · exact h u (ho u rfl)
  exact ⟨hnone _ fun u hu => List.mem_of_mem_head? hu, hnone _ fun u hu => List.mem_of_getLast? hu⟩

/-- A value without white space is shown as it is, if it is short and has no angle brackets. -/
theorem displayed_of_solid {s : Units} {n : Nat} (hspace : ∀ u ∈ s, isSpaceUnit u = false)
    (hangle : ∀ u ∈ s, unarmed u = true) (hshort : s.length ≤ n) : Displayed n s :=
  ⟨noRuns_of_solid hspace, tight_of_solid hspace, hangle, hshort⟩

end Caveat.Hooks
