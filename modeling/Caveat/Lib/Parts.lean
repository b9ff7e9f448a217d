import Caveat.Lib.Loop

/-!
# Steps on separate parts

A run takes steps, each of which has a part of the state to itself. What a part holds is told by a
view, and a step leaves the view of the other parts as it is. So whether a run does what it should
may be told from the parts one by one, as they are at the start.
-/

namespace Caveat.Lib

variable {ι κ σ β ε : Type*}

/-- A step leaves the parts of the others as they are. -/
def Apart (part : ι → κ) (view : κ → σ → β) (step : ι → σ → Except ε σ) : Prop :=
  ∀ ⦃i s s'⦄, step i s = .ok s' → ∀ k, k ≠ part i → view k s' = view k s

variable {part : ι → κ} {view : κ → σ → β} {step : ι → σ → Except ε σ}

/-- A run leaves the parts it has no step for. -/
theorem Apart.view_of_notMem (h : Apart part view step) {is : List ι} {s s' : σ}
    (hrun : is.foldlM (fun s i => step i s) s = .ok s') {k : κ} (hk : k ∉ is.map part) :
    view k s' = view k s := by
  induction is generalizing s with
  | nil =>
      cases hrun
      rfl
  | cons i is ih =>
      rw [List.foldlM_cons] at hrun
      cases hstep : step i s with
      | error e =>
          rw [hstep] at hrun
          cases hrun
      | ok s₁ =>
          rw [hstep] at hrun
          rw [List.map_cons, List.mem_cons, not_or] at hk
          rw [ih hrun hk.2, h hstep k hk.1]

/-- A step finds its part as it was at the start, and leaves it as it is at the end. -/
theorem Apart.step_of_mem (h : Apart part view step) {is : List ι} (hnodup : (is.map part).Nodup)
    {s s' : σ} (hrun : is.foldlM (fun s i => step i s) s = .ok s') {i : ι} (hi : i ∈ is) :
    ∃ s₁ s₂, view (part i) s₁ = view (part i) s ∧ step i s₁ = .ok s₂ ∧
      view (part i) s' = view (part i) s₂ := by
  induction is generalizing s with
  | nil => exact absurd hi List.not_mem_nil
  | cons j is ih =>
      rw [List.foldlM_cons] at hrun
      rw [List.map_cons, List.nodup_cons] at hnodup
      cases hstep : step j s with
      | error e =>
          rw [hstep] at hrun
          cases hrun
      | ok s₁ =>
          rw [hstep] at hrun
          rcases List.mem_cons.mp hi with rfl | hi
          · exact ⟨s, s₁, rfl, hstep, h.view_of_notMem hrun hnodup.1⟩
          · obtain ⟨s₂, s₃, hview, hrest⟩ := ih hnodup.2 hrun hi
            have hne : part i ≠ part j := fun hij => hnodup.1 (hij ▸ List.mem_map_of_mem hi)
            exact ⟨s₂, s₃, hview.trans (h hstep (part i) hne), hrest⟩

/-- A run in which every step can be taken on its part. -/
theorem Apart.exists_of_ok (h : Apart part view step) {Good : ι → β → Prop}
    (hok : ∀ i s, Good i (view (part i) s) → ∃ s', step i s = .ok s') {is : List ι}
    (hnodup : (is.map part).Nodup) {s : σ} (hall : ∀ i ∈ is, Good i (view (part i) s)) :
    ∃ s', is.foldlM (fun s i => step i s) s = .ok s' := by
  induction is generalizing s with
  | nil => exact ⟨s, rfl⟩
  | cons i is ih =>
      rw [List.map_cons, List.nodup_cons] at hnodup
      obtain ⟨s₁, hstep⟩ := hok i s (hall i List.mem_cons_self)
      rw [List.foldlM_cons, hstep]
      refine ih hnodup.2 fun j hj => ?_
      have hne : part j ≠ part i := fun hij => hnodup.1 (hij ▸ List.mem_map_of_mem hj)
      rw [h hstep (part j) hne]
      exact hall j (List.mem_cons_of_mem _ hj)

/-! ## Runs that do what they should -/

/-- What each step should do: its own part is told by what the part was. -/
structure Prescribed (part : ι → κ) (view : κ → σ → β) (spec : ι → σ → σ) : Prop where
  apart : ∀ i s k, k ≠ part i → view k (spec i s) = view k s
  told : ∀ i s t, view (part i) s = view (part i) t →
    view (part i) (spec i s) = view (part i) (spec i t)

variable {spec : ι → σ → σ} {Good : ι → β → Prop}

theorem Prescribed.view_of_notMem (hspec : Prescribed part view spec) {is : List ι} {k : κ}
    (hk : k ∉ is.map part) (s : σ) : view k (is.foldl (fun s i => spec i s) s) = view k s := by
  induction is generalizing s with
  | nil => rfl
  | cons i is ih =>
      rw [List.map_cons, List.mem_cons, not_or] at hk
      rw [List.foldl_cons, ih hk.2, hspec.apart i s k hk.1]

theorem Prescribed.view_of_mem (hspec : Prescribed part view spec) {is : List ι}
    (hnodup : (is.map part).Nodup) {i : ι} (hi : i ∈ is) (s : σ) :
    view (part i) (is.foldl (fun s i => spec i s) s) = view (part i) (spec i s) := by
  induction is generalizing s with
  | nil => exact absurd hi List.not_mem_nil
  | cons j is ih =>
      rw [List.map_cons, List.nodup_cons] at hnodup
      rw [List.foldl_cons]
      rcases List.mem_cons.mp hi with rfl | hi
      · exact hspec.view_of_notMem hnodup.1 _
      · have hne : part i ≠ part j := fun hij => hnodup.1 (hij ▸ List.mem_map_of_mem hi)
        rw [ih hnodup.2 hi]
        exact hspec.told i _ _ (hspec.apart j s (part i) hne)

/-- Parts on which each step does what it should. -/
theorem Prescribed.foldlM_eq_ok (hspec : Prescribed part view spec)
    (hgood : ∀ i s, Good i (view (part i) s) → step i s = .ok (spec i s)) {is : List ι}
    (hnodup : (is.map part).Nodup) {s : σ} (hall : ∀ i ∈ is, Good i (view (part i) s)) :
    is.foldlM (fun s i => step i s) s = .ok (is.foldl (fun s i => spec i s) s) := by
  induction is generalizing s with
  | nil => rfl
  | cons i is ih =>
      rw [List.map_cons, List.nodup_cons] at hnodup
      rw [List.foldlM_cons, hgood i s (hall i List.mem_cons_self), List.foldl_cons]
      refine ih hnodup.2 fun j hj => ?_
      have hne : part j ≠ part i := fun hij => hnodup.1 (hij ▸ List.mem_map_of_mem hj)
      rw [hspec.apart i s (part j) hne]
      exact hall j (List.mem_cons_of_mem _ hj)

/-- The parts of a run that ends with all of them as they should be. -/
theorem Apart.good_of_view (h : Apart part view step) (hspec : Prescribed part view spec)
    (hbad : ∀ i s s', step i s = .ok s' → view (part i) s' = view (part i) (spec i s) →
      Good i (view (part i) s))
    {is : List ι} (hnodup : (is.map part).Nodup) {s s' : σ}
    (hrun : is.foldlM (fun s i => step i s) s = .ok s')
    (hview : ∀ i ∈ is, view (part i) s' =
      view (part i) (is.foldl (fun s i => spec i s) s)) :
    ∀ i ∈ is, Good i (view (part i) s) := by
  intro i hi
  obtain ⟨s₁, s₂, hbefore, hstep, hafter⟩ := h.step_of_mem hnodup hrun hi
  rw [hview i hi, hspec.view_of_mem hnodup hi, hspec.told i s s₁ hbefore.symm] at hafter
  rw [← hbefore]
  exact hbad i s₁ s₂ hstep hafter.symm

/-- **A run does what it should just when each part is one on which its step does.** -/
theorem Apart.foldlM_eq_ok_iff (h : Apart part view step) (hspec : Prescribed part view spec)
    (hgood : ∀ i s, Good i (view (part i) s) → step i s = .ok (spec i s))
    (hbad : ∀ i s s', step i s = .ok s' → view (part i) s' = view (part i) (spec i s) →
      Good i (view (part i) s))
    {is : List ι} (hnodup : (is.map part).Nodup) (s : σ) :
    is.foldlM (fun s i => step i s) s = .ok (is.foldl (fun s i => spec i s) s) ↔
      ∀ i ∈ is, Good i (view (part i) s) :=
  ⟨fun hrun => h.good_of_view hspec hbad hnodup hrun fun _ _ => rfl,
    fun hall => hspec.foldlM_eq_ok hgood hnodup hall⟩

end Caveat.Lib
