import Mathlib.Data.List.Sort
import Mathlib.Data.List.Nodup

/-!
# Sorting before repetitions are dropped

A list is sorted by a comparison, and what equals its predecessor is dropped. The comparison may
be coarser than equality: elements that differ can tie. A set has one such list exactly if none of
its elements tie; whatever ties there are, no element is lost.
-/

namespace Caveat.Lib

open Std (TransCmp OrientedCmp)

variable {α : Type}

/-! ## Sorting -/

/-- The elements in ascending order, those that tie as they come. -/
def sorted (cmp : α → α → Ordering) (l : List α) : List α := l.insertionSort fun a b => (cmp a b).isLE

variable {cmp : α → α → Ordering}

/-- Elements compared by something that they have. -/
theorem transCmp_on {β : Type} (cmp : α → α → Ordering) [TransCmp cmp] (f : β → α) :
    TransCmp fun a b => cmp (f a) (f b) where
  eq_swap := OrientedCmp.eq_swap
  isLE_trans := TransCmp.isLE_trans

@[simp] theorem mem_sorted {a : α} {l : List α} : a ∈ sorted cmp l ↔ a ∈ l :=
  (List.perm_insertionSort _ l).mem_iff

theorem pairwise_sorted [TransCmp cmp] (l : List α) :
    (sorted cmp l).Pairwise fun a b => (cmp a b).isLE := by
  have : Std.Total fun a b : α => (cmp a b).isLE = true := ⟨fun a b => by
    have hswap : cmp b a = (cmp a b).swap := OrientedCmp.eq_swap
    rw [hswap]
    cases cmp a b <;> simp⟩
  have : IsTrans α fun a b => (cmp a b).isLE = true := ⟨fun _ _ _ => TransCmp.isLE_trans⟩
  exact List.pairwise_insertionSort _ l

/-- Elements that tie keep their order. -/
theorem filter_sorted {p : α → Bool} (h : ∀ a b, p a → p b → (cmp a b).isLE) (l : List α) :
    (sorted cmp l).filter p = l.filter p := by
  have hinsert : ∀ (a : α) (s : List α),
      (s.orderedInsert (fun a b => (cmp a b).isLE = true) a).filter p = (a :: s).filter p := by
    intro a s
    induction s with
    | nil => rfl
    | cons b s ih =>
        rw [List.orderedInsert]
        split
        · rfl
        · rename_i hnot
          rw [List.filter_cons, ih]
          by_cases hb : p b = true
          · have ha : ¬ p a = true := fun ha => hnot (h a b ha hb)
            simp [ha, hb]
          · simp [hb, List.filter_cons]
  induction l with
  | nil => rfl
  | cons a l ih =>
      rw [sorted] at ih ⊢
      rw [List.insertionSort_cons, hinsert, List.filter_cons, List.filter_cons, ih]

/-! ## Dropping repetitions -/

section Distinct

variable [DecidableEq α]

/-- The elements that differ from the one before them, where `prev` comes before the first. -/
def distinctFrom : Option α → List α → List α
  | _, [] => []
  | prev, a :: l => if prev = some a then distinctFrom (some a) l else a :: distinctFrom (some a) l

theorem mem_distinctFrom {a : α} {prev : Option α} {l : List α} :
    prev = some a ∨ a ∈ distinctFrom prev l ↔ prev = some a ∨ a ∈ l := by
  induction l generalizing prev with
  | nil => rw [distinctFrom]
  | cons b l ih =>
      rw [distinctFrom]
      have hrest := @ih (some b)
      by_cases hb : prev = some b
      · rw [if_pos hb, hb, hrest, List.mem_cons]
        constructor
        · rintro (h | h)
          · exact .inl h
          · exact .inr (.inr h)
        · rintro (h | rfl | h)
          · exact .inl h
          · exact .inl rfl
          · exact .inr h
      · have hsame : a = b ∨ a ∈ distinctFrom (some b) l ↔ a = b ∨ a ∈ l := by
          simpa only [Option.some.injEq, eq_comm (a := b)] using hrest
        rw [if_neg hb, List.mem_cons, List.mem_cons, hsame]

/-- The first element of a kind is not dropped. -/
theorem find?_distinctFrom {p : α → Bool} {prev : Option α} (h : prev.any p = false) (l : List α) :
    (distinctFrom prev l).find? p = l.find? p := by
  induction l generalizing prev with
  | nil => rfl
  | cons a l ih =>
      rw [distinctFrom, List.find?_cons]
      by_cases ha : p a = true
      · have hnew : prev ≠ some a := by
          rintro rfl
          rw [Option.any_some, ha] at h
          exact absurd h (by simp)
        rw [if_neg hnew, List.find?_cons, ha]
      · have hrest := @ih (some a) (by simpa using ha)
        have hfalse : p a = false := by simpa using ha
        rw [hfalse]
        split
        · exact hrest
        · rw [List.find?_cons, hfalse]
          exact hrest

/-- Sorted elements that do not tie ascend strictly. -/
theorem ascending_distinctFrom [TransCmp cmp] {prev : Option α} {l : List α}
    (hties : ∀ a ∈ prev.toList ++ l, ∀ b ∈ prev.toList ++ l, cmp a b = .eq → a = b)
    (hsorted : (prev.toList ++ l).Pairwise fun a b => (cmp a b).isLE) :
    (∀ a ∈ prev, ∀ b ∈ distinctFrom prev l, cmp a b = .lt) ∧
      (distinctFrom prev l).Pairwise fun a b => cmp a b = .lt := by
  induction l generalizing prev with
  | nil => exact ⟨fun _ _ _ h => absurd h List.not_mem_nil, .nil⟩
  | cons b l ih =>
      have hle : ∀ c ∈ b :: l, c ∈ prev.toList ++ b :: l := fun c hc => List.mem_append_right _ hc
      obtain ⟨hfirst, hrest⟩ := @ih (some b)
        (fun a ha c hc => hties a (hle a ha) c (hle c hc)) (List.pairwise_append.mp hsorted).2.1
      rw [distinctFrom]
      by_cases hb : prev = some b
      · rw [if_pos hb, hb]
        exact ⟨hfirst, hrest⟩
      · rw [if_neg hb]
        refine ⟨fun a ha c hc => ?_, List.pairwise_cons.mpr ⟨hfirst b rfl, hrest⟩⟩
        have hprev : a ∈ prev.toList := Option.mem_toList.mpr ha
        have hab : cmp a b = .lt := by
          have hisLE := (List.pairwise_append.mp hsorted).2.2 a hprev b List.mem_cons_self
          have hne : cmp a b ≠ .eq := by
            intro heq
            have hsame := hties a (List.mem_append_left _ hprev) b (hle b List.mem_cons_self) heq
            exact hb (by rw [Option.mem_def.mp ha, hsame])
          revert hisLE hne
          cases cmp a b <;> simp
        rcases List.mem_cons.mp hc with rfl | hc
        · exact hab
        · exact TransCmp.lt_trans hab (hfirst b rfl c hc)

end Distinct

/-! ## The list of a set -/

/-- No two elements tie that differ. -/
def NoTies (cmp : α → α → Ordering) (l : List α) : Prop :=
  ∀ a ∈ l, ∀ b ∈ l, cmp a b = .eq → a = b

/-- Without ties the order of a list does not matter to its sorting. -/
theorem sorted_eq_of_perm [TransCmp cmp] {l l' : List α} (hties : NoTies cmp l) (h : l'.Perm l) :
    sorted cmp l' = sorted cmp l := by
  refine List.Perm.eq_of_pairwise (fun a b ha hb hab hba => ?_) (pairwise_sorted l')
    (pairwise_sorted l) ?_
  · refine hties a (h.mem_iff.mp (mem_sorted.mp ha)) b (mem_sorted.mp hb) ?_
    have hswap : cmp b a = (cmp a b).swap := OrientedCmp.eq_swap
    rw [hswap] at hba
    revert hab hba
    cases cmp a b <;> simp
  · exact ((List.perm_insertionSort _ l').trans h).trans (List.perm_insertionSort _ l).symm

variable [DecidableEq α]

/-- The elements in ascending order, each that equals its predecessor dropped. -/
def sortedSet (cmp : α → α → Ordering) (l : List α) : List α := distinctFrom none (sorted cmp l)

@[simp] theorem mem_sortedSet {a : α} {l : List α} : a ∈ sortedSet cmp l ↔ a ∈ l := by
  have h := @mem_distinctFrom α _ a none (sorted cmp l)
  rw [sortedSet]
  simpa using h

/-- Without ties the list is that of the set. -/
theorem sortedSet_congr [TransCmp cmp] {l l' : List α} (hties : NoTies cmp l)
    (h : ∀ a, a ∈ l' ↔ a ∈ l) : sortedSet cmp l' = sortedSet cmp l := by
  have hascending : ∀ m : List α, (∀ a, a ∈ m ↔ a ∈ l) →
      (sortedSet cmp m).Pairwise fun a b => cmp a b = .lt := by
    intro m hm
    have hsorted : (none.toList ++ sorted cmp m).Pairwise fun a b => (cmp a b).isLE :=
      pairwise_sorted m
    refine (ascending_distinctFrom (fun a ha b hb => ?_) hsorted).2
    exact hties a ((hm a).mp (mem_sorted.mp ha)) b ((hm b).mp (mem_sorted.mp hb))
  have : Std.Irrefl fun a b : α => cmp a b = .lt := ⟨fun a h => by
    have hself : cmp a a = .eq := Std.ReflCmp.compare_self
    rw [hself] at h
    exact absurd h (by decide)⟩
  have : Std.Antisymm fun a b : α => cmp a b = .lt := ⟨fun a b h h' => by
    have hswap : cmp a b = (cmp b a).swap := OrientedCmp.eq_swap
    rw [hswap, h'] at h
    exact absurd h (by decide)⟩
  refine List.Pairwise.eq_of_mem_iff (hascending l' h) (hascending l fun _ => Iff.rfl) fun a => ?_
  rw [mem_sortedSet, mem_sortedSet, h]

/-- Of two elements that tie, the one that comes first in the list comes first. -/
theorem find?_sortedSet [TransCmp cmp] {a b : α} (h : cmp a b = .eq) (l : List α) :
    (sortedSet cmp l).find? (fun c => c = a ∨ c = b) = l.find? (fun c => c = a ∨ c = b) := by
  have hclass : ∀ c d : α, decide (c = a ∨ c = b) = true → decide (d = a ∨ d = b) = true →
      (cmp c d).isLE = true := by
    intro c d hc hd
    have heq : cmp c d = .eq := by
      rcases of_decide_eq_true hc with rfl | rfl
      all_goals rcases of_decide_eq_true hd with rfl | rfl
      · exact Std.ReflCmp.compare_self
      · exact h
      · exact OrientedCmp.eq_symm h
      · exact Std.ReflCmp.compare_self
    rw [heq]
    rfl
  rw [sortedSet, find?_distinctFrom rfl, ← List.head?_filter, filter_sorted hclass,
    List.head?_filter]

/-- With a tie the list depends on the order. -/
theorem sortedSet_ne_of_tie [TransCmp cmp] {a b : α} (h : cmp a b = .eq) (hne : a ≠ b) (l : List α) :
    sortedSet cmp (a :: b :: l) ≠ sortedSet cmp (b :: a :: l) := by
  intro hsame
  have hfind := congrArg (List.find? fun c => c = a ∨ c = b) hsame
  rw [find?_sortedSet h, find?_sortedSet h, List.find?_cons_of_pos (by simp),
    List.find?_cons_of_pos (by simp)] at hfind
  exact hne (Option.some.inj hfind)

end Caveat.Lib
