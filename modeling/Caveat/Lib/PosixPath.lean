import Caveat.Lib.Separated
import Mathlib.Logic.Basic
import Mathlib.Data.List.Basic
import Mathlib.Data.List.Induction

/-!
# Resolving relative paths

An absolute, normalised path is the list of its components. Joining a relative path to it reads
the components between slashes: an empty one and `.` stay where they are, `..` goes up and stops
at the root. Where every component is a proper name the join is plain concatenation.
-/

namespace Caveat.Lib.PosixPath

abbrev Component := List Char

/-- Move from a directory by one component. -/
def step (dir : List Component) (c : Component) : List Component :=
  if c = [] ∨ c = ['.'] then dir
  else if c = ['.', '.'] then dir.dropLast
  else dir ++ [c]

/-- `path.posix.join(root, rel)` for an absolute, normalised `root`. -/
def join (root : List Component) (rel : List Char) : List Component :=
  (rel.splitOn '/').foldl step root

/-- The path below `root` that leads through the components. -/
def relativePath (below : List Component) : List Char := ['/'].intercalate below

/-- A component that names an entry of its directory. -/
def Proper (c : Component) : Prop := c ≠ [] ∧ c ≠ ['.'] ∧ c ≠ ['.', '.']

instance (c : Component) : Decidable (Proper c) := inferInstanceAs (Decidable (_ ∧ _))

/-- Every component is a proper name. -/
def Straight (rel : List Char) : Prop := ∀ c ∈ rel.splitOn '/', Proper c

instance (rel : List Char) : Decidable (Straight rel) := inferInstanceAs (Decidable (∀ _ ∈ _, _))

theorem step_of_proper {c : Component} (h : Proper c) (dir : List Component) :
    step dir c = dir ++ [c] := by
  obtain ⟨hnil, hdot, hup⟩ := h
  rw [step, if_neg (by simp [hnil, hdot]), if_neg hup]

theorem foldl_step_of_proper {cs : List Component} (h : ∀ c ∈ cs, Proper c) :
    ∀ dir : List Component, cs.foldl step dir = dir ++ cs := by
  induction cs with
  | nil => intro dir; simp
  | cons c cs ih =>
      intro dir
      rw [List.foldl_cons, step_of_proper (h c (by simp)),
        ih (fun d hd => h d (List.mem_cons_of_mem c hd))]
      simp

/-- **Straight paths stay inside**, under their own components. -/
theorem join_of_straight {rel : List Char} (h : Straight rel) (root : List Component) :
    join root rel = root ++ rel.splitOn '/' := foldl_step_of_proper h root

theorem relativePath_splitOn (rel : List Char) : relativePath (rel.splitOn '/') = rel :=
  List.intercalate_splitOn '/'

theorem splitOn_relativePath {below : List Component} (hne : below ≠ [])
    (h : ∀ c ∈ below, '/' ∉ c) : (relativePath below).splitOn '/' = below :=
  List.splitOn_intercalate '/' h hne

/-- A path ends with its last name, which nothing or a slash comes before. -/
theorem relativePath_concat (init : List Component) (last : Component) :
    relativePath (init ++ [last]) = last ∨
      ∃ pre, relativePath (init ++ [last]) = pre ++ '/' :: last := by
  induction init with
  | nil => exact .inl (by simp [relativePath])
  | cons c init ih =>
      have hne : init ++ [last] ≠ [] := by simp
      rw [relativePath, List.cons_append, List.intercalate_cons_of_ne_nil hne]
      rcases ih with h | ⟨pre, h⟩
      · exact .inr ⟨c, by rw [relativePath] at h; rw [h]; simp⟩
      · exact .inr ⟨c ++ '/' :: pre, by rw [relativePath] at h; rw [h]; simp⟩

theorem suffix_relativePath_iff {s : List Char} (hs : '/' ∉ s) (init : List Component)
    (last : Component) : s <:+ relativePath (init ++ [last]) ↔ s <:+ last := by
  rcases relativePath_concat init last with h | ⟨pre, h⟩
  · rw [h]
  · rw [h]
    constructor
    · intro hsuffix
      rcases List.suffix_or_suffix_of_suffix hsuffix (List.suffix_append pre ('/' :: last)) with
        h' | h'
      · rcases List.suffix_cons_iff.mp h' with rfl | h'
        · exact absurd (by simp) hs
        · exact h'
      · exact absurd (h'.subset (by simp)) hs
    · intro hlast
      exact (hlast.trans (List.suffix_cons '/' last)).trans (List.suffix_append pre _)

/-- A name appended to a path lengthens its last component. -/
theorem splitOn_append {s : List Char} (h : '/' ∉ s) (rel : List Char) : ∃ init last,
    rel.splitOn '/' = init ++ [last] ∧ (rel ++ s).splitOn '/' = init ++ [last ++ s] := by
  induction rel with
  | nil => exact ⟨[], [], by simp, by simp [List.splitOn_eq_singleton h]⟩
  | cons c rel ih =>
      obtain ⟨init, last, hrel, happ⟩ := ih
      rw [List.cons_append, List.splitOn_cons_eq_if_modifyHead, List.splitOn_cons_eq_if_modifyHead,
        hrel, happ]
      by_cases hc : (c == '/') = true
      · rw [if_pos hc, if_pos hc]
        exact ⟨[] :: init, last, rfl, rfl⟩
      · rw [if_neg hc, if_neg hc]
        cases init with
        | nil => exact ⟨[], c :: last, rfl, rfl⟩
        | cons d init => exact ⟨(c :: d) :: init, last, rfl, rfl⟩

theorem proper_of_length {c : Component} (h : 3 ≤ c.length) : Proper c := by
  refine ⟨?_, ?_, ?_⟩ <;> rintro rfl <;> simp at h

/-- Whether a path is straight does not depend on how a long name at its end goes on. -/
theorem straight_append_iff {rel s t : List Char} (hs : '/' ∉ s) (ht : '/' ∉ t)
    (hs3 : 3 ≤ s.length) (ht3 : 3 ≤ t.length) : Straight (rel ++ s) ↔ Straight (rel ++ t) := by
  obtain ⟨init, last, hrel, hsplit⟩ := splitOn_append hs rel
  obtain ⟨init', last', hrel', hsplit'⟩ := splitOn_append ht rel
  rw [hrel] at hrel'
  obtain ⟨rfl, hlast⟩ := List.append_inj' hrel' rfl
  have hlong : ∀ u : List Char, 3 ≤ u.length → Proper (last ++ u) :=
    fun u hu => proper_of_length (by rw [List.length_append]; omega)
  cases hlast
  unfold Straight
  rw [hsplit, hsplit']
  simp only [List.mem_append, List.mem_singleton]
  constructor
  · rintro h c (hc | rfl)
    · exact h c (.inl hc)
    · exact hlong t ht3
  · rintro h c (hc | rfl)
    · exact h c (.inl hc)
    · exact hlong s hs3

/-- Joining goes up through the root and then down through proper names of the path. -/
theorem foldl_step_eq (cs : List Component) (dir : List Component) : ∃ k down,
    cs.foldl step dir = dir.take k ++ down ∧ ∀ c ∈ down, c ∈ cs ∧ Proper c := by
  induction cs using List.reverseRecOn with
  | nil => exact ⟨dir.length, [], by simp, by simp⟩
  | append_singleton cs c ih =>
      obtain ⟨k, down, hfold, hdown⟩ := ih
      have hkeep : ∀ d ∈ down, d ∈ cs ++ [c] ∧ Proper d :=
        fun d hd => ⟨List.mem_append_left _ (hdown d hd).1, (hdown d hd).2⟩
      rw [List.foldl_append, hfold, List.foldl_cons, List.foldl_nil]
      by_cases hstay : c = [] ∨ c = ['.']
      · exact ⟨k, down, by rw [step, if_pos hstay], hkeep⟩
      · by_cases hup : c = ['.', '.']
        · rw [step, if_neg hstay, if_pos hup]
          cases hlast : down.reverse with
          | nil =>
              have hnil : down = [] := List.reverse_eq_nil_iff.mp hlast
              refine ⟨min k dir.length - 1, [], ?_, by simp⟩
              rw [hnil, List.append_nil, List.append_nil, List.dropLast_eq_take, List.take_take,
                List.length_take]
              congr 1
              omega
          | cons d rest =>
              have hcons : down = rest.reverse ++ [d] := by
                rw [← List.reverse_reverse down, hlast, List.reverse_cons]
              refine ⟨k, rest.reverse, ?_, fun e he => hkeep e (by rw [hcons]; simp [he])⟩
              rw [hcons, ← List.append_assoc, List.dropLast_concat]
        · refine ⟨k, down ++ [c], by rw [step, if_neg hstay, if_neg hup, List.append_assoc], ?_⟩
          intro d hd
          rcases List.mem_append.mp hd with hd | hd
          · exact hkeep d hd
          · rw [List.mem_singleton.mp hd]
            exact ⟨by simp, fun h => hstay (.inl h), fun h => hstay (.inr h), hup⟩

/-- What a join leads to below the root, the path leads to by its own names. -/
theorem mem_of_join_eq {root below : List Component} {rel : List Char}
    (h : join root rel = root ++ below) : ∀ c ∈ below, c ∈ rel.splitOn '/' ∧ Proper c := by
  obtain ⟨k, down, hfold, hdown⟩ := foldl_step_eq (rel.splitOn '/') root
  rw [join, hfold] at h
  have hsuffix : below <:+ down := by
    have hlen := congrArg List.length h
    simp only [List.length_append, List.length_take] at hlen
    have hdown : down <:+ root ++ below := h ▸ List.suffix_append (root.take k) down
    exact List.suffix_of_suffix_length_le (List.suffix_append root below) hdown (by omega)
  exact fun c hc => hdown c (hsuffix.subset hc)

end Caveat.Lib.PosixPath
