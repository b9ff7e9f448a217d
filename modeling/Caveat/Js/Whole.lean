import Caveat.Js.Utf

/-!
# Cutting strings

A string may be cut in the middle of a surrogate pair. Where the first part does not end in a high
surrogate, the parts have the code points and the bytes of the whole.
-/

namespace Caveat.Js

/-- No character is cut off at the end. -/
def Whole (s : Units) : Prop := ∀ u ∈ s.getLast?, isHighSurrogate u = false

theorem whole_nil : Whole [] := fun _ h => nomatch h

theorem Whole.append {s t : Units} (hs : Whole s) (ht : Whole t) : Whole (s ++ t) := by
  intro u hu
  rw [List.getLast?_append] at hu
  cases hlast : t.getLast? with
  | none =>
      rw [hlast] at hu
      exact hs u hu
  | some v =>
      rw [hlast] at hu
      exact ht u (hlast.trans hu)

/-- The end of a string is that of its last part. -/
theorem Whole.right {s t : Units} (h : Whole (s ++ t)) : Whole t := by
  intro u hu
  refine h u ?_
  rw [List.getLast?_append, hu]
  rfl

theorem codePoints_append {s : Units} (h : Whole s) (t : Units) :
    codePoints (s ++ t) = codePoints s ++ codePoints t := by
  induction s using codePoints.induct with
  | case1 => rfl
  | case2 u =>
      have hu : isHighSurrogate u = false := h u rfl
      cases t with
      | nil => simp [codePoints]
      | cons v t => simp [codePoints, hu]
  | case3 u v s hpair ih =>
      have hs : Whole s := Whole.right (s := [u, v]) h
      show codePoints (u :: v :: (s ++ t)) = _
      rw [codePoints, codePoints, if_pos hpair, if_pos hpair, ih hs, List.cons_append]
  | case4 u v s hpair ih =>
      have hs : Whole (v :: s) := Whole.right (s := [u]) h
      show codePoints (u :: v :: (s ++ t)) = _
      rw [codePoints, codePoints, if_neg hpair, if_neg hpair, List.cons_append]
      exact congrArg _ (ih hs)

theorem toUtf8_append {s : Units} (h : Whole s) (t : Units) :
    toUtf8 (s ++ t) = toUtf8 s ++ toUtf8 t := by
  rw [toUtf8, codePoints_append h, List.flatMap_append]
  rfl

theorem isWellFormed_append {s : Units} (h : Whole s) (t : Units) :
    isWellFormed (s ++ t) = (isWellFormed s && isWellFormed t) := by
  rw [isWellFormed, codePoints_append h, List.all_append]
  rfl

/-- A well-formed string ends with a character. -/
theorem whole_of_isWellFormed {s : Units} (h : isWellFormed s = true) : Whole s := by
  induction s using codePoints.induct with
  | case1 => exact whole_nil
  | case2 u =>
      intro v hv
      obtain rfl : u = v := Option.some.inj hv
      cases hu : isHighSurrogate u with
      | false => rfl
      | true => simp [isWellFormed, codePoints, unitPoint, hu] at h
  | case3 u v s hpair ih =>
      rw [isWellFormed, codePoints, if_pos hpair, List.all_cons, Bool.true_and] at h
      have hv : isHighSurrogate v = false := by
        have hlow := (Bool.and_eq_true_iff.mp hpair).2
        simp only [isLowSurrogate, isHighSurrogate, Bool.and_eq_true, decide_eq_true_eq,
          Bool.and_eq_false_iff, decide_eq_false_iff_not] at hlow ⊢
        omega
      exact Whole.append (s := [u, v]) (fun w hw => by cases hw; exact hv) (ih h)
  | case4 u v s hpair ih =>
      rw [isWellFormed, codePoints, if_neg hpair, List.all_cons, Bool.and_eq_true] at h
      intro w hw
      exact ih h.2 w hw

theorem isWellFormed_unitsOf (t : Text) : isWellFormed (unitsOf t) = true := by
  rw [isWellFormed, codePoints_unitsOf, List.all_map]
  exact List.all_eq_true.mpr fun _ _ => rfl

/-- Before a unit that is no low surrogate, a well-formed string may be cut. -/
theorem whole_before {s t : Units} {u : UInt16} (hu : isLowSurrogate u = false)
    (h : isWellFormed (s ++ u :: t) = true) : Whole s := by
  induction s using codePoints.induct with
  | case1 => exact whole_nil
  | case2 v =>
      intro w hw
      obtain rfl : v = w := Option.some.inj hw
      cases hv : isHighSurrogate v with
      | false => rfl
      | true =>
          rw [List.singleton_append, isWellFormed, codePoints, hu, Bool.and_false,
            if_neg Bool.false_ne_true, List.all_cons, Bool.and_eq_true] at h
          simp [unitPoint, hv] at h
  | case3 v w s hpair ih =>
      rw [List.cons_append, List.cons_append, isWellFormed, codePoints, if_pos hpair, List.all_cons,
        Bool.true_and] at h
      have hw : isHighSurrogate w = false := by
        have hlow := (Bool.and_eq_true_iff.mp hpair).2
        simp only [isLowSurrogate, isHighSurrogate, Bool.and_eq_true, decide_eq_true_eq,
          Bool.and_eq_false_iff, decide_eq_false_iff_not] at hlow ⊢
        omega
      exact Whole.append (s := [v, w]) (fun x hx => by cases hx; exact hw) (ih h)
  | case4 v w s hpair ih =>
      rw [List.cons_append, List.cons_append, isWellFormed, codePoints, if_neg hpair, List.all_cons,
        Bool.and_eq_true] at h
      intro x hx
      exact ih h.2 x hx

end Caveat.Js
