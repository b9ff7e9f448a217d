import Mathlib.Data.List.Basic
import Mathlib.Data.List.Nodup
import Mathlib.Data.List.Infix
import Mathlib.Data.List.Perm.Subperm

/-!
# Filters and limits

A filter behind a limit gives the beginning of what the limit behind the filter gives, and gives less where
something is rejected before the limit and something is accepted beyond it.

Lists that are merged with each key once may be limited before they are merged.
-/

namespace Caveat.Lib

variable {α : Type*}

/-! ## A filter behind a limit -/

/-- Nothing is rejected before the limit, or nothing is accepted beyond it. -/
def FilterFits (p : α → Bool) (l : List α) (n : Nat) : Prop :=
  (∀ a ∈ l.take n, p a = true) ∨ ∀ a ∈ l.drop n, p a = false

/-- What the limit kept and the filter accepts comes first. -/
theorem filter_eq_take_append_drop (p : α → Bool) (l : List α) (n : Nat) :
    l.filter p = (l.take n).filter p ++ (l.drop n).filter p := by
  rw [← List.filter_append, List.take_append_drop]

/-- **Where a filter may stand behind a limit.** -/
theorem filter_take_eq_iff (p : α → Bool) (l : List α) (n : Nat) :
    (l.take n).filter p = (l.filter p).take n ↔
      FilterFits p l n := by
  have hsplit := filter_eq_take_append_drop p l n
  have hle : ((l.take n).filter p).length ≤ n :=
    (List.length_filter_le _ _).trans (List.length_take_le _ _)
  constructor
  · intro heq
    by_contra hnot
    rw [FilterFits, not_or] at hnot
    obtain ⟨hrejected, haccepted⟩ := hnot
    -- something is rejected before the limit, so that there is room for what is accepted beyond it
    have hroom : ((l.take n).filter p).length < n := by
      have hlt : ((l.take n).filter p).length < (l.take n).length :=
        lt_of_le_of_ne (List.length_filter_le _ _)
          fun h => hrejected (List.length_filter_eq_length_iff.mp h)
      exact hlt.trans_le (List.length_take_le _ _)
    have hmore : 0 < ((l.drop n).filter p).length := by
      rw [List.length_pos_iff, Ne, List.filter_eq_nil_iff]
      exact fun h => haccepted fun a ha => Bool.eq_false_iff.mpr (h a ha)
    have hlength := congrArg List.length heq
    rw [hsplit, List.length_take, List.length_append] at hlength
    omega
  · rintro (hall | hnone)
    · have hkept : (l.take n).filter p = l.take n := List.filter_eq_self.mpr hall
      rw [hsplit, hkept]
      by_cases hlong : n ≤ l.length
      · rw [List.take_left']
        rw [List.length_take, Nat.min_eq_left hlong]
      · have hdrop : l.drop n = [] := List.drop_eq_nil_of_le (by omega)
        rw [hdrop, List.filter_nil, List.append_nil, List.take_take, Nat.min_self]
    · have hdrop : (l.drop n).filter p = [] :=
        List.filter_eq_nil_iff.mpr fun a ha => by rw [hnone a ha]; simp
      rw [hsplit, hdrop, List.append_nil, List.take_of_length_le hle]

/-- Both are beginnings of what the filter accepts, so that their lengths tell them apart. -/
theorem filter_take_eq_of_length {p : α → Bool} {l : List α} {n : Nat}
    (h : ((l.take n).filter p).length = ((l.filter p).take n).length) :
    (l.take n).filter p = (l.filter p).take n := by
  have hprefix : (l.take n).filter p <+: l.filter p :=
    ⟨(l.drop n).filter p, (filter_eq_take_append_drop p l n).symm⟩
  have hcut : (l.filter p).take n <+: l.filter p := List.take_prefix _ _
  exact (List.prefix_of_prefix_length_le hprefix hcut (Nat.le_of_eq h)).eq_of_length h

/-! ## A filter beside a map that drops -/

theorem filterMap_eq_filter_of {f : α → Option α} {p : α → Bool} {l : List α}
    (h : ∀ a ∈ l, f a = if p a then some a else none) : l.filterMap f = l.filter p := by
  rw [← List.filterMap_eq_filter]
  refine List.filterMap_congr fun a ha => ?_
  rw [h a ha, Option.guard]

/-- Where no more is dropped than a filter rejects, and as many are left, the same are dropped. -/
theorem accepted_of_filterMap_length {β : Type*} {f : α → Option β} {p : α → Bool} {l : List α}
    (h : ∀ a ∈ l, p a = true → (f a).isSome = true)
    (hlen : (l.filterMap f).length = (l.filter p).length) :
    ∀ a ∈ l, (f a).isSome = true → p a = true := by
  have hle : ∀ l : List α, (∀ a ∈ l, p a = true → (f a).isSome = true) →
      (l.filter p).length ≤ (l.filterMap f).length := by
    intro l hl
    rw [List.length_filterMap_eq_countP, ← List.countP_eq_length_filter]
    exact List.countP_mono_left hl
  induction l with
  | nil => exact fun a ha => absurd ha List.not_mem_nil
  | cons b l ih =>
      rw [List.forall_mem_cons] at h
      have hrest := hle l h.2
      rw [List.forall_mem_cons]
      cases hf : f b with
      | none =>
          cases hp : p b with
          | true =>
              have hsome := h.1 hp
              rw [hf] at hsome
              cases hsome
          | false =>
              rw [List.filterMap_cons_none hf, List.filter_cons_of_neg (by simp [hp])] at hlen
              exact ⟨(fun hsome => nomatch hsome), ih h.2 hlen⟩
      | some c =>
          rw [List.filterMap_cons_some hf, List.length_cons] at hlen
          cases hp : p b with
          | true =>
              rw [List.filter_cons_of_pos hp, List.length_cons] at hlen
              exact ⟨fun _ => rfl, ih h.2 (by omega)⟩
          | false =>
              rw [List.filter_cons_of_neg (by simp [hp])] at hlen
              omega

/-! ## A filter that may throw -/

variable {ε : Type*}

/-- A filter whose predicate may throw. -/
def filterE (p : α → Except ε Bool) : List α → Except ε (List α)
  | [] => .ok []
  | a :: as =>
      match p a with
      | .ok keep => (filterE p as).map (fun rest => if keep then a :: rest else rest)
      | .error e => .error e

/-- What a predicate accepts; where it throws it does not. -/
def accepts (p : α → Except ε Bool) (a : α) : Bool := (p a).toOption.getD false

theorem filterE_ok {p : α → Except ε Bool} {as : List α} (h : ∀ a ∈ as, ∃ keep, p a = .ok keep) :
    filterE p as = .ok (as.filter (accepts p)) := by
  induction as with
  | nil => rfl
  | cons a as ih =>
      obtain ⟨keep, ha⟩ := h a List.mem_cons_self
      have hrest := ih fun b hb => h b (List.mem_cons_of_mem _ hb)
      have haccepts : accepts p a = keep := by rw [accepts, ha]; rfl
      rw [filterE, ha, hrest, List.filter_cons, haccepts]
      cases keep <;> rfl

/-- One element at which the predicate throws, and nothing is returned. -/
theorem filterE_error {p : α → Except ε Bool} {as : List α} (h : ∃ a ∈ as, ∃ e, p a = .error e) :
    ∃ e, filterE p as = .error e := by
  induction as with
  | nil => simp at h
  | cons a as ih =>
      rw [filterE]
      cases ha : p a with
      | error e => exact ⟨e, rfl⟩
      | ok keep =>
          obtain ⟨b, hb, e, hthrows⟩ := h
          rcases List.mem_cons.mp hb with rfl | hb
          · rw [ha] at hthrows
            cases hthrows
          · obtain ⟨e, he⟩ := ih ⟨b, hb, e, hthrows⟩
            rw [he]
            exact ⟨e, rfl⟩

/-- A predicate that does not throw. -/
theorem filterE_eq_ok {p : α → Except ε Bool} {as kept : List α} (h : filterE p as = .ok kept) :
    (∀ a ∈ as, ∃ keep, p a = .ok keep) ∧ kept = as.filter (accepts p) := by
  have hall : ∀ a ∈ as, ∃ keep, p a = .ok keep := by
    intro a ha
    cases hp : p a with
    | ok keep => exact ⟨keep, rfl⟩
    | error e =>
        obtain ⟨e', he⟩ := filterE_error ⟨a, ha, e, hp⟩
        rw [he] at h
        cases h
  rw [filterE_ok hall] at h
  exact ⟨hall, (Except.ok.inj h).symm⟩

/-! ## Merging with each key once -/

variable {κ : Type*} [DecidableEq κ] (key : α → κ)

/-- The first element of each key that was not seen. -/
def firstBy (seen : List κ) : List α → List α
  | [] => []
  | a :: as => if key a ∈ seen then firstBy seen as else a :: firstBy (seen ++ [key a]) as

/-- Add elements with new keys until the limit is reached. -/
def collect (limit : Nat) (out : List α) : List α → List α
  | [] => out
  | a :: as =>
      if key a ∈ out.map key then collect limit out as
      else if limit ≤ (out ++ [a]).length then out ++ [a]
      else collect limit (out ++ [a]) as

variable {key}

theorem collect_eq {limit : Nat} (as : List α) : ∀ out : List α, out.length < limit →
    collect key limit out as = (out ++ firstBy key (out.map key) as).take limit := by
  induction as with
  | nil =>
      intro out hout
      rw [collect, firstBy, List.append_nil, List.take_of_length_le (by omega)]
  | cons a as ih =>
      intro out hout
      rw [collect, firstBy]
      by_cases hseen : key a ∈ out.map key
      · rw [if_pos hseen, if_pos hseen, ih out hout]
      · rw [if_neg hseen, if_neg hseen]
        by_cases hfull : limit ≤ (out ++ [a]).length
        · have hlength : (out ++ [a]).length = limit := by
            rw [List.length_append, List.length_singleton] at hfull ⊢
            omega
          rw [if_pos hfull]
          exact (List.take_left' hlength).symm.trans (by rw [List.append_assoc]; rfl)
        · rw [if_neg hfull, ih _ (by omega), List.map_append, List.append_assoc]
          rfl

/-- Elements of different keys are those that were not seen. -/
theorem firstBy_append {as : List α} (h : (as.map key).Nodup) : ∀ (seen : List κ) (bs : List α),
    firstBy key seen (as ++ bs) = as.filter (fun a => key a ∉ seen) ++
      firstBy key (seen ++ (as.filter (fun a => key a ∉ seen)).map key) bs := by
  induction as with
  | nil =>
      intro seen bs
      simp
  | cons a as ih =>
      intro seen bs
      rw [List.map_cons, List.nodup_cons] at h
      rw [List.cons_append, firstBy]
      by_cases hseen : key a ∈ seen
      · rw [if_pos hseen, ih h.2, List.filter_cons_of_neg (by simpa using hseen)]
      · have hsame : as.filter (fun b => key b ∉ seen ++ [key a]) =
            as.filter (fun b => key b ∉ seen) := by
          refine List.filter_congr fun b hb => ?_
          have hne : key b ≠ key a := fun heq => h.1 (heq ▸ List.mem_map_of_mem hb)
          simp [hne]
        rw [if_neg hseen, ih h.2, hsame, List.filter_cons_of_pos (by simpa using hseen)]
        simp

/-- Of elements of different keys so many have not been seen. -/
theorem length_unseen {as : List α} (h : (as.map key).Nodup) (seen : List κ) :
    as.length ≤ (as.filter (fun a => key a ∉ seen)).length + seen.length := by
  have hsplit : as.length = (as.filter (fun a => key a ∈ seen)).length +
      (as.filter (fun a => key a ∉ seen)).length := by
    rw [← List.countP_eq_length_filter, ← List.countP_eq_length_filter,
      List.length_eq_countP_add_countP (fun a => decide (key a ∈ seen))]
    simp
  have hseen : (as.filter (fun a => key a ∈ seen)).length ≤ seen.length := by
    rw [← List.length_map key]
    have hnodup : ((as.filter (fun a => key a ∈ seen)).map key).Nodup :=
      h.sublist (List.filter_sublist.map key)
    refine (List.subperm_of_subset hnodup fun k hk => ?_).length_le
    obtain ⟨a, ha, rfl⟩ := List.mem_map.mp hk
    simpa using (List.mem_filter.mp ha).2
  omega

/-- **Each list may be limited before the lists are merged** and the result is limited. -/
theorem take_firstBy_flatMap {β : Type*} {lists : β → List α} {limit : Nat} {bs : List β}
    (h : ∀ b ∈ bs, ((lists b).map key).Nodup) : ∀ seen : List κ, seen.length ≤ limit →
      (firstBy key seen (bs.flatMap (fun b => (lists b).take limit))).take (limit - seen.length) =
        (firstBy key seen (bs.flatMap lists)).take (limit - seen.length) := by
  induction bs with
  | nil => exact fun seen _ => rfl
  | cons b bs ih =>
      intro seen hseen
      have hb := h b List.mem_cons_self
      have hlimited : (((lists b).take limit).map key).Nodup := hb.sublist ((List.take_sublist _ _).map _)
      rw [List.flatMap_cons, List.flatMap_cons, firstBy_append hb, firstBy_append hlimited]
      have hunseen := filter_eq_take_append_drop (fun a => decide (key a ∉ seen)) (lists b) limit
      by_cases hlong : limit < (lists b).length
      · -- of a list that is cut off there are enough elements that were not seen
        have henough := length_unseen hlimited seen
        rw [List.length_take, Nat.min_eq_left (by omega)] at henough
        rw [hunseen, List.append_assoc]
        rw [List.take_append_of_le_length (by omega), List.take_append_of_le_length (by omega)]
      · have hwhole : (lists b).take limit = lists b := List.take_of_length_le (by omega)
        rw [hwhole]
        generalize (lists b).filter (fun a => key a ∉ seen) = fresh
        rw [List.take_append, List.take_append]
        by_cases hroom : seen.length + fresh.length ≤ limit
        · have hrest := ih (fun c hc => h c (List.mem_cons_of_mem _ hc)) (seen ++ fresh.map key)
            (by rw [List.length_append, List.length_map]; exact hroom)
          rw [List.length_append, List.length_map, ← Nat.sub_sub] at hrest
          rw [hrest]
        · have hfull : limit - seen.length - fresh.length = 0 := by omega
          rw [hfull, List.take_zero, List.take_zero]

end Caveat.Lib
