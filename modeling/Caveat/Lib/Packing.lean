import Mathlib.Data.List.SplitBy

/-!
# Packing blocks into pieces

The blocks of a list begin where a test says so, and a piece takes blocks in their order as long as
they fit. A piece then ends at the end of the list, or where the next block would not fit.
-/

namespace Caveat.Lib

variable {α : Type*}

/-- The blocks of a list, each with the elements behind its first one that go on with it. -/
def blocks (goesOn : α → Bool) (l : List α) : List (List α) := l.splitBy (fun _ b => goesOn b)

/-- Fill pieces with blocks as long as they fit. -/
def pack (limit : Nat) : List α → List (List α) → List (List α)
  | piece, [] => [piece]
  | piece, b :: bs =>
      if piece.length + b.length ≤ limit then pack limit (piece ++ b) bs
      else piece :: pack limit b bs

/-! ## Blocks -/

variable {goesOn : α → Bool} {l : List α}

/-- Behind the first element of a block everything goes on with it. -/
theorem goesOn_of_mem_blocks {a : α} {as : List α} (h : a :: as ∈ blocks goesOn l) :
    ∀ b ∈ as, goesOn b = true := by
  have hchain := List.isChain_of_mem_splitBy h
  clear h
  induction as generalizing a with
  | nil => exact fun b hb => absurd hb List.not_mem_nil
  | cons c as ih =>
      obtain ⟨hc, hrest⟩ := List.isChain_cons_cons.mp hchain
      intro b hb
      rcases List.mem_cons.mp hb with rfl | hb
      · exact hc
      · exact ih hrest b hb

/-- A block does not begin with an element that goes on, but the first may. -/
theorem head_of_mem_blocks (hl : l.head?.any goesOn = false) :
    ∀ b ∈ blocks goesOn l, ∃ a as, b = a :: as ∧ goesOn a = false := by
  have hchain := List.isChain_getLast_head_splitBy (fun _ b => goesOn b) l
  have hne : ∀ b ∈ blocks goesOn l, b ≠ [] := fun b hb => List.ne_nil_of_mem_splitBy hb
  have hfirst : ∀ b, (blocks goesOn l).head? = some b → b.head? = l.head? := by
    intro b hb
    cases hbs : blocks goesOn l with
    | nil => rw [hbs] at hb; cases hb
    | cons b' bs =>
        rw [hbs] at hb
        obtain rfl : b' = b := Option.some.inj hb
        have hflat : (blocks goesOn l).flatten = l := List.flatten_splitBy _ l
        rw [hbs, List.flatten_cons] at hflat
        have hb' : b' ≠ [] := hne b' (by rw [hbs]; exact List.mem_cons_self)
        rw [← hflat, List.head?_append_of_ne_nil _ hb']
  have hstart : ∀ b, (blocks goesOn l).head? = some b → ∃ a as, b = a :: as ∧ goesOn a = false := by
    intro b hb
    have hhead := hfirst b hb
    cases b with
    | nil => exact absurd rfl (hne [] (List.mem_of_head? hb))
    | cons a as =>
        rw [← hhead] at hl
        exact ⟨a, as, rfl, by simpa using hl⟩
  change (blocks goesOn l).IsChain _ at hchain
  generalize blocks goesOn l = bs at hchain hne hstart
  induction bs with
  | nil => exact fun b hb => absurd hb List.not_mem_nil
  | cons b bs ih =>
      intro b' hb'
      rcases List.mem_cons.mp hb' with rfl | hb'
      · exact hstart _ rfl
      · refine ih ?_ (fun c hc => hne c (List.mem_cons_of_mem _ hc)) ?_ b' hb'
        · exact hchain.tail
        · intro c hc
          cases bs with
          | nil => cases hc
          | cons d bs =>
              obtain rfl : d = c := Option.some.inj hc
              obtain ⟨_, hd, hdhead⟩ := (List.isChain_cons_cons.mp hchain).1
              cases d with
              | nil => exact absurd rfl hd
              | cons a as => exact ⟨a, as, rfl, hdhead⟩

/-- A list splits into blocks where something does not go on. -/
theorem blocks_append {m : List α} (h : m.head?.any goesOn = false) :
    blocks goesOn (l ++ m) = blocks goesOn l ++ blocks goesOn m := by
  refine List.splitBy_append fun x _ y hy => ?_
  rw [Option.mem_def.mp hy] at h
  simpa using h

theorem length_le_of_mem_blocks {b : List α} (h : b ∈ blocks goesOn l) : b.length ≤ l.length := by
  have hflat : (blocks goesOn l).flatten = l := List.flatten_splitBy _ l
  rw [← hflat]
  exact (List.sublist_flatten_of_mem h).length_le

/-! ## Pieces -/

variable {limit : Nat} {piece : List α}

theorem flatten_pack (bs : List (List α)) :
    (pack limit piece bs).flatten = piece ++ bs.flatten := by
  induction bs generalizing piece with
  | nil => simp [pack]
  | cons b bs ih =>
      rw [pack]
      split
      · rw [ih, List.flatten_cons, List.append_assoc]
      · rw [List.flatten_cons, ih, List.flatten_cons]

/-- All that is left fits. -/
theorem pack_of_le {bs : List (List α)} (h : piece.length + bs.flatten.length ≤ limit) :
    pack limit piece bs = [piece ++ bs.flatten] := by
  induction bs generalizing piece with
  | nil => simp [pack]
  | cons b bs ih =>
      rw [List.flatten_cons, List.length_append] at h
      rw [pack, if_pos (by omega), ih (by rw [List.length_append]; omega), List.flatten_cons,
        List.append_assoc]

/-- The piece is filled up to a block that does not fit. -/
theorem pack_of_lt {bs : List (List α)} (hpiece : piece.length ≤ limit)
    (h : limit < piece.length + bs.flatten.length) : ∃ fit b rest, bs = fit ++ b :: rest ∧
      (piece ++ fit.flatten).length ≤ limit ∧ limit < (piece ++ fit.flatten).length + b.length ∧
      pack limit piece bs = (piece ++ fit.flatten) :: pack limit b rest := by
  induction bs generalizing piece with
  | nil => simp at h; omega
  | cons b bs ih =>
      rw [List.flatten_cons, List.length_append] at h
      by_cases hfit : piece.length + b.length ≤ limit
      · obtain ⟨fit, b', rest, rfl, hle, hlt, hpack⟩ := @ih (piece ++ b)
          (by rw [List.length_append]; exact hfit) (by rw [List.length_append]; omega)
        refine ⟨b :: fit, b', rest, rfl, ?_, ?_, ?_⟩
        · rwa [List.flatten_cons, ← List.append_assoc]
        · rwa [List.flatten_cons, ← List.append_assoc]
        · rw [pack, if_pos hfit, hpack, List.flatten_cons, List.append_assoc]
      · refine ⟨[], b, bs, rfl, by simpa using hpiece, by simpa using hfit, ?_⟩
        rw [pack, if_neg hfit, List.flatten_nil, List.append_nil]

end Caveat.Lib
