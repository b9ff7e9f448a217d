import Mathlib.Logic.Basic
import Mathlib.Data.List.Basic

/-!
# Backtracking regular expressions

`run` gives the places where a match may end, the preferred one first, as a backtracking matcher
tries them: alternatives from the left, and repetitions as long as they go. `matchAll` takes the
preferred match at the first place that has one and goes on behind it.

A text may be lengthened by characters that an expression avoids, and nothing changes.
-/

namespace Caveat.Lib

variable {α : Type*}

/-- A place in a text: the character before it and what follows. -/
structure Place (α : Type*) where
  before : Option α
  rest : List α

inductive Re (α : Type*) where
  | one (p : α → Bool)
  | seq (a b : Re α)
  | alt (a b : Re α)
  /-- Greedy, with bounds. -/
  | rep (a : Re α) (least : Nat) (most : Option Nat)
  | boundary (word : α → Bool)
  | notBehind (p : α → Bool)
  | notAhead (p : α → Bool)

namespace Re

/-- The places after so many repetitions; a repetition beyond the least must consume something. -/
def iterate (f : Place α → List (Place α)) : Nat → Nat → Option Nat → Place α → List (Place α)
  | 0, least, _, x => if least = 0 then [x] else []
  | fuel + 1, least, most, x =>
      (if most = some 0 then [] else (f x).flatMap fun y =>
          if least = 0 ∧ y.rest.length = x.rest.length then []
          else iterate f fuel (least - 1) (most.map (· - 1)) y) ++
        if least = 0 then [x] else []

def run : Re α → Place α → List (Place α)
  | .one p, x =>
      match x.rest with
      | c :: rest => if p c then [⟨some c, rest⟩] else []
      | [] => []
  | .seq a b, x => (a.run x).flatMap b.run
  | .alt a b, x => a.run x ++ b.run x
  | .rep a least most, x => iterate a.run (x.rest.length + least) least most x
  | .boundary word, x => if x.before.any word = x.rest.head?.any word then [] else [x]
  | .notBehind p, x => if x.before.any p then [] else [x]
  | .notAhead p, x => if x.rest.head?.any p then [] else [x]

end Re

/-- A match: where it begins and its characters. -/
structure Match (α : Type*) where
  index : Nat
  raw : List α
deriving DecidableEq

namespace Re

/-- The matches from a place on, in so many steps. -/
def matchesFrom (re : Re α) : Nat → Nat → Place α → List (Match α)
  | 0, _, _ => []
  | fuel + 1, index, x =>
      match (re.run x).head? with
      | some y =>
          let n := x.rest.length - y.rest.length
          if n = 0 then
            { index, raw := [] } ::
              match x.rest with
              | [] => []
              | c :: rest => re.matchesFrom fuel (index + 1) ⟨some c, rest⟩
          else { index, raw := x.rest.take n } :: re.matchesFrom fuel (index + n) y
      | none =>
          match x.rest with
          | [] => []
          | c :: rest => re.matchesFrom fuel (index + 1) ⟨some c, rest⟩

/-- `String.prototype.matchAll`. -/
def matchAll (re : Re α) (s : List α) : List (Match α) :=
  re.matchesFrom (s.length + 1) 0 ⟨none, s⟩

/-! ## Longer texts -/

end Re

/-- The same place in a text that goes on. -/
def Place.extend (u : List α) (x : Place α) : Place α := { x with rest := x.rest ++ u }

namespace Re

/-- A match does not lengthen what is left. -/
theorem length_of_mem_iterate {f : Place α → List (Place α)}
    (hf : ∀ x, ∀ y ∈ f x, y.rest.length ≤ x.rest.length) (fuel : Nat) :
    ∀ (least : Nat) (most : Option Nat) (x : Place α),
      ∀ y ∈ iterate f fuel least most x, y.rest.length ≤ x.rest.length := by
  induction fuel with
  | zero =>
      intro least most x y hy
      rw [iterate] at hy
      split at hy
      · exact Nat.le_of_eq (by rw [List.mem_singleton.mp hy])
      · exact absurd hy (by simp)
  | succ fuel ih =>
      intro least most x y hy
      rw [iterate] at hy
      rcases List.mem_append.mp hy with hmore | hstop
      · split at hmore
        · exact absurd hmore (by simp)
        · obtain ⟨z, hz, hy⟩ := List.mem_flatMap.mp hmore
          split at hy
          · exact absurd hy (by simp)
          · exact Nat.le_trans (ih _ _ z y hy) (hf x z hz)
      · split at hstop
        · exact Nat.le_of_eq (by rw [List.mem_singleton.mp hstop])
        · exact absurd hstop (by simp)

theorem length_of_mem_run (re : Re α) : ∀ x, ∀ y ∈ re.run x, y.rest.length ≤ x.rest.length := by
  induction re with
  | one p =>
      intro x y hy
      rw [run] at hy
      split at hy
      · rename_i c rest hrest
        split at hy
        · rw [List.mem_singleton.mp hy, hrest]
          simp
        · exact absurd hy (by simp)
      · exact absurd hy (by simp)
  | seq a b iha ihb =>
      intro x y hy
      obtain ⟨z, hz, hy⟩ := List.mem_flatMap.mp hy
      exact Nat.le_trans (ihb z y hy) (iha x z hz)
  | alt a b iha ihb =>
      intro x y hy
      rcases List.mem_append.mp hy with hy | hy
      · exact iha x y hy
      · exact ihb x y hy
  | rep a least most ih =>
      intro x y hy
      exact length_of_mem_iterate ih _ _ _ x y hy
  | boundary word =>
      intro x y hy
      rw [run] at hy
      split at hy
      · exact absurd hy (by simp)
      · exact Nat.le_of_eq (by rw [List.mem_singleton.mp hy])
  | notBehind p =>
      intro x y hy
      rw [run] at hy
      split at hy
      · exact absurd hy (by simp)
      · exact Nat.le_of_eq (by rw [List.mem_singleton.mp hy])
  | notAhead p =>
      intro x y hy
      rw [run] at hy
      split at hy
      · exact absurd hy (by simp)
      · exact Nat.le_of_eq (by rw [List.mem_singleton.mp hy])

/-- No part of the expression accepts the characters. -/
def Avoids (q : α → Prop) : Re α → Prop
  | .one p => ∀ c, q c → p c = false
  | .seq a b => a.Avoids q ∧ b.Avoids q
  | .alt a b => a.Avoids q ∧ b.Avoids q
  | .rep a _ _ => a.Avoids q
  | .boundary word => ∀ c, q c → word c = false
  | .notBehind _ => True
  | .notAhead p => ∀ c, q c → p c = false

variable {q : α → Prop} {u : List α}

theorem iterate_extend {f : Place α → List (Place α)}
    (hf : ∀ x, f (x.extend u) = (f x).map (Place.extend u))
    (hlen : ∀ x, ∀ y ∈ f x, y.rest.length ≤ x.rest.length) (fuel : Nat) :
    ∀ (fuel' least : Nat) (most : Option Nat) (x : Place α), x.rest.length + least ≤ fuel →
      x.rest.length + least ≤ fuel' →
        iterate f fuel' least most (x.extend u) =
          (iterate f fuel least most x).map (Place.extend u) := by
  -- at the end of the text a repetition that is not needed consumes nothing, and is dropped
  have hstop : ∀ (n : Nat) (most : Option Nat) (x : Place α), x.rest.length = 0 →
      iterate f n 0 most x = [x] ∧ iterate f n 0 most (x.extend u) = [x.extend u] := by
    intro n most x hx
    have hnone : ∀ y ∈ f x, y.rest.length = x.rest.length := by
      intro y hy
      have := hlen x y hy
      omega
    cases n with
    | zero => exact ⟨rfl, rfl⟩
    | succ n =>
        have hdrop : ∀ (l : List (Place α)) (g : Place α → List (Place α)) (x' : Place α),
            (∀ y ∈ l, y.rest.length = x'.rest.length) →
              (l.flatMap fun y => if 0 = 0 ∧ y.rest.length = x'.rest.length then [] else g y) = [] := by
          intro l g x' hl
          rw [List.flatMap_eq_nil_iff]
          intro y hy
          rw [if_pos ⟨rfl, hl y hy⟩]
        constructor
        · rw [iterate, hdrop _ _ _ hnone]
          simp
        · have hnone' : ∀ y ∈ f (x.extend u), y.rest.length = (x.extend u).rest.length := by
            intro y hy
            rw [hf] at hy
            obtain ⟨z, hz, rfl⟩ := List.mem_map.mp hy
            simp only [Place.extend, List.length_append, hnone z hz]
          rw [iterate, hdrop _ _ _ hnone']
          simp
  induction fuel with
  | zero =>
      intro fuel' least most x hfuel _
      obtain rfl : least = 0 := by omega
      rw [(hstop fuel' most x (by omega)).2]
      rfl
  | succ fuel ih =>
      intro fuel' least most x hfuel hfuel'
      cases fuel' with
      | zero =>
          obtain rfl : least = 0 := by omega
          rw [(hstop (fuel + 1) most x (by omega)).1]
          rfl
      | succ fuel' =>
          rw [iterate, iterate, List.map_append, hf]
          congr 1
          · split
            · rfl
            · rw [List.flatMap_map, List.map_flatMap]
              refine List.flatMap_congr fun y hy => ?_
              have hle := hlen x y hy
              have hsame : (y.extend u).rest.length = (x.extend u).rest.length ↔
                  y.rest.length = x.rest.length := by
                simp only [Place.extend, List.length_append]
                omega
              by_cases hdrop : least = 0 ∧ y.rest.length = x.rest.length
              · rw [if_pos ⟨hdrop.1, hsame.mpr hdrop.2⟩, if_pos hdrop]
                rfl
              · rw [if_neg fun h => hdrop ⟨h.1, hsame.mp h.2⟩, if_neg hdrop]
                exact ih fuel' (least - 1) _ y (by omega) (by omega)
          · split <;> rfl

/-- **Characters that are avoided may follow.** -/
theorem run_extend (re : Re α) (h : re.Avoids q) (hu : ∀ c ∈ u, q c) :
    ∀ x, re.run (x.extend u) = (re.run x).map (Place.extend u) := by
  -- a test of the next character is false at the end, and false of the added characters
  have hahead : ∀ (p : α → Bool), (∀ c, q c → p c = false) → ∀ x : Place α,
      (x.extend u).rest.head?.any p = x.rest.head?.any p := by
    intro p hp x
    cases hx : x.rest with
    | cons c rest => simp [Place.extend, hx]
    | nil =>
        cases hu' : u with
        | nil => simp [Place.extend, hx]
        | cons d u' => simp [Place.extend, hx, hp d (hu d (by rw [hu']; simp))]
  induction re with
  | one p =>
      intro x
      cases hx : x.rest with
      | cons c rest =>
          simp only [run, Place.extend, hx, List.cons_append]
          split <;> rfl
      | nil =>
          cases hu' : u with
          | nil => simp [run, Place.extend, hx]
          | cons d u' =>
              have hd : p d = false := h d (hu d (by rw [hu']; simp))
              simp [run, Place.extend, hx, hd]
  | seq a b iha ihb =>
      intro x
      rw [run, iha h.1, List.flatMap_map, run, List.map_flatMap]
      exact List.flatMap_congr fun y _ => ihb h.2 y
  | alt a b iha ihb =>
      intro x
      rw [run, run, iha h.1, ihb h.2, List.map_append]
  | rep a least most ih =>
      intro x
      refine iterate_extend (ih h) a.length_of_mem_run _ _ _ _ x (Nat.le_refl _) ?_
      simp only [Place.extend, List.length_append]
      omega
  | boundary word =>
      intro x
      rw [run, run, hahead word h]
      show (if x.before.any word = x.rest.head?.any word then [] else [x.extend u]) = _
      split <;> rfl
  | notBehind p =>
      intro x
      rw [run, run]
      show (if x.before.any p then [] else [x.extend u]) = _
      split <;> rfl
  | notAhead p =>
      intro x
      rw [run, run, hahead p h]
      split <;> rfl

/-- Nothing is matched among the characters that are avoided. -/
theorem matchesFrom_avoided {re : Re α} (h : re.Avoids q) (hend : ∀ b, re.run ⟨b, []⟩ = [])
    (fuel : Nat) : ∀ (index : Nat) (b : Option α) (u : List α), (∀ c ∈ u, q c) →
      re.matchesFrom fuel index ⟨b, u⟩ = [] := by
  induction fuel with
  | zero => intro index b u _; rfl
  | succ fuel ih =>
      intro index b u hu
      have hrun : re.run ⟨b, u⟩ = [] := by
        have := re.run_extend h hu ⟨b, []⟩
        rw [hend] at this
        exact this
      rw [matchesFrom, hrun]
      cases u with
      | nil => rfl
      | cons c u => exact ih (index + 1) (some c) u fun d hd => hu d (List.mem_cons_of_mem c hd)

theorem matchesFrom_extend {re : Re α} (h : re.Avoids q) (hu : ∀ c ∈ u, q c)
    (hend : ∀ b, re.run ⟨b, []⟩ = []) (fuel : Nat) : ∀ (fuel' index : Nat) (x : Place α),
      x.rest.length < fuel → x.rest.length + u.length < fuel' →
        re.matchesFrom fuel' index (x.extend u) = re.matchesFrom fuel index x := by
  induction fuel with
  | zero => intro fuel' index x hfuel _; omega
  | succ fuel ih =>
      intro fuel' index x hfuel hfuel'
      obtain ⟨fuel', rfl⟩ : ∃ n, fuel' = n + 1 := ⟨fuel' - 1, by omega⟩
      obtain ⟨b, rest⟩ := x
      cases rest with
      | nil =>
          have hnil : re.matchesFrom (fuel + 1) index ⟨b, []⟩ = [] := by
            rw [matchesFrom, hend]
            rfl
          rw [hnil]
          exact matchesFrom_avoided h hend (fuel' + 1) index b u hu
      | cons c rest =>
          simp only [List.length_cons] at hfuel hfuel'
          have hnext : ∀ i, re.matchesFrom fuel' i ⟨some c, rest ++ u⟩ =
              re.matchesFrom fuel i ⟨some c, rest⟩ := fun i =>
            ih fuel' i ⟨some c, rest⟩ (by show rest.length < fuel; omega)
              (by show rest.length + u.length < fuel'; omega)
          rw [matchesFrom, matchesFrom, re.run_extend h hu, List.head?_map]
          cases hhead : (re.run ⟨b, c :: rest⟩).head? with
          | none => exact hnext (index + 1)
          | some y =>
              have hle := re.length_of_mem_run _ y (List.mem_of_head? hhead)
              have hn : (Place.extend u ⟨b, c :: rest⟩).rest.length - (y.extend u).rest.length =
                  (c :: rest).length - y.rest.length := by
                simp only [Place.extend, List.length_append]
                omega
              simp only [Option.map_some]
              rw [hn]
              by_cases hzero : (c :: rest).length - y.rest.length = 0
              · rw [if_pos hzero, if_pos hzero]
                exact congrArg _ (hnext (index + 1))
              · rw [if_neg hzero, if_neg hzero]
                simp only [List.length_cons] at hle hzero
                have htake : ((c :: rest) ++ u).take ((c :: rest).length - y.rest.length) =
                    (c :: rest).take ((c :: rest).length - y.rest.length) :=
                  List.take_append_of_le_length (Nat.sub_le _ _)
                show Match.mk index (((c :: rest) ++ u).take _) :: _ = _
                rw [htake, ih fuel' _ y (by omega) (by omega)]

/-- **The matches of a text that goes on with avoided characters** are those of the text. -/
theorem matchAll_append {re : Re α} (h : re.Avoids q) (hu : ∀ c ∈ u, q c)
    (hend : ∀ b, re.run ⟨b, []⟩ = []) (s : List α) : re.matchAll (s ++ u) = re.matchAll s := by
  refine matchesFrom_extend h hu hend _ _ 0 ⟨none, s⟩ (Nat.lt_succ_self _) ?_
  rw [List.length_append]
  exact Nat.lt_succ_self _

/-! ## Matches that stay -/

/-- The expression does not look beyond what it consumes. -/
def Plain : Re α → Prop
  | .one _ => True
  | .seq a b => a.Plain ∧ b.Plain
  | .alt a b => a.Plain ∧ b.Plain
  | .rep a _ _ => a.Plain
  | .boundary _ | .notBehind _ | .notAhead _ => False

theorem mem_iterate_extend {f : Place α → List (Place α)}
    (hf : ∀ x, ∀ y ∈ f x, y.extend u ∈ f (x.extend u)) (fuel : Nat) :
    ∀ (fuel' least : Nat) (most : Option Nat) (x : Place α), fuel ≤ fuel' →
      ∀ y ∈ iterate f fuel least most x, y.extend u ∈ iterate f fuel' least most (x.extend u) := by
  have hstop : ∀ (n : Nat) (most : Option Nat) (x : Place α), x ∈ iterate f n 0 most x := by
    intro n most x
    cases n with
    | zero => exact List.mem_singleton.mpr rfl
    | succ n => exact List.mem_append_right _ (List.mem_singleton.mpr rfl)
  induction fuel with
  | zero =>
      intro fuel' least most x _ y hy
      rw [iterate] at hy
      split at hy
      · rename_i hleast
        rw [List.mem_singleton.mp hy, hleast]
        exact hstop fuel' most _
      · exact absurd hy (by simp)
  | succ fuel ih =>
      intro fuel' least most x hfuel y hy
      obtain ⟨fuel', rfl⟩ : ∃ n, fuel' = n + 1 := ⟨fuel' - 1, by omega⟩
      rw [iterate] at hy ⊢
      rcases List.mem_append.mp hy with hmore | hlast
      · refine List.mem_append_left _ ?_
        split at hmore
        · exact absurd hmore (by simp)
        · rename_i hmost
          rw [if_neg hmost]
          obtain ⟨z, hz, hy⟩ := List.mem_flatMap.mp hmore
          refine List.mem_flatMap.mpr ⟨z.extend u, hf x z hz, ?_⟩
          split at hy
          · exact absurd hy (by simp)
          · rename_i hkeep
            rw [if_neg ?_]
            · exact ih fuel' (least - 1) _ z (by omega) y hy
            · rintro ⟨hleast, hlen⟩
              simp only [Place.extend, List.length_append] at hlen
              exact hkeep ⟨hleast, by omega⟩
      · refine List.mem_append_right _ ?_
        split at hlast
        · rename_i hleast
          rw [if_pos hleast, List.mem_singleton.mp hlast]
          exact List.mem_singleton.mpr rfl
        · exact absurd hlast (by simp)

theorem mem_run_extend (re : Re α) (h : re.Plain) :
    ∀ x, ∀ y ∈ re.run x, y.extend u ∈ re.run (x.extend u) := by
  induction re with
  | one p =>
      intro x y hy
      cases hx : x.rest with
      | nil =>
          rw [run, hx] at hy
          exact absurd hy (by simp)
      | cons c rest =>
          rw [run, hx] at hy
          dsimp only at hy
          split at hy
          · rename_i hp
            rw [List.mem_singleton.mp hy]
            simp [run, Place.extend, hx, hp]
          · exact absurd hy (by simp)
  | seq a b iha ihb =>
      intro x y hy
      obtain ⟨z, hz, hy⟩ := List.mem_flatMap.mp hy
      exact List.mem_flatMap.mpr ⟨z.extend u, iha h.1 x z hz, ihb h.2 z y hy⟩
  | alt a b iha ihb =>
      intro x y hy
      rcases List.mem_append.mp hy with hy | hy
      · exact List.mem_append_left _ (iha h.1 x y hy)
      · exact List.mem_append_right _ (ihb h.2 x y hy)
  | rep a least most ih =>
      intro x y hy
      refine mem_iterate_extend (ih h) _ _ _ _ x ?_ y hy
      simp only [Place.extend, List.length_append]
      omega
  | boundary word => exact absurd h id
  | notBehind p => exact absurd h id
  | notAhead p => exact absurd h id

theorem getLast?_cons_or (c : α) (pre : List α) (b : Option α) :
    (c :: pre).getLast?.or b = pre.getLast?.or (some c) := by
  cases pre with
  | nil => rfl
  | cons d pre =>
      rw [List.getLast?_cons_cons]
      cases h : (d :: pre).getLast? with
      | none => exact absurd (List.getLast?_eq_none_iff.mp h) (by simp)
      | some e => rfl

/-- A text has a match exactly if there is one at some place of it. -/
theorem matchesFrom_ne_nil_iff (re : Re α) (fuel : Nat) :
    ∀ (index : Nat) (x : Place α), x.rest.length < fuel →
      (re.matchesFrom fuel index x ≠ [] ↔ ∃ pre rest, x.rest = pre ++ rest ∧
        re.run ⟨pre.getLast?.or x.before, rest⟩ ≠ []) := by
  induction fuel with
  | zero => intro index x h; omega
  | succ fuel ih =>
      intro index x hfuel
      obtain ⟨b, rest⟩ := x
      rw [matchesFrom]
      cases hrun : re.run ⟨b, rest⟩ with
      | cons y ys =>
          refine iff_of_true ?_ ⟨[], rest, rfl, by simp [hrun]⟩
          simp only [List.head?_cons]
          split <;> simp
      | nil =>
          simp only [List.head?_nil]
          cases rest with
          | nil =>
              refine iff_of_false (by simp) ?_
              rintro ⟨pre, rest, happ, hmatch⟩
              obtain ⟨rfl, rfl⟩ := List.append_eq_nil_iff.mp happ.symm
              exact hmatch hrun
          | cons c rest =>
              rw [ih (index + 1) ⟨some c, rest⟩ (by simpa using hfuel)]
              constructor
              · rintro ⟨pre, rest', rfl, hmatch⟩
                refine ⟨c :: pre, rest', rfl, ?_⟩
                rw [getLast?_cons_or]
                exact hmatch
              · rintro ⟨pre, rest', happ, hmatch⟩
                cases pre with
                | nil =>
                    obtain rfl : rest' = c :: rest := by simpa using happ.symm
                    exact absurd hrun hmatch
                | cons d pre =>
                    obtain ⟨rfl, rfl⟩ : c = d ∧ rest = pre ++ rest' := by simpa using happ
                    rw [getLast?_cons_or] at hmatch
                    exact ⟨pre, rest', rfl, hmatch⟩

/-- **A match stays a match in a text that goes on.** -/
theorem matchAll_append_ne_nil {re : Re α} (h : re.Plain) {s : List α} (u : List α)
    (hs : re.matchAll s ≠ []) : re.matchAll (s ++ u) ≠ [] := by
  obtain ⟨pre, rest, hpre, hrun⟩ :=
    (re.matchesFrom_ne_nil_iff _ 0 ⟨none, s⟩ (Nat.lt_succ_self _)).mp hs
  refine (re.matchesFrom_ne_nil_iff _ 0 ⟨none, s ++ u⟩ (Nat.lt_succ_self _)).mpr
    ⟨pre, rest ++ u, ?_, ?_⟩
  · show s ++ u = pre ++ (rest ++ u)
    rw [show s = pre ++ rest from hpre, List.append_assoc]
  · obtain ⟨y, hy⟩ := List.exists_mem_of_ne_nil _ hrun
    exact List.ne_nil_of_mem (re.mem_run_extend h _ y hy)

/-! ## Matches that consume something -/

/-- No match of the expression is empty. -/
def Consuming : Re α → Prop
  | .one _ => True
  | .seq a b => a.Consuming ∨ b.Consuming
  | .alt a b => a.Consuming ∧ b.Consuming
  | .rep a least _ => 0 < least ∧ a.Consuming
  | .boundary _ | .notBehind _ | .notAhead _ => False

theorem length_lt_of_mem_iterate {f : Place α → List (Place α)}
    (hf : ∀ x, ∀ y ∈ f x, y.rest.length < x.rest.length) (fuel least : Nat) (most : Option Nat)
    (x : Place α) (hleast : 0 < least) :
    ∀ y ∈ iterate f fuel least most x, y.rest.length < x.rest.length := by
  have hne : ¬ least = 0 := by omega
  intro y hy
  cases fuel with
  | zero =>
      rw [iterate, if_neg hne] at hy
      exact absurd hy (by simp)
  | succ fuel =>
      rw [iterate, if_neg hne, List.append_nil] at hy
      split at hy
      · exact absurd hy (by simp)
      · obtain ⟨z, hz, hy⟩ := List.mem_flatMap.mp hy
        rw [if_neg fun h => hne h.1] at hy
        have hle := length_of_mem_iterate (fun x y hy => Nat.le_of_lt (hf x y hy)) _ _ _ z y hy
        have hlt := hf x z hz
        omega

theorem length_lt_of_mem_run (re : Re α) (h : re.Consuming) :
    ∀ x, ∀ y ∈ re.run x, y.rest.length < x.rest.length := by
  induction re with
  | one p =>
      intro x y hy
      rw [run] at hy
      split at hy
      · rename_i c rest hrest
        split at hy
        · rw [List.mem_singleton.mp hy, hrest]
          simp
        · exact absurd hy (by simp)
      · exact absurd hy (by simp)
  | seq a b iha ihb =>
      intro x y hy
      obtain ⟨z, hz, hy⟩ := List.mem_flatMap.mp hy
      have hza := length_of_mem_run a x z hz
      have hyb := length_of_mem_run b z y hy
      rcases h with ha | hb
      · have := iha ha x z hz
        omega
      · have := ihb hb z y hy
        omega
  | alt a b iha ihb =>
      intro x y hy
      rcases List.mem_append.mp hy with hy | hy
      · exact iha h.1 x y hy
      · exact ihb h.2 x y hy
  | rep a least most ih =>
      intro x y hy
      exact length_lt_of_mem_iterate (ih h.2) _ _ _ x h.1 y hy
  | boundary word => exact absurd h id
  | notBehind p => exact absurd h id
  | notAhead p => exact absurd h id

theorem raw_ne_nil_of_mem_matchesFrom {re : Re α} (h : re.Consuming) (fuel : Nat) :
    ∀ (index : Nat) (x : Place α), ∀ m ∈ re.matchesFrom fuel index x, m.raw ≠ [] := by
  induction fuel with
  | zero => intro index x m hm; exact absurd hm (by simp [matchesFrom])
  | succ fuel ih =>
      intro index x m hm
      rw [matchesFrom] at hm
      cases hhead : (re.run x).head? with
      | none =>
          rw [hhead] at hm
          dsimp only at hm
          split at hm
          · exact absurd hm (by simp)
          · exact ih _ _ m hm
      | some y =>
          have hlt := re.length_lt_of_mem_run h x y (List.mem_of_head? hhead)
          rw [hhead] at hm
          dsimp only at hm
          rw [if_neg (by omega)] at hm
          rcases List.mem_cons.mp hm with rfl | hm
          · intro hnil
            have hlen := congrArg List.length hnil
            rw [List.length_take, List.length_nil] at hlen
            omega
          · exact ih _ _ m hm

/-- A match of an expression that consumes something has characters. -/
theorem raw_ne_nil_of_mem_matchAll {re : Re α} (h : re.Consuming) {s : List α} {m : Match α}
    (hm : m ∈ re.matchAll s) : m.raw ≠ [] :=
  raw_ne_nil_of_mem_matchesFrom h _ _ _ m hm

end Re

end Caveat.Lib
