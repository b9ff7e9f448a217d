import Caveat.Js.Json
import Mathlib.Data.List.Perm.Basic

/-!
# Writing values as JSON

`JSON.stringify` of a value that `JSON.parse` gave: an object is written with its own properties,
each name once, the array indices first. What double a decimal number denotes, and how a double is
written, are given.
-/

namespace Caveat.Js

/-- Numbers as decimals, which are exact on the natural numbers that doubles count. -/
structure Doubles where
  /-- The double nearest to a decimal number. -/
  round : Rat → JsNumber
  /-- `String(n)` for a finite double. -/
  text : Rat → Text
  round_nat : ∀ n : Nat, n < 2 ^ 53 → round n = .finite n
  text_nat : ∀ n : Nat, n < 2 ^ 53 → text n = ofNat n

/-- Doubles that stand in for those of the engine where no other numbers occur. -/
def plainDoubles : Doubles where
  round q := .finite q
  text q := ofNat q.num.toNat
  round_nat _ _ := rfl
  text_nat n _ := by simp

/-! ## Own properties -/

section Properties

variable {α β : Type}

/-- Define a property: an existing one keeps its place. -/
def define (own : List (Units × α)) (m : Units × α) : List (Units × α) :=
  if own.any (fun p => p.1 = m.1) then own.map (fun p => if p.1 = m.1 then m else p)
  else own ++ [m]

/-- The array index that a name spells. -/
def unitIndex? (key : Units) : Option Nat := arrayIndex? (key.map (fun u => Char.ofNat u.toNat))

/-- The own properties of an object with the given members, in their order. -/
def properties (members : List (Units × α)) : List (Units × α) :=
  let own := members.foldl define []
  (own.filter (fun p => (unitIndex? p.1).isSome)).insertionSort
      (fun p r => (unitIndex? p.1).getD 0 ≤ (unitIndex? r.1).getD 0) ++
    own.filter (fun p => !(unitIndex? p.1).isSome)

theorem define_map (f : α → β) (own : List (Units × α)) (m : Units × α) :
    define (own.map (fun p => (p.1, f p.2))) (m.1, f m.2) =
      (define own m).map (fun p => (p.1, f p.2)) := by
  have hany : (own.map (fun p => (p.1, f p.2))).any (fun p => decide (p.1 = (m.1, f m.2).1)) =
      own.any (fun p => decide (p.1 = m.1)) := List.any_map
  unfold define
  rw [hany]
  by_cases h : own.any (fun p => decide (p.1 = m.1)) = true
  · rw [if_pos h, if_pos h, List.map_map, List.map_map]
    refine List.map_congr_left fun p _ => ?_
    by_cases hp : p.1 = m.1
    · simp [hp]
    · simp [hp]
  · rw [if_neg h, if_neg h, List.map_append]
    rfl

theorem insertionSort_map (f : α → β) (own : List (Units × α)) :
    (own.map (fun p => (p.1, f p.2))).insertionSort
        (fun p r => (unitIndex? p.1).getD 0 ≤ (unitIndex? r.1).getD 0) =
      (own.insertionSort (fun p r => (unitIndex? p.1).getD 0 ≤ (unitIndex? r.1).getD 0)).map
        (fun p => (p.1, f p.2)) :=
  (List.map_insertionSort _ _ (fun p : Units × α => (p.1, f p.2)) own
    (fun _ _ _ _ => Iff.rfl)).symm

/-- The values have no part in which properties an object has. -/
theorem properties_map (f : α → β) (members : List (Units × α)) :
    properties (members.map (fun p => (p.1, f p.2))) =
      (properties members).map (fun p => (p.1, f p.2)) := by
  have hown : ∀ (members own : List (Units × α)),
      (members.map (fun p => (p.1, f p.2))).foldl define (own.map (fun p => (p.1, f p.2))) =
        (members.foldl define own).map (fun p => (p.1, f p.2)) := by
    intro members
    induction members with
    | nil => exact fun _ => rfl
    | cons m members ih =>
        intro own
        rw [List.map_cons, List.foldl_cons, List.foldl_cons, define_map, ih]
  have hown := hown members []
  rw [List.map_nil] at hown
  unfold properties
  dsimp only
  rw [hown, List.filter_map, List.filter_map, List.map_append, ← insertionSort_map]
  rfl

theorem define_keys_nodup {own : List (Units × α)} (h : (own.map Prod.fst).Nodup)
    (m : Units × α) : ((define own m).map Prod.fst).Nodup := by
  unfold define
  split
  · have hkeys : (own.map (fun p => if p.1 = m.1 then m else p)).map Prod.fst =
        own.map Prod.fst := by
      rw [List.map_map]
      refine List.map_congr_left fun p _ => ?_
      by_cases hp : p.1 = m.1
      · simp [hp]
      · simp [hp]
    rw [hkeys]
    exact h
  · rename_i hnew
    rw [List.map_append, List.nodup_append]
    refine ⟨h, by simp, ?_⟩
    intro key hkey key' hkey' heq
    rw [List.map_singleton, List.mem_singleton] at hkey'
    obtain ⟨p, hp, rfl⟩ := List.mem_map.mp hkey
    exact hnew (List.any_eq_true.mpr ⟨p, hp, by simp [heq, hkey']⟩)

/-- An object has each name once. -/
theorem properties_keys_nodup (members : List (Units × α)) :
    ((properties members).map Prod.fst).Nodup := by
  have hown : ∀ (members own : List (Units × α)), (own.map Prod.fst).Nodup →
      ((members.foldl define own).map Prod.fst).Nodup := by
    intro members
    induction members with
    | nil => exact fun _ h => h
    | cons m members ih => exact fun own h => ih _ (define_keys_nodup h m)
  have hown := hown members [] (by simp)
  unfold properties
  dsimp only
  have hperm := ((List.perm_insertionSort (fun p r : Units × α =>
      (unitIndex? p.1).getD 0 ≤ (unitIndex? r.1).getD 0)
      ((members.foldl define []).filter (fun p => (unitIndex? p.1).isSome))).append_right
        ((members.foldl define []).filter (fun p => !(unitIndex? p.1).isSome))).trans
      (List.filter_append_perm (fun p => (unitIndex? p.1).isSome) (members.foldl define []))
  exact (hperm.map Prod.fst).nodup_iff.mpr hown

/-- New names are defined one after the other. -/
theorem foldl_define {own members : List (Units × α)} (hnodup : ((own ++ members).map Prod.fst).Nodup) :
    members.foldl define own = own ++ members := by
  induction members generalizing own with
  | nil => exact (List.append_nil own).symm
  | cons m members ih =>
      have hnew : own.any (fun p => decide (p.1 = m.1)) = false := by
        rw [List.any_eq_false]
        intro p hp heq
        rw [List.map_append, List.nodup_append] at hnodup
        exact hnodup.2.2 p.1 (List.mem_map_of_mem hp) m.1 (by simp) (of_decide_eq_true heq)
      rw [List.foldl_cons, define, hnew, if_neg (by simp), ih, List.append_assoc]
      · rfl
      · rw [List.append_assoc]
        exact hnodup

/-- A list of members without repetitions and array indices is that of the properties. -/
theorem properties_eq_self {members : List (Units × α)} (hnodup : (members.map Prod.fst).Nodup)
    (hplain : ∀ m ∈ members, unitIndex? m.1 = none) : properties members = members := by
  have hown := @foldl_define _ [] members hnodup
  rw [List.nil_append] at hown
  unfold properties
  dsimp only
  rw [hown, List.filter_eq_nil_iff.mpr (by simpa using hplain),
    List.filter_eq_self.mpr (by simpa using hplain)]
  rfl

end Properties

/-! ## Writing -/

variable (doubles : Doubles)

mutual

/-- `JSON.stringify(value)`. -/
def stringify : Json → Text
  | .null => "null".toList
  | .bool b => if b then "true".toList else "false".toList
  | .number (.finite n) => doubles.text n
  | .number _ => "null".toList
  | .string s => quote s
  | .array items => '[' :: [','].intercalate (stringifyItems items) ++ [']']
  | .object members => objectText (properties (stringifyMembers members))

def stringifyItems : List Json → List Text
  | [] => []
  | v :: items => stringify v :: stringifyItems items

def stringifyMembers : List (Units × Json) → List (Units × Text)
  | [] => []
  | (key, v) :: members => (key, stringify v) :: stringifyMembers members

end

attribute [local simp] stringify stringifyItems stringifyMembers

theorem stringifyMembers_eq (members : List (Units × Json)) :
    stringifyMembers doubles members = members.map (fun m => (m.1, stringify doubles m.2)) := by
  induction members with
  | nil => rw [stringifyMembers, List.map_nil]
  | cons m members ih => rw [stringifyMembers, ih, List.map_cons]

/-- The text of an object is that of its properties. -/
theorem stringify_object (members : List (Units × Json)) :
    stringify doubles (.object members) =
      objectText ((properties members).map (fun m => (m.1, stringify doubles m.2))) := by
  rw [stringify, stringifyMembers_eq, properties_map]

/-! ## What is written is read -/

variable {doubles : Doubles}

theorem reads_null : Reads doubles.round (stringify doubles .null) .null := by
  intro fuel sep rest _
  rw [stringify]
  show parseValue _ _ ('n' :: 'u' :: 'l' :: 'l' :: sep :: rest) = _
  rw [parseValue, skipSpace_cons (by decide)]
  rfl

theorem reads_string (s : Units) :
    Reads doubles.round (stringify doubles (.string s)) (.string s) := by
  rw [stringify]
  exact reads_quote s

theorem reads_nat {n : Nat} (h : n < 2 ^ 53) :
    Reads doubles.round (stringify doubles (.number (.finite n))) (.number (.finite n)) := by
  rw [stringify, doubles.text_nat n h, ← doubles.round_nat n h]
  exact reads_ofNat n

/-- **A flat object is read back**: its members are the properties. -/
theorem parseJson_stringify_space {members : List (Units × Json)} {space : Text}
    (h : ∀ m ∈ properties members, Reads doubles.round (stringify doubles m.2) m.2)
    (hspace : skipSpace space = []) :
    parseJson doubles.round (stringify doubles (.object members) ++ space) =
      some (.object (properties members)) := by
  have hmembers : ∀ props : List (Units × Json),
      (∀ m ∈ props, Reads doubles.round (stringify doubles m.2) m.2) →
        ∃ ms : List (Member doubles.round),
          ms.map Member.written = props.map (fun m => (m.1, stringify doubles m.2)) ∧
            ms.map Member.read = props := by
    intro props
    induction props with
    | nil => exact fun _ => ⟨[], rfl, rfl⟩
    | cons m props ih =>
        intro hall
        obtain ⟨ms, hwritten, hread⟩ := ih fun m' hm' => hall m' (List.mem_cons_of_mem m hm')
        refine ⟨⟨m.1, stringify doubles m.2, m.2, hall m List.mem_cons_self⟩ :: ms, ?_, ?_⟩
        · rw [List.map_cons, List.map_cons, hwritten]
          rfl
        · rw [List.map_cons, hread]
          rfl
  obtain ⟨ms, hwritten, hread⟩ := hmembers _ h
  rw [stringify_object, ← hwritten, parseJson_objectText_space ms hspace, hread]

theorem parseJson_stringify {members : List (Units × Json)}
    (h : ∀ m ∈ properties members, Reads doubles.round (stringify doubles m.2) m.2) :
    parseJson doubles.round (stringify doubles (.object members)) =
      some (.object (properties members)) := by
  have hread := parseJson_stringify_space h skipSpace_nil
  rwa [List.append_nil] at hread

/-! ## Where a brace stands -/

theorem mem_codePoints_unit {s : Units} {c : Char} (h : CodePoint.char c ∈ codePoints s) :
    ∀ u ∈ charUnits c, u ∈ s := by
  intro u hu
  rw [← codePoints_units s]
  exact List.mem_flatMap.mpr ⟨.char c, h, hu⟩

/-- A brace is written for a brace only. -/
theorem brace_not_mem_quote {s : Units} (h : unitOf '{' ∉ s) : '{' ∉ quote s := by
  have hhex : ∀ n, n < 16 → hexDigit n ≠ '{' := by
    intro n hn
    have hall : ∀ i : Fin 16, hexDigit i ≠ '{' := by decide
    exact hall ⟨n, hn⟩
  have hescape : ∀ n, '{' ∉ unicodeEscape n := by
    intro n hmem
    simp only [unicodeEscape, List.mem_cons, List.not_mem_nil, or_false] at hmem
    rcases hmem with h | h | h | h | h | h
    · exact absurd h (by decide)
    · exact absurd h (by decide)
    · exact hhex _ (by omega) h.symm
    · exact hhex _ (by omega) h.symm
    · exact hhex _ (by omega) h.symm
    · exact hhex _ (by omega) h.symm
  have hpoint : ∀ p ∈ codePoints s, '{' ∉ p.quote := by
    intro p hp
    cases p with
    | lone u => exact hescape u.toNat
    | char c =>
        have hc : c ≠ '{' := by
          rintro rfl
          exact h (mem_codePoints_unit hp _ (by decide))
        show '{' ∉ quoteChar c
        unfold quoteChar
        split_ifs
        all_goals first
          | exact hescape _
          | decide
          | exact fun hmem => hc (List.mem_singleton.mp hmem).symm
  simp only [quote, List.mem_cons, List.mem_append, List.mem_flatMap, not_or, List.not_mem_nil,
    not_false_eq_true, and_true]
  refine ⟨⟨by decide, ?_⟩, by decide⟩
  rintro ⟨p, hp, hmem⟩
  exact hpoint p hp hmem

end Caveat.Js
