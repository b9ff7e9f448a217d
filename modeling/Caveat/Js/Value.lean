import Caveat.Js.Text
import Mathlib.Data.List.Sort

/-!
# JavaScript values

The values that YAML and JSON documents hold, with `undefined` for an absent property. An object
is the list of its own enumerable string-keyed properties in the order they were created; where a
list repeats a key, the last value counts.
-/

namespace Caveat.Js

inductive JsNumber where
  | nan
  | infinite (negative : Bool)
  | finite (value : Rat)
deriving DecidableEq

inductive JsValue where
  | undefined
  | null
  | bool (b : Bool)
  | number (n : JsNumber)
  | string (s : Text)
  | array (items : List JsValue)
  | object (fields : List (Text × JsValue))

/-! ## Property lists -/

variable {α : Type}

/-- The value of an own property. -/
def getProp? (fields : List (Text × α)) (key : Text) : Option α :=
  ((fields.filter (fun f => f.1 = key)).getLast?).map Prod.snd

/-- Define a property: an existing one keeps its place. -/
def setProp (fields : List (Text × α)) (key : Text) (value : α) : List (Text × α) :=
  if fields.any (fun f => f.1 = key) then
    fields.map (fun f => if f.1 = key then (key, value) else f)
  else fields ++ [(key, value)]

/-- `{ ...a, ...b }`. -/
def spread (a b : List (Text × α)) : List (Text × α) :=
  b.foldl (fun acc f => setProp acc f.1 f.2) a

/--
The number an array index spells: canonical decimal, below `2 ^ 32 - 1`. Such keys come first in
the order of own properties, in numeric order.
-/
def arrayIndex? (key : Text) : Option Nat :=
  if key.isEmpty || !key.all Char.isDigit then none
  else
    let n := Nat.ofDigitChars 10 key 0
    if ofNat n = key ∧ n < 2 ^ 32 - 1 then some n else none

/--
`record[key] = value` on a plain object, for a primitive value: `__proto__` is an accessor that
ignores it.
-/
def assign (fields : List (Text × α)) (key : Text) (value : α) : List (Text × α) :=
  if key = "__proto__".toList then fields else setProp fields key value

/-- `Object.entries`: the array indices in numeric order, then the other keys as created. -/
def entries (fields : List (Text × α)) : List (Text × α) :=
  (fields.filter (fun f => (arrayIndex? f.1).isSome)).insertionSort
      (fun f g => (arrayIndex? f.1).getD 0 ≤ (arrayIndex? g.1).getD 0) ++
    fields.filter (fun f => (arrayIndex? f.1).isNone)

@[simp] theorem getProp?_nil (k : Text) : getProp? ([] : List (Text × α)) k = none := rfl

theorem filter_setProp_of_ne {key k : Text} (h : k ≠ key) (fields : List (Text × α)) (v : α) :
    (setProp fields key v).filter (fun f => f.1 = k) = fields.filter (fun f => f.1 = k) := by
  have hne : ¬ key = k := fun he => h he.symm
  rw [setProp]
  split
  · rw [List.filter_map]
    have hcomp : (fun f : Text × α => decide (f.1 = k)) ∘
        (fun f => if f.1 = key then (key, v) else f) = fun f => decide (f.1 = k) := by
      funext f
      simp only [Function.comp]
      by_cases hf : f.1 = key
      · simp [hf]
      · simp [hf]
    rw [hcomp]
    conv_rhs => rw [← List.map_id (fields.filter fun f => decide (f.1 = k))]
    refine List.map_congr_left fun f hf => ?_
    have hk : f.1 = k := by simpa using (List.mem_filter.mp hf).2
    rw [if_neg (by rw [hk]; exact h)]
    rfl
  · simp [List.filter_append, hne]

@[simp] theorem getProp?_setProp_self (fields : List (Text × α)) (key : Text) (v : α) :
    getProp? (setProp fields key v) key = some v := by
  rw [getProp?, setProp]
  split
  · rename_i hany
    rw [List.filter_map]
    have hcomp : (fun f : Text × α => decide (f.1 = key)) ∘
        (fun f => if f.1 = key then (key, v) else f) = fun f => decide (f.1 = key) := by
      funext f
      by_cases hf : f.1 = key <;> simp [hf]
    rw [hcomp, List.getLast?_map]
    obtain ⟨f, hf, hkey⟩ := List.any_eq_true.mp hany
    have hmem : f ∈ fields.filter (fun f => f.1 = key) := List.mem_filter.mpr ⟨hf, hkey⟩
    cases hl : (fields.filter (fun f => f.1 = key)).getLast? with
    | none => rw [List.getLast?_eq_none_iff.mp hl] at hmem; exact absurd hmem (by simp)
    | some g =>
        have hg : g.1 = key := by
          simpa using (List.mem_filter.mp (List.mem_of_getLast? hl)).2
        simp [hg]
  · simp [List.filter_append]

theorem getProp?_setProp_of_ne {key k : Text} (h : k ≠ key) (fields : List (Text × α)) (v : α) :
    getProp? (setProp fields key v) k = getProp? fields k := by
  rw [getProp?, filter_setProp_of_ne h, getProp?]

theorem getProp?_append (a b : List (Text × α)) (k : Text) :
    getProp? (a ++ b) k = (getProp? b k).or (getProp? a k) := by
  rw [getProp?, getProp?, getProp?, List.filter_append, List.getLast?_append]
  cases (b.filter fun f => decide (f.1 = k)).getLast? <;> rfl

/-- Spreading overrides: a key of the second object has its value, the others keep theirs. -/
theorem getProp?_spread (a b : List (Text × α)) (k : Text) :
    getProp? (spread a b) k = (getProp? b k).or (getProp? a k) := by
  induction b using List.reverseRecOn with
  | nil => rfl
  | append_singleton b f ih =>
      have hstep : spread a (b ++ [f]) = setProp (spread a b) f.1 f.2 := by
        simp [spread, List.foldl_append]
      rw [hstep, getProp?_append]
      by_cases hk : k = f.1
      · rw [hk, getProp?_setProp_self]
        simp [getProp?]
      · have hne : ¬ f.1 = k := fun he => hk he.symm
        rw [getProp?_setProp_of_ne hk, ih]
        simp [getProp?, hne]

theorem filter_orderedInsert {r : Text × α → Text × α → Prop} [DecidableRel r] {k : Text}
    (hr : ∀ f g : Text × α, f.1 = g.1 → r f g) (f : Text × α) (l : List (Text × α)) :
    (l.orderedInsert r f).filter (fun g => g.1 = k) = (f :: l).filter (fun g => g.1 = k) := by
  induction l with
  | nil => rfl
  | cons g l ih =>
      rw [List.orderedInsert]
      split
      · rfl
      · rename_i hnot
        have hne : f.1 ≠ g.1 := fun he => hnot (hr f g he)
        rw [List.filter_cons, ih]
        by_cases hg : g.1 = k
        · have hf : ¬ f.1 = k := fun he => hne (he.trans hg.symm)
          simp [hg, hf]
        · simp [hg, List.filter_cons]

theorem filter_insertionSort {r : Text × α → Text × α → Prop} [DecidableRel r] {k : Text}
    (hr : ∀ f g : Text × α, f.1 = g.1 → r f g) (l : List (Text × α)) :
    (l.insertionSort r).filter (fun g => g.1 = k) = l.filter (fun g => g.1 = k) := by
  induction l with
  | nil => rfl
  | cons f l ih =>
      rw [List.insertionSort_cons, filter_orderedInsert hr, List.filter_cons, List.filter_cons, ih]

/-- Listing the entries of an object loses none of them. -/
@[simp] theorem getProp?_entries (fields : List (Text × α)) (k : Text) :
    getProp? (entries fields) k = getProp? fields k := by
  have hfilter : (entries fields).filter (fun f => f.1 = k) =
      fields.filter (fun f => f.1 = k) := by
    rw [entries, List.filter_append,
      filter_insertionSort (fun f g he => by rw [he]), List.filter_filter, List.filter_filter]
    by_cases hk : (arrayIndex? k).isSome = true
    · have h₁ : (fields.filter fun f => decide (f.1 = k) && (arrayIndex? f.1).isSome) =
          fields.filter fun f => decide (f.1 = k) :=
        List.filter_congr fun f _ => by by_cases hf : f.1 = k <;> simp [hf, hk]
      have h₂ : (fields.filter fun f => decide (f.1 = k) && (arrayIndex? f.1).isNone) = [] := by
        refine List.filter_eq_nil_iff.mpr fun f _ => ?_
        by_cases hf : f.1 = k
        · simp [hf, Option.isSome_iff_ne_none.mp hk]
        · simp [hf]
      rw [h₁, h₂, List.append_nil]
    · have hnone : arrayIndex? k = none := by simpa using hk
      have h₁ : (fields.filter fun f => decide (f.1 = k) && (arrayIndex? f.1).isSome) = [] := by
        refine List.filter_eq_nil_iff.mpr fun f _ => ?_
        by_cases hf : f.1 = k
        · simp [hf, hnone]
        · simp [hf]
      have h₂ : (fields.filter fun f => decide (f.1 = k) && (arrayIndex? f.1).isNone) =
          fields.filter fun f => decide (f.1 = k) :=
        List.filter_congr fun f _ => by by_cases hf : f.1 = k <;> simp [hf, hnone]
      rw [h₁, h₂, List.nil_append]
  rw [getProp?, hfilter, getProp?]

/-- `v.key`: `undefined` on everything but an object that has the property. -/
def JsValue.get (v : JsValue) (key : Text) : JsValue :=
  match v with
  | .object fields => (getProp? fields key).getD .undefined
  | _ => .undefined

/-- `v ?? fallback`. -/
def JsValue.orElse (v fallback : JsValue) : JsValue :=
  match v with
  | .undefined | .null => fallback
  | v => v

/-! ## What `JSON.parse (JSON.stringify v)` keeps of a value -/

mutual

/-- The JSON value of an array item, where `undefined` is written as `null`. -/
def JsValue.toJson : JsValue → JsValue
  | .undefined => .null
  | .null => .null
  | .bool b => .bool b
  | .number (.finite q) => .number (.finite q)
  | .number _ => .null
  | .string s => .string s
  | .array items => .array (toJsonItems items)
  | .object fields => .object (toJsonFields fields)

def toJsonItems : List JsValue → List JsValue
  | [] => []
  | v :: vs => v.toJson :: toJsonItems vs

/-- A property whose value is `undefined` is left out. -/
def toJsonFields : List (Text × JsValue) → List (Text × JsValue)
  | [] => []
  | (_, .undefined) :: fs => toJsonFields fs
  | (k, v) :: fs => (k, v.toJson) :: toJsonFields fs

end

/-- `JSON.stringify(v)` by the value it writes; the text is `undefined` for `undefined`. -/
def JsValue.stringify (v : JsValue) : Option JsValue :=
  match v with
  | .undefined => none
  | v => some v.toJson

end Caveat.Js
