import Caveat.Js.Stringify
import Caveat.Lib.Unfolding

/-!
# Objects that share parts

An object graph is what values with object identities are: arrays and plain objects as nodes, with
the entries that `Object.entries` lists as edges. `JSON.stringify` writes the unfolding of a value,
and throws where there is none.
-/

namespace Caveat.Js

open Lib (Graph Tree Unfolds)

inductive Scalar where
  | undefined
  | null
  | bool (b : Bool)
  | number (n : JsNumber)
  | string (s : Units)
  /-- A function or a symbol. -/
  | callable
deriving DecidableEq

inductive ObjectKind where
  | array
  | object
deriving DecidableEq

abbrev ObjectGraph (ν : Type) := Graph Scalar Units ObjectKind ν

abbrev ObjectTree := Tree Scalar Units ObjectKind

/-- What `JSON.stringify` does not write: a member is left out, an item is `null`. -/
def Scalar.isOmitted : Scalar → Bool
  | .undefined | .callable => true
  | _ => false

variable (doubles : Doubles)

def Scalar.json : Scalar → Option Text
  | .undefined | .callable => none
  | .null => some "null".toList
  | .bool b => some (if b then "true".toList else "false".toList)
  | .number (.finite q) => some (doubles.text q)
  | .number _ => some "null".toList
  | .string s => some (quote s)

mutual

/-- The JSON text of an unfolded value. -/
def jsonText : ObjectTree → Option Text
  | .leaf s => s.json doubles
  | .branch .array children => some ('[' :: [','].intercalate (jsonItems children) ++ [']'])
  | .branch .object children => some (objectText (jsonMembers children))

def jsonItems : List (Units × ObjectTree) → List Text
  | [] => []
  | (_, t) :: children => (jsonText t).getD "null".toList :: jsonItems children

def jsonMembers : List (Units × ObjectTree) → List (Units × Text)
  | [] => []
  | (key, t) :: children =>
      ((jsonText t).map fun text => (key, text)).toList ++ jsonMembers children

end

/-- `JSON.stringify(v)` returns a text. -/
def Stringifies {ν : Type} (g : ObjectGraph ν) (v : Scalar ⊕ ν) (text : Text) : Prop :=
  ∃ t, Unfolds g v t ∧ jsonText doubles t = some text

variable {doubles}

theorem json_isSome {s : Scalar} : (s.json doubles).isSome = !s.isOmitted := by
  rcases s with _ | _ | b | n | s | _
  all_goals try rfl
  cases n with
  | nan => rfl
  | infinite b => rfl
  | finite q => rfl

theorem jsonText_branch_isSome (kind : ObjectKind) (children : List (Units × ObjectTree)) :
    (jsonText doubles (.branch kind children)).isSome = true := by
  cases kind with
  | array => rw [jsonText]; rfl
  | object => rw [jsonText]; rfl

/-- Only a scalar that is omitted has no text. -/
theorem jsonText_isSome {ν : Type} {g : ObjectGraph ν} {v : Scalar ⊕ ν} {t : ObjectTree}
    (h : Unfolds g v t) :
    (jsonText doubles t).isSome = v.elim (fun s => !s.isOmitted) fun _ => true := by
  cases h with
  | leaf s => rw [jsonText, json_isSome]; rfl
  | node hall => rw [jsonText_branch_isSome]; rfl

end Caveat.Js
