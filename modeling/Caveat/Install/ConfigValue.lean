import Caveat.Js.Stringify

/-!
# Values of a configuration

A client keeps its configuration as JSON or as TOML. What either is read as is a tree of arrays and
objects; the scalars of a format are left open. Two values are the same if they differ at most in
the order of members.
-/

namespace Caveat.Install

open Js

/-- A decoded value; a scalar is one of the format that is neither `null` nor a string. -/
inductive Data (σ : Type) where
  | null
  | string (s : Units)
  | scalar (s : σ)
  | array (items : List (Data σ))
  | object (members : List (Units × Data σ))

variable {α σ : Type}

/-- The value of an own property. -/
def own (members : List (Units × α)) (key : Units) : Option α :=
  (members.find? fun m => m.1 = key).map Prod.snd

section Same

variable [DecidableEq σ]

mutual

/-- `isDeepStrictEqual` of JSON values, `sameTomlValue` of TOML values. -/
def sameValue : Data σ → Data σ → Bool
  | .null, .null => true
  | .string s, .string s' => s = s'
  | .scalar s, .scalar s' => s = s'
  | .array items, .array items' => sameItems items items'
  | .object members, .object members' =>
      members.length = members'.length && sameMembers members members'
  | _, _ => false

def sameItems : List (Data σ) → List (Data σ) → Bool
  | [], [] => true
  | v :: items, v' :: items' => sameValue v v' && sameItems items items'
  | _, _ => false

/-- `Object.keys(left).every(key => Object.hasOwn(right, key) && …)`. -/
def sameMembers : List (Units × Data σ) → List (Units × Data σ) → Bool
  | [], _ => true
  | (key, v) :: members, members' =>
      (match own members' key with
        | some v' => sameValue v v'
        | none => false) && sameMembers members members'

end

/-- The comparison of values that may be `undefined`. -/
def sameOption : Option (Data σ) → Option (Data σ) → Bool
  | none, none => true
  | some v, some v' => sameValue v v'
  | _, _ => false

end Same

mutual

/-- Every object has each key once. -/
def Data.Proper : Data σ → Prop
  | .array items => ProperItems items
  | .object members => (members.map Prod.fst).Nodup ∧ ProperMembers members
  | _ => True

def ProperItems : List (Data σ) → Prop
  | [] => True
  | v :: items => v.Proper ∧ ProperItems items

def ProperMembers : List (Units × Data σ) → Prop
  | [] => True
  | (_, v) :: members => v.Proper ∧ ProperMembers members

end

/-! ## Own properties -/

theorem own_nil (key : Units) : own ([] : List (Units × α)) key = none := rfl

theorem own_cons_self (key : Units) (v : α) (members : List (Units × α)) :
    own ((key, v) :: members) key = some v := by
  rw [own, List.find?_cons_of_pos (by simp)]
  rfl

theorem own_cons_of_ne {key k : Units} (h : k ≠ key) (v : α) (members : List (Units × α)) :
    own ((k, v) :: members) key = own members key := by
  rw [own, List.find?_cons_of_neg (by simpa using h), own]

theorem mem_of_own {members : List (Units × α)} {key : Units} {v : α}
    (h : own members key = some v) : (key, v) ∈ members := by
  obtain ⟨m, hm, rfl⟩ := Option.map_eq_some_iff.mp h
  have hkey := List.find?_some hm
  rw [← of_decide_eq_true hkey]
  exact List.mem_of_find?_eq_some hm

theorem own_isSome {members : List (Units × α)} {key : Units} :
    (own members key).isSome = true ↔ key ∈ members.map Prod.fst := by
  rw [own, Option.isSome_map, List.find?_isSome, List.mem_map]
  simp only [decide_eq_true_eq]

theorem own_eq_none {members : List (Units × α)} {key : Units} :
    own members key = none ↔ key ∉ members.map Prod.fst := by
  rw [← own_isSome, Bool.not_eq_true, Option.isSome_eq_false_iff, Option.isNone_iff_eq_none]

theorem own_of_mem {members : List (Units × α)} (h : (members.map Prod.fst).Nodup) {key : Units}
    {v : α} (hv : (key, v) ∈ members) : own members key = some v := by
  induction members with
  | nil => exact absurd hv List.not_mem_nil
  | cons m members ih =>
      rw [List.map_cons, List.nodup_cons] at h
      rcases List.mem_cons.mp hv with rfl | hv
      · exact own_cons_self key v members
      · have hne : m.1 ≠ key := fun hkey => h.1 (hkey ▸ List.mem_map_of_mem hv)
        rw [← ih h.2 hv]
        exact own_cons_of_ne hne m.2 members

theorem own_define (members : List (Units × α)) (m : Units × α) (key : Units) :
    own (define members m) key = if key = m.1 then some m.2 else own members key := by
  have hmap : own (members.map fun p => if p.1 = m.1 then m else p) key =
      if key = m.1 then (own members key).map fun _ => m.2 else own members key := by
    induction members with
    | nil => simp [own_nil]
    | cons p members ih =>
        rw [List.map_cons]
        by_cases hp : p.1 = m.1
        · rw [if_pos hp]
          by_cases hkey : m.1 = key
          · subst hkey
            rw [if_pos rfl, own_cons_self]
            have : own (p :: members) m.1 = some p.2 := hp ▸ own_cons_self p.1 p.2 members
            rw [this, Option.map_some]
          · rw [show m = (m.1, m.2) from rfl, own_cons_of_ne hkey, ih,
              own_cons_of_ne (fun h => hkey (hp.symm.trans h)) p.2 members]
        · rw [if_neg hp]
          by_cases hkey : p.1 = key
          · subst hkey
            rw [if_neg hp, show p = (p.1, p.2) from rfl, own_cons_self, own_cons_self]
          · rw [show p = (p.1, p.2) from rfl, own_cons_of_ne hkey, ih, own_cons_of_ne hkey]
  rw [define]
  split
  · rename_i hany
    rw [hmap]
    split
    · rename_i hkey
      have hsome : (own members key).isSome = true := by
        obtain ⟨p, hp, hpm⟩ := List.any_eq_true.mp hany
        rw [own_isSome, hkey, ← of_decide_eq_true hpm]
        exact List.mem_map_of_mem hp
      obtain ⟨v, hv⟩ := Option.isSome_iff_exists.mp hsome
      rw [hv, Option.map_some]
    · rfl
  · rename_i hnew
    have hnone : own members m.1 = none := by
      rw [own_eq_none]
      intro hmem
      obtain ⟨p, hp, hpm⟩ := List.mem_map.mp hmem
      exact hnew (List.any_eq_true.mpr ⟨p, hp, decide_eq_true hpm⟩)
    rw [own, List.find?_append, Option.map_or]
    by_cases hkey : key = m.1
    · subst hkey
      rw [if_pos rfl]
      have : (members.find? fun p => decide (p.1 = m.1)).map Prod.snd = none := hnone
      rw [this]
      simp
    · rw [if_neg hkey, List.find?_singleton, if_neg (by simpa using fun h => hkey h.symm)]
      simp [own]

theorem mem_define_of_ne {members : List (Units × α)} {m p : Units × α} (h : p.1 ≠ m.1) :
    p ∈ define members m ↔ p ∈ members := by
  rw [define]
  split
  · rw [List.mem_map]
    constructor
    · rintro ⟨q, hq, rfl⟩
      split
      · rename_i hqm
        rw [if_pos hqm] at h
        exact absurd rfl h
      · exact hq
    · intro hp
      exact ⟨p, hp, if_neg h⟩
  · rw [List.mem_append, List.mem_singleton]
    exact or_iff_left fun hpm => h (congrArg Prod.fst hpm)

/-- A property that is there is left as it is just if it has the value already. -/
theorem define_eq_self_iff {members : List (Units × α)} {key : Units} {v w : α}
    (h : own members key = some w) :
    define members (key, v) = members ↔ ∀ x, (key, x) ∈ members → x = v := by
  have hany : (members.any fun p => p.1 = key) = true :=
    List.any_eq_true.mpr ⟨_, mem_of_own h, decide_eq_true rfl⟩
  have hmap : (members.map fun p => if p.1 = key then (key, v) else p) = members ↔
      ∀ p ∈ members, (if p.1 = key then (key, v) else p) = p := by
    conv_lhs => rhs; rw [← List.map_id members]
    exact List.map_inj_left
  rw [define, if_pos hany, hmap]
  constructor
  · intro hself x hx
    have := hself _ hx
    rw [if_pos rfl] at this
    exact (congrArg Prod.snd this).symm
  · intro hall p hp
    split
    · rename_i hkey
      have hv := hall p.2 (by rwa [← hkey])
      rw [← hv, ← hkey]
    · rfl

/-- Of two assignments to a property the last one counts. -/
theorem define_define (members : List (Units × α)) (key : Units) (v w : α) :
    define (define members (key, v)) (key, w) = define members (key, w) := by
  by_cases hany : (members.any fun p => p.1 = key) = true
  · have hmapped : ((members.map fun p => if p.1 = key then (key, v) else p).any fun p => p.1 = key) = true := by
      obtain ⟨p, hp, hkey⟩ := List.any_eq_true.mp hany
      refine List.any_eq_true.mpr ⟨_, List.mem_map_of_mem hp, ?_⟩
      rw [if_pos (of_decide_eq_true hkey)]
      exact decide_eq_true rfl
    rw [define, define, define, if_pos hany, if_pos hany, if_pos hmapped, List.map_map]
    refine List.map_congr_left fun p _ => ?_
    by_cases hp : p.1 = key
    · simp [hp]
    · simp [hp]
  · have hsnoc : ((members ++ [(key, v)]).any fun p => p.1 = key) = true := by simp
    have hother : ∀ p ∈ members, (if p.1 = key then (key, w) else p) = p := by
      intro p hp
      rw [if_neg]
      intro hkey
      exact hany (List.any_eq_true.mpr ⟨p, hp, decide_eq_true hkey⟩)
    rw [define, define, define, if_neg hany, if_neg hany, if_pos hsnoc, List.map_append]
    have hmap : (members.map fun p => if p.1 = key then (key, w) else p) = members :=
      (List.map_congr_left hother).trans (List.map_id _)
    rw [hmap]
    simp

theorem own_erase (members : List (Units × α)) (removed key : Units) :
    own (members.filter fun m => m.1 ≠ removed) key =
      if key = removed then none else own members key := by
  induction members with
  | nil => simp [own_nil]
  | cons m members ih =>
      by_cases hm : m.1 = removed
      · rw [List.filter_cons_of_neg (by simpa using hm), ih]
        split
        · rfl
        · rename_i hkey
          exact (own_cons_of_ne (fun h => hkey (h.symm.trans hm)) m.2 members).symm
      · rw [List.filter_cons_of_pos (by simpa using hm)]
        by_cases hkey : m.1 = key
        · subst hkey
          rw [if_neg hm, show m = (m.1, m.2) from rfl, own_cons_self, own_cons_self]
        · rw [show m = (m.1, m.2) from rfl, own_cons_of_ne hkey, ih, own_cons_of_ne hkey]

theorem ProperMembers.of_mem {members : List (Units × Data σ)} (h : ProperMembers members)
    {key : Units} {v : Data σ} (hv : (key, v) ∈ members) : v.Proper := by
  induction members with
  | nil => exact absurd hv List.not_mem_nil
  | cons m members ih =>
      rcases List.mem_cons.mp hv with rfl | hv
      · exact h.1
      · exact ih h.2 hv

/-! ## Sameness -/

variable [DecidableEq σ]

theorem sameMembers_iff {members members' : List (Units × Data σ)} :
    sameMembers members members' = true ↔
      ∀ m ∈ members, ∃ v', own members' m.1 = some v' ∧ sameValue m.2 v' = true := by
  induction members with
  | nil => simp [sameMembers]
  | cons m members ih =>
      rw [sameMembers, Bool.and_eq_true, ih, List.forall_mem_cons]
      refine and_congr_left fun _ => ?_
      cases own members' m.1 with
      | none => simp
      | some v' => simp

mutual

theorem sameValue_refl {v : Data σ} (h : v.Proper) : sameValue v v = true := by
  match v with
  | .null => rfl
  | .string s => exact decide_eq_true rfl
  | .scalar s => exact decide_eq_true rfl
  | .array items =>
      rw [Data.Proper] at h
      rw [sameValue]
      exact sameItems_refl h
  | .object members =>
      rw [Data.Proper] at h
      rw [sameValue, decide_eq_true rfl, Bool.true_and, sameMembers_iff]
      exact fun m hm => ⟨m.2, own_of_mem h.1 hm, sameMember_refl h.2 m hm⟩

theorem sameItems_refl {items : List (Data σ)} (h : ProperItems items) :
    sameItems items items = true := by
  match items with
  | [] => rfl
  | v :: items =>
      rw [ProperItems] at h
      rw [sameItems, sameValue_refl h.1, sameItems_refl h.2, Bool.and_self]

theorem sameMember_refl {members : List (Units × Data σ)} (h : ProperMembers members) :
    ∀ m ∈ members, sameValue m.2 m.2 = true := by
  match members with
  | [] => exact fun _ h => absurd h List.not_mem_nil
  | (key, v) :: members =>
      rw [ProperMembers] at h
      rw [List.forall_mem_cons]
      exact ⟨sameValue_refl h.1, sameMember_refl h.2⟩

end

/-- **Objects are the same if their properties are.** -/
theorem sameValue_object_iff {members members' : List (Units × Data σ)}
    (h : (members.map Prod.fst).Nodup) (h' : (members'.map Prod.fst).Nodup) :
    sameValue (.object members) (.object members') = true ↔
      ∀ key, sameOption (own members key) (own members' key) = true := by
  rw [sameValue, Bool.and_eq_true, sameMembers_iff, decide_eq_true_eq]
  constructor
  · rintro ⟨hlen, hsame⟩ key
    have hsub : members.map Prod.fst ⊆ members'.map Prod.fst := by
      intro k hk
      obtain ⟨m, hm, rfl⟩ := List.mem_map.mp hk
      obtain ⟨v', hv', _⟩ := hsame m hm
      exact own_isSome.mp (by rw [hv']; rfl)
    have hperm : (members.map Prod.fst).Perm (members'.map Prod.fst) :=
      (List.subperm_of_subset h hsub).perm_of_length_le (by rw [List.length_map, List.length_map, hlen])
    cases hown : own members key with
    | none =>
        have hnone : own members' key = none := by
          rw [own_eq_none, ← hperm.mem_iff, ← own_eq_none, hown]
        rw [hnone]
        rfl
    | some v =>
        obtain ⟨v', hv', hv⟩ := hsame _ (mem_of_own hown)
        rw [show own members' key = some v' from hv']
        exact hv
  · intro hsame
    have hkeys : ∀ key, key ∈ members.map Prod.fst ↔ key ∈ members'.map Prod.fst := by
      intro key
      have hkey := hsame key
      rw [← own_isSome, ← own_isSome]
      cases hown : own members key <;> cases hown' : own members' key
      · rfl
      · rw [hown, hown'] at hkey; cases hkey
      · rw [hown, hown'] at hkey; cases hkey
      · simp
    have hlen := ((List.perm_ext_iff_of_nodup h h').mpr hkeys).length_eq
    rw [List.length_map, List.length_map] at hlen
    refine ⟨hlen, fun m hm => ?_⟩
    have hkey := hsame m.1
    rw [own_of_mem h hm] at hkey
    cases hown' : own members' m.1 with
    | none => rw [hown'] at hkey; cases hkey
    | some v' => rw [hown'] at hkey; exact ⟨v', rfl, hkey⟩

theorem sameOption_refl {v : Option (Data σ)} (h : ∀ w ∈ v, w.Proper) : sameOption v v = true := by
  cases v with
  | none => rfl
  | some w => exact sameValue_refl (h w rfl)

theorem sameValue_null {v : Data σ} (h : sameValue .null v = true) : v = .null := by
  cases v <;> simp_all [sameValue]

theorem sameValue_object {members : List (Units × Data σ)} {v : Data σ}
    (h : sameValue v (.object members) = true) : ∃ members', v = .object members' := by
  cases v <;> simp_all [sameValue]

end Caveat.Install
