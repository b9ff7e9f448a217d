import Mathlib.Data.List.TakeWhile

/-!
# Scans that stop at the first hit

A scan looks at the items of a list in turn, until one is as it should be or is renewed in its
place. An upsert appends an item where the scan finds none. The items may stand in groups.
-/

namespace Caveat.Lib

/-- What a scan finds. -/
inductive Scan (α : Type*) where
  | absent
  | settled
  | renewed (a : α)

variable {α β γ ε : Type*}

def Scan.map (f : α → β) : Scan α → Scan β
  | .absent => .absent
  | .settled => .settled
  | .renewed a => .renewed (f a)

/-- Behind some items, what was renewed stands behind them. -/
def scanList (scan : α → Except ε (Scan α)) : List α → Except ε (Scan (List α))
  | [] => .ok .absent
  | a :: as =>
      match scan a with
      | .error e => .error e
      | .ok .settled => .ok .settled
      | .ok (.renewed b) => .ok (.renewed (b :: as))
      | .ok .absent => (scanList scan as).map (Scan.map (a :: ·))

/-- The list if it has changed. -/
def Scan.upserted (fresh : α) (as : List α) : Scan (List α) → Option (List α)
  | .absent => some (as ++ [fresh])
  | .settled => none
  | .renewed bs => some bs

/-- Renew the first item that needs it, or append a new one. -/
def upsertList (scan : α → Except ε (Scan α)) (fresh : α) (as : List α) :
    Except ε (Option (List α)) :=
  (scanList scan as).map (Scan.upserted fresh as)

/-- An item that is hit, and what it is then. -/
def Hit (scan : α → Except ε (Scan α)) (a b : α) : Prop :=
  scan a = .ok .settled ∧ b = a ∨ scan a = .ok (.renewed b)

variable {scan : α → Except ε (Scan α)}

theorem scanList_absent_append {pre : List α} (h : ∀ a ∈ pre, scan a = .ok .absent) (as : List α) :
    scanList scan (pre ++ as) = (scanList scan as).map (Scan.map (pre ++ ·)) := by
  induction pre with
  | nil =>
      cases hscan : scanList scan as with
      | error e => rw [List.nil_append, hscan]; rfl
      | ok found => cases found <;> rw [List.nil_append, hscan] <;> rfl
  | cons a pre ih =>
      rw [List.forall_mem_cons] at h
      rw [List.cons_append, scanList, h.1]
      show (scanList scan (pre ++ as)).map _ = _
      rw [ih h.2]
      cases scanList scan as with
      | error e => rfl
      | ok found => cases found <;> rfl

/-- What a scan that does not throw has seen. -/
theorem scanList_cases {as : List α} {found : Scan (List α)} (h : scanList scan as = .ok found) :
    (∀ a ∈ as, scan a = .ok .absent) ∧ found = .absent ∨
      ∃ pre a post, as = pre ++ a :: post ∧ (∀ p ∈ pre, scan p = .ok .absent) ∧
        (scan a = .ok .settled ∧ found = .settled ∨
          ∃ b, scan a = .ok (.renewed b) ∧ found = .renewed (pre ++ b :: post)) := by
  induction as generalizing found with
  | nil =>
      rw [scanList] at h
      exact .inl ⟨fun a ha => absurd ha List.not_mem_nil, (Except.ok.inj h).symm⟩
  | cons a as ih =>
      rw [scanList] at h
      cases hscan : scan a with
      | error e =>
          rw [hscan] at h
          cases h
      | ok seen =>
          rw [hscan] at h
          cases seen with
          | settled =>
              exact .inr ⟨[], a, as, rfl, fun p hp => absurd hp List.not_mem_nil,
                .inl ⟨hscan, (Except.ok.inj h).symm⟩⟩
          | renewed b =>
              exact .inr ⟨[], a, as, rfl, fun p hp => absurd hp List.not_mem_nil,
                .inr ⟨b, hscan, (Except.ok.inj h).symm⟩⟩
          | absent =>
              cases hrest : scanList scan as with
              | error e =>
                  simp only [hrest, Except.map] at h
                  cases h
              | ok rest =>
                  simp only [hrest, Except.map] at h
                  obtain rfl := Except.ok.inj h
                  rcases ih hrest with ⟨hall, rfl⟩ | ⟨pre, x, post, rfl, hpre, hx⟩
                  · exact .inl ⟨List.forall_mem_cons.mpr ⟨hscan, hall⟩, rfl⟩
                  · refine .inr ⟨a :: pre, x, post, rfl, List.forall_mem_cons.mpr ⟨hscan, hpre⟩, ?_⟩
                    rcases hx with ⟨hsettled, rfl⟩ | ⟨b, hrenewed, rfl⟩
                    · exact .inl ⟨hsettled, rfl⟩
                    · exact .inr ⟨b, hrenewed, rfl⟩

theorem scanList_absent {as : List α} (h : ∀ a ∈ as, scan a = .ok .absent) :
    scanList scan as = .ok .absent := by
  have := scanList_absent_append h []
  rwa [List.append_nil] at this

theorem scanList_settled {pre post : List α} {a : α} (hpre : ∀ p ∈ pre, scan p = .ok .absent)
    (ha : scan a = .ok .settled) : scanList scan (pre ++ a :: post) = .ok .settled := by
  rw [scanList_absent_append hpre, scanList, ha]
  rfl

theorem scanList_renewed {pre post : List α} {a b : α} (hpre : ∀ p ∈ pre, scan p = .ok .absent)
    (ha : scan a = .ok (.renewed b)) :
    scanList scan (pre ++ a :: post) = .ok (.renewed (pre ++ b :: post)) := by
  rw [scanList_absent_append hpre, scanList, ha]
  rfl

/-! ## Upserts -/

variable {fresh : α}

/-- What an upsert that does not throw has done. -/
theorem upsertList_cases {as : List α} {changed : Option (List α)}
    (h : upsertList scan fresh as = .ok changed) :
    (∀ a ∈ as, scan a = .ok .absent) ∧ changed = some (as ++ [fresh]) ∨
      ∃ pre a b post, as = pre ++ a :: post ∧ (∀ p ∈ pre, scan p = .ok .absent) ∧ Hit scan a b ∧
        changed.getD as = pre ++ b :: post := by
  rw [upsertList] at h
  cases hscan : scanList scan as with
  | error e =>
      rw [hscan] at h
      cases h
  | ok found =>
      rw [hscan] at h
      obtain rfl := Except.ok.inj h
      rcases scanList_cases hscan with ⟨hall, rfl⟩ | ⟨pre, a, post, rfl, hpre, hcase⟩
      · exact .inl ⟨hall, rfl⟩
      · rcases hcase with ⟨hsettled, rfl⟩ | ⟨b, hrenewed, rfl⟩
        · exact .inr ⟨pre, a, a, post, rfl, hpre, .inl ⟨hsettled, rfl⟩, rfl⟩
        · exact .inr ⟨pre, a, b, post, rfl, hpre, .inr hrenewed, rfl⟩

theorem upsertList_absent {as : List α} (h : ∀ a ∈ as, scan a = .ok .absent) :
    upsertList scan fresh as = .ok (some (as ++ [fresh])) := by
  rw [upsertList, scanList_absent h]
  rfl

theorem upsertList_settled {pre post : List α} {a : α} (hpre : ∀ p ∈ pre, scan p = .ok .absent)
    (ha : scan a = .ok .settled) : upsertList scan fresh (pre ++ a :: post) = .ok none := by
  rw [upsertList, scanList_settled hpre ha]
  rfl

theorem upsertList_hit {pre post : List α} {a b : α} (hpre : ∀ p ∈ pre, scan p = .ok .absent)
    (ha : Hit scan a b) : ∃ changed, upsertList scan fresh (pre ++ a :: post) = .ok changed ∧
      changed.getD (pre ++ a :: post) = pre ++ b :: post := by
  rcases ha with ⟨hsettled, rfl⟩ | hrenewed
  · exact ⟨none, upsertList_settled hpre hsettled, rfl⟩
  · refine ⟨some (pre ++ b :: post), ?_, rfl⟩
    rw [upsertList, scanList_renewed hpre hrenewed]
    rfl

/-- An item that is hit is not passed over. -/
theorem Hit.not_absent {a b : α} (h : Hit scan a b) : scan a ≠ .ok .absent := by
  rcases h with ⟨h, _⟩ | h
  · rw [h]
    simp
  · rw [h]
    simp

theorem Hit.unique {a b b' : α} (h : Hit scan a b) (h' : Hit scan a b') : b = b' := by
  rcases h with ⟨h, rfl⟩ | h
  · rcases h' with ⟨_, rfl⟩ | h'
    · rfl
    · rw [h] at h'
      simp at h'
  · rcases h' with ⟨h', _⟩ | h'
    · rw [h] at h'
      simp at h'
    · rw [h] at h'
      simpa using h'

/-- There is one first item that is hit. -/
theorem first_hit_unique {pre pre' post post' : List α} {a a' b b' : α}
    (heq : pre ++ a :: post = pre' ++ a' :: post') (hpre : ∀ p ∈ pre, scan p = .ok .absent)
    (hpre' : ∀ p ∈ pre', scan p = .ok .absent) (ha : Hit scan a b) (ha' : Hit scan a' b') :
    pre = pre' ∧ a = a' ∧ post = post' := by
  induction pre generalizing pre' with
  | nil =>
      cases pre' with
      | nil => exact ⟨rfl, List.cons.inj heq⟩
      | cons p pre' =>
          obtain ⟨rfl, _⟩ := List.cons.inj heq
          exact absurd (hpre' a List.mem_cons_self) ha.not_absent
  | cons p pre ih =>
      cases pre' with
      | nil =>
          obtain ⟨rfl, _⟩ := List.cons.inj heq
          exact absurd (hpre p List.mem_cons_self) ha'.not_absent
      | cons p' pre' =>
          obtain ⟨rfl, htail⟩ := List.cons.inj heq
          rw [List.forall_mem_cons] at hpre hpre'
          obtain ⟨rfl, hrest⟩ := ih htail hpre.2 hpre'.2
          exact ⟨rfl, hrest⟩

/-! ## One item of one's own -/

section Owned

variable (scan) (owned : α → Bool) (accepted : α → Prop)

/-- A list of which an upsert makes one with a single item of one's own, which is accepted. -/
def Upsertable (as : List α) : Prop :=
  (∀ a ∈ as, scan a = .ok .absent ∧ owned a = false) ∨
    ∃ pre a b post, as = pre ++ a :: post ∧
      (∀ p ∈ pre, scan p = .ok .absent ∧ owned p = false) ∧ owned a = true ∧ Hit scan a b ∧
      accepted b ∧ ∀ p ∈ post, owned p = false

/-- What is known of the items that are hit: what is accepted is one's own and needs no more, and so
does a new item; what stays the same is one's own. -/
structure Upserting (fresh : α) : Prop where
  fresh_owned : owned fresh = true
  fresh_accepted : accepted fresh
  fresh_settled : scan fresh = .ok .settled
  hit_owned : ∀ a b, Hit scan a b → accepted b → owned b = true
  hit_settled : ∀ a b, Hit scan a b → accepted b → scan b = .ok .settled
  same_owned : ∀ a, Hit scan a a → owned a = true

variable {scan owned accepted}

theorem filter_owned_singleton {pre post : List α} {a : α} (hpre : ∀ p ∈ pre, owned p = false)
    (ha : owned a = true) (hpost : ∀ p ∈ post, owned p = false) :
    (pre ++ a :: post).filter owned = [a] := by
  have hnone : ∀ as : List α, (∀ p ∈ as, owned p = false) → as.filter owned = [] :=
    fun as h => List.filter_eq_nil_iff.mpr fun p hp => Bool.eq_false_iff.mp (h p hp)
  rw [List.filter_append, List.filter_cons_of_pos ha, hnone pre hpre, hnone post hpost]
  rfl

theorem filter_foreign_hit (pre post : List α) {a b : α} (ha : owned a = true)
    (hb : owned b = true) : (pre ++ b :: post).filter (fun p => !owned p) =
      (pre ++ a :: post).filter fun p => !owned p := by
  rw [List.filter_append, List.filter_append, List.filter_cons_of_neg (by simp [hb]),
    List.filter_cons_of_neg (by simp [ha])]

/-- What an upsert makes of such a list. -/
theorem Upsertable.upsert (h : Upserting scan owned accepted fresh) {as : List α}
    (hupsertable : Upsertable scan owned accepted as) :
    ∃ changed, upsertList scan fresh as = .ok changed ∧
      (∃ a, (changed.getD as).filter owned = [a] ∧ accepted a) ∧
      (changed.getD as).filter (fun p => !owned p) = as.filter (fun p => !owned p) ∧
      upsertList scan fresh (changed.getD as) = .ok none := by
  rcases hupsertable with hall | ⟨pre, a, b, post, rfl, hpre, ha, hhit, haccepted, hpost⟩
  · have hscan : ∀ a ∈ as, scan a = .ok .absent := fun a ha => (hall a ha).1
    refine ⟨_, upsertList_absent hscan, ⟨fresh, ?_, h.fresh_accepted⟩, ?_, ?_⟩
    · exact filter_owned_singleton (fun p hp => (hall p hp).2) h.fresh_owned
        fun p hp => absurd hp List.not_mem_nil
    · show (as ++ [fresh]).filter _ = _
      rw [List.filter_append, List.filter_cons_of_neg (by simp [h.fresh_owned])]
      simp
    · exact upsertList_settled hscan h.fresh_settled
  · have hscan : ∀ p ∈ pre, scan p = .ok .absent := fun p hp => (hpre p hp).1
    have hb := h.hit_owned a b hhit haccepted
    obtain ⟨changed, hchanged, hget⟩ := @upsertList_hit _ _ scan fresh pre post a b hscan hhit
    refine ⟨changed, hchanged, ⟨b, ?_, haccepted⟩, ?_, ?_⟩
    · rw [hget]
      exact filter_owned_singleton (fun p hp => (hpre p hp).2) hb hpost
    · rw [hget]
      exact filter_foreign_hit pre post ha hb
    · rw [hget]
      exact upsertList_settled hscan (h.hit_settled a b hhit haccepted)

/-- **Which lists are upsertable.** Those of which an upsert makes one with a single item of one's own,
which is accepted, while all others stay. -/
theorem upsertable_of_upsert (h : Upserting scan owned accepted fresh) {as : List α}
    {changed : Option (List α)} {a : α} (hchanged : upsertList scan fresh as = .ok changed)
    (hone : (changed.getD as).filter owned = [a]) (haccepted : accepted a)
    (hforeign : (changed.getD as).filter (fun p => !owned p) = as.filter fun p => !owned p) :
    Upsertable scan owned accepted as := by
  rcases upsertList_cases hchanged with ⟨hall, rfl⟩ | ⟨pre, x, b, post, rfl, hpre, hhit, hget⟩
  · refine .inl fun p hp => ⟨hall p hp, ?_⟩
    have hlength := congrArg List.length hone
    rw [Option.getD_some, List.filter_append, List.filter_cons_of_pos h.fresh_owned,
      List.length_append, List.length_cons, List.length_singleton] at hlength
    have hnil : as.filter owned = [] := List.eq_nil_of_length_eq_zero (by omega)
    exact Bool.eq_false_iff.mpr (List.filter_eq_nil_iff.mp hnil p hp)
  · rw [hget] at hone hforeign
    rw [List.filter_append] at hone hforeign
    rw [List.filter_append] at hforeign
    replace hforeign := List.append_cancel_left hforeign
    -- what is hit is one's own before and after
    have hb : owned b = true := by
      by_contra hb
      rw [Bool.not_eq_true] at hb
      rw [List.filter_cons_of_pos (by simp [hb])] at hforeign
      cases hx : owned x with
      | true =>
          have hlength := congrArg List.length hforeign
          rw [List.filter_cons_of_neg (by simp [hx]), List.length_cons] at hlength
          omega
      | false =>
          rw [List.filter_cons_of_pos (by simp [hx])] at hforeign
          obtain rfl := (List.cons.inj hforeign).1
          rw [h.same_owned b hhit] at hx
          cases hx
    have hx : owned x = true := by
      by_contra hx
      rw [Bool.not_eq_true] at hx
      have hlength := congrArg List.length hforeign
      rw [List.filter_cons_of_neg (by simp [hb]), List.filter_cons_of_pos (by simp [hx]),
        List.length_cons] at hlength
      omega
    have hlength := congrArg List.length hone
    rw [List.filter_cons_of_pos hb, List.length_append, List.length_cons,
      List.length_singleton] at hlength
    have hnone : pre.filter owned = [] ∧ post.filter owned = [] :=
      ⟨List.eq_nil_of_length_eq_zero (by omega), List.eq_nil_of_length_eq_zero (by omega)⟩
    rw [hnone.1, List.filter_cons_of_pos hb, hnone.2] at hone
    obtain rfl : b = a := (List.cons.inj hone).1
    exact .inr ⟨pre, x, b, post, rfl,
      fun p hp => ⟨hpre p hp, Bool.eq_false_iff.mpr (List.filter_eq_nil_iff.mp hnone.1 p hp)⟩, hx,
      hhit, haccepted, fun p hp => Bool.eq_false_iff.mpr (List.filter_eq_nil_iff.mp hnone.2 p hp)⟩

/-- **Which lists are upsertable, read off their items.** Where a scan hits what is one's own and passes
over all else that it can read, one item at most is one's own, and all items before it can be read. -/
theorem upsertable_iff {readable : α → Bool}
    (habsent : ∀ a, scan a = .ok .absent ↔ readable a = true ∧ owned a = false)
    (hhit : ∀ a, owned a = true → ∃ b, Hit scan a b ∧ accepted b) (as : List α) :
    Upsertable scan owned accepted as ↔
      (as.filter owned).length ≤ 1 ∧ ∀ a ∈ as.takeWhile (fun a => !owned a), readable a = true := by
  have hbefore : ∀ {pre : List α}, (∀ p ∈ pre, owned p = false) → ∀ p ∈ pre, (!owned p) = true := by
    intro pre hpre p hp
    rw [hpre p hp]
    rfl
  constructor
  · intro h
    rcases h with hall | ⟨pre, a, b, post, rfl, hpre, ha, _, _, hpost⟩
    · have hnone : as.filter owned = [] :=
        List.filter_eq_nil_iff.mpr fun a ha => Bool.eq_false_iff.mp (hall a ha).2
      rw [hnone]
      exact ⟨Nat.zero_le 1, fun a ha =>
        ((habsent a).mp (hall a (List.takeWhile_subset _ ha)).1).1⟩
    · have hpre' : ∀ p ∈ pre, owned p = false := fun p hp => (hpre p hp).2
      rw [filter_owned_singleton hpre' ha hpost, List.takeWhile_append_of_pos (hbefore hpre'),
        List.takeWhile_cons_of_neg (by simp [ha]), List.append_nil]
      exact ⟨Nat.le_refl 1, fun p hp => ((habsent p).mp (hpre p hp).1).1⟩
  · intro h
    obtain ⟨hone, hread⟩ := h
    have hbehind : ∀ p ∈ as.takeWhile (fun a => !owned a), owned p = false := fun p hp => by
      simpa using List.mem_takeWhile_imp hp
    have hsplit := List.takeWhile_append_dropWhile (p := fun a => !owned a) (l := as)
    cases hrest : as.dropWhile fun a => !owned a with
    | nil =>
        rw [hrest, List.append_nil] at hsplit
        rw [hsplit] at hread hbehind
        exact .inl fun a ha => ⟨(habsent a).mpr ⟨hread a ha, hbehind a ha⟩, hbehind a ha⟩
    | cons a post =>
        have ha : owned a = true := by
          have hhead := List.head_dropWhile_not (fun a => !owned a)
            (show as.dropWhile (fun a => !owned a) ≠ [] by simp [hrest])
          simpa [hrest] using hhead
        obtain ⟨b, hb, haccepted⟩ := hhit a ha
        rw [hrest] at hsplit
        refine .inr ⟨_, a, b, post, hsplit.symm,
          fun p hp => ⟨(habsent p).mpr ⟨hread p hp, hbehind p hp⟩, hbehind p hp⟩, ha, hb, haccepted, ?_⟩
        have hlength := hone
        rw [← hsplit, List.filter_append, List.filter_cons_of_pos ha, List.length_append,
          List.length_cons] at hlength
        have hnil : post.filter owned = [] := List.eq_nil_of_length_eq_zero (by omega)
        exact fun p hp => Bool.eq_false_iff.mpr (List.filter_eq_nil_iff.mp hnil p hp)

end Owned

/-! ## Groups -/

section Groups

variable {items : γ → List α} {put : γ → List α → γ} {scanGroup : γ → Except ε (Scan γ)}

theorem scanList_append (as bs : List α) : scanList scan (as ++ bs) =
    match scanList scan as with
    | .error e => .error e
    | .ok .absent => (scanList scan bs).map (Scan.map (as ++ ·))
    | .ok .settled => .ok .settled
    | .ok (.renewed cs) => .ok (.renewed (cs ++ bs)) := by
  induction as with
  | nil =>
      show scanList scan bs = (scanList scan bs).map (Scan.map ([] ++ ·))
      cases scanList scan bs with
      | error e => rfl
      | ok found => cases found <;> rfl
  | cons a as ih =>
      rw [List.cons_append, scanList, scanList]
      cases scan a with
      | error e => rfl
      | ok seen =>
          cases seen with
          | settled => rfl
          | renewed b => rfl
          | absent =>
              show (scanList scan (as ++ bs)).map _ = _
              rw [ih]
              cases scanList scan as with
              | error e => rfl
              | ok found =>
                  cases found with
                  | settled => rfl
                  | renewed cs => rfl
                  | absent =>
                      show Except.map _ ((scanList scan bs).map _) = (scanList scan bs).map _
                      cases scanList scan bs with
                      | error e => rfl
                      | ok rest => cases rest <;> rfl

/-- A scan of groups is one of their items. -/
theorem scanList_groups {gs : List γ} (hput : ∀ g bs, items g ≠ [] → items (put g bs) = bs)
    (hscan : ∀ g ∈ gs, scanGroup g = (scanList scan (items g)).map (Scan.map (put g))) :
    (scanList scanGroup gs).map (Scan.map (List.flatMap items)) =
      scanList scan (gs.flatMap items) := by
  induction gs with
  | nil => rfl
  | cons g gs ih =>
      rw [List.forall_mem_cons] at hscan
      rw [List.flatMap_cons, scanList_append, scanList, hscan.1, ← ih hscan.2]
      cases hitems : scanList scan (items g) with
      | error e => rfl
      | ok found =>
          cases found with
          | settled => rfl
          | renewed bs =>
              have hne : items g ≠ [] := by
                intro hnil
                rw [hnil] at hitems
                cases hitems
              show Except.ok (Scan.renewed ((put g bs :: gs).flatMap items)) = _
              rw [List.flatMap_cons, hput g bs hne]
          | absent =>
              show Except.map _ ((scanList scanGroup gs).map _) = Except.map _ (Except.map _ _)
              cases scanList scanGroup gs with
              | error e => rfl
              | ok rest => cases rest <;> rfl

/-- **An upsert of groups is one of their items.** -/
theorem upsertList_groups {gs : List γ} {freshGroup : γ}
    (hput : ∀ g bs, items g ≠ [] → items (put g bs) = bs)
    (hscan : ∀ g ∈ gs, scanGroup g = (scanList scan (items g)).map (Scan.map (put g)))
    (hfresh : items freshGroup = [fresh]) :
    (upsertList scanGroup freshGroup gs).map (Option.map (List.flatMap items)) =
      upsertList scan fresh (gs.flatMap items) := by
  rw [upsertList, upsertList, ← scanList_groups hput hscan]
  cases scanList scanGroup gs with
  | error e => rfl
  | ok found =>
      cases found with
      | absent =>
          show Except.ok (some ((gs ++ [freshGroup]).flatMap items)) = _
          rw [List.flatMap_append, List.flatMap_singleton, hfresh]
          rfl
      | settled => rfl
      | renewed bs => rfl

end Groups

end Caveat.Lib
