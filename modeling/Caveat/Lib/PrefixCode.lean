import Mathlib.Logic.Basic
import Mathlib.Data.List.Basic
import Mathlib.Data.List.Forall2

/-!
# Codes that tell where they end

A code is prefix-free where what follows it does not matter: two texts that begin with codes are
equal only if the codes are of one value and what follows is the same. Such codes can be written
one after another, and as a list between a separator and a closing symbol.
-/

namespace Caveat.Lib

variable {α β χ : Type} {P : α → Prop} {Q : β → Prop} {f : α → List χ} {g : β → List χ}

/-- The code of a value with `P` determines the value, and what follows it. -/
def PrefixFree (P : α → Prop) (f : α → List χ) : Prop :=
  ∀ a b, P a → P b → ∀ r r', f a ++ r = f b ++ r' → a = b ∧ r = r'

theorem PrefixFree.inj (hf : PrefixFree P f) {a b : α} (ha : P a) (hb : P b) (h : f a = f b) :
    a = b :=
  (hf a b ha hb [] [] (by rw [h])).1

/-- Two codes, one after the other. -/
theorem PrefixFree.append (hf : PrefixFree P f) (hg : PrefixFree Q g) :
    PrefixFree (fun p : α × β => P p.1 ∧ Q p.2) (fun p => f p.1 ++ g p.2) := by
  rintro ⟨a, b⟩ ⟨a', b'⟩ ⟨ha, hb⟩ ⟨ha', hb'⟩ r r' h
  rw [List.append_assoc, List.append_assoc] at h
  obtain ⟨rfl, hrest⟩ := hf a a' ha ha' _ _ h
  obtain ⟨rfl, rfl⟩ := hg b b' hb hb' _ _ hrest
  exact ⟨rfl, rfl⟩

/-- A fixed text before a code. -/
theorem PrefixFree.after (hf : PrefixFree P f) (t : List χ) : PrefixFree P (fun a => t ++ f a) := by
  intro a b ha hb r r' h
  rw [List.append_assoc, List.append_assoc] at h
  exact hf a b ha hb r r' (List.append_cancel_left h)

/-- A fixed text behind a code. -/
theorem PrefixFree.before (hf : PrefixFree P f) (t : List χ) : PrefixFree P (fun a => f a ++ t) := by
  intro a b ha hb r r' h
  rw [List.append_assoc, List.append_assoc] at h
  obtain ⟨hab, hrest⟩ := hf a b ha hb _ _ h
  exact ⟨hab, List.append_cancel_left hrest⟩

/-- A value that may be missing: no code begins as the text of a missing one does. -/
theorem PrefixFree.option (hf : PrefixFree P f) {c : χ} (t : List χ)
    (hhead : ∀ a, P a → ∃ d u, f a = d :: u ∧ d ≠ c) :
    PrefixFree (fun a : Option α => ∀ x ∈ a, P x) (fun a => (a.map f).getD (c :: t)) := by
  have hdiffer : ∀ a, P a → ∀ r r', f a ++ r ≠ c :: t ++ r' := by
    intro a ha r r' h
    obtain ⟨d, u, hcode, hne⟩ := hhead a ha
    rw [hcode] at h
    exact hne (List.cons.inj h).1
  intro a b ha hb r r' h
  cases a with
  | none =>
      cases b with
      | none => exact ⟨rfl, List.append_cancel_left h⟩
      | some b => exact absurd h.symm (hdiffer b (hb b rfl) r' r)
  | some a =>
      cases b with
      | none => exact absurd h (hdiffer a (ha a rfl) r r')
      | some b =>
          obtain ⟨rfl, hr⟩ := hf a b (ha a rfl) (hb b rfl) r r' h
          exact ⟨rfl, hr⟩

/-- Codes with a separator between them, up to a symbol that closes the list. -/
def listCode (f : α → List χ) (sep close : χ) (l : List α) : List χ :=
  [sep].intercalate (l.map f) ++ [close]

/-! ## Codes before a tail -/

/-- Two texts, each before a tail that is admitted, are the same only if `R` holds, and the tails
are the same then. -/
def TellsApart (T : List χ → Prop) (R : Prop) (s t : List χ) : Prop :=
  ∀ r r', T r → T r' → s ++ r = t ++ r' → R ∧ r = r'

theorem TellsApart.imp {T T' : List χ → Prop} {R R' : Prop} {s t : List χ} (h : TellsApart T R s t)
    (hT : ∀ r, T' r → T r) (hR : R → R') : TellsApart T' R' s t := by
  intro r r' hr hr' heq
  obtain ⟨hsame, hrest⟩ := h r r' (hT r hr) (hT r' hr') heq
  exact ⟨hR hsame, hrest⟩

/-- The same text before both. -/
theorem TellsApart.after {T : List χ → Prop} {R : Prop} {s t : List χ} (h : TellsApart T R s t)
    (first : List χ) : TellsApart T R (first ++ s) (first ++ t) := by
  intro r r' hr hr' heq
  rw [List.append_assoc, List.append_assoc] at heq
  exact h r r' hr hr' (List.append_cancel_left heq)

/-- A code that tells where it ends, and then a text. -/
theorem PrefixFree.before_text (hf : PrefixFree P f) {a b : α} (ha : P a) (hb : P b)
    {T : List χ → Prop} {R : Prop} {s t : List χ} (h : TellsApart T R s t) :
    TellsApart T (a = b ∧ R) (f a ++ s) (f b ++ t) := by
  intro r r' hr hr' heq
  rw [List.append_assoc, List.append_assoc] at heq
  obtain ⟨hab, hrest⟩ := hf a b ha hb _ _ heq
  obtain ⟨hR, htail⟩ := h r r' hr hr' hrest
  exact ⟨⟨hab, hR⟩, htail⟩

theorem listCode_cons (f : α → List χ) (sep close : χ) (a : α) (l : List α) :
    listCode f sep close (a :: l) =
      f a ++ if l = [] then [close] else sep :: listCode f sep close l := by
  cases l with
  | nil => simp [listCode]
  | cons b l =>
      rw [listCode, List.map_cons, List.map_cons, List.intercalate_cons_cons, if_neg (by simp),
        listCode, List.map_cons]
      simp

/-- **Lists of codes are told apart** where their elements are, before the separator and before the
closing symbol, and no element begins with the latter. -/
theorem listCode_tellsApart {T : List χ → Prop} {R : α → α → Prop} {sep close : χ}
    (hsep : sep ≠ close) (hT : ∀ r, T (sep :: r) ∧ T (close :: r)) {l l' : List α}
    (hhead : ∀ a ∈ l ++ l', ∃ c t, f a = c :: t ∧ c ≠ close)
    (h : ∀ a ∈ l, ∀ b ∈ l', TellsApart T (R a b) (f a) (f b)) :
    TellsApart (fun _ => True) (List.Forall₂ R l l') (listCode f sep close l)
      (listCode f sep close l') := by
  -- an element where the other list ends
  have hends : ∀ a l₁ r r', (∃ c t, f a = c :: t ∧ c ≠ close) →
      listCode f sep close (a :: l₁) ++ r ≠ close :: r' := by
    intro a l₁ r r' hcode heq
    obtain ⟨c, t, hcode, hne⟩ := hcode
    rw [listCode_cons, hcode] at heq
    exact hne (List.cons.inj heq).1
  induction l generalizing l' with
  | nil =>
      intro r r' _ _ heq
      cases l' with
      | nil => exact ⟨.nil, List.append_cancel_left heq⟩
      | cons b l' => exact absurd heq.symm (hends b l' r' r (hhead b (by simp)))
  | cons a l ih =>
      intro r r' _ _ heq
      cases l' with
      | nil => exact absurd heq (hends a l r r' (hhead a (by simp)))
      | cons b l' =>
          have htail : ∀ (m : List α) (r : List χ),
              T ((if m = [] then [close] else sep :: listCode f sep close m) ++ r) := by
            intro m r
            by_cases hm : m = []
            · rw [if_pos hm]
              exact (hT r).2
            · rw [if_neg hm]
              exact (hT _).1
          rw [listCode_cons, listCode_cons, List.append_assoc, List.append_assoc] at heq
          obtain ⟨hab, hrest⟩ := h a List.mem_cons_self b List.mem_cons_self _ _ (htail l r)
            (htail l' r') heq
          by_cases hnil : l = []
          · by_cases hnil' : l' = []
            · rw [if_pos hnil, if_pos hnil'] at hrest
              rw [hnil, hnil']
              exact ⟨.cons hab .nil, List.append_cancel_left hrest⟩
            · rw [if_pos hnil, if_neg hnil'] at hrest
              exact absurd (List.cons.inj hrest).1.symm hsep
          · by_cases hnil' : l' = []
            · rw [if_neg hnil, if_pos hnil'] at hrest
              exact absurd (List.cons.inj hrest).1 hsep
            · rw [if_neg hnil, if_neg hnil'] at hrest
              have hheads : ∀ x ∈ l ++ l', ∃ c t, f x = c :: t ∧ c ≠ close := by
                intro x hx
                rcases List.mem_append.mp hx with hx | hx
                · exact hhead x (by simp [hx])
                · exact hhead x (by simp [hx])
              obtain ⟨hall, hr⟩ := ih hheads
                (fun x hx y hy => h x (List.mem_cons_of_mem a hx) y (List.mem_cons_of_mem b hy))
                r r' trivial trivial (List.cons.inj hrest).2
              exact ⟨.cons hab hall, hr⟩

theorem PrefixFree.list (hf : PrefixFree P f) {sep close : χ} (hsep : sep ≠ close)
    (hhead : ∀ a, P a → ∃ c t, f a = c :: t ∧ c ≠ close) :
    PrefixFree (fun l : List α => ∀ a ∈ l, P a) (listCode f sep close) := by
  intro l l' hl hl' r r' heq
  have hheads : ∀ a ∈ l ++ l', ∃ c t, f a = c :: t ∧ c ≠ close := by
    intro a ha
    exact hhead a ((List.mem_append.mp ha).elim (hl a) (hl' a))
  obtain ⟨hall, hr⟩ := listCode_tellsApart (T := fun _ => True) (R := Eq) hsep
    (fun _ => ⟨trivial, trivial⟩) hheads
    (fun a ha b hb r r' _ _ => hf a b (hl a ha) (hl' b hb) r r') r r' trivial trivial heq
  rw [List.forall₂_eq_eq_eq] at hall
  exact ⟨hall, hr⟩

end Caveat.Lib
