import Mathlib.Logic.Basic
import Mathlib.Data.List.Basic

/-!
# Loops that may stop with an error

A loop over a list is `List.foldlM` in `Except ε`. The rules below carry an invariant that may
mention the items already done, so the items still to come are judged against their prefix.
-/

namespace Caveat.Lib

universe u

variable {σ α ε : Type*}

/-- `P done a` for each item `a` and the items `done` before it. -/
def EachStep (P : List α → α → Prop) : List α → List α → Prop
  | _, [] => True
  | done, a :: as => P done a ∧ EachStep P (done ++ [a]) as

theorem eachStep_iff {P : List α → α → Prop} : ∀ {done as : List α},
    EachStep P done as ↔ ∀ pre a post, as = pre ++ a :: post → P (done ++ pre) a := by
  intro done as
  induction as generalizing done with
  | nil => simp [EachStep]
  | cons b as ih =>
      rw [EachStep, ih]
      constructor
      · rintro ⟨hb, hrest⟩ pre a post heq
        rcases List.cons_eq_append_iff.mp heq with ⟨rfl, hcons⟩ | ⟨pre', rfl, hcons⟩
        · cases hcons; simpa using hb
        · have := hrest pre' a post hcons
          simpa using this
      · intro h
        refine ⟨by simpa using h [] b as rfl, fun pre a post heq => ?_⟩
        have := h (b :: pre) a post (by rw [heq]; rfl)
        simpa using this

/-- A test against every item before gives a relation between all items. -/
theorem EachStep.pairwise {P : List α → α → Prop} {R : α → α → Prop}
    (hP : ∀ done a, P done a → ∀ d ∈ done, R d a) {as : List α} :
    ∀ {done : List α}, EachStep P done as → as.Pairwise R := by
  induction as with
  | nil => intro _ _; exact List.Pairwise.nil
  | cons a as ih =>
      rintro done ⟨_, hrest⟩
      refine List.pairwise_cons.mpr ⟨fun b hb => ?_, ih hrest⟩
      obtain ⟨pre, post, rfl⟩ := List.append_of_mem hb
      have hb := eachStep_iff.mp hrest pre b post rfl
      exact hP _ b hb a (by simp)

/-- A computation in sequence ends well just when both parts do. -/
theorem bind_eq_ok {γ δ : Type u} {x : Except ε γ} {k : γ → Except ε δ} {b : δ} :
    (x >>= k) = .ok b ↔ ∃ a, x = .ok a ∧ k a = .ok b := by
  cases x with
  | error e => simp [bind, Except.bind]
  | ok a => simp [bind, Except.bind]

variable {f : σ → α → Except ε σ} {Inv : List α → σ → Prop} {Ok : List α → α → Prop}

/-- **The loop rule.** When each item passes its test the loop ends with the invariant. -/
theorem foldlM_ok (hok : ∀ done a s, Inv done s → Ok done a → ∃ s', f s a = .ok s' ∧
      Inv (done ++ [a]) s') : ∀ {as done : List α} {s : σ}, Inv done s → EachStep Ok done as →
      ∃ s', as.foldlM f s = .ok s' ∧ Inv (done ++ as) s' := by
  intro as
  induction as with
  | nil => intro done s h _; exact ⟨s, rfl, by simpa using h⟩
  | cons a as ih =>
      intro done s h hall
      obtain ⟨s₁, hf, h₁⟩ := hok done a s h hall.1
      obtain ⟨s₂, hrun, h₂⟩ := ih h₁ hall.2
      refine ⟨s₂, ?_, by simpa using h₂⟩
      rw [List.foldlM_cons, hf]
      exact hrun

/-- A loop that ends without an error found every item passing its test. -/
theorem eachStep_of_foldlM_ok
    (hok : ∀ done a s, Inv done s → Ok done a → ∃ s', f s a = .ok s' ∧ Inv (done ++ [a]) s')
    (hpass : ∀ done a s s', Inv done s → f s a = .ok s' → Ok done a) :
    ∀ {as done : List α} {s s' : σ}, Inv done s → as.foldlM f s = .ok s' →
      EachStep Ok done as := by
  intro as
  induction as with
  | nil => intro done s s' _ _; trivial
  | cons a as ih =>
      intro done s s' h hrun
      rw [List.foldlM_cons] at hrun
      obtain ⟨s₁, hf, hrest⟩ := bind_eq_ok.mp hrun
      have ha := hpass done a s s₁ h hf
      obtain ⟨s₂, hf₂, h₁⟩ := hok done a s h ha
      rw [hf] at hf₂
      cases hf₂
      exact ⟨ha, ih h₁ hrest⟩

/-- What every step keeps, whether it ends well or not, the loop keeps. -/
theorem foldlM_keeps {I : σ → Prop} {J : ε → Prop} {as : List α}
    (hstep : ∀ a ∈ as, ∀ s, I s →
      (∀ s', f s a = .ok s' → I s') ∧ (∀ e, f s a = .error e → J e)) :
    ∀ {s : σ}, I s → (∀ s', as.foldlM f s = .ok s' → I s') ∧
      (∀ e, as.foldlM f s = .error e → J e) := by
  induction as with
  | nil =>
      intro s h
      refine ⟨fun s' hs => ?_, fun e he => absurd he (by simp [pure, Except.pure])⟩
      cases hs
      exact h
  | cons a as ih =>
      intro s h
      obtain ⟨hgood, hbad⟩ := hstep a (by simp) s h
      rw [List.foldlM_cons]
      cases hf : f s a with
      | ok s₁ => exact ih (fun b hb => hstep b (List.mem_cons_of_mem a hb)) (hgood s₁ hf)
      | error e₁ =>
          refine ⟨fun s' hs => absurd hs (by simp [bind, Except.bind]), fun e he => ?_⟩
          cases he
          exact hbad e₁ hf

/-- Every result of a loop that maps a list is that of the element at its place. -/
theorem mapM_getElem? {α β : Type u} {f : α → Except ε β} : ∀ {as : List α} {bs : List β},
    as.mapM f = .ok bs → ∀ (i : Nat) b, bs[i]? = some b → ∃ a, as[i]? = some a ∧ f a = .ok b := by
  intro as
  induction as with
  | nil =>
      intro bs h i b hb
      cases h
      exact absurd hb (by simp)
  | cons a as ih =>
      intro bs h i b hb
      rw [List.mapM_cons] at h
      obtain ⟨b₀, hb₀, h⟩ := bind_eq_ok.mp h
      obtain ⟨bs', hbs', h⟩ := bind_eq_ok.mp h
      cases h
      cases i with
      | zero => exact ⟨a, rfl, by rwa [← Option.some.inj hb]⟩
      | succ i => exact ih hbs' i b hb

/-- Each item of the result is made of the item at its place. -/
theorem forall₂_of_mapM {α β : Type u} {f : α → Option β} : ∀ {as : List α} {bs : List β},
    as.mapM f = some bs → List.Forall₂ (fun a b => f a = some b) as bs := by
  intro as
  induction as with
  | nil =>
      intro bs h
      cases h
      exact .nil
  | cons a as ih =>
      intro bs h
      rw [List.mapM_cons] at h
      obtain ⟨b, hb, h⟩ := Option.bind_eq_some_iff.mp h
      obtain ⟨rest, hrest, h⟩ := Option.bind_eq_some_iff.mp h
      cases h
      exact .cons hb (ih hrest)

theorem mapM_length {α β : Type u} {f : α → Except ε β} : ∀ {as : List α} {bs : List β},
    as.mapM f = .ok bs → bs.length = as.length := by
  intro as
  induction as with
  | nil =>
      intro bs h
      cases h
      rfl
  | cons a as ih =>
      intro bs h
      rw [List.mapM_cons] at h
      obtain ⟨b, _, h⟩ := bind_eq_ok.mp h
      obtain ⟨bs', hbs', h⟩ := bind_eq_ok.mp h
      cases h
      rw [List.length_cons, List.length_cons, ih hbs']

/-- Two lists of one length agree where the results of the first do. -/
theorem map_eq_of_mapM {α β γ : Type u} {f : α → Except ε β} {g : β → γ} {as : List α} {bs : List β}
    {cs : List γ} (h : as.mapM f = .ok bs) (hlength : cs.length = as.length)
    (heach : ∀ (i : Nat) a b, as[i]? = some a → f a = .ok b → cs[i]? = some (g b)) : bs.map g = cs := by
  refine List.ext_getElem? fun i => ?_
  rw [List.getElem?_map]
  cases hb : bs[i]? with
  | none =>
      have hi : as.length ≤ i := mapM_length h ▸ List.getElem?_eq_none_iff.mp hb
      exact (List.getElem?_eq_none (hlength ▸ hi)).symm
  | some b =>
      obtain ⟨a, ha, hab⟩ := mapM_getElem? h i b hb
      exact (heach i a b ha hab).symm

section Restoring

variable {τ η β γ : Type} {f : β → StateT τ (Except η) γ} {s : τ} {r : β → γ}

/-- Steps that give the state back as it was. -/
theorem mapM_restores {as : List β} (h : ∀ a ∈ as, (f a).run s = .ok (r a, s)) :
    (as.mapM f).run s = .ok (as.map r, s) := by
  induction as with
  | nil => rfl
  | cons a as ih =>
      rw [List.mapM_cons, StateT.run_bind, h a List.mem_cons_self]
      show (as.mapM f >>= fun bs => pure (r a :: bs)).run s = _
      rw [StateT.run_bind, ih fun b hb => h b (List.mem_cons_of_mem a hb)]
      rfl

/-- Where a step fails, the steps before it have given the state back. -/
theorem mapM_stops {as : List β} {e : η}
    (h : ∀ a ∈ as, (f a).run s = .ok (r a, s) ∨ (f a).run s = .error e)
    (hbad : ∃ a ∈ as, (f a).run s = .error e) : (as.mapM f).run s = .error e := by
  induction as with
  | nil =>
      obtain ⟨a, ha, _⟩ := hbad
      exact absurd ha List.not_mem_nil
  | cons a as ih =>
      rw [List.mapM_cons, StateT.run_bind]
      rcases h a List.mem_cons_self with hok | herror
      · obtain ⟨b, hb, hfail⟩ := hbad
        rcases List.mem_cons.mp hb with rfl | hb
        · rw [hok] at hfail
          cases hfail
        · rw [hok]
          show (as.mapM f >>= fun bs => pure (r a :: bs)).run s = _
          rw [StateT.run_bind, ih (fun c hc => h c (List.mem_cons_of_mem a hc)) ⟨b, hb, hfail⟩]
          rfl
      · rw [herror]
        rfl

end Restoring

end Caveat.Lib
