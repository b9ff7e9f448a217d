import Mathlib.Logic.Basic

/-!
# Programs that keep a state when they throw

A program is an `EStateM`: it returns or throws, and in both cases there is a state afterwards.
`Meets P x Q E` says that from a state with `P` the program `x` returns with `Q` or throws with
`E`. A command may fail for a reason from outside: before it has done anything, after it has done
all, or on the way.
-/

namespace Caveat.Lib

variable {ε ε' σ α β δ : Type}

/-- A program and what it leaves. -/
def Meets (P : σ → Prop) (x : EStateM ε σ α) (Q : α → σ → Prop) (E : ε → σ → Prop) : Prop :=
  ∀ s, P s → match x s with
    | .ok a s' => Q a s'
    | .error e s' => E e s'

/-- The state after a run. -/
def stateAfter : EStateM.Result ε σ α → σ
  | .ok _ s => s
  | .error _ s => s

namespace Meets

variable {P P' : σ → Prop} {x : EStateM ε σ α} {Q Q' : α → σ → Prop} {E E' : ε → σ → Prop}

theorem weaken (h : Meets P x Q E) (hP : ∀ s, P' s → P s) (hQ : ∀ a s, Q a s → Q' a s)
    (hE : ∀ e s, E e s → E' e s) : Meets P' x Q' E' := by
  intro s hs
  have hx := h s (hP s hs)
  cases hrun : x s with
  | ok a s' =>
      rw [hrun] at hx
      exact hQ a s' hx
  | error e s' =>
      rw [hrun] at hx
      exact hE e s' hx

theorem pre (h : Meets P x Q E) (hP : ∀ s, P' s → P s) : Meets P' x Q E :=
  h.weaken hP (fun _ _ hq => hq) (fun _ _ he => he)

theorem post (h : Meets P x Q E) (hQ : ∀ a s, Q a s → Q' a s) : Meets P x Q' E :=
  h.weaken (fun _ hp => hp) hQ (fun _ _ he => he)

/-- What a program meets in two ways it meets at once. -/
theorem both {R : α → σ → Prop} {F : ε → σ → Prop} (h : Meets P x Q E) (h' : Meets P' x R F) :
    Meets (fun s => P s ∧ P' s) x (fun a s => Q a s ∧ R a s) (fun e s => E e s ∧ F e s) := by
  intro s hs
  have hx := h s hs.1
  have hx' := h' s hs.2
  cases hrun : x s with
  | ok a s' =>
      rw [hrun] at hx hx'
      exact ⟨hx, hx'⟩
  | error e s' =>
      rw [hrun] at hx hx'
      exact ⟨hx, hx'⟩

/-- A fact about no state may be used for the program. -/
theorem assume {p : Prop} (h : p → Meets P x Q E) : Meets (fun s => P s ∧ p) x Q E :=
  fun s hs => h hs.2 s hs.1

/-- What is about no state is met by every program. -/
theorem always {q : Prop} (h : ∀ s, P s → q) : Meets P x (fun _ _ => q) (fun _ _ => True) := by
  intro s hs
  cases x s with
  | ok a s' => exact h s hs
  | error e s' => trivial

theorem pure {a : α} (h : ∀ s, P s → Q a s) : Meets P (Pure.pure a : EStateM ε σ α) Q E :=
  fun s hs => h s hs

theorem throw {e : ε} (h : ∀ s, P s → E e s) : Meets P (throw e : EStateM ε σ α) Q E :=
  fun s hs => h s hs

theorem bind {f : α → EStateM ε σ β} {R : β → σ → Prop} (hx : Meets P x Q E)
    (hf : ∀ a, Meets (Q a) (f a) R E) : Meets P (x >>= f) R E := by
  intro s hs
  have h := hx s hs
  show match EStateM.bind x f s with
    | .ok a s' => R a s'
    | .error e s' => E e s'
  unfold EStateM.bind
  cases hrun : x s with
  | ok a s' =>
      rw [hrun] at h
      exact hf a s' h
  | error e s' =>
      rw [hrun] at h
      exact h

/-- What follows a program may rely on how the program has run. -/
theorem bind_run {f : α → EStateM ε σ β} {R : β → σ → Prop} {s : σ} (hx : Meets (· = s) x Q E)
    (hf : ∀ a s', x s = .ok a s' → Q a s' → Meets (· = s') (f a) R E')
    (hE : ∀ e s', (∀ a s'', x s ≠ .ok a s'') → E e s' → E' e s') : Meets (· = s) (x >>= f) R E' := by
  intro s₀ hs
  obtain rfl := hs
  have h := hx s₀ rfl
  show match EStateM.bind x f s₀ with
    | .ok a s' => R a s'
    | .error e s' => E' e s'
  unfold EStateM.bind
  cases hrun : x s₀ with
  | ok a s' =>
      rw [hrun] at h
      exact hf a s' hrun h s' rfl
  | error e s' =>
      rw [hrun] at h
      exact hE e s' (by simp [hrun]) h

/-- What is caught leaves the state in which it was thrown. -/
theorem tryCatch {handle : ε → EStateM ε σ α} (hx : Meets P x Q E)
    (hhandle : ∀ e, Meets (E e) (handle e) Q E') : Meets P (tryCatch x handle) Q E' := by
  intro s hs
  have h := hx s hs
  show match EStateM.tryCatch x handle s with
    | .ok a s' => Q a s'
    | .error e s' => E' e s'
  unfold EStateM.tryCatch
  cases hrun : x s with
  | ok a s' =>
      rw [hrun] at h
      exact h
  | error e s' =>
      rw [hrun] at h
      exact hhandle e s' h

theorem ite {c : Prop} [Decidable c] {y : EStateM ε σ α} (hx : c → Meets P x Q E)
    (hy : ¬ c → Meets P y Q E) : Meets P (if c then x else y) Q E := by
  split
  · rename_i h
    exact hx h
  · rename_i h
    exact hy h

theorem get {Q : σ → σ → Prop} {E : ε → σ → Prop} (h : ∀ s, P s → Q s s) :
    Meets P (get : EStateM ε σ σ) Q E := fun s hs => h s hs

/-- What follows a look at the state starts in that state. -/
theorem get_bind {f : σ → EStateM ε σ α} (h : ∀ s, P s → Meets (· = s) (f s) Q E) :
    Meets P (MonadState.get >>= f) Q E := fun s hs => h s hs s rfl

/-- The run of a program, from the state it starts in. -/
theorem run (h : Meets P x Q E) {s : σ} (hs : P s) : (∃ a s', x s = .ok a s' ∧ Q a s') ∨
    ∃ e s', x s = .error e s' ∧ E e s' := by
  have hx := h s hs
  cases hrun : x s with
  | ok a s' =>
      rw [hrun] at hx
      exact Or.inl ⟨a, s', rfl, hx⟩
  | error e s' =>
      rw [hrun] at hx
      exact Or.inr ⟨e, s', rfl, hx⟩

end Meets

/-- Throw, if something is the case. -/
def throwIf (e : ε) (c : Prop) [Decidable c] : EStateM ε σ Unit := if c then throw e else pure ()

/-- Run a program, if something is the case. -/
def doIf (c : Prop) [Decidable c] (x : EStateM ε σ Unit) : EStateM ε σ Unit :=
  if c then x else pure ()

theorem Meets.throwIf {P : σ → Prop} {E : ε → σ → Prop} {e : ε} {c : Prop} [Decidable c]
    (h : ∀ s, P s → c → E e s) : Meets P (Lib.throwIf e c) (fun _ => P) E := by
  unfold Lib.throwIf
  exact Meets.ite (fun hc => Meets.throw fun s hs => h s hs hc) fun _ => Meets.pure fun _ hs => hs

/-- What follows a test that throws may rely on it. -/
theorem Meets.throwIf_bind {P : σ → Prop} {Q : α → σ → Prop} {E : ε → σ → Prop} {e : ε} {c : Prop}
    [Decidable c] {f : Unit → EStateM ε σ α} (h : ∀ s, P s → c → E e s)
    (hf : ¬ c → Meets P (f ()) Q E) : Meets P (Lib.throwIf e c >>= f) Q E := by
  unfold Lib.throwIf
  by_cases hc : c
  · rw [if_pos hc]
    exact Meets.bind (Q := fun _ _ => False) (Meets.throw fun s hs => h s hs hc)
      fun _ _ hfalse => hfalse.elim
  · rw [if_neg hc]
    exact hf hc

theorem Meets.doIf {P : σ → Prop} {Q : Unit → σ → Prop} {E : ε → σ → Prop} {c : Prop}
    [Decidable c] {x : EStateM ε σ Unit} (hx : c → Meets P x Q E) (h : ∀ s, P s → ¬ c → Q () s) :
    Meets P (doIf c x) Q E := by
  unfold Lib.doIf
  exact Meets.ite hx fun hc => Meets.pure fun s hs => h s hs hc

/-- What a program returns, if it does not throw. -/
def optional (x : EStateM ε σ α) : EStateM ε σ (Option α) :=
  tryCatch (do let a ← x; return some a) (fun _ => return none)

theorem Meets.optional {P : σ → Prop} {Q : Option α → σ → Prop} {R : α → σ → Prop}
    {E F : ε → σ → Prop} {x : EStateM ε σ α} (hx : Meets P x R F)
    (hsome : ∀ a s, R a s → Q (some a) s) (hnone : ∀ e s, F e s → Q none s) :
    Meets P (optional x) Q E := by
  unfold Lib.optional
  refine Meets.tryCatch (E := F) (Meets.bind hx fun a => Meets.pure (hsome a)) fun e => ?_
  exact Meets.pure (hnone e)

/-- A loop over a list. -/
def forEach (body : α → EStateM ε σ Unit) : List α → EStateM ε σ Unit
  | [] => pure ()
  | a :: as => do
      body a
      forEach body as

/-- **The loop rule.** The invariant knows the items that are done. -/
theorem Meets.forEach {body : α → EStateM ε σ Unit} {I : List α → σ → Prop} {E : ε → σ → Prop}
    {as : List α} (hbody : ∀ done a rest, as = done ++ a :: rest →
      Meets (I done) (body a) (fun _ => I (done ++ [a])) E) :
    Meets (I []) (Lib.forEach body as) (fun _ => I as) E := by
  have hloop : ∀ (rest done : List α), as = done ++ rest →
      Meets (I done) (Lib.forEach body rest) (fun _ => I as) E := by
    intro rest
    induction rest with
    | nil =>
        intro done hsplit
        rw [List.append_nil] at hsplit
        rw [hsplit]
        exact Meets.pure fun _ hs => hs
    | cons a rest ih =>
        intro done hsplit
        exact (hbody done a rest hsplit).bind fun _ => ih (done ++ [a]) (by simp [hsplit])
  exact hloop as [] rfl

/-! ## What a program leaves alone -/

/-- What a program reads of the state is the same afterwards, whether it returns or throws. -/
def Keeps (f : σ → δ) (x : EStateM ε σ α) : Prop := ∀ s, f (stateAfter (x s)) = f s

namespace Keeps

variable {f : σ → δ} {x : EStateM ε σ α}

/-- What keeps the whole keeps a part of it. -/
theorem part {γ : Type} (g : δ → γ) (h : Keeps f x) : Keeps (fun s => g (f s)) x :=
  fun s => congrArg g (h s)

theorem pure {a : α} : Keeps f (Pure.pure a : EStateM ε σ α) := fun _ => rfl

theorem throw {e : ε} : Keeps f (throw e : EStateM ε σ α) := fun _ => rfl

theorem get : Keeps f (get : EStateM ε σ σ) := fun _ => rfl

theorem modify {g : σ → σ} (h : ∀ s, f (g s) = f s) : Keeps f (modify g : EStateM ε σ PUnit) := h

theorem bind {y : α → EStateM ε σ β} (hx : Keeps f x) (hy : ∀ a, Keeps f (y a)) :
    Keeps f (x >>= y) := by
  intro s
  have h := hx s
  show f (stateAfter (EStateM.bind x y s)) = f s
  unfold EStateM.bind
  cases hrun : x s with
  | ok a s' =>
      rw [hrun] at h
      exact (hy a s').trans h
  | error e s' =>
      rw [hrun] at h
      exact h

theorem tryCatch {handle : ε → EStateM ε σ α} (hx : Keeps f x) (hhandle : ∀ e, Keeps f (handle e)) :
    Keeps f (tryCatch x handle) := by
  intro s
  have h := hx s
  show f (stateAfter (EStateM.tryCatch x handle s)) = f s
  unfold EStateM.tryCatch
  cases hrun : x s with
  | ok a s' =>
      rw [hrun] at h
      exact h
  | error e s' =>
      rw [hrun] at h
      exact (hhandle e s').trans h

theorem ite {c : Prop} [Decidable c] {y : EStateM ε σ α} (hx : Keeps f x) (hy : Keeps f y) :
    Keeps f (if c then x else y) := by
  split
  · exact hx
  · exact hy

theorem throwIf {e : ε} {c : Prop} [Decidable c] : Keeps f (Lib.throwIf e c : EStateM ε σ Unit) :=
  ite throw pure

theorem doIf {c : Prop} [Decidable c] {x : EStateM ε σ Unit} (hx : Keeps f x) :
    Keeps f (Lib.doIf c x) :=
  ite hx pure

theorem forEach {body : α → EStateM ε σ Unit} (hbody : ∀ a, Keeps f (body a)) (as : List α) :
    Keeps f (Lib.forEach body as) := by
  induction as with
  | nil => exact pure
  | cons a as ih => exact (hbody a).bind fun _ => ih

/-- What holds of the part that is left alone holds afterwards. -/
theorem meets {P : δ → Prop} (h : Keeps f x) :
    Meets (fun s => P (f s)) x (fun _ s => P (f s)) (fun _ s => P (f s)) := by
  intro s hs
  have hkept := h s
  cases hrun : x s with
  | ok a s' =>
      rw [hrun] at hkept
      show P (f s')
      rw [show f s' = f s from hkept]
      exact hs
  | error e s' =>
      rw [hrun] at hkept
      show P (f s')
      rw [show f s' = f s from hkept]
      exact hs

end Keeps

/-! ## Commands from outside -/

/-- How a command fails; on the way it leaves something behind. -/
inductive Fault (δ : Type) where
  | before
  | after
  | midway (left : δ)

/-- A command of the environment, or the error of its failure. -/
def command (e : ε) (fault : Option (Fault δ)) (leave : δ → σ → σ) (effect : σ → Option σ) :
    EStateM ε σ Unit := fun s =>
  match fault with
  | some .before => .error e s
  | some (.midway left) => .error e (leave left s)
  | some .after => .error e ((effect s).getD s)
  | none =>
      match effect s with
      | some s' => .ok () s'
      | none => .error e s

/-- A question to the environment. -/
def query (e : ε) (fails : Bool) (read : σ → Option α) : EStateM ε σ α :=
  fun s =>
    if fails then .error e s
    else
      match read s with
      | some a => .ok a s
      | none => .error e s

section Commands

variable {P : σ → Prop} {Q : Unit → σ → Prop} {E : ε → σ → Prop} {e : ε}

/-- A command that fails leaves the state alone, or has done its work, or stops on the way. -/
theorem Meets.command {fault : Option (Fault δ)} {leave : δ → σ → σ} {effect : σ → Option σ}
    (heffect : ∀ s s', P s → effect s = some s' → Q () s' ∧ E e s') (hbefore : ∀ s, P s → E e s)
    (hleave : ∀ left s, P s → E e (leave left s)) :
    Meets P (command e fault leave effect) Q E := by
  intro s hs
  unfold Lib.command
  cases fault with
  | none =>
      cases heff : effect s with
      | none => exact hbefore s hs
      | some s' => exact (heffect s s' hs heff).1
  | some f =>
      cases f with
      | before => exact hbefore s hs
      | midway left => exact hleave left s hs
      | after =>
          cases heff : effect s with
          | none => exact hbefore s hs
          | some s' => exact (heffect s s' hs heff).2

theorem Meets.query {α : Type} {fails : Bool} {read : σ → Option α} {Q : α → σ → Prop}
    (hread : ∀ s a, P s → read s = some a → Q a s) (hfail : ∀ s, P s → E e s) :
    Meets P (query e fails read) Q E := by
  intro s hs
  unfold Lib.query
  cases fails with
  | true => exact hfail s hs
  | false =>
      cases hr : read s with
      | none => exact hfail s hs
      | some a => exact hread s a hs hr

end Commands

end Caveat.Lib
