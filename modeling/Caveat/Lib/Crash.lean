import Caveat.Lib.Effect

/-!
# Processes that may die

A process runs commands of the environment. Each of them is done, fails, or is the last thing that the
process does; a command that fails or at which the process dies has done nothing, all, or a part. A
process that throws runs its final steps, and one that dies does not.
-/

namespace Caveat.Lib

variable {ε σ α β δ : Type}

/-- How a process ends early. -/
inductive Stop (ε : Type) where
  | threw (e : ε)
  | died
deriving DecidableEq

abbrev Process (ε σ α : Type) := EStateM (Stop ε) σ α

/-- What becomes of a command. -/
inductive Fate (δ : Type) where
  | done
  | fails (fault : Fault δ)
  | dies (fault : Fault δ)

def Fate.isFailure : Fate δ → Bool
  | .fails _ => true
  | _ => false

/-- A command, or the error of its failure. -/
def call (e : ε) (fate : Fate δ) (leave : δ → σ → σ) (effect : σ → Option σ) : Process ε σ Unit :=
  match fate with
  | .done => command (.threw e) (none : Option (Fault δ)) leave effect
  | .fails fault => command (.threw e) (some fault) leave effect
  | .dies fault => command .died (some fault) leave effect

/-- A command that does all or nothing, and nothing when it fails. -/
def atomic (e : ε) (fate : Fate δ) (effect : σ → Option σ) : Process ε σ Unit :=
  match fate with
  | .done => command (.threw e) (none : Option (Fault δ)) (fun _ s => s) effect
  | .fails _ => throw (.threw e)
  | .dies fault => command .died (some fault) (fun _ s => s) effect

/-- A look at the environment, with what is made of it. -/
def look (e : ε) (fate : Fate δ) (read : σ → Except ε α) : Process ε σ α := fun s =>
  match fate with
  | .done =>
      match read s with
      | .ok a => .ok a s
      | .error e => .error (.threw e) s
  | .fails _ => .error (.threw e) s
  | .dies _ => .error .died s

/-- `try { .. } finally { .. }`. -/
def finallyDo (x : Process ε σ α) (last : Process ε σ Unit) : Process ε σ α := fun s =>
  match x s with
  | .ok a s' =>
      match last s' with
      | .ok _ s'' => .ok a s''
      | .error e s'' => .error e s''
  | .error (.threw e) s' =>
      match last s' with
      | .ok _ s'' => .error (.threw e) s''
      | .error e' s'' => .error e' s''
  | .error .died s' => .error .died s'

/-- `try { .. } catch { .. }`. -/
def rescue (x : Process ε σ α) (handle : ε → Process ε σ α) : Process ε σ α := fun s =>
  match x s with
  | .error (.threw e) s' => handle e s'
  | result => result

/-- Whether a command that does all or nothing has done all. -/
def Fate.lands : Fate δ → Bool
  | .done => true
  | .dies .after => true
  | _ => false

/-! ## Rules -/

/-- What a command may have done, if it was not done. -/
def Touched (leave : δ → σ → σ) (effect : σ → Option σ) (s s' : σ) : Prop :=
  s' = s ∨ effect s = some s' ∨ ∃ left, s' = leave left s

variable {P : σ → Prop} {E E' : Stop ε → σ → Prop} {e : ε} {fate : Fate δ}

theorem command_touched {e : Stop ε} {f : Fault δ} {l : δ → σ → σ} {g : σ → Option σ}
    (s : σ) : ∃ s', command e (some f) l g s = .error e s' ∧ Touched l g s s' := by
  cases f with
  | before => exact ⟨s, rfl, .inl rfl⟩
  | midway left => exact ⟨l left s, rfl, .inr (.inr ⟨left, rfl⟩)⟩
  | after =>
      cases heff : g s with
      | none => exact ⟨s, by simp [command, heff], .inl rfl⟩
      | some s' => exact ⟨s', by simp [command, heff], .inr (.inl heff)⟩

/-- **A command** is done, or has touched the state. -/
theorem Meets.call {Q : Unit → σ → Prop} {leave : δ → σ → σ} {effect : σ → Option σ}
    (hdone : ∀ s s', fate = .done → P s → effect s = some s' → Q () s')
    (hstop : ∀ stop s s', P s → Touched leave effect s s' → E stop s') :
    Meets P (Lib.call e fate leave effect) Q E := by
  intro s hs
  unfold Lib.call
  cases fate with
  | done =>
      dsimp only
      unfold Lib.command
      cases heff : effect s with
      | none => exact hstop _ s s hs (.inl rfl)
      | some s' => exact hdone s s' rfl hs heff
  | fails fault =>
      obtain ⟨s', hrun, htouched⟩ := command_touched (e := .threw e) (f := fault) (l := leave)
        (g := effect) s
      dsimp only
      rw [hrun]
      exact hstop _ s s' hs htouched
  | dies fault =>
      obtain ⟨s', hrun, htouched⟩ := command_touched (e := .died) (f := fault) (l := leave)
        (g := effect) s
      dsimp only
      rw [hrun]
      exact hstop _ s s' hs htouched

/-- A command that is possible throws only where it fails. -/
theorem Meets.call_possible {Q : Unit → σ → Prop} {leave : δ → σ → σ} {effect : σ → Option σ}
    (hpossible : ∀ s, P s → (effect s).isSome = true)
    (hdone : ∀ s s', P s → effect s = some s' → Q () s')
    (hfailed : fate.isFailure = true → ∀ e s s', P s → Touched leave effect s s' → E (.threw e) s')
    (hdied : ∀ s s', P s → Touched leave effect s s' → E .died s') :
    Meets P (Lib.call e fate leave effect) Q E := by
  intro s hs
  unfold Lib.call
  cases fate with
  | done =>
      dsimp only
      unfold Lib.command
      cases heff : effect s with
      | none =>
          have hsome := hpossible s hs
          rw [heff] at hsome
          exact absurd hsome (by simp)
      | some s' => exact hdone s s' hs heff
  | fails fault =>
      obtain ⟨s', hrun, htouched⟩ := command_touched (e := .threw e) (f := fault) (l := leave)
        (g := effect) s
      dsimp only
      rw [hrun]
      exact hfailed rfl e s s' hs htouched
  | dies fault =>
      obtain ⟨s', hrun, htouched⟩ := command_touched (e := .died) (f := fault) (l := leave)
        (g := effect) s
      dsimp only
      rw [hrun]
      exact hdied s s' hs htouched

theorem Meets.atomic {Q : Unit → σ → Prop} {effect : σ → Option σ}
    (hdone : ∀ s s', P s → effect s = some s' → (fate = .done → Q () s') ∧ E .died s')
    (hstop : ∀ stop s, P s → E stop s) : Meets P (Lib.atomic e fate effect) Q E := by
  intro s hs
  unfold Lib.atomic
  cases fate with
  | done =>
      dsimp only
      unfold Lib.command
      cases heff : effect s with
      | none => exact hstop _ s hs
      | some s' => exact (hdone s s' hs heff).1 rfl
  | fails fault => exact hstop _ s hs
  | dies fault =>
      obtain ⟨s', hrun, htouched⟩ := command_touched (e := .died) (f := fault)
        (l := fun _ s => s) (g := effect) s
      dsimp only
      rw [hrun]
      rcases htouched with heq | heff | ⟨_, heq⟩
      · exact heq ▸ hstop _ s hs
      · exact (hdone s s' hs heff).2
      · exact heq ▸ hstop _ s hs

theorem Meets.look {Q : α → σ → Prop} {read : σ → Except ε α}
    (hread : ∀ s a, fate = .done → P s → read s = .ok a → Q a s)
    (hstop : ∀ stop s, P s → E stop s) : Meets P (Lib.look e fate read) Q E := by
  intro s hs
  unfold Lib.look
  cases fate with
  | done =>
      cases hr : read s with
      | ok a => exact hread s a rfl hs hr
      | error e => exact hstop _ s hs
  | fails fault => exact hstop _ s hs
  | dies fault => exact hstop _ s hs

/-- What a command that was not done leaves. -/
def Fault.left (fault : Fault δ) (leave : δ → σ → σ) (effect : σ → Option σ) (s : σ) : σ :=
  match fault with
  | .before => s
  | .after => (effect s).getD s
  | .midway l => leave l s

theorem command_fault {e : Stop ε} {leave : δ → σ → σ} {effect : σ → Option σ} (fault : Fault δ)
    (s : σ) : command e (some fault) leave effect s = .error e (fault.left leave effect s) := by
  cases fault <;> rfl

/-- **A command**, by its fate. -/
theorem Meets.call_cases {Q : Unit → σ → Prop} {leave : δ → σ → σ} {effect : σ → Option σ}
    (hdone : ∀ s s', fate = .done → P s → effect s = some s' → Q () s')
    (hnone : ∀ s, fate = .done → P s → effect s = none → E (.threw e) s)
    (hfails : ∀ fault s, fate = .fails fault → P s → E (.threw e) (fault.left leave effect s))
    (hdies : ∀ fault s, fate = .dies fault → P s → E .died (fault.left leave effect s)) :
    Meets P (Lib.call e fate leave effect) Q E := by
  intro s hs
  unfold Lib.call
  cases hfate : fate with
  | done =>
      dsimp only
      cases heff : effect s with
      | none =>
          have hrun : Lib.command (Stop.threw e) (none : Option (Fault δ)) leave effect s =
              .error (Stop.threw e) s := by simp [Lib.command, heff]
          rw [hrun]
          exact hnone s hfate hs heff
      | some s' =>
          have hrun : Lib.command (Stop.threw e) (none : Option (Fault δ)) leave effect s = .ok () s' := by
            simp [Lib.command, heff]
          rw [hrun]
          exact hdone s s' hfate hs heff
  | fails fault =>
      dsimp only
      rw [command_fault]
      exact hfails fault s hfate hs
  | dies fault =>
      dsimp only
      rw [command_fault]
      exact hdies fault s hfate hs

/-- A command that does all or nothing, by its fate. -/
theorem Meets.atomic_cases {Q : Unit → σ → Prop} {effect : σ → Option σ}
    (hdone : ∀ s s', fate = .done → P s → effect s = some s' → Q () s')
    (hnone : ∀ s, fate = .done → P s → effect s = none → E (.threw e) s)
    (hfails : ∀ fault s, fate = .fails fault → P s → E (.threw e) s)
    (hdies : ∀ fault s, fate = .dies fault → P s →
      E .died (if fate.lands then (effect s).getD s else s)) :
    Meets P (Lib.atomic e fate effect) Q E := by
  cases hfate : fate with
  | done =>
      have hcall : Meets P (Lib.call e fate (fun _ s => s) effect) Q E :=
        Meets.call_cases hdone hnone
          (fun fault s h hs => absurd (hfate.symm.trans h) (by simp))
          (fun fault s h hs => absurd (hfate.symm.trans h) (by simp))
      rwa [hfate] at hcall
  | fails fault => exact fun s hs => hfails fault s hfate hs
  | dies fault =>
      intro s hs
      have h := hdies fault s hfate hs
      unfold Lib.atomic
      dsimp only
      rw [command_fault]
      rw [hfate] at h
      cases fault <;> exact h

/-- A look, by its fate and what is made of it. -/
theorem Meets.look_cases {Q : α → σ → Prop} {read : σ → Except ε α}
    (hok : ∀ s a, P s → read s = .ok a → Q a s)
    (herror : ∀ s e', P s → read s = .error e' → E (.threw e') s)
    (hfails : ∀ s, P s → E (.threw e) s) (hdies : ∀ s, P s → E .died s) :
    Meets P (Lib.look e fate read) Q E := by
  intro s hs
  unfold Lib.look
  cases fate with
  | done =>
      cases hr : read s with
      | ok a => exact hok s a hs hr
      | error e' => exact herror s e' hs hr
  | fails fault => exact hfails s hs
  | dies fault => exact hdies s hs

/-- **The final steps** run after a return and after a throw. -/
theorem Meets.finallyDo {x : Process ε σ α} {last : Process ε σ Unit} {Q Q' : α → σ → Prop}
    (hx : Meets P x Q E) (hreturn : ∀ a, Meets (Q a) last (fun _ => Q' a) E')
    (hthrow : ∀ e, Meets (E (.threw e)) last (fun _ => E' (.threw e)) E')
    (hdied : ∀ s, E .died s → E' .died s) : Meets P (Lib.finallyDo x last) Q' E' := by
  intro s hs
  have hrun := hx s hs
  unfold Lib.finallyDo
  cases hresult : x s with
  | ok a s' =>
      rw [hresult] at hrun
      have hlast := hreturn a s' hrun
      dsimp only
      cases hfinal : last s' with
      | ok _ s'' =>
          rw [hfinal] at hlast
          exact hlast
      | error e s'' =>
          rw [hfinal] at hlast
          exact hlast
  | error stop s' =>
      rw [hresult] at hrun
      cases stop with
      | died => exact hdied s' hrun
      | threw e =>
          have hlast := hthrow e s' hrun
          dsimp only
          cases hfinal : last s' with
          | ok _ s'' =>
              rw [hfinal] at hlast
              exact hlast
          | error e' s'' =>
              rw [hfinal] at hlast
              exact hlast

/-- What is thrown is handled, and a death is not. -/
theorem Meets.rescue {x : Process ε σ α} {handle : ε → Process ε σ α} {Q : α → σ → Prop}
    (hx : Meets P x Q E) (hhandle : ∀ e, Meets (E (.threw e)) (handle e) Q E')
    (hdied : ∀ s, E .died s → E' .died s) : Meets P (Lib.rescue x handle) Q E' := by
  intro s hs
  have hrun := hx s hs
  unfold Lib.rescue
  cases hresult : x s with
  | ok a s' =>
      rw [hresult] at hrun
      exact hrun
  | error stop s' =>
      rw [hresult] at hrun
      cases stop with
      | threw e => exact hhandle e s' hrun
      | died => exact hdied s' hrun

end Caveat.Lib
