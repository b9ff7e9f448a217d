import Caveat.Managed.PreservationLaw

/-!
# Mutations where they may be made

What a call asserts of the objects before it verifies anything still holds when the mutation is asked
for: the checks, the evidence and the intent in between change no object, and a turn of a loop changes
no object of a later turn.
-/

namespace Caveat.Managed.Preservation

open Js Lib Recovery

variable {host : Host} {r : Reviewed} {α : Type} {s s' : State host} {step : Text}

/-! ## What may be asked for -/

/-- No working copy is where the original belongs. -/
def Vacated (o : EvidenceObject) : Prop := ∀ w ∈ o.working, w.status = .quarantined ∨ w.status = .absent

/-- The originals of a role are back in their places. -/
def RoleBack (objects : List EvidenceObject) (role : Role) : Prop :=
  ∀ o ∈ objects, o.role = role → isBack o = true

/-- Packages go back first, and leaves last. -/
structure InRestoreOrder (objects : List EvidenceObject) (role : Role) : Prop where
  packages : role ≠ .package → RoleBack objects .package
  managements : role = .leaf → RoleBack objects .npmManagement

/-- Where a mutation may be made. -/
def Mutation.Allowed (objects : List EvidenceObject) : Mutation → Prop
  | .retain o => o ∈ objects ∧ o.state = .original
  | .copy o => o ∈ objects ∧ o.state = .preserved ∧ o.working = none
  | .uninstall => ∀ o ∈ objects, o.state = .preserved ∧ o.working.isSome = true
  | .retire o => o ∈ objects ∧ ∃ w ∈ o.working, w.status = .known ∨ w.status = .afterKnown
  | .restore o => o ∈ objects ∧ o.state = .preserved ∧ Vacated o ∧ InRestoreOrder objects o.role
  | .publish _ => ∀ o ∈ objects, o.role = .npmManagement ∨
      (o.state = .preserved ∧ ∃ w ∈ o.working, w.status = .absent)
  | .withdraw generated => generated.status = .installed

/-- Each mutation was asked for where it may be made. -/
def Orderly (s : State host) : Prop := ∀ i ∈ s.issued, i.mutation.Allowed i.objects

/-! ## What is left alone on the way -/

section Frames

variable {δ : Type} {f : State host → δ}
  (h : ∀ s w j b, f { s with world := w, journal := j, stopped := b } = f s)
include h

theorem keeps_append (event : JournalEvent) : Keeps f (append event : Program host Unit) := by
  intro s
  unfold append
  dsimp only
  cases appendEvent host.doubles host.sha host.plan s.journal event (host.appendFault s.world).1 with
  | mk result j =>
      cases result with
      | ok _ => exact h s _ j s.stopped
      | error _ => exact h s _ j s.stopped

theorem keeps_verify_of : Keeps f (verify : Program host Unit) :=
  keeps_verify fun s w => h s w s.journal s.stopped

theorem keeps_stop_of : Keeps f (stop : Program host Unit) :=
  Keeps.modify fun s => h s s.world s.journal true

theorem keeps_record (operation : GlobalJournalOperation) (outcome : JournalOutcome) (ofShell : Bool)
    (error : Option Failure) : Keeps f (record r step operation outcome ofShell error) :=
  (keeps_readJournal fun s w => h s w s.journal s.stopped).bind fun _ => Keeps.get.bind fun _ =>
    (keeps_outside (fun s w => h s w s.journal s.stopped) _).bind fun _ => keeps_append h _

theorem keeps_settle (operation : GlobalJournalOperation) (outcome : JournalOutcome)
    (error : Option Failure) : Keeps f (settle r step operation outcome error) := by
  refine (keeps_attempt (keeps_record h operation outcome false error)).bind fun a => ?_
  split
  · exact (keeps_stop_of h).bind fun _ => .pure
  · refine .ite .pure ((keeps_attempt (keeps_verify_of h)).bind fun b => ?_)
    split
    · exact .pure
    · exact (keeps_stop_of h).bind fun _ => .pure

end Frames

theorem keeps_mutate {δ : Type} {f : State host → δ}
    (h : ∀ s w is, f { s with world := w, issued := is } = f s) (mutation : Mutation)
    (isDone : α → Bool) (x : EStateM Failure host.World α) : Keeps f (mutate mutation step isDone x) := by
  intro s
  unfold mutate
  dsimp only
  cases x s.world with
  | ok a w => exact h s w _
  | error e w => exact h s w _

theorem keeps_conclude {δ : Type} {f : State host → δ} {leave : Program host Unit} {x : Program host Bool}
    (hleave : Keeps f leave) (hx : Keeps f x) : Keeps f (conclude leave x) := by
  refine (keeps_attempt hx).bind fun a => ?_
  split
  · exact .pure
  · exact hleave.bind fun _ => .pure
  · exact hleave.bind fun _ => .pure

/-- What a condition on a mutation is about. -/
def looked (s : State host) : List Issue × List EvidenceObject × ShellState := (s.issued, s.objects, s.shell)

/-- Before a mutation: something is known of the objects and of the shell. -/
def Before (C : List EvidenceObject → ShellState → Prop) (s : State host) : Prop :=
  Orderly s ∧ C s.objects s.shell

section Programs

variable {C : List EvidenceObject → ShellState → Prop} {Q : α → State host → Prop}

theorem before_of_keeps {x : Program host α} (h : Keeps looked x) :
    Meets (Before C) x (fun _ => Before C) (fun _ => Orderly) := by
  have hmeets := h.meets (P := fun n => (∀ i ∈ n.1, i.mutation.Allowed i.objects) ∧ C n.2.1 n.2.2)
  exact hmeets.weaken (fun _ hs => hs) (fun _ _ hs => hs) fun _ _ hs => hs.1

theorem orderly_of_keeps {x : Program host α} (h : Keeps State.issued x) :
    Meets Orderly x (fun _ => Orderly) (fun _ => Orderly) :=
  h.meets (P := fun issued : List Issue => ∀ i ∈ issued, i.mutation.Allowed i.objects)

/-- What is known of the state is known behind a look at it. -/
theorem look_bind {f : State host → Program host α}
    (h : ∀ s₀ : State host, C s₀.objects s₀.shell →
      Meets (Before fun objects shell => objects = s₀.objects ∧ shell = s₀.shell) (f s₀) Q fun _ => Orderly) :
    Meets (Before C) (get >>= f) Q fun _ => Orderly := by
  refine Meets.get_bind fun s₀ hs => (h s₀ hs.2).pre ?_
  rintro s rfl
  exact ⟨hs.1, rfl, rfl⟩

theorem savedAt_bind {i : Nat} {f : Saved host → Program host α}
    (h : ∀ row, Meets (Before fun objects shell => C objects shell ∧ objects[i]? = some row.object) (f row) Q
      fun _ => Orderly) :
    Meets (Before C) (savedAt i >>= f) Q fun _ => Orderly := by
  refine Meets.bind (Q := fun (row : Saved host) s =>
    Before (fun objects shell => C objects shell ∧ objects[i]? = some row.object) s) ?_ h
  refine Meets.get_bind fun s₀ hs => ?_
  cases hrow : s₀.saved[i]? with
  | none =>
      refine Meets.throw fun s heq => ?_
      rw [heq]
      exact hs.1
  | some row =>
      refine Meets.pure fun s heq => ?_
      rw [heq]
      refine ⟨hs.1, hs.2, ?_⟩
      show (s₀.saved.map (·.object))[i]? = _
      rw [List.getElem?_map, hrow]
      rfl

theorem generatedAt_bind {g : Generated} {f : ShellObject → Program host α}
    (h : ∀ row, Meets (Before fun objects shell => C objects shell ∧ g.of shell = some row) (f row) Q
      fun _ => Orderly) :
    Meets (Before C) (generatedAt g >>= f) Q fun _ => Orderly := by
  refine Meets.bind (Q := fun (row : ShellObject) s =>
    Before (fun objects shell => C objects shell ∧ g.of shell = some row) s) ?_ h
  refine Meets.get_bind fun s₀ hs => ?_
  cases hrow : g.of s₀.shell with
  | none =>
      refine Meets.throw fun s heq => ?_
      rw [heq]
      exact hs.1
  | some row =>
      refine Meets.pure fun s heq => ?_
      rw [heq]
      exact ⟨hs.1, hs.2, hrow⟩

/-- A mutation is asked for where it may be made. -/
theorem mutate_orderly {mutation : Mutation} {isDone : α → Bool} {x : EStateM Failure host.World α}
    {P : State host → Prop} (hP : ∀ s, P s → Orderly s ∧ mutation.Allowed s.objects) :
    Meets P (mutate mutation step isDone x) (fun _ => Orderly) (fun _ => Orderly) := by
  intro s hs
  obtain ⟨horderly, hallowed⟩ := hP s hs
  have hsnoc : ∀ w done, Orderly { s with
      world := w, issued := s.issued ++ [⟨mutation, step, s.journal, s.objects, s.shell, done⟩] } := by
    intro w done i hi
    rcases List.mem_append.mp hi with hi | hi
    · exact horderly i hi
    · rw [List.mem_singleton.mp hi]
      exact hallowed
  unfold mutate
  dsimp only
  cases x s.world with
  | ok a w => exact hsnoc w (isDone a)
  | error e w => exact hsnoc w false

theorem conclude_orderly {P : State host → Prop} {leave : Program host Unit} {x : Program host Bool}
    (hleave : Keeps State.issued leave) (hx : Meets P x (fun _ => Orderly) (fun _ => Orderly)) :
    Meets P (conclude leave x) (fun _ => Orderly) (fun _ => Orderly) := by
  unfold conclude
  refine (Meets.attempt (R := fun _ => Orderly) hx (fun _ _ hs => hs) fun _ _ hs => hs).bind fun a => ?_
  split
  · exact Meets.pure fun _ hs => hs
  · exact (orderly_of_keeps hleave).bind fun _ => Meets.pure fun _ hs => hs
  · exact (orderly_of_keeps hleave).bind fun _ => Meets.pure fun _ hs => hs

theorem verify_before : Meets (Before C) (attempt verify : Program host (Except Failure Unit))
    (fun _ => Before C) (fun _ => Orderly) :=
  before_of_keeps (keeps_attempt (keeps_verify_of fun _ _ _ _ => rfl))

theorem intent_before {operation : GlobalJournalOperation} {stateSha256 : Units} :
    Meets (Before C) (intent step operation stateSha256 : Program host Unit) (fun _ => Before C)
      (fun _ => Orderly) :=
  before_of_keeps (keeps_append (fun _ _ _ _ => rfl) _)

theorem settle_orderly {operation : GlobalJournalOperation} {outcome : JournalOutcome}
    {error : Option Failure} : Meets (fun s : State host => Orderly s) (settle r step operation outcome error)
      (fun _ => Orderly) (fun _ => Orderly) :=
  orderly_of_keeps (keeps_settle (fun _ _ _ _ => rfl) operation outcome error)

/-- A program that writes nothing down asks for nothing. -/
theorem orderly_of_noted {x : Program host α} (h : Keeps noted x) :
    Meets Orderly x (fun _ => Orderly) (fun _ => Orderly) := orderly_of_keeps (h.part Prod.snd)

/-- Where the checks fail, nothing is asked for. -/
theorem stop_orderly {a : α} :
    Meets (Before C) (stop >>= fun _ => pure a : Program host α) (fun _ => Orderly) (fun _ => Orderly) :=
  (orderly_of_noted (keeps_stop.bind fun _ => .pure)).pre fun _ hs => hs.1

end Programs

/-! ## The engine -/

theorem moveSaved_orderly {i : Nat} {restore : Bool} {C : List EvidenceObject → ShellState → Prop}
    (hC : ∀ objects shell o, C objects shell → objects[i]? = some o →
      (if restore then Mutation.restore o else .retain o).Allowed objects) :
    Meets (fun s : State host => Before C s) (moveSaved i restore step)
      (fun _ => Orderly) (fun _ => Orderly) := by
  unfold moveSaved
  refine savedAt_bind fun row => ?_
  refine (mutate_orderly fun s hs => ⟨hs.1, hC _ _ _ hs.2.1 hs.2.2⟩).bind fun moved => ?_
  refine (orderly_of_noted (.doIf ?_)).bind fun _ => Meets.pure fun _ hs => hs
  exact (keeps_readTree (fun _ _ => rfl) _).bind fun _ => keeps_setObject i _

theorem move_orderly {i : Nat} {restore : Bool} {C : List EvidenceObject → ShellState → Prop}
    (hC : ∀ objects shell o, C objects shell → objects[i]? = some o →
      o.state = (if restore then .preserved else .original) →
        (if restore then Mutation.restore o else .retain o).Allowed objects) :
    Meets (fun s : State host => Before C s) (move r i restore) (fun _ => Orderly) (fun _ => Orderly) := by
  unfold move
  refine (before_of_keeps Keeps.get).bind fun _ => savedAt_bind fun row => ?_
  refine Meets.throwIf_bind (fun _ hs _ => hs.1) fun hstate => ?_
  have hpreserved := (not_not.mp hstate).2
  refine verify_before.bind fun a => ?_
  split
  · exact stop_orderly
  · refine (before_of_keeps Keeps.get).bind fun _ => intent_before.bind fun _ => ?_
    refine (conclude_orderly (P := Before _) ((keeps_leave i _).part Prod.snd)
      (moveSaved_orderly fun objects shell o hrow ho => ?_)).bind fun outcome =>
        settle_orderly.bind fun settled => ?_
    · obtain rfl := Option.some.inj (hrow.2.symm.trans ho)
      exact hC objects shell _ hrow.1 ho hpreserved
    · split <;> exact Meets.pure fun _ hs => hs

theorem preserveAll_orderly :
    Meets (fun s : State host => Orderly s) (preserveAll r) (fun _ => Orderly) (fun _ => Orderly) := by
  unfold preserveAll
  refine (orderly_of_keeps Keeps.get).bind fun _ => (orderly_of_keeps Keeps.throwIf).bind fun _ => ?_
  refine untilReturned_meets (fun i => ?_) _
  refine Meets.bind ((move_orderly (C := fun _ _ => True) fun objects shell o _ ho hstate => ?_).pre
    fun s hs => ⟨hs, trivial⟩) fun _ => Meets.pure fun _ hs => hs
  exact ⟨List.mem_of_getElem? ho, hstate⟩

theorem copySaved_orderly {i : Nat} {stagingName : Text} {C : List EvidenceObject → ShellState → Prop}
    (hC : ∀ objects shell o, C objects shell → objects[i]? = some o → (Mutation.copy o).Allowed objects) :
    Meets (fun s : State host => Before C s) (copySaved i step stagingName)
      (fun _ => Orderly) (fun _ => Orderly) := by
  unfold copySaved
  refine savedAt_bind fun row => ?_
  refine (mutate_orderly fun s hs => ⟨hs.1, hC _ _ _ hs.2.1 hs.2.2⟩).bind fun copied => ?_
  cases copied with
  | none => exact Meets.pure fun _ hs => hs
  | some copy => exact (orderly_of_noted (keeps_setSaved i _)).bind fun _ => Meets.pure fun _ hs => hs

theorem createWorkingCopy_orderly {i : Nat} {C : List EvidenceObject → ShellState → Prop}
    (hC : ∀ objects shell o, C objects shell → objects[i]? = some o → (Mutation.copy o).Allowed objects) :
    Meets (fun s : State host => Before C s) (createWorkingCopy r i)
      (fun _ => Orderly) (fun _ => Orderly) := by
  unfold createWorkingCopy
  refine (before_of_keeps (keeps_savedAt i)).bind fun row => verify_before.bind fun a => ?_
  split
  · exact stop_orderly
  · refine (before_of_keeps Keeps.get).bind fun _ => intent_before.bind fun _ => ?_
    refine (conclude_orderly (P := Before _) ((keeps_leave i _).part Prod.snd)
      (copySaved_orderly hC)).bind fun outcome => settle_orderly.bind fun settled => ?_
    split <;> exact Meets.pure fun _ hs => hs

/-- A change of one object changes no other. -/
theorem keeps_setSaved_of_ne {i k : Nat} (hne : i ≠ k) (f : Saved host → Saved host) :
    Keeps (fun s : State host => s.objects[k]?) (setSaved i f) := by
  refine Keeps.modify fun s => ?_
  show ((s.saved.modify i f).map (·.object))[k]? = (s.saved.map (·.object))[k]?
  rw [List.getElem?_map, List.getElem?_map, List.getElem?_modify]
  simp [hne]

theorem keeps_createWorkingCopy {i k : Nat} (hne : i ≠ k) :
    Keeps (fun s : State host => s.objects[k]?) (createWorkingCopy r i) := by
  refine (keeps_savedAt i).bind fun row => ?_
  refine (keeps_attempt (keeps_verify_of fun _ _ _ _ => rfl)).bind fun a => ?_
  split
  · exact (keeps_stop_of fun _ _ _ _ => rfl).bind fun _ => .pure
  · refine Keeps.get.bind fun _ => (keeps_append (fun _ _ _ _ => rfl) _).bind fun _ => ?_
    refine (keeps_conclude ((keeps_stop_of fun _ _ _ _ => rfl).bind fun _ =>
      keeps_setSaved_of_ne hne _) ?_).bind fun outcome => ?_
    · refine (keeps_savedAt i).bind fun row => (keeps_mutate (fun _ _ _ => rfl) _ _ _).bind fun copied => ?_
      split
      · exact .pure
      · exact (keeps_setSaved_of_ne hne _).bind fun _ => .pure
    · refine (keeps_settle (fun _ _ _ _ => rfl) _ _ _).bind fun settled => ?_
      split <;> exact .pure

/-- A loop in which each turn leaves what the later ones need. -/
theorem untilReturned_orderly {I : List α → State host → Prop} {body : α → Program host (Option Returned)}
    {last : Returned} (hI : ∀ as s, I as s → Orderly s)
    (hbody : ∀ a as, Meets (I (a :: as)) (body a) (fun _ => I as) (fun _ => Orderly)) (as : List α) :
    Meets (I as) (untilReturned body last as) (fun _ => Orderly) (fun _ => Orderly) := by
  induction as with
  | nil => exact Meets.pure (hI [])
  | cons a as ih =>
      refine (hbody a as).bind fun returned => ?_
      cases returned with
      | some returned => exact Meets.pure (hI as)
      | none => exact ih

/-- The objects that are still to be copied are as they were. -/
structure Untouched (s₀ : State host) (is : List Nat) (s : State host) : Prop where
  orderly : Orderly s
  nodup : is.Nodup
  same : ∀ k ∈ is, s.objects[k]? = s₀.objects[k]?

theorem createWorkingCopies_orderly :
    Meets (fun s : State host => Orderly s) (createWorkingCopies r)
      (fun _ => Orderly) (fun _ => Orderly) := by
  unfold createWorkingCopies
  refine Meets.pre (look_bind (C := fun _ _ => True) fun s₀ _ => ?_) fun s hs => ⟨hs, trivial⟩
  refine Meets.throwIf_bind (fun _ hs _ => hs.1) fun hready => ?_
  have hall := List.all_eq_true.mp (not_not.mp hready).2
  refine Meets.pre (untilReturned_orderly (I := Untouched s₀) (fun _ _ hs => hs.orderly) (fun i is => ?_)
    (indices s₀)) fun s hs => ⟨hs.1, List.nodup_range, fun k _ => by rw [hs.2.1]⟩
  by_cases hnodup : (i :: is).Nodup
  · -- the turn finds its own object untouched and leaves those of the later turns so
    obtain ⟨hi, his⟩ := List.nodup_cons.mp hnodup
    have hkeeps : Keeps (fun s : State host => fun k : {k // k ∈ is} => s.objects[k.1]?)
        (createWorkingCopy r i) := fun s => funext fun k =>
      keeps_createWorkingCopy (fun heq => hi (by rw [heq]; exact k.2)) s
    have hcopy : Meets (fun s : State host => Before (fun objects _ => objects[i]? = s₀.objects[i]?) s)
        (createWorkingCopy r i) (fun _ => Orderly) (fun _ => Orderly) := by
      refine createWorkingCopy_orderly fun objects shell o hsame ho => ?_
      have hmem := hall o (List.mem_of_getElem? (hsame.symm.trans ho))
      rw [Bool.and_eq_true, decide_eq_true_iff, Option.isNone_iff_eq_none] at hmem
      exact ⟨List.mem_of_getElem? ho, hmem⟩
    refine (hcopy.both (hkeeps.meets (P := fun g => ∀ k, g k = s₀.objects[k.1]?))).weaken
      (fun s hs => ⟨⟨hs.orderly, hs.same i List.mem_cons_self⟩, fun k =>
        hs.same k.1 (List.mem_cons_of_mem _ k.2)⟩) (fun _ s hs => ?_) fun _ _ hs => hs.1
    exact ⟨hs.1, his, fun k hk => hs.2 ⟨k, hk⟩⟩
  · exact fun s hs => absurd hs.nodup hnodup

/-! ### npm -/

/-- What is released stays where it is. -/
theorem keeps_releaseWorking_states (i : Nat) : Keeps (fun s : State host =>
    (s.issued, s.objects.map fun o => (o.state, o.working.isSome))) (releaseWorking i) := by
  refine (keeps_savedAt i).bind fun row => (keeps_given _).bind fun tree =>
    (keeps_outside (fun _ _ => rfl) _).bind fun _ => Keeps.modify fun s => Prod.ext rfl ?_
  refine List.ext_getElem? fun k => ?_
  simp only [State.objects, List.map_map, List.getElem?_map, List.getElem?_modify]
  cases s.saved[k]? with
  | none => rfl
  | some row =>
      by_cases hk : i = k
      · simp [hk]
      · simp [hk]

theorem uninstallCopies_orderly {is : List Nat} :
    Meets (fun s : State host => Orderly s ∧ ∀ o ∈ s.objects, o.state = .preserved ∧ o.working.isSome = true)
      (uninstallCopies is) (fun _ => Orderly) (fun _ => Orderly) := by
  unfold uninstallCopies
  -- a release changes the status of a copy, but not that there is one
  have hkeeps : Keeps (fun s : State host => (s.issued, s.objects.map fun o => (o.state, o.working.isSome)))
      (forEach releaseWorking is) := .forEach keeps_releaseWorking_states is
  have hreleased := hkeeps.meets
    (P := fun n => (∀ i ∈ n.1, i.mutation.Allowed i.objects) ∧ ∀ p ∈ n.2, p = (.preserved, true))
  refine Meets.bind (hreleased.weaken (fun s hs => ⟨hs.1, ?_⟩) (fun _ _ hs => hs)
    fun _ _ hs => hs.1) fun _ => ?_
  · intro p hp
    obtain ⟨o, ho, rfl⟩ := List.mem_map.mp hp
    rw [(hs.2 o ho).1, (hs.2 o ho).2]
  refine Meets.bind (mutate_orderly fun s hs => ⟨hs.1, ?_⟩) fun receipt => ?_
  · intro o ho
    exact Prod.mk.inj (hs.2 _ (List.mem_map_of_mem ho))
  refine (orderly_of_keeps Keeps.throwIf).bind fun _ => ?_
  exact (orderly_of_noted (.forEach keeps_observeAfter is)).bind fun _ => Meets.pure fun _ hs => hs

theorem uninstallWorking_orderly :
    Meets (fun s : State host => Orderly s) (uninstallWorking r)
      (fun _ => Orderly) (fun _ => Orderly) := by
  unfold uninstallWorking
  refine Meets.pre (look_bind (C := fun _ _ => True) fun s₀ _ => ?_) fun s hs => ⟨hs, trivial⟩
  refine Meets.throwIf_bind (fun _ hs _ => hs.1) fun hready => verify_before.bind fun a => ?_
  have hall := List.all_eq_true.mp (not_not.mp hready).2
  split
  · exact stop_orderly
  · refine (before_of_keeps Keeps.get).bind fun _ => intent_before.bind fun _ => ?_
    refine (Meets.attempt (R := fun _ => Orderly) (uninstallCopies_orderly.pre fun s hs => ⟨hs.1, ?_⟩)
      (fun _ _ hs => hs) fun _ _ hs => hs).bind fun ran => ?_
    · intro o ho
      rw [hs.2.1] at ho
      have hmem := hall o ho
      rw [Bool.and_eq_true, decide_eq_true_iff] at hmem
      exact ⟨hmem.1, Option.isSome_of_any hmem.2⟩
    refine Meets.bind (Q := fun _ => Orderly) ?_ fun outcome => ?_
    · cases ran with
      | ok receipt => exact Meets.pure fun _ hs => hs
      | error e => exact orderly_of_noted (keeps_stop.bind fun _ => keeps_forgetReleased.bind fun _ => .pure)
    · refine settle_orderly.bind fun settled => ?_
      split
      · exact Meets.pure fun _ hs => hs
      · exact Meets.pure fun _ hs => hs
      · exact Meets.pure fun _ hs => hs
      · exact (orderly_of_keeps Keeps.get).bind fun _ => Meets.pure fun _ hs => hs

/-! ### Back -/

theorem retireSaved_orderly {i : Nat} {C : List EvidenceObject → ShellState → Prop}
    (hC : ∀ objects shell o, C objects shell → objects[i]? = some o → (Mutation.retire o).Allowed objects) :
    Meets (fun s : State host => Before C s) (retireSaved i step)
      (fun _ => Orderly) (fun _ => Orderly) := by
  unfold retireSaved
  refine savedAt_bind fun row => (before_of_keeps (keeps_given _)).bind fun working => ?_
  refine (before_of_keeps (keeps_given _)).bind fun tree => ?_
  refine (mutate_orderly fun s hs => ⟨hs.1, hC _ _ _ hs.2.1 hs.2.2⟩).bind fun moved => ?_
  refine (orderly_of_noted (.doIf ?_)).bind fun _ => Meets.pure fun _ hs => hs
  exact (keeps_readTree (fun _ _ => rfl) _).bind fun _ => keeps_setObject i _

theorem quarantineWorking_orderly (name : Text) :
    Meets (fun s : State host => Orderly s) (quarantineWorking r name)
      (fun _ => Orderly) (fun _ => Orderly) := by
  unfold quarantineWorking
  refine Meets.pre (look_bind (C := fun _ _ => True) fun s₀ _ => ?_) fun s hs => ⟨hs, trivial⟩
  dsimp only
  refine Meets.throwIf_bind (fun _ hs _ => hs.1) fun hready => ?_
  obtain ⟨i, hi⟩ := Option.isSome_iff_exists.mp (not_not.mp hready).2
  rw [hi]
  -- what the search found is an object with a copy that is known
  obtain ⟨j, -, hfound⟩ := Option.bind_eq_some_iff.mp hi
  obtain ⟨row, hrow, hknown⟩ := Option.bind_eq_some_iff.mp hfound
  obtain ⟨hany, hsame⟩ := Option.ite_none_right_eq_some.mp hknown
  obtain rfl := Option.some.inj hsame
  refine Meets.bind (Q := fun k s => Before (fun objects shell =>
    objects = s₀.objects ∧ shell = s₀.shell) s ∧ k = j) (Meets.pure fun s hs => ⟨hs, rfl⟩) fun k =>
      Meets.assume fun hk => ?_
  rw [hk]
  refine verify_before.bind fun a => ?_
  split
  · exact stop_orderly
  · refine (before_of_keeps Keeps.get).bind fun _ => intent_before.bind fun _ => ?_
    refine (conclude_orderly (P := Before _) ((keeps_leave j _).part Prod.snd)
      (retireSaved_orderly fun objects shell o hat ho => ⟨List.mem_of_getElem? ho, ?_⟩)).bind
        fun outcome => settle_orderly.bind fun settled => ?_
    · -- the object is the one that was found
      obtain rfl : row.object = o := by
        rw [hat.1, State.objects, List.getElem?_map, hrow] at ho
        exact Option.some.inj ho
      obtain ⟨w, hw, hstatus⟩ := (Option.any_eq_true _ _).mp hany
      exact ⟨w, hw, by simpa using hstatus⟩
    · split <;> exact Meets.pure fun _ hs => hs

theorem assertGlobalRestoreOrder_bind {objects : List EvidenceObject} {role : Role}
    {P : State host → Prop} {Q : α → State host → Prop} {f : Unit → Program host α}
    (hP : ∀ s, P s → Orderly s) (h : InRestoreOrder objects role → Meets P (f ()) Q fun _ => Orderly) :
    Meets P (assertGlobalRestoreOrder objects role >>= f) Q fun _ => Orderly := by
  have hback : ∀ {wanted : Role}, (objects.filter (fun o => o.role = wanted)).all isBack = true →
      RoleBack objects wanted := by
    intro wanted hall o ho hrole
    exact List.all_eq_true.mp hall o (List.mem_filter.mpr ⟨ho, decide_eq_true hrole⟩)
  refine Meets.bind (Q := fun _ s => P s ∧ InRestoreOrder objects role) ?_ fun _ => Meets.assume h
  refine Meets.bind (Q := fun _ s => P s ∧ (role ≠ .package → RoleBack objects .package)) ?_ fun _ =>
    Meets.assume fun hpackages => ?_
  · refine Meets.doIf (fun _ => ?_) fun s hs hrole => ⟨hs, fun hne => absurd hne hrole⟩
    exact Meets.ite (fun _ => Meets.throw hP) fun hall => Meets.pure fun s hs =>
      ⟨hs, fun _ => hback (not_not.mp hall)⟩
  · refine Meets.doIf (fun _ => ?_) fun s hs hrole => ⟨hs, hpackages, fun heq => absurd heq hrole⟩
    exact Meets.ite (fun _ => Meets.throw hP) fun hall => Meets.pure fun s hs =>
      ⟨hs, hpackages, fun _ => hback (not_not.mp hall)⟩

theorem restoreKnown_orderly (name : Text) :
    Meets (fun s : State host => Orderly s) (restoreKnown r name)
      (fun _ => Orderly) (fun _ => Orderly) := by
  unfold restoreKnown
  refine Meets.pre (look_bind (C := fun _ _ => True) fun s₀ _ => ?_) fun s hs => ⟨hs, trivial⟩
  refine Meets.throwIf_bind (fun _ hs _ => hs.1) fun _ => ?_
  refine (before_of_keeps (keeps_given _)).bind fun i => savedAt_bind fun row => ?_
  refine Meets.throwIf_bind (fun _ hs _ => hs.1) fun hworking => ?_
  refine assertGlobalRestoreOrder_bind (fun _ hs => hs.1) fun horder => move_orderly ?_
  intro objects shell o hat ho hstate
  obtain rfl := Option.some.inj (hat.2.symm.trans ho)
  -- the order was asserted of the objects as they were when the call began: none has changed since
  refine ⟨List.mem_of_getElem? ho, hstate, fun w hw => ?_, hat.1.1 ▸ horder⟩
  have hall := (Option.all_eq_true _ _).mp (not_not.mp hworking) w hw
  simpa using hall

/-! ## The shell -/

theorem objects_ignoresShell : IgnoresShell (State.objects : State host → List EvidenceObject) :=
  fun _ _ _ _ _ _ _ _ => rfl

/-- A body that asks where it may keeps the order of what is performed. -/
theorem perform_orderly {g : Generated} {restore : Bool} {body : Text → Program host Unit}
    {C : List EvidenceObject → ShellState → Prop}
    (hbody : ∀ step, Meets (Before C) (body step) (fun _ => Orderly) (fun _ => Orderly)) :
    Meets (Before C) (perform r g restore body) (fun _ => Orderly) (fun _ => Orderly) := by
  unfold perform
  refine (before_of_keeps Keeps.get).bind fun _ => (before_of_keeps Keeps.throwIf).bind fun _ => ?_
  refine (before_of_keeps (keeps_readJournal fun _ _ => rfl)).bind fun _ => ?_
  refine (before_of_keeps Keeps.throwIf).bind fun _ => ?_
  refine (before_of_keeps (keeps_generatedAt g)).bind fun row => ?_
  refine (before_of_keeps (keeps_attempt ((keeps_verifyCurrent fun _ _ _ => rfl).bind fun _ =>
    keeps_verifyOwned fun _ _ => rfl))).bind fun a => ?_
  split
  · exact Meets.pure fun _ hs => hs.1
  · refine (before_of_keeps Keeps.get).bind fun _ => intent_before.bind fun _ => ?_
    refine (conclude_orderly (P := Before C) (Keeps.part Prod.snd ((keeps_doubt noted_ignoresShell).bind
      fun _ => (keeps_setGenerated noted_ignoresShell g _).bind fun _ =>
        keeps_lookAround noted_ignoresShell g)) ?_).bind fun outcome => orderly_of_keeps ?_
    · refine (hbody _).bind fun _ => (orderly_of_noted (keeps_verifyRetained fun _ _ => rfl)).bind fun _ => ?_
      exact (orderly_of_noted (keeps_verifyOwned fun _ _ => rfl)).bind fun _ => Meets.pure fun _ hs => hs
    · refine (keeps_attempt (keeps_record (fun _ _ _ _ => rfl) _ _ _ _)).bind fun recorded => ?_
      split
      · exact ((keeps_doubt noted_ignoresShell).part Prod.snd).bind fun _ => .pure
      · refine .ite .pure (((keeps_attempt (keeps_confirm noted_ignoresShell g restore)).part Prod.snd).bind
          fun confirmed => ?_)
        split
        · exact .pure
        · refine ((keeps_doubt noted_ignoresShell).part Prod.snd).bind fun _ => .ite .pure ?_
          refine ((keeps_setGenerated noted_ignoresShell g _).part Prod.snd).bind fun _ => ?_
          refine Keeps.get.bind fun _ => ?_
          exact (keeps_append (fun _ _ _ _ => rfl) _).bind fun _ =>
            (keeps_record (fun _ _ _ _ => rfl) _ _ _ _).bind fun _ => .pure

theorem publish_orderly {g : Generated} {name : Text} {tree : host.Tree}
    {C : List EvidenceObject → ShellState → Prop}
    (hC : ∀ objects shell row, C objects shell → (Mutation.publish row).Allowed objects) :
    Meets (Before C) (publish r g name tree step) (fun _ => Orderly) (fun _ => Orderly) := by
  unfold publish
  refine generatedAt_bind fun row => ?_
  refine (mutate_orderly fun s hs => ⟨hs.1, hC _ _ row hs.2.1⟩).bind fun moved => ?_
  refine (orderly_of_keeps Keeps.throwIf).bind fun _ => ?_
  refine (orderly_of_noted (keeps_hold noted_ignoresShell name tree)).bind fun _ => ?_
  refine (orderly_of_noted (keeps_readTree (fun _ _ => rfl) _)).bind fun rows => ?_
  exact orderly_of_noted (keeps_setGenerated noted_ignoresShell g _)

section Publication

variable {C : List EvidenceObject → ShellState → Prop}
  (hC : ∀ objects shell row, C objects shell → (Mutation.publish row).Allowed objects)
include hC

theorem publishFile_orderly (i : Nat) (step : Text) :
    Meets (fun s : State host => Before C s) (publishFile r i step)
      (fun _ => Orderly) (fun _ => Orderly) := by
  unfold publishFile
  refine (before_of_keeps (keeps_generatedAt _)).bind fun row => ?_
  refine (before_of_keeps (keeps_assertVacant (fun _ _ => rfl) _ _ _)).bind fun _ => ?_
  refine (before_of_keeps (keeps_given _)).bind fun content => ?_
  refine (before_of_keeps (keeps_outside (fun _ _ => rfl) _)).bind fun token => ?_
  refine (before_of_keeps (keeps_outside (fun _ _ => rfl) _)).bind fun sealedTree => ?_
  exact (before_of_keeps (keeps_required _ _)).bind fun tree => publish_orderly hC

theorem publishManifest_orderly (step : Text) :
    Meets (fun s : State host => Before C s) (publishManifest r step)
      (fun _ => Orderly) (fun _ => Orderly) := by
  unfold publishManifest
  refine (before_of_keeps (keeps_outside (fun _ _ => rfl) _)).bind fun directory => ?_
  refine (before_of_keeps Keeps.get).bind fun _ => ?_
  refine (before_of_keeps (keeps_outside (fun _ _ => rfl) _)).bind fun identity => ?_
  refine (before_of_keeps (.forEach (fun _ => (keeps_given _).bind fun _ => .pure) _)).bind fun _ => ?_
  refine (before_of_keeps (keeps_outside (fun _ _ => rfl) _)).bind fun token => ?_
  refine (before_of_keeps (keeps_outside (fun _ _ => rfl) _)).bind fun sealedFile => ?_
  refine (before_of_keeps (keeps_required _ _)).bind fun file => ?_
  refine (before_of_keeps (keeps_outside (fun _ _ => rfl) _)).bind fun _ => ?_
  refine (before_of_keeps (keeps_outside (fun _ _ => rfl) _)).bind fun sealedTree => ?_
  exact (before_of_keeps (keeps_required _ _)).bind fun tree => publish_orderly hC

end Publication

theorem withdraw_orderly {g : Generated} (step : Text) :
    Meets (Before fun _ shell => ∀ row, g.of shell = some row → row.status = .installed)
      (withdraw r g step : Program host Unit) (fun _ => Orderly) (fun _ => Orderly) := by
  unfold withdraw
  refine generatedAt_bind fun row => (before_of_keeps Keeps.get).bind fun _ => ?_
  refine (before_of_keeps (keeps_given _)).bind fun tree => ?_
  refine (mutate_orderly fun s hs => ⟨hs.1, hs.2.1 row hs.2.2⟩).bind fun moved => ?_
  refine (orderly_of_keeps Keeps.throwIf).bind fun _ => ?_
  refine (orderly_of_noted (keeps_readTree (fun _ _ => rfl) _)).bind fun rows => ?_
  exact orderly_of_noted (keeps_setGenerated noted_ignoresShell g _)

/-! ### No original is touched -/

theorem keeps_perform {g : Generated} {restore : Bool} {body : Text → Program host Unit}
    (hbody : ∀ step, Keeps State.objects (body step)) :
    Keeps State.objects (perform r g restore body) := by
  refine Keeps.get.bind fun _ => Keeps.throwIf.bind fun _ => ?_
  refine (keeps_readJournal fun _ _ => rfl).bind fun _ => ?_
  refine Keeps.throwIf.bind fun _ => (keeps_generatedAt g).bind fun row => ?_
  refine (keeps_attempt ((keeps_verifyCurrent fun _ _ _ => rfl).bind fun _ =>
    keeps_verifyOwned fun _ _ => rfl)).bind fun a => ?_
  split
  · exact .pure
  · refine Keeps.get.bind fun _ => (keeps_append (fun _ _ _ _ => rfl) _).bind fun _ => ?_
    refine (keeps_conclude ((keeps_doubt objects_ignoresShell).bind fun _ =>
      (keeps_setGenerated objects_ignoresShell g _).bind fun _ => keeps_lookAround objects_ignoresShell g)
      ?_).bind fun outcome => (keeps_attempt (keeps_record (fun _ _ _ _ => rfl) _ _ _ _)).bind
        fun recorded => ?_
    · exact (hbody _).bind fun _ => (keeps_verifyRetained fun _ _ => rfl).bind fun _ =>
        (keeps_verifyOwned fun _ _ => rfl).bind fun _ => .pure
    · split
      · exact (keeps_doubt objects_ignoresShell).bind fun _ => .pure
      · refine .ite .pure ((keeps_attempt (keeps_confirm objects_ignoresShell g restore)).bind
          fun confirmed => ?_)
        split
        · exact .pure
        · refine (keeps_doubt objects_ignoresShell).bind fun _ => .ite .pure ?_
          refine (keeps_setGenerated objects_ignoresShell g _).bind fun _ => Keeps.get.bind fun _ => ?_
          exact (keeps_append (fun _ _ _ _ => rfl) _).bind fun _ =>
            (keeps_record (fun _ _ _ _ => rfl) _ _ _ _).bind fun _ => .pure

theorem keeps_publish (g : Generated) (name : Text) (tree : host.Tree) (step : Text) :
    Keeps State.objects (publish r g name tree step) :=
  (keeps_generatedAt g).bind fun _ => (keeps_mutate (fun _ _ _ => rfl) _ _ _).bind fun _ =>
    Keeps.throwIf.bind fun _ => (keeps_hold objects_ignoresShell name tree).bind fun _ =>
      (keeps_readTree (fun _ _ => rfl) _).bind fun _ => keeps_setGenerated objects_ignoresShell g _

theorem keeps_publishFile (i : Nat) (step : Text) :
    Keeps State.objects (publishFile r i step : Program host Unit) :=
  (keeps_generatedAt _).bind fun _ => (keeps_assertVacant (fun _ _ => rfl) _ _ _).bind fun _ =>
    (keeps_given _).bind fun _ => (keeps_outside (fun _ _ => rfl) _).bind fun _ =>
      (keeps_outside (fun _ _ => rfl) _).bind fun _ => (keeps_required _ _).bind fun _ =>
        keeps_publish _ _ _ step

/-- What may be published now may be published for as long as the originals are as they are. -/
theorem install_orderly :
    Meets (fun s : State host => Orderly s) (install r) (fun _ => Orderly) (fun _ => Orderly) := by
  unfold install
  refine Meets.pre (look_bind (C := fun _ _ => True) fun s₀ _ => ?_) fun s hs => ⟨hs, trivial⟩
  refine Meets.throwIf_bind (fun _ hs _ => hs.1) fun _ => ?_
  refine Meets.bind (Q := fun _ => Before fun objects _ => objects = s₀.objects)
    (fun s hs => ⟨hs.1, hs.2.1⟩) fun _ => ?_
  refine Meets.throwIf_bind (fun _ hs _ => hs.1) fun habsent => ?_
  have hall := List.all_eq_true.mp (not_not.mp habsent)
  have hallowed : ∀ objects shell row, (fun objects (_ : ShellState) => objects = s₀.objects) objects shell →
      (Mutation.publish row).Allowed objects := by
    rintro _ shell row rfl o ho
    have hmem := hall o ho
    rw [Bool.or_eq_true, Bool.and_eq_true, decide_eq_true_iff, decide_eq_true_iff] at hmem
    refine hmem.imp_right fun hand => ⟨hand.1, ?_⟩
    obtain ⟨w, hw, hstatus⟩ := (Option.any_eq_true _ _).mp hand.2
    exact ⟨w, hw, of_decide_eq_true hstatus⟩
  refine (before_of_keeps (.forEach (fun _ => keeps_assertVacant (fun _ _ => rfl) _ _ _) _)).bind fun _ => ?_
  refine (before_of_keeps (keeps_assertVacant (fun _ _ => rfl) _ _ _)).bind fun _ => ?_
  -- a published file changes no original, so what was asserted before the loop holds in each turn
  have hturn : ∀ i, Meets (fun s : State host => Before (fun objects _ => objects = s₀.objects) s)
      (perform r (.file i) false (publishFile r i)) (fun _ => Before fun objects _ => objects = s₀.objects)
      (fun _ => Orderly) := fun i =>
    ((perform_orderly (publishFile_orderly hallowed i)).both
      ((keeps_perform (keeps_publishFile i)).meets (P := fun objects => objects = s₀.objects))).weaken
      (fun s hs => ⟨hs, hs.2⟩) (fun _ s hs => hs) fun _ _ hs => hs.1
  refine (untilReturned_meets (fun i => (hturn i).bind fun _ => Meets.pure fun _ hs => hs) _).bind
    fun published => ?_
  split
  · exact Meets.pure fun _ hs => hs.1
  · exact (perform_orderly (publishManifest_orderly hallowed)).bind fun _ => Meets.pure fun _ hs => hs

theorem quarantineKnown_orderly :
    Meets (fun s : State host => Orderly s) (quarantineKnown r) (fun _ => Orderly) (fun _ => Orderly) := by
  unfold quarantineKnown
  refine (orderly_of_keeps Keeps.get).bind fun _ => (orderly_of_keeps Keeps.throwIf).bind fun _ => ?_
  refine (orderly_of_keeps (keeps_readJournal fun _ _ => rfl)).bind fun _ => ?_
  refine (orderly_of_keeps Keeps.throwIf).bind fun _ => untilReturned_meets (fun g => ?_) _
  refine Meets.pre (generatedAt_bind (C := fun _ _ => True) fun row => Meets.ite (fun hinstalled => ?_)
    fun _ => Meets.pure fun _ hs => hs.1) fun s hs => ⟨hs, trivial⟩
  refine Meets.bind ((perform_orderly withdraw_orderly).pre fun s hs => ⟨hs.1, ?_⟩) fun _ =>
    Meets.pure fun _ hs => hs
  intro row' hrow'
  obtain rfl := Option.some.inj (hs.2.2.symm.trans hrow')
  exact hinstalled

theorem checkpoint_orderly :
    Meets (fun s : State host => Orderly s) checkpoint (fun _ => Orderly) (fun _ => Orderly) := by
  refine (orderly_of_keeps (keeps_verifyCurrent fun _ _ _ => rfl)).bind fun _ => ?_
  refine (orderly_of_noted keeps_assertReady).bind fun _ => (orderly_of_keeps Keeps.get).bind fun _ => ?_
  exact (orderly_of_keeps (keeps_append (fun _ _ _ _ => rfl) _)).bind fun _ => Meets.pure fun _ hs => hs

/-! ## Runs -/

theorem programOf_orderly (c : Call) :
    Meets (fun s : State host => Orderly s) (programOf r c) (fun _ => Orderly) (fun _ => Orderly) := by
  cases c with
  | verifyCurrent =>
      exact (orderly_of_keeps (keeps_verifyCurrent fun _ _ _ => rfl)).bind fun _ => Meets.pure fun _ hs => hs
  | preserveAll => exact preserveAll_orderly
  | createWorkingCopies => exact createWorkingCopies_orderly
  | uninstallWorking => exact uninstallWorking_orderly
  | quarantineWorking name => exact quarantineWorking_orderly name
  | restoreKnown name => exact restoreKnown_orderly name
  | install => exact install_orderly
  | quarantineKnown => exact quarantineKnown_orderly
  | checkpoint => exact checkpoint_orderly

/--
**Mutations are made only where they may be.** In every run of the calls, whatever the guard, npm and the
checks answer: an original is moved away only from its own place, a copy takes the place only of one that
was moved away, npm is run only when all of them were, a generated file is published only when the copies
are gone, and an original goes back only when no copy is in its place and the packages, and for a leaf
the files of npm, are back.
-/
theorem mutations_where_allowed (h : Reaches (Preservation.step r) (fun _ _ => True) Initial s) :
    ∀ i ∈ s.issued, i.mutation.Allowed i.objects := by
  have hinit : ∀ s : State host, Initial s → Orderly s := by
    intro s hs i hi
    rw [hs.issued] at hi
    exact absurd hi List.not_mem_nil
  exact invariant_of_programs hinit programOf_orderly h

/-- The law for the move of one original. -/
theorem mutations_where_allowed_retained : ∃ s : State quietHost, s.issued ≠ [] ∧
    ∀ i ∈ s.issued, i.mutation.Allowed i.objects := by
  obtain ⟨s, hs, htest⟩ := retained_reached
  exact ⟨s, issued_ne_nil_of_isRetained htest, mutations_where_allowed hs⟩

end Caveat.Managed.Preservation
