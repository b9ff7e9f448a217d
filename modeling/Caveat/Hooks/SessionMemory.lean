import Caveat.Lib.Transition
import Caveat.Hooks.DeliveryLaw

/-!
# The memory of a session

The hooks of a session share a file with what has been delivered. A hook reads it to prepare its texts,
shows them, reads it again and puts a file with its own ids added in the place of the old one. Nothing
keeps another hook from doing so between the second reading and the writing.
-/

namespace Caveat.Hooks.Session

open Js Lib

/-- How far a hook is. -/
inductive Phase where
  | idle
  | prepared (delivery : PreparedDelivery)
  /-- `delivered` has read the file. -/
  | merging (delivery : PreparedDelivery) (latest : DeliveredState)
  | marked (delivery : PreparedDelivery)
  /-- The text was not sent, or the process has died. -/
  | ended

/-- The file of the session, and the hooks. -/
structure World (Proc : Type) where
  file : Option DeliveredState
  phase : Proc → Phase

inductive Action (Proc : Type) where
  | prepare (q : Proc) (managed : Bool) (contexts additionallyDeliveredIds : List Units)
  | read (q : Proc)
  | write (q : Proc)
  | stop (q : Proc)

variable {Proc : Type}

/-- `readState`. -/
def World.state (w : World Proc) : DeliveredState := w.file.getD .empty

section

variable [DecidableEq Proc]

def World.setPhase (w : World Proc) (q : Proc) (phase : Phase) : World Proc :=
  { w with phase := Function.update w.phase q phase }

/-- The reading of `delivered`, which is done where there is nothing to add. -/
def readLatest (w : World Proc) (delivery : PreparedDelivery) : Phase :=
  if delivery.isEmpty then .marked delivery else .merging delivery w.state

def step (w : World Proc) : Action Proc → Option (World Proc)
  | .prepare q managed contexts additionally =>
      match w.phase q with
      | .idle =>
          some (w.setPhase q (.prepared
            (prepareSessionDelivery managed w.state contexts additionally)))
      | _ => none
  | .read q =>
      match w.phase q with
      | .prepared delivery => some (w.setPhase q (readLatest w delivery))
      | _ => none
  | .write q =>
      match w.phase q with
      | .merging delivery latest =>
          some ({ w with file := some (delivery.merge latest) }.setPhase q (.marked delivery))
      | _ => none
  | .stop q =>
      match w.phase q with
      | .marked _ => none
      | _ => some (w.setPhase q .ended)

end

/-! ## What is to hold -/

/-- The ids that a hook has marked as delivered. -/
def Phase.marks : Phase → List Units
  | .marked delivery => delivery.marks
  | _ => []

/-- Nothing is lost of what was stored at the start or has been marked. -/
structure Kept (start : DeliveredState) (w : World Proc) : Prop where
  start : ∀ id ∈ start.ids, id ∈ w.state.ids
  marked : ∀ q, ∀ id ∈ (w.phase q).marks, id ∈ w.state.ids

/-- No hook that starts now delivers what has been marked. -/
def NotAgain (w : World Proc) : Prop :=
  ∀ q, ∀ id ∈ (w.phase q).marks, ∀ managed contexts additionally,
    id ∉ (prepareSessionDelivery managed w.state contexts additionally).addedIds

/-- What is stored where a hook writes is among what it has read and what it adds. -/
def Unmissed (w : World Proc) : Action Proc → Prop
  | .write q => ∀ delivery latest, w.phase q = .merging delivery latest →
      ∀ id ∈ w.state.ids, id ∈ latest.ids ++ delivery.marks
  | _ => True

/-- The hooks begin, with what is stored. -/
def Begins (start : DeliveredState) (w : World Proc) : Prop :=
  w.state = start ∧ ∀ q, w.phase q = .idle

/-! ## What a hook does not deliver -/

/-- What was seen before is still seen, and none of it is among the hits. -/
structure Spares (seen : List Units) (s : Scan) : Prop where
  known : ∀ r ∈ seen, r ∈ s.seenIds
  fresh : ∀ h ∈ s.hits, h.ref ∉ seen

theorem Spares.scanLine {seen : List Units} {s : Scan} (h : Spares seen s) (isStop : Bool)
    (line : Units) : Spares seen (scanLine isStop s line) := by
  have hsame : ∀ s' : Scan, Spares seen s' → Spares seen (s'.addSignals isStop line) := by
    intro s' hs'
    obtain ⟨hhits, hseen⟩ := addSignals_frame s' isStop line
    exact ⟨by rw [hseen]; exact hs'.known, by rw [hhits]; exact hs'.fresh⟩
  rw [Hooks.scanLine]
  cases hread : readHit line with
  | none => exact hsame s h
  | some hit =>
      dsimp only
      split
      · exact h
      · rename_i hnew
        refine hsame _ ⟨fun r hr => List.mem_cons_of_mem _ (h.known r hr), fun g hg => ?_⟩
        rcases List.mem_append.mp hg with hg | hg
        · exact h.fresh g hg
        · obtain rfl := List.mem_singleton.mp hg
          exact fun hmem => hnew (by simpa using h.known _ hmem)

theorem Spares.scanContext {seen : List Units} {s : Scan} (h : Spares seen s) (managed : Bool)
    (context : Units) : Spares seen (scanContext managed s context) := by
  have hlines : ∀ (isStop : Bool) (lines : List Units),
      Spares seen (lines.foldl (Hooks.scanLine isStop) s) := by
    intro isStop lines
    exact List.foldlRecOn lines _ h fun s hs line _ => hs.scanLine isStop line
  simp only [Hooks.scanContext]
  split
  · exact h
  · split
    · exact hlines _ _
    · exact ⟨(hlines _ _).known, (hlines _ _).fresh⟩

/-- No id that is stored is delivered. -/
theorem addedIds_fresh (managed : Bool) (state : DeliveredState)
    (contexts additionally : List Units) {id : Units} (hid : id ∈ state.ids) :
    id ∉ (prepareSessionDelivery managed state contexts additionally).addedIds := by
  have hstart : Spares state.ids ⟨state.ids ++ additionally, state.signals, [], [], []⟩ :=
    ⟨fun r hr => List.mem_append_left _ hr, fun h hh => absurd hh (by simp)⟩
  have hend : Spares state.ids (contexts.foldl (scanContext managed)
      ⟨state.ids ++ additionally, state.signals, [], [], []⟩) :=
    List.foldlRecOn contexts _ hstart fun s hs context _ => hs.scanContext managed context
  intro hadded
  obtain ⟨h, hh, rfl⟩ := List.mem_map.mp hadded
  exact hend.fresh h hh hid

/-! ## Runs -/

theorem mem_merge {p : PreparedDelivery} {latest : DeliveredState} {id : Units} :
    id ∈ (p.merge latest).ids ↔ id ∈ latest.ids ++ p.marks := by
  rw [PreparedDelivery.merge, PreparedDelivery.marks, List.mem_eraseDups, List.append_assoc]

variable [DecidableEq Proc]

theorem phase_setPhase_self (w : World Proc) (q : Proc) (phase : Phase) :
    (w.setPhase q phase).phase q = phase := Function.update_self ..

theorem phase_setPhase_of_ne {q r : Proc} (h : r ≠ q) (w : World Proc) (phase : Phase) :
    (w.setPhase q phase).phase r = w.phase r := Function.update_of_ne h ..

theorem marks_setPhase {w : World Proc} {q r : Proc} {phase : Phase} {id : Units}
    (h : id ∈ ((w.setPhase q phase).phase r).marks) :
    r = q ∧ id ∈ phase.marks ∨ r ≠ q ∧ id ∈ (w.phase r).marks := by
  by_cases hr : r = q
  · subst hr
    rw [phase_setPhase_self] at h
    exact .inl ⟨rfl, h⟩
  · rw [phase_setPhase_of_ne hr] at h
    exact .inr ⟨hr, h⟩

/-- A step that does not write stores nothing and marks nothing. -/
theorem step_cases {w w' : World Proc} {a : Action Proc} (h : step w a = some w') :
    (w'.state = w.state ∧ ∃ q phase, phase.marks = [] ∧ (w.phase q).marks = [] ∧
        (∀ delivery latest, phase = .merging delivery latest → latest = w.state) ∧
        w' = w.setPhase q phase) ∨
      ∃ q delivery latest, a = .write q ∧ w.phase q = .merging delivery latest ∧
        w' = { w with file := some (delivery.merge latest) }.setPhase q (.marked delivery) := by
  cases a with
  | prepare q managed contexts additionally =>
      simp only [step] at h
      split at h
      · rename_i hphase
        obtain rfl := Option.some.inj h
        exact .inl ⟨rfl, q, _, rfl, by rw [hphase]; rfl, by simp, rfl⟩
      · exact absurd h (by simp)
  | read q =>
      simp only [step] at h
      split at h
      · rename_i delivery hphase
        obtain rfl := Option.some.inj h
        refine .inl ⟨rfl, q, _, ?_, by rw [hphase]; rfl, ?_, rfl⟩
        · rw [readLatest]
          split
          · rename_i hempty
            simp only [PreparedDelivery.isEmpty, Bool.and_eq_true, decide_eq_true_eq] at hempty
            simp [Phase.marks, PreparedDelivery.marks, PreparedDelivery.addedIds, hempty]
          · rfl
        · intro d latest hd
          rw [readLatest] at hd
          split at hd
          · exact absurd hd (by simp)
          · exact (Phase.merging.inj hd).2.symm
      · exact absurd h (by simp)
  | write q =>
      simp only [step] at h
      split at h
      · rename_i delivery latest hphase
        exact .inr ⟨q, delivery, latest, rfl, hphase, (Option.some.inj h).symm⟩
      · exact absurd h (by simp)
  | stop q =>
      simp only [step] at h
      split at h
      · exact absurd h (by simp)
      · rename_i hphase
        obtain rfl := Option.some.inj h
        refine .inl ⟨rfl, q, .ended, rfl, ?_, by simp, rfl⟩
        cases hp : w.phase q with
        | marked delivery => exact absurd hp (hphase delivery)
        | _ => rfl

/-- What is stored, and what has been read of it, was there at the start or has been marked. -/
structure Accounted (start : DeliveredState) (w : World Proc) : Prop where
  stored : ∀ id ∈ w.state.ids, id ∈ start.ids ∨ ∃ r, id ∈ (w.phase r).marks
  latest : ∀ q delivery latest, w.phase q = .merging delivery latest →
    ∀ id ∈ latest.ids, id ∈ start.ids ∨ ∃ r, id ∈ (w.phase r).marks

omit [DecidableEq Proc] in
theorem accounted_begins {start : DeliveredState} {w : World Proc} (h : Begins start w) :
    Accounted start w := by
  refine ⟨fun id hid => .inl (h.1 ▸ hid), fun q delivery latest hphase => ?_⟩
  rw [h.2 q] at hphase
  exact absurd hphase (by simp)

/-- A hook that has marked something stays as it is. -/
theorem marks_kept {w w' : World Proc} {a : Action Proc} (h : step w a = some w') {r : Proc}
    {id : Units} (hid : id ∈ (w.phase r).marks) : id ∈ (w'.phase r).marks := by
  have hother : ∀ q, (w.phase q).marks = [] → r ≠ q := by
    rintro q hq rfl
    rw [hq] at hid
    exact absurd hid (by simp)
  rcases step_cases h with ⟨_, q, phase, _, hq, _, rfl⟩ | ⟨q, delivery, latest, _, hq, rfl⟩
  · rw [phase_setPhase_of_ne (hother q hq)]
    exact hid
  · rw [phase_setPhase_of_ne (hother q (by rw [hq]; rfl))]
    exact hid

theorem accounted_step {start : DeliveredState} {w w' : World Proc} {a : Action Proc}
    (hw : Accounted start w) (h : step w a = some w') : Accounted start w' := by
  have hstill : ∀ id, (id ∈ start.ids ∨ ∃ r, id ∈ (w.phase r).marks) →
      id ∈ start.ids ∨ ∃ r, id ∈ (w'.phase r).marks :=
    fun id hid => hid.imp_right fun ⟨r, hr⟩ => ⟨r, marks_kept h hr⟩
  rcases step_cases h with ⟨hstate, q, phase, _, _, hread, heq⟩ | ⟨q, delivery, latest, _, hq, heq⟩
  · refine ⟨fun id hid => hstill id (hw.stored id (hstate ▸ hid)),
      fun r d l hphase id hid => hstill id ?_⟩
    by_cases hr : r = q
    · rw [heq, hr, phase_setPhase_self] at hphase
      rw [hread d l hphase] at hid
      exact hw.stored id hid
    · rw [heq, phase_setPhase_of_ne hr] at hphase
      exact hw.latest r d l hphase id hid
  · refine ⟨fun id hid => ?_, fun r d l hphase id hid => hstill id ?_⟩
    · rw [heq] at hid
      rcases List.mem_append.mp (mem_merge.mp hid) with hid | hid
      · exact hstill id (hw.latest q delivery latest hq id hid)
      · refine .inr ⟨q, ?_⟩
        rw [heq, phase_setPhase_self]
        exact hid
    · by_cases hr : r = q
      · rw [heq, hr, phase_setPhase_self] at hphase
        exact absurd hphase (by simp)
      · rw [heq, phase_setPhase_of_ne hr] at hphase
        exact hw.latest r d l hphase id hid

omit [DecidableEq Proc] in
theorem kept_begins {start : DeliveredState} {w : World Proc} (h : Begins start w) :
    Kept start w := by
  refine ⟨fun id hid => h.1 ▸ hid, fun q id hid => ?_⟩
  rw [h.2 q] at hid
  exact absurd hid (by simp [Phase.marks])

theorem kept_step {start : DeliveredState} {w w' : World Proc} {a : Action Proc}
    (hw : Kept start w) (hok : Unmissed w a) (h : step w a = some w') : Kept start w' := by
  rcases step_cases h with ⟨hstate, q, phase, hmarks, _, _, rfl⟩ | ⟨q, delivery, latest, rfl, hq, rfl⟩
  · refine ⟨fun id hid => by rw [hstate]; exact hw.start id hid, fun r id hid => ?_⟩
    rw [hstate]
    rcases marks_setPhase hid with ⟨_, hid⟩ | ⟨_, hid⟩
    · rw [hmarks] at hid
      exact absurd hid (by simp)
    · exact hw.marked r id hid
  · -- what was stored is among what is written
    have hold : ∀ id ∈ w.state.ids, id ∈ (delivery.merge latest).ids :=
      fun id hid => mem_merge.mpr (hok delivery latest hq id hid)
    refine ⟨fun id hid => hold id (hw.start id hid), fun r id hid => ?_⟩
    rcases marks_setPhase hid with ⟨_, hid⟩ | ⟨_, hid⟩
    · exact mem_merge.mpr (List.mem_append_right _ hid)
    · exact hold id (hw.marked r id hid)

/-- A writing keeps everything only if it has missed nothing. -/
theorem unmissed_of_kept {start : DeliveredState} {w w' : World Proc} {q : Proc}
    (hw : Accounted start w) (h : step w (.write q) = some w') (hkept : Kept start w') :
    Unmissed w (.write q) := by
  intro delivery latest hq id hid
  have hw' : w' = { w with file := some (delivery.merge latest) }.setPhase q (.marked delivery) := by
    simp only [step, hq] at h
    exact (Option.some.inj h).symm
  have hin : id ∈ w'.state.ids := by
    rcases hw.stored id hid with hstart | ⟨r, hr⟩
    · exact hkept.start id hstart
    · exact hkept.marked r id (marks_kept h hr)
  rw [hw'] at hin
  exact mem_merge.mp hin

/--
**Deliveries are kept.** In every run in which no hook misses, between its reading and its writing,
what another has stored, nothing that was stored or marked is lost, and no hook that starts later
delivers it again. A writing that misses something loses it.
-/
theorem deliveries_kept (start : DeliveredState) (w : World Proc)
    (h : Reaches step Unmissed (Begins start) w) :
    Kept start w ∧ NotAgain w ∧
      ∀ q w', step w (.write q) = some w' → (Kept start w' ↔ Unmissed w (.write q)) := by
  have hkept : Kept start w :=
    h.invariant (fun _ => kept_begins) fun _ _ _ => kept_step
  have haccounted : Accounted start w :=
    h.invariant (fun _ => accounted_begins) fun _ _ _ hs _ => accounted_step hs
  refine ⟨hkept, fun q id hid managed contexts additionally => ?_, fun q w' hstep => ?_⟩
  · exact addedIds_fresh managed w.state contexts additionally (hkept.marked q id hid)
  · exact ⟨unmissed_of_kept haccounted hstep, fun hok => kept_step hkept hok hstep⟩

def newSession : World Bool := ⟨none, fun _ => .idle⟩

theorem begins_newSession : Begins .empty newSession := ⟨rfl, fun _ => rfl⟩

/-- The law where one hook has delivered a trap. -/
theorem deliveries_kept_one : ∃ w : World Bool, w.state.ids = [units "own/trap-a"] ∧
    Kept .empty w ∧ NotAgain w := by
  have h0 : Reaches step Unmissed (Begins .empty) newSession := .init begins_newSession
  have h1 := h0.act (.prepare false false [units "1. trap-a (own) — A"] []) trivial rfl
  have h2 := h1.act (.read false) trivial rfl
  have h3 := h2.act (.write false) (fun _ _ _ id hid => absurd hid (by simp [newSession,
    World.state, World.setPhase, DeliveredState.empty])) rfl
  have hlaw := deliveries_kept .empty _ h3
  exact ⟨_, by decide +kernel, hlaw.1, hlaw.2.1⟩

/-- Two hooks read the file before either writes it: what the first has marked is lost. -/
theorem overlapping_hooks_lose : ∃ w : World Bool,
    Reaches step (fun _ _ => True) (Begins .empty) w ∧ units "own/trap-a" ∈ (w.phase false).marks ∧
      units "own/trap-b" ∈ (w.phase true).marks ∧ ¬ Kept .empty w ∧ ¬ NotAgain w := by
  have hrun : (run step newSession
      [.prepare false false [units "1. trap-a (own) — A"] [],
        .prepare true false [units "1. trap-b (own) — B"] [], .read false, .read true, .write false,
        .write true]).any (fun w =>
      (w.phase false).marks = [units "own/trap-a"] && (w.phase true).marks = [units "own/trap-b"] &&
        w.state = ⟨[units "own/trap-b"], []⟩) = true := by decide +kernel
  obtain ⟨w, hw, htest⟩ := Reaches.exists_of_run step begins_newSession _ _ hrun
  simp only [Bool.and_eq_true, decide_eq_true_eq] at htest
  obtain ⟨⟨hfirst, hsecond⟩, hstate⟩ := htest
  have hmem : units "own/trap-a" ∈ (w.phase false).marks := by
    rw [hfirst]
    exact List.mem_cons_self
  refine ⟨w, hw, hmem, by rw [hsecond]; exact List.mem_cons_self, fun hkept => ?_, fun hagain => ?_⟩
  · have hin := hkept.marked false _ hmem
    rw [hstate] at hin
    exact absurd hin (by decide +kernel)
  · have hnot := hagain false _ hmem false [units "1. trap-a (own) — A"] []
    rw [hstate] at hnot
    exact absurd hnot (by decide +kernel)

end Caveat.Hooks.Session
