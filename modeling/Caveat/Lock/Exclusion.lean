import Caveat.Lock.FileLock

/-!
# Mutual exclusion of the file lock

The path of a live holder names the file it created: nobody else creates while a file is there,
and `releaseFileLock` is called by the holder only. The one step that can break this is the
`unlink` of stale recovery, which removes whatever the path names by then and not the file whose
owner was probed. `SafeUnlink` admits that step when the path still names the file that was
read, or one whose creator is gone; then the pid read from it and the probe show that no live
process owns it, and mutual exclusion holds in every state reached.
-/

namespace Caveat.Lock

open Js Lib

variable {Proc : Type} [DecidableEq Proc] {pid : Proc → Nat}

/-- The lock file at the path is this live process's own. -/
def Owns (ps : ProcState) : Prop :=
  ps.status = .live ∧ (ps.holds = true ∨ ps.pc = .release ∨ ∃ i, ps.pc = .write i)

/--
A stale-recovery `unlink` finds the file that was read, or one whose creator is not live.
Every other step is admitted as it is.
-/
def SafeUnlink (s : State Proc) : Action Proc → Prop
  | .call p .unlink => ∀ i f, (s.procs p).pc = .unlink i → s.file = some f →
      f.ino = i ∨ ∀ c, f.creator = some c → (s.procs c).status ≠ .live
  | _ => True

/-- What holds in every state reached by safe unlinks. -/
structure Inv (pid : Proc → Nat) (s : State Proc) : Prop where
  /-- The path of an owner names the file it created. -/
  owns : ∀ p, Owns (s.procs p) → ∃ f, s.file = some f ∧ f.creator = some p ∧
    ∀ i, (s.procs p).pc = .write i → f.ino = i
  unborn : ∀ p, (s.procs p).status = .unborn → (s.procs p).pc = .idle ∧ (s.procs p).holds = false
  /-- A process inside `releaseFileLock` has given its lock up. -/
  released : ∀ p, (s.procs p).pc = .release → (s.procs p).holds = false
  born : ∀ f c, s.file = some f → f.creator = some c → (s.procs c).status ≠ .unborn
  /-- A file holds nothing yet or the pid of its creator. -/
  text : ∀ f c, s.file = some f → f.creator = some c → f.text = [] ∨ f.text = ofNat (pid c)
  ino : ∀ f, s.file = some f → f.ino < s.nextIno
  probeIno : ∀ p d i, (s.procs p).pc = .probe d i → i < s.nextIno
  unlinkIno : ∀ p i, (s.procs p).pc = .unlink i → i < s.nextIno
  /-- What is about to be probed is the creator of the file that was read. -/
  probe : ∀ p d i f c, (s.procs p).pc = .probe d i → s.file = some f → f.ino = i →
    f.creator = some c → d = pid c
  /-- The creator of the file that was found stale is dead. -/
  stale : ∀ p i f c, (s.procs p).pc = .unlink i → s.file = some f → f.ino = i →
    f.creator = some c → (s.procs c).status = .dead

/-- A change of one program counter that neither creates, writes nor releases. -/
structure Moves (pid : Proc → Nat) (s : State Proc) (p : Proc) (pc : Pc) : Prop where
  notWrite : ∀ i, pc ≠ .write i
  notRelease : pc ≠ .release
  probe : ∀ d i, pc = .probe d i → ∃ f, s.file = some f ∧ f.ino = i ∧ parsePid f.text = some d
  unlink : ∀ i, pc = .unlink i → ∃ d, (s.procs p).pc = .probe d i ∧ ¬ s.alive pid d

omit [DecidableEq Proc] in
theorem inv_start {s : State Proc} (h : Start pid s) : Inv pid s where
  owns p hp := by
    rcases hp.2 with hh | hr | ⟨i, hw⟩
    · obtain ⟨f, hf, hc⟩ := (h.holder p hh).2
      exact ⟨f, hf, hc, fun i hi => by rw [h.idle] at hi; cases hi⟩
    · rw [h.idle] at hr; cases hr
    · rw [h.idle] at hw; cases hw
  unborn p hp := by
    refine ⟨h.idle p, ?_⟩
    cases hh : (s.procs p).holds with
    | false => rfl
    | true => exact absurd hp (by rw [(h.holder p hh).1]; simp)
  released p hp := by rw [h.idle] at hp; cases hp
  born := h.born
  text := h.text
  ino := h.ino
  probeIno p d i hp := by rw [h.idle] at hp; cases hp
  unlinkIno p i hp := by rw [h.idle] at hp; cases hp
  probe p d i f c hp := by rw [h.idle] at hp; cases hp
  stale p i f c hp := by rw [h.idle] at hp; cases hp

/-! ## Preservation -/

/-- A change of one process that leaves the file alone. -/
theorem Inv.setProc {s : State Proc} (h : Inv pid s) {p : Proc} {ps : ProcState}
    (howns : Owns ps → Owns (s.procs p)) (hwrite : ∀ i, ps.pc = .write i → (s.procs p).pc = .write i)
    (hunborn : ps.status = .unborn → ps.pc = .idle ∧ ps.holds = false)
    (hreleased : ps.pc = .release → ps.holds = false)
    (hborn : (s.procs p).status ≠ .unborn → ps.status ≠ .unborn)
    (hdead : (s.procs p).status = .dead → ps.status = .dead)
    (hprobe : ∀ d i, ps.pc = .probe d i → (s.procs p).pc = .probe d i ∨
      ∃ f, s.file = some f ∧ f.ino = i ∧ parsePid f.text = some d)
    (hunlink : ∀ i, ps.pc = .unlink i → (s.procs p).pc = .unlink i ∨
      ∃ d, (s.procs p).pc = .probe d i ∧ ¬ s.alive pid d) :
    Inv pid (s.setProc p ps) where
  owns q hq := by
    rw [State.setProc_procs] at hq ⊢
    split at hq
    · rename_i heq
      subst heq
      obtain ⟨f, hf, hc, hi⟩ := h.owns q (howns hq)
      rw [if_pos rfl]
      exact ⟨f, hf, hc, fun i hw => hi i (hwrite i hw)⟩
    · rename_i hne
      rw [if_neg hne]
      exact h.owns q hq
  unborn q hq := by
    rw [State.setProc_procs] at hq ⊢
    split at hq
    · rename_i heq; rw [if_pos heq]; exact hunborn hq
    · rename_i hne; rw [if_neg hne]; exact h.unborn q hq
  released q hq := by
    rw [State.setProc_procs] at hq ⊢
    split at hq
    · rename_i heq; rw [if_pos heq]; exact hreleased hq
    · rename_i hne; rw [if_neg hne]; exact h.released q hq
  born f c hf hc := by
    have hcb := h.born f c hf hc
    rw [State.setProc_procs]
    split
    · rename_i heq; subst heq; exact hborn hcb
    · exact hcb
  text := h.text
  ino := h.ino
  probeIno q d i hq := by
    rw [State.setProc_procs] at hq
    split at hq
    · rcases hprobe d i hq with hold | ⟨f, hf, hi, _⟩
      · exact h.probeIno p d i hold
      · exact hi ▸ h.ino f hf
    · exact h.probeIno q d i hq
  unlinkIno q i hq := by
    rw [State.setProc_procs] at hq
    split at hq
    · rcases hunlink i hq with hold | ⟨d, hold, _⟩
      · exact h.unlinkIno p i hold
      · exact h.probeIno p d i hold
    · exact h.unlinkIno q i hq
  probe q d i f c hq hf hi hc := by
    rw [State.setProc_procs] at hq
    split at hq
    · rcases hprobe d i hq with hold | ⟨g, hg, _, hd⟩
      · exact h.probe p d i f c hold hf hi hc
      · -- the file just read is the one at the path
        obtain rfl : f = g := Option.some.inj (hf.symm.trans hg)
        rcases h.text f c hf hc with ht | ht
        · rw [ht, parsePid_nil] at hd; cases hd
        · rw [ht] at hd; exact parsePid_ofNat hd
    · exact h.probe q d i f c hq hf hi hc
  stale q i f c hq hf hi hc := by
    have hold : (s.procs c).status = .dead := by
      rw [State.setProc_procs] at hq
      split at hq
      · rcases hunlink i hq with hold | ⟨d, hold, halive⟩
        · exact h.stale p i f c hold hf hi hc
        · -- the probe found no live process with the creator's pid
          have hd := h.probe p d i f c hold hf hi hc
          have hlive : (s.procs c).status ≠ .live := fun hl => halive ⟨c, hl, hd.symm⟩
          have hnb := h.born f c hf hc
          revert hlive hnb
          cases (s.procs c).status <;> simp
      · exact h.stale q i f c hq hf hi hc
    rw [State.setProc_procs]
    split
    · rename_i heq; subst heq; exact hdead hold
    · exact hold

theorem inv_move {s : State Proc} (h : Inv pid s) {p : Proc} {pc : Pc} (hm : Moves pid s p pc)
    (hlive : (s.procs p).status = .live) : Inv pid (s.setPc p pc) := by
  refine h.setProc ?_ (fun i hi => absurd hi (hm.notWrite i)) ?_
    (fun hr => absurd hr hm.notRelease) (fun hb => hb) (fun hd => hd)
    (fun d i hi => .inr (hm.probe d i hi)) (fun i hi => .inr (hm.unlink i hi))
  · rintro ⟨hl, hh | hr | ⟨i, hw⟩⟩
    · exact ⟨hl, .inl hh⟩
    · exact absurd hr hm.notRelease
    · exact absurd hw (hm.notWrite i)
  · intro hu; rw [hlive] at hu; cases hu

omit [DecidableEq Proc] in
/-- Only the creator of the file at the path can own it. -/
theorem Inv.owner_eq {s : State Proc} (h : Inv pid s) {p q : Proc} (hp : Owns (s.procs p))
    (hq : Owns (s.procs q)) : p = q := by
  obtain ⟨f, hf, hc, _⟩ := h.owns p hp
  obtain ⟨g, hg, hd, _⟩ := h.owns q hq
  obtain rfl : f = g := Option.some.inj (hf.symm.trans hg)
  exact Option.some.inj (hc.symm.trans hd)

omit [DecidableEq Proc] in
/-- Removing a file nobody owns. -/
theorem Inv.removeFile {s : State Proc} (h : Inv pid s) (hno : ∀ p, ¬ Owns (s.procs p)) :
    Inv pid { s with file := none } where
  owns p hp := absurd hp (hno p)
  unborn := h.unborn
  released := h.released
  born f c hf := by cases hf
  text f c hf := by cases hf
  ino f hf := by cases hf
  probeIno := h.probeIno
  unlinkIno := h.unlinkIno
  probe p d i f c _ hf := by cases hf
  stale p i f c _ hf := by cases hf

/-- The exclusive create finds the path free, so nobody owned a lock before. -/
theorem inv_create {s : State Proc} (h : Inv pid s) {p : Proc} (hfile : s.file = none)
    (hlive : (s.procs p).status = .live) :
    Inv pid ({ s with
      file := some { ino := s.nextIno, text := [], creator := some p }
      nextIno := s.nextIno + 1 }.setPc p (.write s.nextIno)) := by
  have hno : ∀ q, ¬ Owns (s.procs q) := by
    intro q hq
    obtain ⟨f, hf, _⟩ := h.owns q hq
    rw [hfile] at hf; cases hf
  constructor
  case owns =>
    intro q hq
    rw [State.setPc_procs] at hq ⊢
    split at hq
    · rename_i heq
      subst heq
      refine ⟨_, rfl, rfl, fun i hi => ?_⟩
      rw [if_pos rfl] at hi
      exact Pc.write.inj hi
    · exact absurd hq (hno q)
  case unborn =>
    intro q hq
    rw [State.setPc_procs] at hq ⊢
    split at hq
    · rw [hlive] at hq; cases hq
    · rename_i hne; rw [if_neg hne]; exact h.unborn q hq
  case released =>
    intro q hq
    rw [State.setPc_procs] at hq ⊢
    split at hq
    · cases hq
    · rename_i hne; rw [if_neg hne]; exact h.released q hq
  case born =>
    rintro f c hf hc
    cases hf
    cases hc
    rw [State.setPc_procs, if_pos rfl]
    rw [hlive]; simp
  case text =>
    rintro f c hf hc
    cases hf
    exact .inl rfl
  case ino =>
    rintro f hf
    cases hf
    exact Nat.lt_succ_self _
  case probeIno =>
    intro q d i hq
    rw [State.setPc_procs] at hq
    split at hq
    · cases hq
    · exact Nat.lt_succ_of_lt (h.probeIno q d i hq)
  case unlinkIno =>
    intro q i hq
    rw [State.setPc_procs] at hq
    split at hq
    · cases hq
    · exact Nat.lt_succ_of_lt (h.unlinkIno q i hq)
  case probe =>
    rintro q d i f c hq hf hi hc
    rw [State.setPc_procs] at hq
    split at hq
    · cases hq
    · -- an inode read earlier is older than the new file
      cases hf
      exact absurd hi (Nat.ne_of_gt (h.probeIno q d i hq))
  case stale =>
    rintro q i f c hq hf hi hc
    rw [State.setPc_procs] at hq
    split at hq
    · cases hq
    · cases hf
      exact absurd hi (Nat.ne_of_gt (h.unlinkIno q i hq))

/-- The pid is written into the writer's own file. -/
theorem inv_write {s : State Proc} (h : Inv pid s) {p : Proc} {ino : Nat}
    (hpc : (s.procs p).pc = .write ino) (hlive : (s.procs p).status = .live) :
    Inv pid ({ s with file := s.file.map (LockFile.fill ino (ofNat (pid p))) }.setProc p
      { s.procs p with pc := .idle, holds := true }) := by
  obtain ⟨f, hf, hc, hi⟩ := h.owns p ⟨hlive, .inr (.inr ⟨ino, hpc⟩)⟩
  have hfill : s.file.map (LockFile.fill ino (ofNat (pid p))) =
      some { f with text := ofNat (pid p) } := by
    rw [hf, Option.map_some, LockFile.fill, if_pos (hi ino hpc)]
  rw [hfill]
  have hfilled : Inv pid { s with file := some { f with text := ofNat (pid p) } } := by
    constructor
    case owns =>
      intro q hq
      obtain ⟨g, hg, hgc, hgi⟩ := h.owns q hq
      obtain rfl : f = g := Option.some.inj (hf.symm.trans hg)
      exact ⟨_, rfl, hgc, hgi⟩
    case unborn => exact h.unborn
    case released => exact h.released
    case born => rintro g c hg hgc; cases hg; exact h.born f c hf hgc
    case text =>
      rintro g c hg hgc
      cases hg
      obtain rfl : p = c := Option.some.inj (hc.symm.trans hgc)
      exact .inr rfl
    case ino => rintro g hg; cases hg; exact h.ino f hf
    case probeIno => exact h.probeIno
    case unlinkIno => exact h.unlinkIno
    case probe => rintro q d i g c hq hg hgi hgc; cases hg; exact h.probe q d i f c hq hf hgi hgc
    case stale => rintro q i g c hq hg hgi hgc; cases hg; exact h.stale q i f c hq hf hgi hgc
  refine hfilled.setProc ?_ (by simp) ?_ (by simp) (fun hb => hb) (fun hd => hd) (by simp) (by simp)
  · exact fun _ => ⟨hlive, .inr (.inr ⟨ino, hpc⟩)⟩
  · intro hu
    dsimp only at hu
    rw [hlive] at hu; cases hu

/-- A safe stale-recovery unlink removes a file nobody owns. -/
theorem inv_unlink {s : State Proc} (h : Inv pid s) {p : Proc} {i : Nat}
    (hpc : (s.procs p).pc = .unlink i) (hlive : (s.procs p).status = .live)
    (hsafe : SafeUnlink s (.call p .unlink)) :
    Inv pid ({ s with file := none }.setPc p (.create true)) := by
  have hno : ∀ q, ¬ Owns (s.procs q) := by
    intro q hq
    obtain ⟨f, hf, hc, _⟩ := h.owns q hq
    rcases hsafe i f hpc hf with hi | hnl
    · have hdead := h.stale p i f q hpc hf hi hc
      rw [hq.1] at hdead; cases hdead
    · exact hnl q hc hq.1
  exact inv_move (h.removeFile hno) ⟨by simp, by simp, by simp, by simp⟩ hlive

theorem inv_unlinkOwn {s : State Proc} (h : Inv pid s) {p : Proc}
    (hpc : (s.procs p).pc = .release) (hlive : (s.procs p).status = .live) :
    Inv pid ({ s with file := none }.setPc p .idle) := by
  have hmove : Inv pid (s.setPc p .idle) :=
    inv_move h ⟨by simp, by simp, by simp, by simp⟩ hlive
  have hown : Owns (s.procs p) := ⟨hlive, .inr (.inl hpc)⟩
  refine hmove.removeFile fun q hq => ?_
  rw [State.setPc_procs] at hq
  split at hq
  · rcases hq.2 with hq | hq | ⟨i, hq⟩
    · rw [h.released p hpc] at hq; cases hq
    · cases hq
    · cases hq
  · rename_i hne
    exact hne (h.owner_eq hq hown)

/-! ## Whole runs -/

variable [Fintype Proc]

/-- **What a step of a process can do.** -/
theorem perform_cases {s s' : State Proc} {p : Proc} {c : Call}
    (h : perform pid s p c = some s') :
    (∃ pc, Moves pid s p pc ∧ s' = s.setPc p pc) ∨
    (s.file = none ∧ s' = { s with
        file := some { ino := s.nextIno, text := [], creator := some p }
        nextIno := s.nextIno + 1 }.setPc p (.write s.nextIno)) ∨
    (∃ ino, (s.procs p).pc = .write ino ∧
      s' = { s with file := s.file.map (LockFile.fill ino (ofNat (pid p))) }.setProc p
        { s.procs p with pc := .idle, holds := true }) ∨
    (c = .unlink ∧ (∃ i, (s.procs p).pc = .unlink i) ∧
      s' = { s with file := none }.setPc p (.create true)) ∨
    ((s.procs p).holds = true ∧
      s' = s.setProc p { s.procs p with pc := .release, holds := false }) ∨
    ((s.procs p).pc = .release ∧ s' = { s with file := none }.setPc p .idle) := by
  have plain : ∀ pc : Pc, (∀ i, pc ≠ .write i) → pc ≠ .release → (∀ d i, pc ≠ .probe d i) →
      (∀ i, pc ≠ .unlink i) → Moves pid s p pc := fun pc hw hr hp hu =>
    ⟨hw, hr, fun d i he => absurd he (hp d i), fun i he => absurd he (hu i)⟩
  cases c with
  | acquire =>
      simp only [perform] at h
      split at h
      · cases h; exact .inl ⟨_, plain _ (by simp) (by simp) (by simp) (by simp), rfl⟩
      · cases h
  | create =>
      simp only [perform] at h
      split at h
      · rename_i retry _
        split at h
        · rename_i hfile; cases h; exact .inr (.inl ⟨hfile, rfl⟩)
        · cases h
          cases retry <;>
            exact .inl ⟨_, plain _ (by simp) (by simp) (by simp) (by simp), rfl⟩
      · cases h
  | write =>
      simp only [perform] at h
      split at h
      · rename_i ino hpc; cases h; exact .inr (.inr (.inl ⟨ino, hpc, rfl⟩))
      · cases h
  | read =>
      simp only [perform] at h
      split at h
      · split at h
        · cases h; exact .inl ⟨_, plain _ (by simp) (by simp) (by simp) (by simp), rfl⟩
        · rename_i f hfile
          split at h
          · rename_i d hd
            cases h
            refine .inl ⟨_, ⟨by simp, by simp, ?_, by simp⟩, rfl⟩
            rintro d' i he
            cases he
            exact ⟨f, hfile, rfl, hd⟩
          · cases h; exact .inl ⟨_, plain _ (by simp) (by simp) (by simp) (by simp), rfl⟩
      · cases h
  | probe =>
      simp only [perform] at h
      split at h
      · rename_i d ino hpc
        by_cases ha : s.alive pid d
        · rw [if_pos ha] at h
          cases h; exact .inl ⟨_, plain _ (by simp) (by simp) (by simp) (by simp), rfl⟩
        · rw [if_neg ha] at h
          cases h
          refine .inl ⟨_, ⟨by simp, by simp, by simp, ?_⟩, rfl⟩
          rintro i he
          cases he
          exact ⟨d, hpc, ha⟩
      · cases h
  | unlink =>
      simp only [perform] at h
      split at h
      · rename_i i hpc; cases h; exact .inr (.inr (.inr (.inl ⟨rfl, ⟨i, hpc⟩, rfl⟩)))
      · cases h
  | release =>
      simp only [perform] at h
      split at h
      · rename_i hholds; cases h; exact .inr (.inr (.inr (.inr (.inl ⟨hholds, rfl⟩))))
      · cases h
  | unlinkOwn =>
      simp only [perform] at h
      split at h
      · rename_i hpc; cases h; exact .inr (.inr (.inr (.inr (.inr ⟨hpc, rfl⟩))))
      · cases h
  | fail =>
      simp only [perform] at h
      split at h
      · cases h
      · cases h; exact .inl ⟨_, plain _ (by simp) (by simp) (by simp) (by simp), rfl⟩

/-- **`Inv` is preserved by every admitted step.** -/
theorem inv_step {s s' : State Proc} {a : Action Proc} (h : Inv pid s) (hok : SafeUnlink s a)
    (hs : step pid s a = some s') : Inv pid s' := by
  cases a with
  | start p =>
      simp only [step] at hs
      split at hs
      · rename_i hu
        cases hs
        obtain ⟨hpc, hholds⟩ := h.unborn p hu
        refine h.setProc ?_ (fun i hi => hi) (by simp) (fun _ => hholds) (by simp)
          (fun hd => by rw [hu] at hd; cases hd) (fun d i hi => .inl hi) (fun i hi => .inl hi)
        rintro ⟨_, hh | hr | ⟨i, hw⟩⟩
        · rw [hholds] at hh; cases hh
        · rw [hpc] at hr; cases hr
        · rw [hpc] at hw; cases hw
      · cases hs
  | die p =>
      simp only [step] at hs
      split at hs
      · cases hs
        exact h.setProc (fun hp => absurd hp.1 (by simp)) (fun i hi => hi) (by simp)
          (h.released p) (by simp) (by simp) (fun d i hi => .inl hi) (fun i hi => .inl hi)
      · cases hs
  | call p c =>
      simp only [step] at hs
      split at hs
      · rename_i hlive
        rcases perform_cases hs with ⟨pc, hm, rfl⟩ | ⟨hfile, rfl⟩ | ⟨ino, hpc, rfl⟩ |
          ⟨rfl, ⟨i, hpc⟩, rfl⟩ | ⟨hholds, rfl⟩ | ⟨hpc, rfl⟩
        · exact inv_move h hm hlive
        · exact inv_create h hfile hlive
        · exact inv_write h hpc hlive
        · exact inv_unlink h hpc hlive hok
        · exact h.setProc (fun _ => ⟨hlive, .inl hholds⟩) (by simp)
            (fun hu => by dsimp only at hu; rw [hlive] at hu; cases hu) (by simp)
            (fun hb => hb) (fun hd => hd) (by simp) (by simp)
        · exact inv_unlinkOwn h hpc hlive
      · cases hs

omit [DecidableEq Proc] [Fintype Proc] in
theorem Inv.mutualExclusion {s : State Proc} (h : Inv pid s) : MutualExclusion s :=
  fun _ _ hp hph hq hqh => h.owner_eq ⟨hp, .inl hph⟩ ⟨hq, .inl hqh⟩

/--
**The lock excludes as long as stale recovery unlinks what it probed.** For any number of
processes, any starting lock file and any interleaving of the single steps.
-/
theorem mutualExclusion_of_safeUnlink {s : State Proc}
    (h : Reaches (step pid) SafeUnlink (Start pid) s) : MutualExclusion s :=
  (h.invariant (fun _ => inv_start) (fun _ _ _ hi hok hs => inv_step hi hok hs)).mutualExclusion

/-! ## Two recoverers of one stale lock -/

/-- Process `0` is dead and its lock file was left behind; `1` and `2` are live. -/
def staleStart : State (Fin 3) where
  file := some { ino := 0, text := ofNat 10, creator := some 0 }
  procs p := { status := if p = 0 then .dead else .live, pc := .idle, holds := false }
  nextIno := 1

def stalePid (p : Fin 3) : Nat := p + 10

theorem start_staleStart : Start stalePid staleStart where
  idle _ := rfl
  holder p hp := by cases hp
  born f c hf hc := by cases hf; cases hc; decide
  text f c hf hc := by cases hf; cases hc; exact .inr rfl
  ino f hf := by cases hf; decide

/-- What a recoverer does up to the `unlink`, and from there to the held lock. -/
def probeStale (p : Fin 3) : List (Action (Fin 3)) :=
  [.call p .acquire, .call p .create, .call p .read, .call p .probe]

def takeOver (p : Fin 3) : List (Action (Fin 3)) :=
  [.call p .unlink, .call p .create, .call p .write]

/-- One recoverer alone takes the stale lock over by safe steps. -/
theorem mutualExclusion_of_safeUnlink_takeOver : ∃ s,
    Reaches (step stalePid) SafeUnlink (Start stalePid) s ∧ (s.procs 1).holds = true ∧
      MutualExclusion s := by
  have h0 : Reaches (step stalePid) SafeUnlink (Start stalePid) staleStart :=
    .init start_staleStart
  have h1 := h0.act (.call 1 .acquire) trivial rfl
  have h2 := h1.act (.call 1 .create) trivial rfl
  have h3 := h2.act (.call 1 .read) trivial rfl
  have h4 := h3.act (.call 1 .probe) trivial rfl
  have hsafe : ∀ i f, Pc.unlink 0 = .unlink i → staleStart.file = some f → f.ino = i := by
    intro i f hi hf; cases hi; cases hf; rfl
  have h5 := h4.act (.call 1 .unlink) (fun i f hi hf => .inl (hsafe i f hi hf)) rfl
  have h6 := h5.act (.call 1 .create) trivial rfl
  have h7 := h6.act (.call 1 .write) trivial rfl
  exact ⟨_, h7, rfl, mutualExclusion_of_safeUnlink h7⟩

/--
Both recoverers probe the dead owner before either unlinks. The second `unlink` then removes
the lock the first has just created, and both hold it.
-/
theorem mutualExclusion_fails : ∃ s, Reaches (step stalePid) (fun _ _ => True) (Start stalePid) s ∧
    ¬ MutualExclusion s := by
  obtain ⟨s, hr, hs⟩ := Reaches.exists_of_run (step stalePid) start_staleStart
    (probeStale 1 ++ probeStale 2 ++ takeOver 1 ++ takeOver 2)
    (fun s => decide ((s.procs 1).status = .live ∧ (s.procs 1).holds = true ∧
      (s.procs 2).status = .live ∧ (s.procs 2).holds = true)) (by decide)
  obtain ⟨h1, h2, h3, h4⟩ := of_decide_eq_true hs
  exact ⟨s, hr, fun hm => absurd (hm 1 2 h1 h2 h3 h4) (by decide)⟩

end Caveat.Lock
