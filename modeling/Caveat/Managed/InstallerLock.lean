import Caveat.Managed.Installer
import Caveat.Managed.JournalExact

/-!
# The installer's lock and its recovery

A live installer's file is at the path: nobody creates one while a file is there, and an installer
removes its own. A recovery removes the path, whatever file is there by then. When that file is the
one whose bytes it read, the process which wrote them was gone at the probe, and no file of a live
installer goes. Another recovery can have removed it before, and an installer have created the next.
-/

namespace Caveat.Managed.Installer

open Js Lib

variable {Proc : Type} [DecidableEq Proc] {doubles : Doubles} {isDate : Units → Bool}
  {pid : Proc → Pid} {s s' : State Proc} {p : Proc} {pc : Pc}

/--
The file at the path, when a recovery removes it, is the one whose bytes it read.
Every other step is admitted as it is.
-/
def SafeRemoval (s : State Proc) : Action Proc → Prop
  | .call p .remove => ∀ serial f, (s.procs p).pc = .remove serial → s.file = some f →
      f.serial = serial
  | _ => True

variable (pid) in
/-- What a recovery knows of the file that it read, should it be at the path. -/
def Checked (s : State Proc) : Pc → Prop
  | .probe _ _ d serial => serial < s.nextSerial ∧ ∀ f c, s.file = some f → f.serial = serial →
      f.creator = some c → d = (pid c).val
  | .restat _ _ serial | .reread _ serial | .remove serial => serial < s.nextSerial ∧
      ∀ f c, s.file = some f → f.serial = serial → f.creator = some c →
        (s.procs c).status = .dead
  | _ => True

variable (doubles pid) in
/-- What holds in every state that safe removals reach. -/
structure Inv (s : State Proc) : Prop where
  /-- The path of a holder names the file that it created. -/
  owns : ∀ p, s.Holds p → ∃ f, s.file = some f ∧ f.creator = some p ∧
    ∀ n, (s.procs p).pc = .write n → f.serial = n
  unborn : ∀ p, (s.procs p).status = .unborn → (s.procs p).pc = .idle
  file : ∀ f, s.file = some f → FileSound doubles pid s f
  checked : ∀ p, Checked pid s (s.procs p).pc

/-! ## What a step leaves as it is -/

/-- The file at the path, where it is an old one, is the file that was there. -/
structure Keeps (s s' : State Proc) : Prop where
  nextSerial : s.nextSerial ≤ s'.nextSerial
  dead : ∀ c, (s.procs c).status = .dead → (s'.procs c).status = .dead
  born : ∀ c, (s.procs c).status ≠ .unborn → (s'.procs c).status ≠ .unborn
  file : ∀ f', s'.file = some f' → f'.serial < s.nextSerial →
    ∃ f, s.file = some f ∧ f.serial = f'.serial ∧ f.creator = f'.creator

omit [DecidableEq Proc] in
theorem Checked.keep (h : Checked pid s pc) (hk : Keeps s s') : Checked pid s' pc := by
  cases pc with
  | probe ino bytes d serial =>
      refine ⟨h.1.trans_le hk.nextSerial, fun f c hf hserial hc => ?_⟩
      obtain ⟨g, hg, hgserial, hgc⟩ := hk.file f hf (hserial ▸ h.1)
      exact h.2 g c hg (hgserial.trans hserial) (hgc.trans hc)
  | restat ino bytes serial | reread bytes serial | remove serial =>
      refine ⟨h.1.trans_le hk.nextSerial, fun f c hf hserial hc => hk.dead c ?_⟩
      obtain ⟨g, hg, hgserial, hgc⟩ := hk.file f hf (hserial ▸ h.1)
      exact h.2 g c hg (hgserial.trans hserial) (hgc.trans hc)
  | _ => trivial

omit [DecidableEq Proc] in
theorem keeps_refl (s : State Proc) : Keeps s s where
  nextSerial := le_refl _
  dead _ h := h
  born _ h := h
  file f hf _ := ⟨f, hf, rfl, rfl⟩

omit [DecidableEq Proc] in
theorem Keeps.trans {s'' : State Proc} (h : Keeps s s') (h' : Keeps s' s'') : Keeps s s'' where
  nextSerial := h.nextSerial.trans h'.nextSerial
  dead c hc := h'.dead c (h.dead c hc)
  born c hc := h'.born c (h.born c hc)
  file f hf hserial := by
    obtain ⟨g, hg, hgserial, hgc⟩ := h'.file f hf (hserial.trans_le h.nextSerial)
    obtain ⟨e, he, heserial, hec⟩ := h.file g hg (hgserial ▸ hserial)
    exact ⟨e, he, heserial.trans hgserial, hec.trans hgc⟩

theorem keeps_setPc (s : State Proc) (p : Proc) (pc : Pc) : Keeps s (s.setPc p pc) where
  nextSerial := le_refl _
  dead c hc := by rwa [State.setPc_status]
  born c hc := by rwa [State.setPc_status]
  file f hf _ := ⟨f, hf, rfl, rfl⟩

omit [DecidableEq Proc] in
theorem FileSound.keep {f : LockFile Proc} (h : FileSound doubles pid s f) (hk : Keeps s s') :
    FileSound doubles pid s' f where
  serial := h.serial.trans_le hk.nextSerial
  born c hc := hk.born c (h.born c hc)
  bytes := h.bytes

omit [DecidableEq Proc] in
/-- Only the creator of the file at the path holds the lock. -/
theorem Inv.holder_eq (h : Inv doubles pid s) {q : Proc} (hp : s.Holds p) (hq : s.Holds q) :
    p = q := by
  obtain ⟨f, hf, hc, _⟩ := h.owns p hp
  obtain ⟨g, hg, hd, _⟩ := h.owns q hq
  obtain rfl : f = g := Option.some.inj (hf.symm.trans hg)
  exact Option.some.inj (hc.symm.trans hd)

omit [DecidableEq Proc] in
theorem inv_start (h : Start doubles pid s) : Inv doubles pid s where
  owns p hp := by
    have hholding := hp.2
    rw [h.idle] at hholding
    exact absurd hholding (by simp [Pc.holding])
  unborn p _ := h.idle p
  file := h.file
  checked p := by
    rw [h.idle]
    trivial

/-! ## One lemma for each kind of step -/

/-- A process goes on, and keeps what it has. -/
theorem Inv.setPc (h : Inv doubles pid s) (hlive : (s.procs p).status = .live)
    (hholding : pc.holding = true → (s.procs p).pc.holding = true)
    (hwrite : ∀ n, pc ≠ .write n) (hchecked : Checked pid s pc) :
    Inv doubles pid (s.setPc p pc) where
  owns q hq := by
    by_cases heq : q = p
    · rw [heq] at hq ⊢
      have hpc : ((s.setPc p pc).procs p).pc = pc := by rw [State.setPc_procs, if_pos rfl]
      have hold := hq.2
      rw [hpc] at hold
      obtain ⟨f, hf, hc, _⟩ := h.owns p ⟨hlive, hholding hold⟩
      exact ⟨f, hf, hc, fun n hn => absurd (hpc ▸ hn) (hwrite n)⟩
    · have hsame : (s.setPc p pc).procs q = s.procs q := by rw [State.setPc_procs, if_neg heq]
      rw [hsame]
      exact h.owns q (by rwa [State.Holds, hsame] at hq)
  unborn q hq := by
    rw [State.setPc_status] at hq
    by_cases heq : q = p
    · rw [heq, hlive] at hq
      exact absurd hq (by simp)
    · rw [State.setPc_procs, if_neg heq]
      exact h.unborn q hq
  file f hf := (h.file f hf).keep (keeps_setPc s p pc)
  checked q := by
    rw [State.setPc_procs]
    split
    · exact hchecked.keep (keeps_setPc s p pc)
    · exact (h.checked q).keep (keeps_setPc s p pc)

omit [DecidableEq Proc] in
theorem keeps_removed (s : State Proc) : Keeps s { s with file := none } where
  nextSerial := le_refl _
  dead _ h := h
  born _ h := h
  file _ hf := absurd hf (by simp)

/-- The path is removed, and whoever held the lock gives it up. -/
theorem Inv.removed (h : Inv doubles pid s) (hno : ∀ q, s.Holds q → q = p) :
    Inv doubles pid ({ s with file := none }.setPc p .idle) where
  owns q hq := by
    have hsame : s.Holds q := by
      refine ⟨by simpa using hq.1, ?_⟩
      have hholding := hq.2
      rw [State.setPc_procs] at hholding
      split at hholding
      · exact absurd hholding (by simp [Pc.holding])
      · exact hholding
    have hholding := hq.2
    rw [hno q hsame, State.setPc_procs, if_pos rfl] at hholding
    exact absurd hholding (by simp [Pc.holding])
  unborn q hq := by
    rw [State.setPc_procs]
    split
    · rfl
    · exact h.unborn q (by simpa using hq)
  file f hf := absurd hf (by simp)
  checked q := by
    rw [State.setPc_procs]
    split
    · trivial
    · exact (h.checked q).keep ((keeps_removed s).trans (keeps_setPc _ p .idle))

/-- The exclusive creation finds the path free, so nobody held the lock. -/
theorem Inv.acquired (h : Inv doubles pid s) (hfile : s.file = none) (ino : Nat)
    (hlive : (s.procs p).status = .live) :
    Inv doubles pid ({ s with
      file := some { serial := s.nextSerial, ino, bytes := [], creator := some p }
      nextSerial := s.nextSerial + 1 }.setPc p (.write s.nextSerial)) := by
  have hkeep : Keeps s ({ s with
      file := some { serial := s.nextSerial, ino, bytes := [], creator := some p }
      nextSerial := s.nextSerial + 1 }.setPc p (.write s.nextSerial)) :=
    { nextSerial := Nat.le_succ _
      dead := fun c hc => by rwa [State.setPc_status]
      born := fun c hc => by rwa [State.setPc_status]
      file := fun f hf hserial => by
        -- the new file is no old one
        rw [State.setPc_file] at hf
        rw [← Option.some.inj hf] at hserial
        exact absurd hserial (Nat.lt_irrefl _) }
  constructor
  case owns =>
    intro q hq
    rw [State.setPc_procs]
    split
    · rename_i heq
      exact ⟨_, rfl, congrArg some heq.symm, fun n hn => Pc.write.inj hn⟩
    · rename_i hne
      have hold : s.Holds q := by
        rw [State.Holds, State.setPc_procs, if_neg hne] at hq
        exact hq
      obtain ⟨f, hf, _⟩ := h.owns q hold
      rw [hfile] at hf
      exact absurd hf (by simp)
  case unborn =>
    intro q hq
    rw [State.setPc_status] at hq
    by_cases heq : q = p
    · rw [heq] at hq
      exact absurd (hlive.symm.trans hq) (by simp)
    · rw [State.setPc_procs, if_neg heq]
      exact h.unborn q hq
  case file =>
    intro f hf
    obtain rfl := Option.some.inj hf
    refine ⟨Nat.lt_succ_self _, fun c hc => ?_, fun c _ => .inl rfl⟩
    obtain rfl := Option.some.inj hc
    rw [State.setPc_status]
    exact hlive ▸ by simp
  case checked =>
    intro q
    rw [State.setPc_procs]
    split
    · trivial
    · exact (h.checked q).keep hkeep

/-- The bytes go into the writer's own file. -/
theorem Inv.written (h : Inv doubles pid s) {n : Nat} (hpc : (s.procs p).pc = .write n)
    (hlive : (s.procs p).status = .live) (startedAt : Units) :
    Inv doubles pid ({ s with
      file := s.file.map (LockFile.fill n (lockBytes doubles (pid p) startedAt)) }.setPc p .work) := by
  obtain ⟨f, hf, hc, hn⟩ := h.owns p ⟨hlive, by rw [hpc]; rfl⟩
  have hfill : s.file.map (LockFile.fill n (lockBytes doubles (pid p) startedAt)) =
      some { f with bytes := lockBytes doubles (pid p) startedAt } := by
    rw [hf, Option.map_some, LockFile.fill, if_pos (hn n hpc)]
  rw [hfill]
  have hkeep : Keeps s { s with
      file := some { f with bytes := lockBytes doubles (pid p) startedAt } } :=
    { nextSerial := le_refl _
      dead := fun _ h => h
      born := fun _ h => h
      file := fun g hg _ => by
        obtain rfl := Option.some.inj hg
        exact ⟨f, hf, rfl, rfl⟩ }
  have hwritten : Inv doubles pid { s with
      file := some { f with bytes := lockBytes doubles (pid p) startedAt } } := by
    constructor
    case owns =>
      intro q hq
      obtain ⟨g, hg, hgc, hgn⟩ := h.owns q hq
      obtain rfl : f = g := Option.some.inj (hf.symm.trans hg)
      exact ⟨_, rfl, hgc, hgn⟩
    case unborn => exact h.unborn
    case file =>
      intro g hg
      obtain rfl := Option.some.inj hg
      refine ⟨(h.file f hf).serial, (h.file f hf).born, fun c hgc => .inr ⟨startedAt, ?_⟩⟩
      rw [Option.some.inj (hc.symm.trans hgc)]
    case checked => exact fun q => (h.checked q).keep hkeep
  refine hwritten.setPc hlive (fun _ => ?_) (fun _ => by simp) trivial
  show (s.procs p).pc.holding = true
  rw [hpc]
  rfl

/-! ## Runs -/

omit [DecidableEq Proc] in
/-- The process of a file whose number the probe did not find is dead. -/
theorem dead_of_not_alive (h : Inv doubles pid s) {ino d serial : Nat} {bytes : Bytes}
    (hchecked : Checked pid s (.probe ino bytes d serial)) (halive : ¬ s.alive pid d) :
    serial < s.nextSerial ∧ ∀ f c, s.file = some f → f.serial = serial → f.creator = some c →
      (s.procs c).status = .dead := by
  refine ⟨hchecked.1, fun f c hf hserial hc => ?_⟩
  have hd := hchecked.2 f c hf hserial hc
  have hborn := (h.file f hf).born c hc
  cases hstatus : (s.procs c).status with
  | unborn => exact absurd hstatus hborn
  | live => exact absurd ⟨c, hstatus, hd.symm⟩ halive
  | dead => rfl

omit [DecidableEq Proc] in
/-- The number that is read from the file at the path is its creator's. -/
theorem checked_read (h : Inv doubles pid s) {f : LockFile Proc} (hf : s.file = some f) {d : Nat}
    (hread : readOwner doubles isDate f.bytes = some d) (ino : Nat) :
    Checked pid s (.probe ino f.bytes d f.serial) := by
  refine ⟨(h.file f hf).serial, fun g c hg _ hc => ?_⟩
  obtain rfl : f = g := Option.some.inj (hf.symm.trans hg)
  rcases (h.file f hf).bytes c hc with hnil | ⟨startedAt, hbytes⟩
  · rw [hnil, readOwner_nil] at hread
    exact absurd hread (by simp)
  · rw [hbytes] at hread
    exact readOwner_lockBytes doubles isDate hread

omit [DecidableEq Proc] in
/-- A safe removal takes no file of a holder. -/
theorem not_holds_of_safe (h : Inv doubles pid s) {serial : Nat}
    (hpc : (s.procs p).pc = .remove serial) (hsafe : SafeRemoval s (.call p .remove)) (q : Proc) :
    ¬ s.Holds q := by
  intro hq
  obtain ⟨f, hf, hc, _⟩ := h.owns q hq
  have hchecked := h.checked p
  rw [hpc] at hchecked
  have hdead := hchecked.2 f q hf (hsafe serial f hpc hf) hc
  rw [hq.1] at hdead
  exact absurd hdead (by simp)

variable [Fintype Proc]

theorem inv_perform {c : Call} (h : Inv doubles pid s) (hlive : (s.procs p).status = .live)
    (hok : SafeRemoval s (.call p c)) (hs : perform doubles isDate pid s p c = some s') :
    Inv doubles pid s' := by
  have hchecked := h.checked p
  have hidle : Inv doubles pid (s.setPc p .idle) :=
    h.setPc hlive (by simp [Pc.holding]) (by simp) trivial
  unfold perform at hs
  split at hs
  case h_1 ino hpc =>
    split at hs
    · rename_i hfile
      cases hs
      exact h.acquired hfile ino hlive
    · cases hs
      exact h
  case h_2 startedAt n hpc =>
    cases hs
    exact h.written hpc hlive startedAt
  case h_3 hpc =>
    cases hs
    exact h.setPc hlive (by simp [hpc, Pc.holding]) (by simp) trivial
  case h_4 hpc =>
    cases hs
    exact h.removed fun q hq => h.holder_eq hq ⟨hlive, by rw [hpc]; rfl⟩
  case h_5 hpc =>
    cases hs
    split
    · exact h.setPc hlive (by simp [Pc.holding]) (by simp) trivial
    · exact hidle
  case h_6 hpc =>
    split at hs
    · cases hs
      exact hidle
    · cases hs
      split
      · exact hidle
      · exact h.setPc hlive (by simp [Pc.holding]) (by simp) trivial
  case h_7 ino hpc =>
    split at hs
    · cases hs
      exact hidle
    · rename_i f hf
      split at hs
      · cases hs
        exact hidle
      · rename_i d hread
        cases hs
        exact h.setPc hlive (by simp [Pc.holding]) (by simp) (checked_read h hf hread ino)
  case h_8 ino bytes d n hpc =>
    cases hs
    split
    · exact hidle
    · rename_i halive
      rw [hpc] at hchecked
      exact h.setPc hlive (by simp [Pc.holding]) (by simp) (dead_of_not_alive h hchecked halive)
  case h_9 ino bytes n hpc =>
    cases hs
    rw [hpc] at hchecked
    split
    · exact h.setPc hlive (by simp [Pc.holding]) (by simp) hchecked
    · exact hidle
  case h_10 bytes n hpc =>
    cases hs
    rw [hpc] at hchecked
    split
    · exact h.setPc hlive (by simp [Pc.holding]) (by simp) hchecked
    · exact hidle
  case h_11 n hpc =>
    cases hs
    exact h.removed fun q hq => absurd hq (not_holds_of_safe h hpc hok q)
  case h_12 => exact absurd hs (by simp)
  case h_13 n hpc =>
    cases hs
    exact h.setPc hlive (by simp [hpc, Pc.holding]) (by simp) trivial
  case h_14 hpc =>
    cases hs
    exact h.setPc hlive (by simp [hpc, Pc.holding]) (by simp) trivial
  case h_15 =>
    cases hs
    exact hidle
  case h_16 => exact absurd hs (by simp)

omit [Fintype Proc] in
/-- A process is born, or it dies. -/
theorem Inv.setStatus (h : Inv doubles pid s) {status : Status}
    (hborn : status ≠ .unborn) (hdead : (s.procs p).status ≠ .dead)
    (hidle : status = .live → (s.procs p).pc = .idle) :
    Inv doubles pid (s.setProc p { s.procs p with status }) := by
  have hkeep : Keeps s (s.setProc p { s.procs p with status }) :=
    { nextSerial := le_refl _
      dead := fun c hc => by
        rw [State.setProc_procs]
        split
        · rename_i heq
          exact absurd (heq ▸ hc) hdead
        · exact hc
      born := fun c hc => by
        rw [State.setProc_procs]
        split
        · exact hborn
        · exact hc
      file := fun f hf _ => ⟨f, hf, rfl, rfl⟩ }
  constructor
  case owns =>
    intro q hq
    by_cases heq : q = p
    · rw [heq, State.Holds, State.setProc_procs, if_pos rfl] at hq
      have hholding := hq.2
      dsimp only at hholding
      rw [hidle hq.1] at hholding
      exact absurd hholding (by simp [Pc.holding])
    · rw [State.Holds, State.setProc_procs, if_neg heq] at hq
      rw [State.setProc_procs, if_neg heq]
      exact h.owns q hq
  case unborn =>
    intro q hq
    rw [State.setProc_procs] at hq ⊢
    split at hq
    · exact absurd hq hborn
    · rename_i hne
      rw [if_neg hne]
      exact h.unborn q hq
  case file => exact fun f hf => (h.file f hf).keep hkeep
  case checked =>
    intro q
    have hsame : ((s.setProc p { s.procs p with status }).procs q).pc = (s.procs q).pc := by
      rw [State.setProc_procs]
      split
      · rename_i heq
        rw [heq]
      · rfl
    rw [hsame]
    exact (h.checked q).keep hkeep

theorem inv_step {a : Action Proc} (h : Inv doubles pid s) (hok : SafeRemoval s a)
    (hs : step doubles isDate pid s a = some s') : Inv doubles pid s' := by
  unfold step at hs
  cases a with
  | start p =>
      dsimp only at hs
      split at hs
      · rename_i hunborn
        cases hs
        exact h.setStatus (by simp) (by rw [hunborn]; simp) fun _ => h.unborn p hunborn
      · exact absurd hs (by simp)
  | die p =>
      dsimp only at hs
      split at hs
      · rename_i hlive
        cases hs
        exact h.setStatus (by simp) (by rw [hlive]; simp) fun hl => absurd hl (by simp)
      · exact absurd hs (by simp)
  | call p c =>
      dsimp only at hs
      split at hs
      · rename_i hlive
        exact inv_perform h hlive hok hs
      · exact absurd hs (by simp)

/--
The lock is held by one live process at most, and a recovery whose removal `ok` admits does not
remove the lock of a live owner.
-/
structure LockSafe (ok : State Proc → Action Proc → Prop) (s : State Proc) : Prop where
  exclusive : ∀ p q, s.Holds p → s.Holds q → p = q
  removed : ∀ p n f c, ok s (.call p .remove) → (s.procs p).pc = .remove n →
    s.file = some f → f.creator = some c → (s.procs c).status ≠ .live

/--
**The recovery of an installer's lock is safe as long as it removes the file that it read.** For any
number of installers and recoveries, any lock that was left behind and any order of the steps.
-/
theorem recovery_safe_of_safeRemoval (doubles : Doubles) (isDate : Units → Bool) (pid : Proc → Pid)
    (s : State Proc)
    (h : Reaches (step doubles isDate pid) SafeRemoval (Start doubles pid) s) : LockSafe SafeRemoval s := by
  have hinv : Inv doubles pid s :=
    h.invariant (fun _ hi => inv_start hi) fun _ _ _ hi hok hs => inv_step hi hok hs
  refine ⟨fun p q hp hq => hinv.holder_eq hp hq, fun p n f c hsafe hpc hf hc => ?_⟩
  have hchecked := hinv.checked p
  rw [hpc] at hchecked
  rw [hchecked.2 f c hf (hsafe n f hpc hf) hc]
  simp

/-! ## Two recoveries of one lock -/

def somePid (p : Fin 5) : Pid := ⟨p.val + 10, by have := p.isLt; omega⟩

/-- Process `0` is dead and left its lock behind; the others are live. -/
def staleStart : State (Fin 5) where
  file := some
    { serial := 0, ino := 7, bytes := lockBytes someDoubles (somePid 0) [], creator := some 0 }
  procs p := { status := if p = 0 then .dead else .live, pc := .idle }
  nextSerial := 1

theorem start_staleStart : Start someDoubles somePid staleStart where
  idle _ := rfl
  file f hf := by
    obtain rfl := Option.some.inj hf
    refine ⟨by decide, fun c hc => ?_, fun c hc => ?_⟩
    · obtain rfl := Option.some.inj hc
      decide
    · obtain rfl := Option.some.inj hc
      exact .inr ⟨[], rfl⟩

/-- A recovery up to the removal. -/
def findStale (p : Fin 5) : List (Action (Fin 5)) :=
  [.call p .recover, .call p .stat, .call p .read, .call p .probe, .call p .restat, .call p .reread]

/-- The test of `SafeRemoval`. -/
def removesRead (s : State (Fin 5)) : Action (Fin 5) → Bool
  | .call p .remove =>
      match (s.procs p).pc, s.file with
      | .remove n, some f => f.serial = n
      | _, _ => true
  | _ => true

theorem safeRemoval_of_removesRead (s : State (Fin 5)) (a : Action (Fin 5))
    (h : removesRead s a = true) : SafeRemoval s a := by
  unfold removesRead at h
  split at h
  · rename_i p
    intro n f hpc hf
    rw [hpc, hf] at h
    exact of_decide_eq_true h
  · rename_i hother
    unfold SafeRemoval
    split
    · exact absurd rfl (hother _)
    · trivial

/-- One recovery, and an installer after it. -/
theorem recovery_safe_of_safeRemoval_once : ∃ s : State (Fin 5),
    s.Holds 3 ∧ LockSafe SafeRemoval s := by
  have hstart : Reaches (step someDoubles (fun _ => true) somePid) SafeRemoval
      (Start someDoubles somePid) staleStart := .init start_staleStart
  obtain ⟨s, hr, hs⟩ := Reaches.exists_of_tested_run (step someDoubles (fun _ => true) somePid)
    safeRemoval_of_removesRead hstart
    (findStale 1 ++ [.call 1 .remove, .call 3 (.acquire 8)])
    (fun s => decide (s.Holds 3)) (by decide +kernel)
  exact ⟨s, of_decide_eq_true hs,
    recovery_safe_of_safeRemoval someDoubles (fun _ => true) somePid s hr⟩

/--
Both recoveries have read the stale lock before either removes it. The second one removes the lock
that installer `3` has created by then, and installer `4` creates its own.
-/
theorem live_lock_removed : ∃ s : State (Fin 5),
    Reaches (step someDoubles (fun _ => true) somePid) (fun _ _ => True)
      (Start someDoubles somePid) s ∧ ¬ LockSafe (fun _ _ => True) s := by
  obtain ⟨s, hr, hs⟩ := Reaches.exists_of_run (step someDoubles (fun _ => true) somePid)
    start_staleStart
    (findStale 1 ++ findStale 2 ++ [.call 1 .remove, .call 3 (.acquire 8), .call 2 .remove,
      .call 4 (.acquire 9)])
    (fun s => decide (s.Holds 3 ∧ s.Holds 4)) (by decide +kernel)
  obtain ⟨h3, h4⟩ := of_decide_eq_true hs
  exact ⟨s, hr, fun hsafe => absurd (hsafe.exclusive 3 4 h3 h4) (by decide)⟩

end Caveat.Managed.Installer
