import Caveat.Js.Json
import Caveat.Lock.FileLock

/-!
# Taking over the lock of a crashed process

One process takes and releases the lock over and over and dies somewhere; another process then
calls `acquireFileLock` with nobody else around. Here the pid is written one digit at a time, so
that a process can die between any two of them: the file it leaves is then a beginning of its
pid, empty when it died before the first digit.

An empty file has no pid to probe, and `acquireFileLock` returns `null` for it from then on. Any
other beginning of a pid reads as a number itself, so it is probed as the pid it is not.
-/

namespace Caveat.Lock.Crash

open Js Lib

/-- Where the process is inside `acquireFileLock` or `releaseFileLock`. -/
inductive Point where
  | idle
  /-- About to create exclusively; `retry` is the attempt after a stale or vanished lock. -/
  | create (retry : Bool)
  /-- Created the file and wrote `k` digits of its pid. -/
  | write (k : Nat)
  | read
  | probe (d : Int)
  | unlink
  | holding
  | release
deriving DecidableEq

structure State where
  /-- The text of the lock file, if there is one. -/
  file : Option Text
  point : Point
deriving DecidableEq

inductive Action where
  | acquire
  | release
  /-- The pending system call; `alive` tells which pids are in use while it runs. -/
  | call (alive : Int → Bool)

/-- One system call. -/
def call (pid : Nat) (alive : Int → Bool) (s : State) : Option State :=
  match s.point with
  | .idle | .holding => none
  | .create retry =>
      match s.file with
      | none => some ⟨some [], .write 0⟩
      | some _ => some ⟨s.file, if retry then .idle else .read⟩
  | .write k =>
      if k < (ofNat pid).length then some ⟨some ((ofNat pid).take (k + 1)), .write (k + 1)⟩
      else some ⟨s.file, .holding⟩
  | .read =>
      match s.file with
      | none => some ⟨none, .create true⟩
      | some text =>
          match parsePid text with
          | some d => some ⟨s.file, .probe d⟩
          | none => some ⟨s.file, .idle⟩
  | .probe d => some ⟨s.file, if alive d then .idle else .unlink⟩
  | .unlink => some ⟨none, .create true⟩
  | .release => some ⟨none, .idle⟩

def step (pid : Nat) (s : State) : Action → Option State
  | .acquire => if s.point = .idle then some ⟨s.file, .create false⟩ else none
  | .release => if s.point = .holding then some ⟨s.file, .release⟩ else none
  | .call alive => call pid alive s

/-! ## A call with nobody else around -/

/-- `tryCreateLock`: whether it created the file, and the file after it. -/
def tryCreateLock (pid : Nat) : Option Text → Bool × Option Text
  | none => (true, some (ofNat pid))
  | some text => (false, some text)

/-- `acquireFileLock`: whether it returned a lock, and the file after it. -/
def acquireFileLock (pid : Nat) (alive : Int → Bool) (file : Option Text) : Bool × Option Text :=
  match tryCreateLock pid file with
  | (true, file) => (true, file)
  | (false, none) => tryCreateLock pid none
  | (false, some text) =>
      match parsePid text with
      | none => (false, some text)
      | some d => if alive d then (false, some text) else tryCreateLock pid none

/-- There is no lock file, or the pid in it is not in use. -/
def Free (alive : Int → Bool) (file : Option Text) : Prop :=
  ∀ text, file = some text → ∃ d, parsePid text = some d ∧ alive d = false

theorem free_none (alive : Int → Bool) : Free alive none := by
  intro text h
  cases h

/-- A lock is returned exactly where none is held. -/
theorem acquireFileLock_iff (pid : Nat) (alive : Int → Bool) (file : Option Text) :
    (acquireFileLock pid alive file).1 = true ↔ Free alive file := by
  cases file with
  | none => exact ⟨fun _ => free_none alive, fun _ => rfl⟩
  | some text =>
      constructor
      · intro h t ht
        cases ht
        simp only [acquireFileLock, tryCreateLock] at h
        split at h
        · cases h
        · rename_i d hd
          split at h
          · cases h
          · rename_i ha
            exact ⟨d, hd, by simpa using ha⟩
      · intro h
        obtain ⟨d, hd, ha⟩ := h text rfl
        simp [acquireFileLock, tryCreateLock, hd, ha]

/-- `n` system calls in a row, nobody else running. -/
def calls (pid : Nat) (alive : Int → Bool) (s : State) (n : Nat) : Option State :=
  run (step pid) s (List.replicate n (.call alive))

theorem calls_succ (pid : Nat) (alive : Int → Bool) (s : State) (n : Nat) :
    calls pid alive s (n + 1) = (call pid alive s).bind (fun s' => calls pid alive s' n) := rfl

theorem calls_write {pid k : Nat} {alive : Int → Bool} (h : k ≤ (ofNat pid).length) :
    calls pid alive ⟨some ((ofNat pid).take k), .write k⟩ ((ofNat pid).length - k + 1) =
      some ⟨some (ofNat pid), .holding⟩ := by
  obtain ⟨m, hm⟩ : ∃ m, (ofNat pid).length - k = m := ⟨_, rfl⟩
  induction m generalizing k with
  | zero =>
      -- every digit is there, and the descriptor is closed
      have hk : k = (ofNat pid).length := by omega
      subst hk
      rw [hm, calls_succ]
      simp [call, calls]
  | succ m ih =>
      have hk : k < (ofNat pid).length := by omega
      have hm' : (ofNat pid).length - (k + 1) = m := by omega
      have hrest := ih hk hm'
      rw [hm'] at hrest
      rw [hm, calls_succ]
      simpa only [call, if_pos hk, Option.bind_some] using hrest

/-- The system calls of a call made alone end, in the result of `acquireFileLock`. -/
theorem exists_calls (pid : Nat) (alive : Int → Bool) (file : Option Text) :
    ∃ n, calls pid alive ⟨file, .create false⟩ n =
      some ⟨(acquireFileLock pid alive file).2,
        if (acquireFileLock pid alive file).1 then .holding else .idle⟩ := by
  have hwrite := @calls_write pid 0 alive (Nat.zero_le _)
  cases file with
  | none =>
      refine ⟨(ofNat pid).length + 2, ?_⟩
      rw [calls_succ]
      exact hwrite
  | some text =>
      cases hp : parsePid text with
      | none => exact ⟨2, by simp [calls, step, call, acquireFileLock, tryCreateLock, hp]⟩
      | some d =>
          by_cases ha : alive d = true
          · exact ⟨3, by simp [calls, step, call, acquireFileLock, tryCreateLock, hp, ha]⟩
          · -- exclusive create, read, probe, unlink, exclusive create
            refine ⟨(ofNat pid).length + 6, ?_⟩
            simp only [calls_succ, call, hp, ha, Bool.false_eq_true, if_false, if_true,
              Option.bind_some, acquireFileLock, tryCreateLock]
            exact hwrite

/-! ## What a dead process leaves -/

theorem take_ofNat_length_sub (n : Nat) :
    ∀ m, m < (ofNat n).length → (ofNat n).take ((ofNat n).length - m) = ofNat (n / 10 ^ m) := by
  intro m
  induction m generalizing n with
  | zero => intro _; simp
  | succ m ih =>
      intro h
      have hn : 10 ≤ n := by
        by_contra hlt
        have hone : (ofNat n).length = 1 := by
          rw [ofNat, Nat.toDigits_of_lt_base (by omega)]
          rfl
        omega
      have hsplit : ofNat n = ofNat (n / 10) ++ [Nat.digitChar (n % 10)] :=
        Nat.toDigits_of_base_le (by decide) hn
      have hlen : (ofNat n).length = (ofNat (n / 10)).length + 1 := by
        rw [hsplit, List.length_append, List.length_singleton]
      have hdiv : n / 10 ^ (m + 1) = n / 10 / 10 ^ m := by
        rw [Nat.pow_succ', Nat.div_div_eq_div_mul]
      rw [hdiv, ← ih (n / 10) (by omega), hlen, Nat.add_sub_add_right, hsplit]
      exact List.take_append_of_le_length (Nat.sub_le _ _)

/-- A beginning of a number, without its last `length - k` digits. -/
theorem take_ofNat {n k : Nat} (hk : 0 < k) (hle : k ≤ (ofNat n).length) :
    (ofNat n).take k = ofNat (n / 10 ^ ((ofNat n).length - k)) := by
  have h := take_ofNat_length_sub n ((ofNat n).length - k) (by omega)
  rwa [Nat.sub_sub_self hle] at h

theorem parsePid_ofNat_pos {n : Nat} (h : 0 < n) : parsePid (ofNat n) = some (n : Int) := by
  have htrim : trim (ofNat n) = ofNat n :=
    trim_eq_self fun c hc => isSpace_eq_false_of_isDigit (isDigit_of_mem_ofNat hc)
  unfold parsePid
  rw [htrim, parseInt_ofNat]
  simp [h]

/-- A beginning of a positive number is positive. -/
theorem leading_pos {n k : Nat} (hn : 0 < n) (hk : 0 < k) (hle : k ≤ (ofNat n).length) :
    0 < n / 10 ^ ((ofNat n).length - k) := by
  by_contra h
  have hzero : n / 10 ^ ((ofNat n).length - k) = 0 := Nat.eq_zero_of_not_pos h
  have hhead := head_ofNat n hn
  have htake := take_ofNat hk hle
  rw [hzero] at htake
  have hfirst : ((ofNat n).take k).head? = (ofNat n).head? := by
    rw [List.head?_take, if_neg (by omega)]
  rw [htake] at hfirst
  exact hhead (hfirst ▸ rfl)

/-- The file of a process that died with `k` digits written is free when a digit is there and
no process has the number they form. -/
theorem free_take_iff {pid k : Nat} {alive : Int → Bool} (hpid : 0 < pid)
    (hle : k ≤ (ofNat pid).length) :
    Free alive (some ((ofNat pid).take k)) ↔
      0 < k ∧ alive ((pid / 10 ^ ((ofNat pid).length - k) : Nat) : Int) = false := by
  rcases Nat.eq_zero_or_pos k with hzero | hpos
  · subst hzero
    refine ⟨fun h => ?_, fun h => absurd h.1 (by omega)⟩
    obtain ⟨d, hd, _⟩ := h _ rfl
    rw [List.take_zero, parsePid_nil] at hd
    cases hd
  · have hparse := parsePid_ofNat_pos (leading_pos hpid hpos hle)
    rw [take_ofNat hpos hle]
    refine ⟨fun h => ?_, fun h text ht => ?_⟩
    · obtain ⟨d, hd, ha⟩ := h _ rfl
      rw [hparse] at hd
      cases hd
      exact ⟨hpos, ha⟩
    · cases ht
      exact ⟨_, hparse, h.2⟩

/-- What the file holds wherever the process is, as another process will find it. -/
def Left (pid : Nat) (alive : Int → Bool) (s : State) : Prop :=
  match s.point with
  | .write k => k ≤ (ofNat pid).length ∧ s.file = some ((ofNat pid).take k)
  | .holding | .release => s.file = some (ofNat pid)
  | _ => Free alive s.file

theorem left_call {pid : Nat} {alive now : Int → Bool} {s s' : State} (h : Left pid alive s)
    (hs : call pid now s = some s') : Left pid alive s' := by
  obtain ⟨file, point⟩ := s
  cases point with
  | idle | holding => cases hs
  | create retry =>
      cases file with
      | none => cases hs; exact ⟨Nat.zero_le _, rfl⟩
      | some text =>
          cases hs
          cases retry with
          | false => exact h
          | true => exact h
  | write k =>
      obtain ⟨hle, hfile⟩ := h
      simp only [call] at hs
      split at hs
      · rename_i hk; cases hs; exact ⟨hk, rfl⟩
      · -- the last digit was written before
        rename_i hk
        have hk' : k = (ofNat pid).length := by omega
        cases hs
        simpa [Left, hk'] using hfile
  | read =>
      cases file with
      | none => cases hs; exact h
      | some text =>
          simp only [call] at hs
          split at hs
          · cases hs; exact h
          · cases hs; exact h
  | probe d =>
      cases hs
      cases hn : now d with
      | false => simpa only [Left, hn, Bool.false_eq_true, if_false] using h
      | true => simpa only [Left, hn, if_true] using h
  | unlink => cases hs; exact free_none alive
  | release => cases hs; exact free_none alive

theorem left_step {pid : Nat} {alive : Int → Bool} {s s' : State} {a : Action}
    (h : Left pid alive s) (hs : step pid s a = some s') : Left pid alive s' := by
  cases a with
  | acquire =>
      simp only [step] at hs
      split at hs
      · rename_i hidle
        cases hs
        simpa only [Left, hidle] using h
      · cases hs
  | release =>
      simp only [step] at hs
      split at hs
      · rename_i hhold
        cases hs
        simpa only [Left, hhold] using h
      · cases hs
  | call now => exact left_call h hs

/-- The lock is free after a death unless too little of the pid was written. -/
theorem Left.free_iff {pid : Nat} {alive : Int → Bool} {s : State} (h : Left pid alive s)
    (hpid : 0 < pid) (hdead : alive pid = false) :
    Free alive s.file ↔ ∀ k, s.point = .write k →
      0 < k ∧ alive ((pid / 10 ^ ((ofNat pid).length - k) : Nat) : Int) = false := by
  obtain ⟨file, point⟩ := s
  have hown : Free alive (some (ofNat pid)) := by
    intro text ht
    cases ht
    exact ⟨pid, parsePid_ofNat_pos hpid, hdead⟩
  cases point with
  | write k =>
      obtain ⟨hle, rfl⟩ := h
      rw [free_take_iff hpid hle]
      refine ⟨fun hk j hj => ?_, fun hk => hk k rfl⟩
      cases hj
      exact hk
  | holding | release =>
      cases h
      exact ⟨fun _ _ hk => Point.noConfusion hk, fun _ => hown⟩
  | idle | create | read | probe | unlink => exact ⟨fun _ _ hk => Point.noConfusion hk, fun _ => h⟩

/--
A process dies anywhere inside `acquireFileLock` or `releaseFileLock`, or between them, and its
pid is not used again. A later `acquireFileLock` made alone returns a lock exactly when the
process was not inside the write of its pid, or had written a digit and what it had written is
no live process's pid.
-/
theorem crashed_lock_recovers_iff {pid later : Nat} {alive : Int → Bool} {file : Option Text}
    {s : State} (hpid : 0 < pid) (hfree : Free alive file) (hdead : alive pid = false)
    (h : Reaches (step pid) (fun _ _ => True) (· = ⟨file, .idle⟩) s) :
    (acquireFileLock later alive s.file).1 = true ↔ ∀ k, s.point = .write k →
      0 < k ∧ alive ((pid / 10 ^ ((ofNat pid).length - k) : Nat) : Int) = false := by
  have hleft : Left pid alive s := by
    refine h.invariant (I := Left pid alive) (fun t ht => ?_) (fun t a t' ht _ hs => left_step ht hs)
    subst ht
    exact hfree
  rw [acquireFileLock_iff, hleft.free_iff hpid hdead]

/-- Process 512 died holding the lock, which process 77 takes over. -/
theorem crashed_lock_recovers_512 :
    (acquireFileLock 77 (fun d => d == 5) (some (ofNat 512))).1 = true := by
  have hrun : run (step 512) ⟨none, .idle⟩
      (Action.acquire :: List.replicate 5 (Action.call fun _ => false)) =
        some ⟨some (ofNat 512), .holding⟩ := rfl
  have hreach : Reaches (step 512) (fun _ _ => True) (· = ⟨none, .idle⟩) _ :=
    Reaches.of_run (Reaches.init (by rfl)) hrun
  exact (crashed_lock_recovers_iff (by decide) (free_none _) (by decide) hreach).mpr
    (fun k hk => by cases hk)

/-- Process 5 dies between the exclusive create and the write, and the lock is never free again. -/
theorem crash_before_write :
    ¬ ∀ (pid later : Nat) (alive : Int → Bool) (file : Option Text) (s : State), 0 < pid →
      Free alive file → alive pid = false →
      Reaches (step pid) (fun _ _ => True) (· = ⟨file, .idle⟩) s →
      (acquireFileLock later alive s.file).1 = true := by
  intro h
  have hrun : run (step 5) ⟨none, .idle⟩ [Action.acquire, Action.call fun _ => false] =
      some ⟨some [], .write 0⟩ := rfl
  have hreach : Reaches (step 5) (fun _ _ => True) (· = ⟨none, .idle⟩) _ :=
    Reaches.of_run (Reaches.init (by rfl)) hrun
  have hlock := h 5 6 (fun _ => false) none _ (by decide) (free_none _) rfl hreach
  exact absurd hlock (by decide)

end Caveat.Lock.Crash
