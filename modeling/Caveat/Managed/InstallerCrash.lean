import Caveat.Js.Decoder
import Caveat.Js.JsonClosing
import Caveat.Lib.Separated
import Caveat.Managed.Installer

/-!
# Removing the lock of a crashed installer

A process enters and leaves `withInstallerLock` over and over and dies somewhere; then
`recoverManagedInstallerLock` runs with nobody else around. Here the owner record is written one
byte at a time, so that the file of a dead process is a beginning of its record, empty when it died
right after the exclusive creation.

A beginning of the record that ends before its closing brace is no JSON, and recovery answers
`lock_invalid` for it from then on. The line break after the brace is not needed.
-/

namespace Caveat.Managed.Installer.Crash

open Js Lib

variable (doubles : Doubles) (isDate : Units → Bool)

/-- A character of `new Date().toISOString()`. -/
def isTimeChar (c : Char) : Bool := c.isDigit || "-+:.TZ".toList.contains c

/-- `new Date().toISOString()`, which `Date.parse` reads. -/
structure StartTime where
  text : Text
  plain : ∀ c ∈ text, isTimeChar c = true
  short : text.length ≤ 27
  date : isDate (unitsOf text) = true

/-- The bytes of the owner record. -/
def record (pid : Pid) (startedAt : StartTime isDate) : Bytes :=
  lockBytes doubles pid (unitsOf startedAt.text)

/-- Where the process is inside `withInstallerLock`. -/
inductive Point where
  | idle
  /-- Created the file and wrote `k` bytes of its record. -/
  | write (startedAt : StartTime isDate) (k : Nat)
  | work (startedAt : StartTime isDate)
  /-- About to remove the file, of which `k` bytes are written. -/
  | release (startedAt : StartTime isDate) (k : Nat)

structure State where
  /-- The bytes of the lock file, if there is one. -/
  file : Option Bytes
  point : Point isDate

inductive Action where
  /-- `openSync(paths.lock, 'wx')`. -/
  | acquire (startedAt : StartTime isDate)
  /-- The next byte of the record, or the descriptor's closing after the last. -/
  | write
  /-- The pending write fails, or the access list does. -/
  | fail
  /-- `fn` is done, or it threw. -/
  | finish
  | release

variable {isDate}

/-- One system call of process `pid`. -/
def step (pid : Pid) (s : State isDate) : Action isDate → Option (State isDate)
  | .acquire startedAt =>
      match s.point, s.file with
      | .idle, none => some ⟨some [], .write startedAt 0⟩
      -- `installer_busy`
      | .idle, some _ => some s
      | _, _ => none
  | .write =>
      match s.point with
      | .write startedAt k =>
          if k < (record doubles isDate pid startedAt).length then
            some ⟨some ((record doubles isDate pid startedAt).take (k + 1)), .write startedAt (k + 1)⟩
          else some ⟨s.file, .work startedAt⟩
      | _ => none
  | .fail =>
      match s.point with
      | .write startedAt k => some ⟨s.file, .release startedAt k⟩
      | _ => none
  | .finish =>
      match s.point with
      | .work startedAt =>
          some ⟨s.file, .release startedAt (record doubles isDate pid startedAt).length⟩
      | _ => none
  | .release =>
      match s.point with
      | .release _ _ => some ⟨none, .idle⟩
      | _ => none

/-- The record that the process has begun, and how many bytes of it are in the file. -/
def Point.written (pid : Pid) : Point isDate → Option (StartTime isDate × Nat)
  | .idle => none
  | .write startedAt k | .release startedAt k => some (startedAt, k)
  | .work startedAt => some (startedAt, (record doubles isDate pid startedAt).length)

/-! ## Recovery with nobody else around -/

inductive Failure where
  | lockInvalid
  | installerBusy
deriving DecidableEq

variable (isDate) in
/-- `readInstallerLock`: the process that the lock names, and whether it is gone. -/
def readInstallerLock (alive : Nat → Bool) : Option Bytes → Except Failure (Option (Nat × Bool))
  | none => .ok none
  | some bytes =>
      if maxLockBytes < bytes.length then .error .lockInvalid
      else
        match readOwner doubles isDate bytes with
        | none => .error .lockInvalid
        | some pid => .ok (some (pid, !alive pid))

variable (isDate) in
/-- `recoverManagedInstallerLock`: the process whose lock it removed, and the file after it. With
nobody else around the second look finds the file that the first one found. -/
def recoverManagedInstallerLock (alive : Nat → Bool) (file : Option Bytes) :
    Except Failure (Option Nat) × Option Bytes :=
  match readInstallerLock doubles isDate alive file with
  | .error e => (.error e, file)
  | .ok none => (.ok none, file)
  | .ok (some (pid, stale)) => if stale then (.ok (some pid), none) else (.error .installerBusy, file)

variable (isDate) in
/-- Recovery removes what is there, and whoever comes next gets the lock. -/
structure Recovered (alive : Nat → Bool) (file : Option Bytes) : Prop where
  returns : ∃ removed, (recoverManagedInstallerLock doubles isDate alive file).1 = .ok removed
  acquires : ∀ (later : Pid) (startedAt : StartTime isDate),
    step doubles later ⟨(recoverManagedInstallerLock doubles isDate alive file).2, .idle⟩
      (.acquire startedAt) = some ⟨some [], .write startedAt 0⟩

/-- There is no lock, or a readable one whose process is gone. -/
def Stale (isDate : Units → Bool) (alive : Nat → Bool) (file : Option Bytes) : Prop :=
  ∀ bytes, file = some bytes → bytes.length ≤ maxLockBytes ∧
    ∃ pid, readOwner doubles isDate bytes = some pid ∧ alive pid = false

variable {doubles}

theorem recovered_iff {alive : Nat → Bool} {file : Option Bytes} :
    Recovered doubles isDate alive file ↔ Stale doubles isDate alive file := by
  cases file with
  | none =>
      refine ⟨fun _ bytes h => ?_, fun _ => ⟨⟨none, rfl⟩, fun _ _ => rfl⟩⟩
      cases h
  | some bytes =>
      constructor
      · intro ⟨⟨removed, hremoved⟩, _⟩ text htext
        obtain rfl : bytes = text := Option.some.inj htext
        by_cases hlen : maxLockBytes < bytes.length
        · simp [recoverManagedInstallerLock, readInstallerLock, hlen] at hremoved
        · cases hread : readOwner doubles isDate bytes with
          | none => simp [recoverManagedInstallerLock, readInstallerLock, hlen, hread] at hremoved
          | some pid =>
              refine ⟨Nat.not_lt.mp hlen, pid, rfl, ?_⟩
              by_contra ha
              simp [recoverManagedInstallerLock, readInstallerLock, hlen, hread,
                Bool.eq_true_of_not_eq_false ha] at hremoved
      · intro h
        obtain ⟨hlen, pid, hread, ha⟩ := h bytes rfl
        have hrecover : recoverManagedInstallerLock doubles isDate alive (some bytes) =
            (.ok (some pid), none) := by
          simp [recoverManagedInstallerLock, readInstallerLock, hread, ha, Nat.not_lt.mpr hlen]
        exact ⟨⟨some pid, by rw [hrecover]⟩, fun _ _ => by rw [hrecover]; rfl⟩

/-! ## The text of the record -/

/-- A character of the record that is one byte and does not close it. -/
def isInner (c : Char) : Bool := c.toNat < 128 && c ≠ '}'

theorem ne_of_isTimeChar {c d : Char} (hc : isTimeChar c = true) (hd : isTimeChar d = false) :
    c ≠ d := by
  rintro rfl
  rw [hc] at hd
  cases hd

theorem toNat_of_isTimeChar {c : Char} (h : isTimeChar c = true) : 32 ≤ c.toNat ∧ c.toNat < 128 := by
  rw [isTimeChar, Bool.or_eq_true] at h
  rcases h with h | h
  · have hdigit := Char.isDigit_iff_toNat.mp h
    simp only [Char.reduceToNat] at hdigit
    omega
  · have hall : ("-+:.TZ".toList.all fun d => 32 ≤ d.toNat && d.toNat < 128) = true := by decide
    simpa using List.all_eq_true.mp hall c (List.contains_iff_mem.mp h)

theorem quoteChar_of_isTimeChar {c : Char} (h : isTimeChar c = true) : quoteChar c = [c] := by
  have hlow := (toNat_of_isTimeChar h).1
  rw [quoteChar, if_neg (ne_of_isTimeChar h (by decide)), if_neg (ne_of_isTimeChar h (by decide)),
    if_neg (ne_of_isTimeChar h (by decide)), if_neg (ne_of_isTimeChar h (by decide)),
    if_neg (ne_of_isTimeChar h (by decide)), if_neg (by omega), if_neg (by omega),
    if_neg (by omega)]

theorem quote_of_isTimeChar {t : Text} (h : ∀ c ∈ t, isTimeChar c = true) :
    quote (unitsOf t) = '"' :: t ++ ['"'] := by
  have hchars : ∀ t : Text, (∀ c ∈ t, isTimeChar c = true) → t.flatMap quoteChar = t := by
    intro t
    induction t with
    | nil => exact fun _ => rfl
    | cons c t ih =>
        intro h
        rw [List.flatMap_cons, quoteChar_of_isTimeChar (h c List.mem_cons_self),
          ih fun d hd => h d (List.mem_cons_of_mem c hd), List.singleton_append]
  rw [quote, codePoints_unitsOf, List.flatMap_map]
  exact congrArg (fun s => '"' :: s ++ ['"']) (hchars t h)

theorem isInner_of_isTimeChar {c : Char} (h : isTimeChar c = true) : isInner c = true := by
  have hne := ne_of_isTimeChar h (show isTimeChar '}' = false by decide)
  simp [isInner, (toNat_of_isTimeChar h).2, hne]

theorem isInner_memberText {key : Units} {text : Text} (hkey : (quote key).all isInner = true)
    (htext : ∀ c ∈ text, isInner c = true) : ∀ c ∈ memberText (key, text), isInner c = true := by
  intro c hc
  rcases List.mem_append.mp hc with hc | hc
  · exact List.all_eq_true.mp hkey c hc
  · rcases List.mem_cons.mp hc with rfl | hc
    · decide
    · exact htext c hc

/-- A record is one object on a line. -/
theorem lineText_record (pid : Pid) (startedAt : StartTime isDate) :
    ∃ inner : Text, (∀ c ∈ inner, isInner c = true) ∧
      lineText doubles (installerLock pid (unitsOf startedAt.text)) =
        '{' :: inner ++ ['}', '\n'] := by
  refine ⟨[','].intercalate (((installerLock pid (unitsOf startedAt.text)).map
    (fun m => (m.1, stringify doubles m.2))).map memberText), fun c hc => ?_, ?_⟩
  · have hnat : ∀ n : Nat, n < 2 ^ 53 → ∀ c ∈ stringify doubles (.number (.finite n)),
        isInner c = true := by
      intro n hn c hc
      rw [stringify, doubles.text_nat n hn] at hc
      exact isInner_of_isTimeChar (by rw [isTimeChar, isDigit_of_mem_ofNat hc, Bool.true_or])
    have hstart : ∀ c ∈ stringify doubles (.string (unitsOf startedAt.text)), isInner c = true := by
      intro c hc
      rw [stringify, quote_of_isTimeChar startedAt.plain] at hc
      simp only [List.cons_append, List.mem_cons, List.mem_append, List.not_mem_nil, or_false] at hc
      rcases hc with rfl | hc | rfl
      · decide
      · exact isInner_of_isTimeChar (startedAt.plain c hc)
      · decide
    rcases mem_intercalate hc with rfl | ⟨part, hpart, hc⟩
    · decide
    · rw [List.map_map] at hpart
      obtain ⟨m, hm, rfl⟩ := List.mem_map.mp hpart
      simp only [installerLock, List.mem_cons, List.not_mem_nil, or_false] at hm
      rcases hm with rfl | rfl | rfl
      · exact isInner_memberText (by decide) (hnat 1 (by decide)) c hc
      · exact isInner_memberText (show (quote (unitsOf "pid".toList)).all isInner = true by decide)
          (hnat pid.val (by have := pid.isLt; omega)) c hc
      · exact isInner_memberText
          (show (quote (unitsOf "startedAt".toList)).all isInner = true by decide) hstart c hc
  · rw [lineText, stringify_object, properties_installerLock, objectText, List.append_assoc]
    rfl

/-! ## Bytes of ASCII text -/

theorem encodeUtf8_ascii {t : Text} (h : ∀ c ∈ t, c.toNat < 128) :
    encodeUtf8 t = t.map (fun c => UInt8.ofNat c.toNat) := by
  induction t with
  | nil => rfl
  | cons c t ih =>
      rw [encodeUtf8, List.flatMap_cons, encode_ascii (h c List.mem_cons_self), List.map_cons,
        ← ih fun d hd => h d (List.mem_cons_of_mem c hd)]
      rfl

theorem take_encodeUtf8 {t : Text} (h : ∀ c ∈ t, c.toNat < 128) (k : Nat) :
    (encodeUtf8 t).take k = encodeUtf8 (t.take k) := by
  rw [encodeUtf8_ascii h, encodeUtf8_ascii fun c hc => h c (List.mem_of_mem_take hc), List.map_take]

theorem length_encodeUtf8 {t : Text} (h : ∀ c ∈ t, c.toNat < 128) :
    (encodeUtf8 t).length = t.length := by
  rw [encodeUtf8_ascii h, List.length_map]

theorem ascii_lineText (pid : Pid) (startedAt : StartTime isDate) :
    ∀ c ∈ lineText doubles (installerLock pid (unitsOf startedAt.text)), c.toNat < 128 := by
  obtain ⟨inner, hinner, htext⟩ := @lineText_record doubles _ pid startedAt
  intro c hc
  rw [htext] at hc
  simp only [List.cons_append, List.mem_cons, List.mem_append, List.not_mem_nil, or_false] at hc
  rcases hc with rfl | hc | rfl | rfl
  · decide
  · have hc' := hinner c hc
    rw [isInner, Bool.and_eq_true] at hc'
    simpa using hc'.1
  · decide
  · decide

/-- No record is too long to be read. -/
theorem length_record (pid : Pid) (startedAt : StartTime isDate) :
    (record doubles isDate pid startedAt).length ≤ maxLockBytes := by
  have hpid : (ofNat pid.val).length ≤ 10 :=
    (Nat.length_toDigits_le_iff (by decide) (by decide)).mpr (by have := pid.isLt; omega)
  have hshort := startedAt.short
  have hfields : (lineText doubles (installerLock pid (unitsOf startedAt.text))).length =
      (ofNat pid.val).length + startedAt.text.length + 35 := by
    have hone : stringify doubles (.number (.finite (1 : Nat))) = ofNat 1 := by
      rw [stringify, doubles.text_nat 1 (by decide)]
    have hnumber : stringify doubles (.number (.finite (pid.val : Nat))) = ofNat pid.val := by
      rw [stringify, doubles.text_nat pid.val (by have := pid.isLt; omega)]
    have hstring : stringify doubles (.string (unitsOf startedAt.text)) =
        '"' :: startedAt.text ++ ['"'] := by
      rw [stringify, quote_of_isTimeChar startedAt.plain]
    rw [lineText, stringify_object, properties_installerLock, objectText]
    simp only [installerLock, unitsField, List.map_cons, List.map_nil, memberText, hone, hnumber,
      hstring]
    have hschema : (quote (unitsOf "schema".toList)).length = 8 := by decide
    have hname : (quote (unitsOf "pid".toList)).length = 5 := by decide
    have hstart : (quote (unitsOf "startedAt".toList)).length = 11 := by decide
    have hdigit : (ofNat 1).length = 1 := by decide
    simp only [List.intercalate, List.intersperse, List.flatten_cons, List.flatten_nil,
      List.length_append, List.length_cons, List.length_nil, hschema, hname, hstart, hdigit]
    omega
  rw [record, lockBytes, line, length_encodeUtf8 (ascii_lineText pid startedAt), hfields]
  unfold maxLockBytes
  omega

/-! ## What a dead process leaves -/

/-- The owner that a lock's text names, complete or without the line break behind it. -/
theorem readOwner_complete (pid : Pid) (startedAt : StartTime isDate) {space : Text}
    (hspace : skipSpace space = []) :
    readOwner doubles isDate (encodeUtf8 (stringify doubles
        (.object (installerLock pid (unitsOf startedAt.text))) ++ space)) =
      if 1 ≤ pid.val ∧ pid.val ≤ 2147483647 then some pid.val else none := by
  have hparse := parseJson_installerLock doubles pid (unitsOf startedAt.text) hspace
  have hown := properties_installerLock pid (unitsOf startedAt.text)
  have hkeys : (installerLock pid (unitsOf startedAt.text)).hasKeys lockNames = true := by
    rw [JsObject.hasKeys, List.isPerm_iff]
    exact .refl _
  have hschema : (installerLock pid (unitsOf startedAt.text)).isNat "schema".toList 1 = true := rfl
  have hstart : (installerLock pid (unitsOf startedAt.text)).string "startedAt".toList =
      some (unitsOf startedAt.text) := rfl
  have howner : ownerPid (installerLock pid (unitsOf startedAt.text)) =
      if 1 ≤ pid.val ∧ pid.val ≤ 2147483647 then some pid.val else none := by
    have hget : (installerLock pid (unitsOf startedAt.text)).get "pid".toList =
        some (.number (.finite (pid.val : Nat))) := rfl
    rw [ownerPid, hget]
    dsimp only
    by_cases h : 1 ≤ pid.val ∧ pid.val ≤ 2147483647
    · rw [if_pos h, if_pos ⟨Rat.den_natCast _, by rw [Rat.num_natCast]; omega, by
        rw [Rat.num_natCast]; omega⟩, Rat.num_natCast, Int.toNat_natCast]
    · rw [if_neg h, if_neg]
      rw [Rat.num_natCast]
      omega
  unfold readOwner
  rw [decodeUtf8_encodeUtf8, hparse]
  dsimp only
  rw [hown, hkeys, hschema, hstart, Option.any_some, startedAt.date]
  exact howner

/-- A beginning that ends before the closing brace names no owner. -/
theorem readOwner_of_no_brace {t : Text} (h : '}' ∉ t) :
    readOwner doubles isDate (encodeUtf8 t) = none := by
  unfold readOwner
  rw [decodeUtf8_encodeUtf8]
  split
  · rename_i members hparse
    exact absurd (brace_mem_of_object hparse) h
  · rfl

theorem readOwner_take (pid : Pid) (startedAt : StartTime isDate) {k : Nat}
    (hk : k ≤ (record doubles isDate pid startedAt).length) :
    readOwner doubles isDate ((record doubles isDate pid startedAt).take k) =
      if (record doubles isDate pid startedAt).length ≤ k + 1 ∧
        1 ≤ pid.val ∧ pid.val ≤ 2147483647 then some pid.val else none := by
  obtain ⟨inner, hinner, htext⟩ := @lineText_record doubles _ pid startedAt
  have hascii := @ascii_lineText doubles _ pid startedAt
  have hlen : (record doubles isDate pid startedAt).length = inner.length + 3 := by
    rw [record, lockBytes, line, length_encodeUtf8 hascii, htext]
    simp
  rw [hlen] at hk
  have htake : (record doubles isDate pid startedAt).take k =
      encodeUtf8 (('{' :: inner ++ ['}', '\n']).take k) := by
    rw [record, lockBytes, line, take_encodeUtf8 hascii, htext]
  have hobject : stringify doubles (.object (installerLock pid (unitsOf startedAt.text))) =
      '{' :: inner ++ ['}'] := by
    rw [lineText] at htext
    exact List.append_cancel_right (htext.trans (by simp) : _ = ('{' :: inner ++ ['}']) ++ ['\n'])
  rw [hlen, htake]
  obtain hlt | heq | heq : k ≤ inner.length + 1 ∨ k = inner.length + 2 ∨ k = inner.length + 3 := by
    omega
  · -- the closing brace is not written
    rw [if_neg (by omega), readOwner_of_no_brace]
    intro hmem
    rw [List.take_append_of_le_length (by simpa using hlt)] at hmem
    rcases List.mem_cons.mp (List.mem_of_mem_take hmem) with h | h
    · exact absurd h (by decide)
    · exact absurd (hinner _ h) (by decide)
  · have hcut : ('{' :: inner ++ ['}', '\n']).take k = ('{' :: inner ++ ['}']) ++ [] := by
      rw [heq, show ('{' :: inner ++ ['}', '\n']) = ('{' :: inner ++ ['}']) ++ ['\n'] by simp,
        List.take_append_of_le_length (by simp), List.take_of_length_le (by simp), List.append_nil]
    rw [hcut, ← hobject, readOwner_complete pid startedAt skipSpace_nil]
    simp [heq]
  · have hall : ('{' :: inner ++ ['}', '\n']).take k = ('{' :: inner ++ ['}']) ++ ['\n'] := by
      rw [heq, List.take_of_length_le (by simp)]
      simp
    rw [hall, ← hobject, readOwner_complete pid startedAt (show skipSpace ['\n'] = [] from rfl)]
    simp [heq]

variable (doubles isDate) in
/-- What the file holds wherever the process is. -/
def Left (pid : Pid) (alive : Nat → Bool) (s : State isDate) : Prop :=
  match s.point.written doubles pid with
  | none => Stale doubles isDate alive s.file
  | some (startedAt, k) => k ≤ (record doubles isDate pid startedAt).length ∧
      s.file = some ((record doubles isDate pid startedAt).take k)

theorem left_step {pid : Pid} {alive : Nat → Bool} {s s' : State isDate} {a : Action isDate}
    (h : Left doubles isDate pid alive s) (hs : step doubles pid s a = some s') :
    Left doubles isDate pid alive s' := by
  obtain ⟨file, point⟩ := s
  cases a with
  | acquire startedAt =>
      cases point with
      | idle =>
          cases file with
          | none => cases hs; exact ⟨Nat.zero_le _, rfl⟩
          | some bytes => cases hs; exact h
      | write | work | release => cases hs
  | write =>
      cases point with
      | write startedAt k =>
          obtain ⟨hle, hfile⟩ := h
          simp only [step] at hs
          split at hs
          · rename_i hk
            cases hs
            exact ⟨hk, rfl⟩
          · -- every byte was written before
            rename_i hk
            cases hs
            have hk' : k = (record doubles isDate pid startedAt).length := by omega
            exact ⟨Nat.le_refl _, hk' ▸ hfile⟩
      | idle | work | release => cases hs
  | fail =>
      cases point with
      | write startedAt k => cases hs; exact h
      | idle | work | release => cases hs
  | finish =>
      cases point with
      | work startedAt => cases hs; exact h
      | idle | write | release => cases hs
  | release =>
      cases point with
      | release startedAt k =>
          cases hs
          intro bytes hb
          cases hb
      | idle | write | work => cases hs

/-- The lock is left for recovery unless the record lacks its closing brace. -/
theorem Left.stale_iff {pid : Pid} {alive : Nat → Bool} {s : State isDate}
    (h : Left doubles isDate pid alive s) (hdead : alive pid.val = false) :
    Stale doubles isDate alive s.file ↔ ∀ startedAt k,
      s.point.written doubles pid = some (startedAt, k) →
        (record doubles isDate pid startedAt).length ≤ k + 1 ∧
          1 ≤ pid.val ∧ pid.val ≤ 2147483647 := by
  rw [Left] at h
  split at h
  · rename_i hnone
    refine ⟨fun _ startedAt k hw => ?_, fun _ => h⟩
    rw [hnone] at hw
    cases hw
  · rename_i startedAt k hsome
    obtain ⟨hle, hfile⟩ := h
    have hread := readOwner_take pid startedAt hle
    constructor
    · intro hstale startedAt' k' hw
      rw [hsome] at hw
      cases hw
      obtain ⟨_, d, hd, _⟩ := hstale _ hfile
      by_contra hcut
      rw [hread, if_neg hcut] at hd
      cases hd
    · intro hwhole bytes hb
      rw [hfile] at hb
      cases hb
      have hlen := (List.length_take_le k (record doubles isDate pid startedAt)).trans hle
      refine ⟨hlen.trans (length_record pid startedAt), pid.val, ?_, hdead⟩
      rw [hread, if_pos (hwhole startedAt k hsome)]

/--
A process dies anywhere inside `withInstallerLock` and its pid is not used again. A recovery with
nobody else around then removes what it left, so that the next `withInstallerLock` gets the lock,
exactly when the process had not begun its owner record, or had written all of it but the line
break, and its pid is one that a lock may name.
-/
theorem crashed_installer_recovers_iff {pid : Pid} {alive : Nat → Bool} {file : Option Bytes}
    {s : State isDate} (hstart : Recovered doubles isDate alive file)
    (hdead : alive pid.val = false)
    (h : Reaches (step doubles pid) (fun _ _ => True) (· = ⟨file, .idle⟩) s) :
    Recovered doubles isDate alive s.file ↔ ∀ startedAt k,
      s.point.written doubles pid = some (startedAt, k) →
        (record doubles isDate pid startedAt).length ≤ k + 1 ∧
          1 ≤ pid.val ∧ pid.val ≤ 2147483647 := by
  have hleft : Left doubles isDate pid alive s := by
    refine h.invariant (I := Left doubles isDate pid alive) (fun t ht => ?_)
      fun t a t' ht _ hs => left_step ht hs
    subst ht
    exact recovered_iff.mp hstart
  rw [recovered_iff, hleft.stale_iff hdead]

/-- A process may die after any number of bytes. -/
theorem reaches_write (pid : Pid) (startedAt : StartTime isDate) {k : Nat}
    (hk : k ≤ (record doubles isDate pid startedAt).length) :
    Reaches (step doubles pid) (fun _ _ => True) (· = ⟨none, .idle⟩)
      ⟨some ((record doubles isDate pid startedAt).take k), .write startedAt k⟩ := by
  induction k with
  | zero =>
      have hidle : Reaches (step doubles pid) (fun _ _ => True) (· = ⟨none, .idle⟩)
        (⟨none, .idle⟩ : State isDate) := Reaches.init rfl
      exact hidle.act (.acquire startedAt) trivial rfl
  | succ k ih =>
      refine (ih (by omega)).act .write trivial ?_
      simp only [step]
      rw [if_pos (by omega)]

theorem reaches_work (pid : Pid) (startedAt : StartTime isDate) :
    Reaches (step doubles pid) (fun _ _ => True) (· = ⟨none, .idle⟩)
      ⟨some (record doubles isDate pid startedAt), .work startedAt⟩ := by
  have h := @reaches_write doubles _ pid startedAt _ (Nat.le_refl _)
  rw [List.take_of_length_le (Nat.le_refl _)] at h
  refine h.act .write trivial ?_
  simp only [step]
  rw [if_neg (by omega)]

theorem recovered_none (alive : Nat → Bool) : Recovered doubles isDate alive none :=
  recovered_iff.mpr fun _ h => by cases h

/-- A `Date.parse` that knows one moment. -/
def isNewYear (s : Units) : Bool := s = unitsOf "2026-01-01T00:00:00.000Z".toList

def newYear : StartTime isNewYear where
  text := "2026-01-01T00:00:00.000Z".toList
  plain := List.all_eq_true.mp (by decide)
  short := by decide
  date := decide_eq_true rfl

/-- The lock of process 7, which died at work, is removed. -/
theorem crashed_installer_recovers_working :
    Recovered plainDoubles isNewYear (fun d => d == 5)
      (some (record plainDoubles isNewYear 7 newYear)) := by
  refine (crashed_installer_recovers_iff (recovered_none _) rfl (reaches_work 7 newYear)).mpr ?_
  intro startedAt k hw
  cases hw
  exact ⟨Nat.le_succ _, by decide, by decide⟩

/-- Process 7 dies between the exclusive creation and the first byte, and the lock stays. -/
theorem crash_before_record :
    ¬ ∀ (pid : Pid) (alive : Nat → Bool) (file : Option Bytes) (s : State isNewYear),
      Recovered plainDoubles isNewYear alive file → alive pid.val = false →
      1 ≤ pid.val ∧ pid.val ≤ 2147483647 →
      Reaches (step plainDoubles pid) (fun _ _ => True) (· = ⟨file, .idle⟩) s →
      Recovered plainDoubles isNewYear alive s.file := by
  intro h
  have hreach := @reaches_write plainDoubles _ 7 newYear 0 (Nat.zero_le _)
  have hrecovered := h 7 (fun _ => false) none _ (recovered_none _) rfl (by decide) hreach
  obtain ⟨_, pid, hread, _⟩ := recovered_iff.mp hrecovered [] rfl
  rw [readOwner_nil] at hread
  cases hread

end Caveat.Managed.Installer.Crash
