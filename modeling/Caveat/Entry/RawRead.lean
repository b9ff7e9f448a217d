import Caveat.Entry.Markdown
import Caveat.Js.Decoder
import Caveat.Lib.Base64
import Caveat.Lib.Packing

/-!
# Reading an entry in windows

A file that is over a limit is read in windows of bytes. A window ends where its limit is, or before
the character that the limit would cut, and is given as text where it decodes and in base64 where it
does not. The reader follows the offsets of the next windows.
-/

namespace Caveat.Entry

open Js Lib

/-! ## The window -/

inductive RawEncoding where
  | utf8
  | base64
deriving DecidableEq

/-- `RawEntryRead.raw`. -/
structure RawWindow where
  encoding : RawEncoding
  content : Text
  offsetBytes : Nat
  lengthBytes : Nat
  totalBytes : Nat
  nextOffsetBytes : Option Nat
deriving DecidableEq

/-- `(byte & 0xc0) === 0x80`. -/
def isContinuation (b : UInt8) : Bool := b &&& 0xc0 = 0x80

/-- `while (n > 0 && n < count && (buffer[n]! & 0xc0) === 0x80) n--`. -/
def cutBack (buffer : Bytes) : Nat → Nat
  | 0 => 0
  | n + 1 => if buffer[n + 1]?.any isContinuation then cutBack buffer n else n + 1

/-- The bytes as text, or in base64. -/
def decodeWindow (bytes : Bytes) : RawEncoding × Text :=
  match decodeFatal bytes with
  | some text => (.utf8, text)
  | none => (.base64, Base64.encode bytes)

def rangeMessage : Text :=
  "raw entry range: offset must be within file, limit must be 4..65536 bytes".toList

def boundaryMessage : Text := "raw entry offset must be a UTF-8 boundary".toList

/-- The window of a file at an offset; the error is its message. -/
def readWindow (file : Bytes) (offset limit : Nat) : Except Text RawWindow :=
  let size := file.length
  if size < offset ∨ limit < 4 ∨ 64 * 1024 < limit then .error rangeMessage
  else
    let buffer := (file.drop offset).take (limit + 4)
    if buffer.head?.any isContinuation then .error boundaryMessage
    else
      let n := cutBack buffer (min buffer.length limit)
      let (encoding, content) := decodeWindow (buffer.take n)
      .ok { encoding, content, offsetBytes := offset, lengthBytes := n, totalBytes := size
            nextOffsetBytes := if offset + n < size then some (offset + n) else none }

/-! ## The file -/

inductive ReadError where
  | entry (e : EntryError)
  | message (text : Text)
deriving DecidableEq

inductive EntryDocument where
  | parsed (entry : ParsedMarkdown)
  | raw (constraint : EntryInputConstraintError) (window : RawWindow)

/-- The window beside the diagnostic of the constraint. -/
def rawDocument (file : Bytes) (offsetBytes limitBytes : Option Nat)
    (constraint : EntryInputConstraintError) : Except ReadError EntryDocument :=
  match readWindow file (offsetBytes.getD 0) (limitBytes.getD (64 * 1024)) with
  | .ok window => .ok (.raw constraint window)
  | .error text => .error (.message text)

/-- `readEntryDocument` of a file that its path names. -/
def readEntryDocument (host : Host) (file : Bytes) (offsetBytes limitBytes : Option Nat) :
    Except ReadError EntryDocument :=
  if markdownLimit < file.length then
    rawDocument file offsetBytes limitBytes
      { field := "entry_markdown", limit := markdownLimit, actual := file.length }
  else
    match parseMarkdown host (decodeUtf8 file) with
    | .ok entry => .ok (.parsed entry)
    | .error (.constraint e) => rawDocument file offsetBytes limitBytes e
    | .error e => .error (.entry e)

/-! ## The reader -/

/-- The bytes that a reader has of a window. -/
def RawWindow.bytes (w : RawWindow) : Bytes :=
  match w.encoding with
  | .utf8 => encodeUtf8 w.content
  | .base64 => Base64.decode w.content

section

variable (file : Bytes) (limit : Nat)

/-- Following `next_offset_bytes` from an offset to the end. -/
inductive Follows : Nat → List RawWindow → Prop where
  | last {offset : Nat} {w : RawWindow} (h : readWindow file offset limit = .ok w)
      (hnext : w.nextOffsetBytes = none) : Follows offset [w]
  | next {offset next : Nat} {w : RawWindow} {ws : List RawWindow}
      (h : readWindow file offset limit = .ok w) (hnext : w.nextOffsetBytes = some next)
      (hrest : Follows next ws) : Follows offset (w :: ws)

/-- The windows from the start end, at growing offsets, and have the bytes of the file. -/
def Covers : Prop :=
  ∃ ws, Follows file limit 0 ws ∧ (ws.map RawWindow.offsetBytes).Pairwise (· < ·) ∧
    ws.flatMap RawWindow.bytes = file

/-! ## What the windows are -/

/-- Every byte that is no continuation begins a character. -/
def characters : List Bytes := blocks isContinuation file

/-- The characters packed into pieces. -/
def pieces : List Bytes := pack limit [] (characters file)

/--
The file begins with a character, no character is longer than a window, and no piece is the mark and
well-formed text.
-/
structure Readable : Prop where
  starts : file.head?.any isContinuation = false
  fits : ∀ c ∈ characters file, c.length ≤ limit
  unmarked : ∀ p ∈ pieces file limit, ∀ t : Text, p ≠ bom ++ encodeUtf8 t

end

variable {file : Bytes} {limit offset : Nat}

/-- The window of a piece. -/
def windowOf (file : Bytes) (offset : Nat) (piece : Bytes) : RawWindow :=
  { encoding := (decodeWindow piece).1, content := (decodeWindow piece).2, offsetBytes := offset
    lengthBytes := piece.length, totalBytes := file.length
    nextOffsetBytes :=
      if offset + piece.length < file.length then some (offset + piece.length) else none }

/-! ## One window -/

theorem cutBack_le (buffer : Bytes) (n : Nat) : cutBack buffer n ≤ n := by
  induction n with
  | zero => exact Nat.le_refl _
  | succ n ih =>
      rw [cutBack]
      split
      · exact Nat.le_succ_of_le ih
      · exact Nat.le_refl _

/-- At the end of the buffer nothing is cut. -/
theorem cutBack_length (buffer : Bytes) : cutBack buffer buffer.length = buffer.length := by
  cases h : buffer.length with
  | zero => rfl
  | succ n =>
      have hnone : buffer[n + 1]? = none := List.getElem?_eq_none (by omega)
      rw [cutBack, hnone]
      rfl

/-- The cut is before the last character that begins in the limit. -/
theorem cutBack_eq {buffer : Bytes} {m : Nat} (hm : buffer[m]?.any isContinuation = false) {n : Nat}
    (hmn : m ≤ n) (hcut : ∀ i, m < i → i ≤ n → buffer[i]?.any isContinuation = true) :
    cutBack buffer n = m := by
  induction n with
  | zero => rw [cutBack, Nat.le_zero.mp hmn]
  | succ n ih =>
      rw [cutBack]
      rcases Nat.lt_or_ge m (n + 1) with hlt | hge
      · rw [if_pos (hcut (n + 1) hlt (Nat.le_refl _))]
        exact ih (by omega) fun i hmi hi => hcut i hmi (by omega)
      · obtain rfl : m = n + 1 := by omega
        rw [hm]
        rfl

theorem readWindow_ok (hlimit : 4 ≤ limit ∧ limit ≤ 64 * 1024) (hoffset : offset ≤ file.length)
    (hhead : (file.drop offset).head?.any isContinuation = false) {n : Nat}
    (hn : cutBack ((file.drop offset).take (limit + 4))
      (min ((file.drop offset).take (limit + 4)).length limit) = n) (hle : n ≤ limit) :
    readWindow file offset limit = .ok (windowOf file offset ((file.drop offset).take n)) := by
  have hbuffer : ((file.drop offset).take (limit + 4)).head?.any isContinuation = false := by
    rwa [List.head?_take, if_neg (by omega)]
  have hcut := cutBack_le ((file.drop offset).take (limit + 4))
    (min ((file.drop offset).take (limit + 4)).length limit)
  have htake : ((file.drop offset).take (limit + 4)).take n = (file.drop offset).take n := by
    rw [List.take_take, Nat.min_eq_left (by omega)]
  have hlength : ((file.drop offset).take n).length = n := by
    rw [hn, List.length_take] at hcut
    rw [List.length_take]
    omega
  unfold readWindow
  dsimp only
  rw [if_neg (by omega), hbuffer, hn, htake, windowOf, hlength]
  rfl

/-- What a window tells of the file. -/
theorem readWindow_cases {w : RawWindow} (h : readWindow file offset limit = .ok w) :
    offset ≤ file.length ∧ (file.drop offset).head?.any isContinuation = false ∧
      w.lengthBytes ≤ limit ∧ w.nextOffsetBytes = if offset + w.lengthBytes < file.length then
        some (offset + w.lengthBytes) else none := by
  unfold readWindow at h
  dsimp only at h
  split at h
  · cases h
  · rename_i hrange
    split at h
    · cases h
    · rename_i hhead
      rw [List.head?_take, if_neg (by omega)] at hhead
      obtain rfl := Except.ok.inj h
      refine ⟨by omega, Bool.eq_false_iff.mpr hhead, ?_, rfl⟩
      have hcut := cutBack_le ((file.drop offset).take (limit + 4))
        (min ((file.drop offset).take (limit + 4)).length limit)
      exact hcut.trans (Nat.min_le_right _ _)

/-- The last window is all that is left. -/
theorem readWindow_last (hlimit : 4 ≤ limit ∧ limit ≤ 64 * 1024) (hoffset : offset ≤ file.length)
    (hhead : (file.drop offset).head?.any isContinuation = false)
    (hle : (file.drop offset).length ≤ limit) :
    readWindow file offset limit = .ok (windowOf file offset (file.drop offset)) := by
  have hall : (file.drop offset).take (limit + 4) = file.drop offset :=
    List.take_of_length_le (by omega)
  have h := readWindow_ok hlimit hoffset hhead (n := (file.drop offset).length) ?_ hle
  · rwa [List.take_length] at h
  · rw [hall, Nat.min_eq_left hle, cutBack_length]

/-- A window ends before the character that does not fit. -/
theorem readWindow_next (hlimit : 4 ≤ limit ∧ limit ≤ 64 * 1024) (hoffset : offset ≤ file.length)
    {piece rest : Bytes} {a : UInt8} {as : Bytes} (hfile : file.drop offset = piece ++ (a :: as ++ rest))
    (hhead : (file.drop offset).head?.any isContinuation = false) (ha : isContinuation a = false)
    (has : ∀ c ∈ as, isContinuation c = true) (hle : piece.length ≤ limit)
    (hlt : limit < piece.length + (a :: as).length) :
    readWindow file offset limit = .ok (windowOf file offset piece) := by
  have hlong : piece.length + (a :: as).length ≤ (file.drop offset).length := by
    rw [hfile, List.length_append, List.length_append]
    omega
  -- up to the limit the buffer is the file
  have hget : ∀ i, i ≤ limit → ((file.drop offset).take (limit + 4))[i]? = (file.drop offset)[i]? :=
    fun i hi => List.getElem?_take_of_lt (by omega)
  have hcut : cutBack ((file.drop offset).take (limit + 4)) limit = piece.length := by
    refine cutBack_eq ?_ hle fun i hmi hi => ?_
    · rw [hget _ hle, hfile, List.getElem?_append_right (Nat.le_refl _), Nat.sub_self]
      exact ha
    · have hin : i - piece.length - 1 < as.length := by
        rw [List.length_cons] at hlt
        omega
      have hi' : (a :: as ++ rest)[i - piece.length]? = as[i - piece.length - 1]? := by
        rw [show i - piece.length = i - piece.length - 1 + 1 by omega, List.cons_append,
          List.getElem?_cons_succ, List.getElem?_append_left hin, Nat.add_sub_cancel]
      rw [hget i hi, hfile, List.getElem?_append_right (by omega), hi',
        List.getElem?_eq_getElem hin]
      exact has _ (List.getElem_mem hin)
  have h := readWindow_ok hlimit hoffset hhead (n := piece.length) ?_ hle
  · rwa [hfile, List.take_left'] at h
    rfl
  · rw [List.length_take, Nat.min_eq_right (by omega), hcut]

/-! ## All windows -/

theorem Follows.unique {ws ws' : List RawWindow} (h : Follows file limit offset ws)
    (h' : Follows file limit offset ws') : ws = ws' := by
  induction h generalizing ws' with
  | last hread hnext =>
      cases h' with
      | last hread' _ => rw [Except.ok.inj (hread.symm.trans hread')]
      | next hread' hnext' _ =>
          rw [← Except.ok.inj (hread.symm.trans hread'), hnext] at hnext'
          cases hnext'
  | next hread hnext _ ih =>
      cases h' with
      | last hread' hnext' =>
          rw [← Except.ok.inj (hread.symm.trans hread'), hnext] at hnext'
          cases hnext'
      | next hread' hnext' hrest' =>
          obtain rfl := Except.ok.inj (hread.symm.trans hread')
          obtain rfl := Option.some.inj (hnext.symm.trans hnext')
          rw [ih hrest']

theorem Follows.starts {ws : List RawWindow} (h : Follows file limit offset ws) :
    (file.drop offset).head?.any isContinuation = false := by
  cases h with
  | last hread _ => exact (readWindow_cases hread).2.1
  | next hread _ _ => exact (readWindow_cases hread).2.1

/-- No character is longer than a window, if the reader comes to the end. -/
theorem Follows.fits {ws : List RawWindow} (h : Follows file limit offset ws) :
    ∀ c ∈ characters (file.drop offset), c.length ≤ limit := by
  induction h with
  | @last offset w hread hnext =>
      obtain ⟨hoffset, _, hle, hnext'⟩ := readWindow_cases hread
      rw [hnext] at hnext'
      have hend : ¬ offset + w.lengthBytes < file.length := by
        intro hlt
        rw [if_pos hlt] at hnext'
        cases hnext'
      intro c hc
      have hlength := length_le_of_mem_blocks hc
      rw [List.length_drop] at hlength
      omega
  | @next offset next w ws hread hnext hrest ih =>
      obtain ⟨hoffset, _, hle, hnext'⟩ := readWindow_cases hread
      rw [hnext] at hnext'
      have hnext : next = offset + w.lengthBytes := by
        split at hnext'
        · exact Option.some.inj hnext'
        · cases hnext'
      have hsplit : file.drop offset =
          (file.drop offset).take w.lengthBytes ++ file.drop next := by
        rw [hnext, ← List.drop_drop, List.take_append_drop]
      -- the next window begins a character, so that no character crosses its start
      have hhead := hrest.starts
      intro c hc
      rw [hsplit, characters, blocks_append hhead] at hc
      rcases List.mem_append.mp hc with hc | hc
      · have hlength := length_le_of_mem_blocks hc
        rw [List.length_take] at hlength
        omega
      · exact ih c hc

/-- The reader gets the pieces, at growing offsets. -/
theorem exists_follows (hlimit : 4 ≤ limit ∧ limit ≤ 64 * 1024) {n : Nat} :
    ∀ {bs : List Bytes}, bs.length = n → ∀ {piece : Bytes} {offset : Nat},
      file.drop offset = piece ++ bs.flatten → offset ≤ file.length → piece.length ≤ limit →
      (file.drop offset).head?.any isContinuation = false →
      (∀ c ∈ bs, (∃ a as, c = a :: as ∧ isContinuation a = false ∧
        ∀ b ∈ as, isContinuation b = true) ∧ c.length ≤ limit) →
      ∃ ws, Follows file limit offset ws ∧
        List.Forall₂ (fun w p => w = windowOf file w.offsetBytes p) ws (pack limit piece bs) ∧
        (∀ w ∈ ws, offset ≤ w.offsetBytes) ∧ (ws.map RawWindow.offsetBytes).Pairwise (· < ·) := by
  induction n using Nat.strong_induction_on with
  | _ n ih =>
      intro bs hn piece offset hfile hoffset hle hhead hchars
      rcases Nat.lt_or_ge limit (piece.length + bs.flatten.length) with hlong | hfits
      · obtain ⟨fit, b, rest, rfl, hpiece, hlt, hpack⟩ := pack_of_lt hle hlong
        obtain ⟨⟨a, as, rfl, ha, has⟩, hb⟩ := hchars b (by simp)
        have hfile' : file.drop offset = (piece ++ fit.flatten) ++ (a :: as ++ rest.flatten) := by
          rw [hfile, List.flatten_append, List.flatten_cons, List.append_assoc]
        generalize piece ++ fit.flatten = window at hfile' hpiece hlt hpack
        have hread := readWindow_next hlimit hoffset hfile' hhead ha has hpiece hlt
        have hsize : (file.drop offset).length =
            window.length + ((a :: as).length + rest.flatten.length) := by
          rw [hfile', List.length_append, List.length_append]
        rw [List.length_drop] at hsize
        have hpos : 0 < (a :: as).length := by simp
        have hnext : (windowOf file offset window).nextOffsetBytes = some (offset + window.length) :=
          if_pos (by omega)
        have hdrop : file.drop (offset + window.length) = a :: as ++ rest.flatten := by
          rw [← List.drop_drop, hfile', List.drop_left']
          rfl
        obtain ⟨ws, hws, hpieces, hbound, hgrow⟩ := ih rest.length
          (by rw [← hn, List.length_append, List.length_cons]; omega) rfl hdrop (by omega) hb
          (by rw [hdrop]; exact ha) fun c hc => hchars c (by simp [hc])
        refine ⟨_, .next hread hnext hws, ?_, ?_, ?_⟩
        · rw [hpack]
          exact .cons rfl hpieces
        · intro w hw
          rcases List.mem_cons.mp hw with rfl | hw
          · exact Nat.le_refl _
          · have := hbound w hw
            omega
        · refine List.pairwise_cons.mpr ⟨fun o ho => ?_, hgrow⟩
          obtain ⟨w, hw, rfl⟩ := List.mem_map.mp ho
          have := hbound w hw
          show offset < w.offsetBytes
          omega
      · have hall : (file.drop offset).length ≤ limit := by
          rw [hfile, List.length_append]
          exact hfits
        have hread := readWindow_last hlimit hoffset hhead hall
        have hnext : (windowOf file offset (file.drop offset)).nextOffsetBytes = none := by
          refine if_neg ?_
          rw [List.length_drop]
          omega
        refine ⟨_, .last hread hnext, ?_, ?_, List.pairwise_singleton _ _⟩
        · rw [pack_of_le hfits, ← hfile]
          exact .cons rfl .nil
        · intro w hw
          rw [List.mem_singleton.mp hw]
          exact Nat.le_refl _

/-! ## What the reader has -/

theorem bytes_of_marked (t : Text) :
    (windowOf file offset (bom ++ encodeUtf8 t)).bytes = encodeUtf8 t := by
  simp only [windowOf, decodeWindow, decodeFatal_bom, RawWindow.bytes]

theorem bytes_of_unmarked {p : Bytes} (h : ∀ t : Text, p ≠ bom ++ encodeUtf8 t) :
    (windowOf file offset p).bytes = p := by
  cases hdecode : decodeFatal p with
  | none => simp only [windowOf, decodeWindow, hdecode, RawWindow.bytes, Base64.decode_encode]
  | some t =>
      rcases decodeFatal_cases hdecode with ⟨_, hp⟩ | hp
      · simp only [windowOf, decodeWindow, hdecode, RawWindow.bytes]
        exact hp.symm
      · exact absurd hp (h t)

/-- A mark is lost, and nothing else. -/
theorem bytes_length (file : Bytes) (offset : Nat) (p : Bytes) :
    (windowOf file offset p).bytes.length ≤ p.length ∧
      ((windowOf file offset p).bytes.length = p.length → ∀ t : Text, p ≠ bom ++ encodeUtf8 t) := by
  by_cases h : ∃ t : Text, p = bom ++ encodeUtf8 t
  · obtain ⟨t, rfl⟩ := h
    have hlength : (bom ++ encodeUtf8 t).length = (encodeUtf8 t).length + 3 := by
      rw [List.length_append, Nat.add_comm]
      rfl
    rw [bytes_of_marked, hlength]
    exact ⟨by omega, fun heq => by omega⟩
  · have hnot : ∀ t : Text, p ≠ bom ++ encodeUtf8 t := fun t ht => h ⟨t, ht⟩
    rw [bytes_of_unmarked hnot]
    exact ⟨Nat.le_refl _, fun _ => hnot⟩

theorem flatMap_bytes_iff {ws : List RawWindow} {ps : List Bytes}
    (h : List.Forall₂ (fun w p => w = windowOf file w.offsetBytes p) ws ps) :
    ws.flatMap RawWindow.bytes = ps.flatten ↔ ∀ p ∈ ps, ∀ t : Text, p ≠ bom ++ encodeUtf8 t := by
  constructor
  · intro heq
    -- no window has more than its piece, so that none has less
    have hlength : ∀ {ws : List RawWindow} {ps : List Bytes},
        List.Forall₂ (fun w p => w = windowOf file w.offsetBytes p) ws ps →
        (ws.flatMap RawWindow.bytes).length ≤ ps.flatten.length ∧
          ((ws.flatMap RawWindow.bytes).length = ps.flatten.length →
            ∀ p ∈ ps, ∀ t : Text, p ≠ bom ++ encodeUtf8 t) := by
      intro ws ps h
      induction h with
      | nil => exact ⟨Nat.le_refl _, fun _ p hp => absurd hp List.not_mem_nil⟩
      | @cons w p ws ps hw _ ih =>
          obtain ⟨hle, hsame⟩ := bytes_length file w.offsetBytes p
          rw [← hw] at hle hsame
          obtain ⟨hle', hsame'⟩ := ih
          rw [List.flatMap_cons, List.flatten_cons, List.length_append, List.length_append]
          refine ⟨by omega, fun heq q hq => ?_⟩
          rcases List.mem_cons.mp hq with rfl | hq
          · exact hsame (by omega)
          · exact hsame' (by omega) q hq
    exact (hlength h).2 (congrArg List.length heq)
  · intro hnot
    induction h with
    | nil => rfl
    | @cons w p ws ps hw _ ih =>
        rw [List.flatMap_cons, List.flatten_cons, ih fun q hq => hnot q (List.mem_cons_of_mem _ hq),
          hw, bytes_of_unmarked (hnot p List.mem_cons_self)]

theorem flatten_characters : (characters file).flatten = file := List.flatten_splitBy _ file

theorem flatten_pieces : (pieces file limit).flatten = file := by
  rw [pieces, flatten_pack, flatten_characters]
  rfl

/-- The reader comes to the end where no character is longer than a window. -/
theorem exists_follows_pieces (hlimit : 4 ≤ limit ∧ limit ≤ 64 * 1024)
    (hstarts : file.head?.any isContinuation = false)
    (hfits : ∀ c ∈ characters file, c.length ≤ limit) :
    ∃ ws, Follows file limit 0 ws ∧
      List.Forall₂ (fun w p => w = windowOf file w.offsetBytes p) ws (pieces file limit) ∧
      (ws.map RawWindow.offsetBytes).Pairwise (· < ·) := by
  have hchars : ∀ c ∈ characters file, (∃ a as, c = a :: as ∧ isContinuation a = false ∧
      ∀ b ∈ as, isContinuation b = true) ∧ c.length ≤ limit := by
    intro c hc
    obtain ⟨a, as, rfl, ha⟩ := head_of_mem_blocks hstarts c hc
    exact ⟨⟨a, as, rfl, ha, goesOn_of_mem_blocks hc⟩, hfits _ hc⟩
  have hfile : file.drop 0 = [] ++ (characters file).flatten := flatten_characters.symm
  obtain ⟨ws, hws, hpieces, _, hgrow⟩ := exists_follows hlimit rfl hfile (Nat.zero_le _)
    (Nat.zero_le _) hstarts hchars
  exact ⟨ws, hws, hpieces, hgrow⟩

/--
**Following the windows gives the file** where it begins with a character, no character is longer
than a window, and no piece is the mark and well-formed text.
-/
theorem raw_windows_cover_iff {file : Bytes} {limit : Nat} (hlimit : 4 ≤ limit ∧ limit ≤ 64 * 1024) :
    Covers file limit ↔ Readable file limit := by
  constructor
  · rintro ⟨ws, hws, _, hbytes⟩
    have hstarts : file.head?.any isContinuation = false := hws.starts
    have hfits : ∀ c ∈ characters file, c.length ≤ limit := hws.fits
    refine ⟨hstarts, hfits, ?_⟩
    obtain ⟨ws', hws', hpieces, _⟩ := exists_follows_pieces hlimit hstarts hfits
    obtain rfl := hws.unique hws'
    refine (flatMap_bytes_iff hpieces).mp ?_
    rw [hbytes, flatten_pieces]
  · intro h
    obtain ⟨ws, hws, hpieces, hgrow⟩ := exists_follows_pieces hlimit h.starts h.fits
    refine ⟨ws, hws, hgrow, ?_⟩
    rw [(flatMap_bytes_iff hpieces).mpr h.unmarked, flatten_pieces]

/-- In windows of four bytes, with a cut before a character and bytes that are no text. -/
theorem raw_windows_cover_iff_mixed : Covers [0x61, 0x62, 0x63, 0xc3, 0xa9, 0xff] 4 := by
  refine (raw_windows_cover_iff (by decide)).mpr ⟨by decide, by decide, ?_⟩
  have hpieces : pieces [0x61, 0x62, 0x63, 0xc3, 0xa9, 0xff] 4 =
      [[0x61, 0x62, 0x63], [0xc3, 0xa9, 0xff]] := by decide
  intro p hp t ht
  rw [hpieces] at hp
  rcases List.mem_cons.mp hp with rfl | hp
  · exact absurd (List.cons.inj ht).1 (by decide)
  · rw [List.mem_singleton.mp hp] at ht
    exact absurd (List.cons.inj ht).1 (by decide)

/-! ## A reader that stays where it is -/

theorem not_follows_of_stuck {w : RawWindow} (h : readWindow file offset limit = .ok w)
    (hstuck : w.nextOffsetBytes = some offset) {ws : List RawWindow} :
    ¬ Follows file limit offset ws := by
  intro hws
  induction hws with
  | last hread hnext =>
      rw [← Except.ok.inj (h.symm.trans hread), hstuck] at hnext
      cases hnext
  | next hread hnext _ ih =>
      rw [← Except.ok.inj (h.symm.trans hread), hstuck] at hnext
      obtain rfl := Option.some.inj hnext
      exact ih h hstuck

/-- A letter and continuation bytes, one byte over the limit of an entry. -/
def danglingFile : Bytes := 0x61 :: List.replicate (1024 * 1024) 0x80

/-- The window of a character that is longer than the limit is empty, and the next one is the same. -/
theorem dangling_not_covered :
    (∃ e w, readEntryDocument flatHost danglingFile none (some 4) = .ok (.raw e w) ∧
      w.nextOffsetBytes = some 0) ∧ ¬ Covers danglingFile 4 := by
  have hlength : danglingFile.length = 1024 * 1024 + 1 := by
    rw [danglingFile, List.length_cons, List.length_replicate]
  have hbuffer : (danglingFile.drop 0).take (4 + 4) = 0x61 :: List.replicate 7 0x80 := by
    rw [danglingFile, List.drop_zero, List.take_succ_cons, List.take_replicate]
    rfl
  have hread : readWindow danglingFile 0 4 = .ok (windowOf danglingFile 0 []) := by
    refine readWindow_ok (by decide) (Nat.zero_le _) rfl ?_ (Nat.zero_le _)
    rw [hbuffer]
    decide
  have hstuck : (windowOf danglingFile 0 []).nextOffsetBytes = some 0 := by
    simp only [windowOf, List.length_nil, hlength]
    rw [if_pos (by omega)]
  have hdocument : readEntryDocument flatHost danglingFile none (some 4) = .ok (.raw
      { field := "entry_markdown", limit := markdownLimit, actual := danglingFile.length }
      (windowOf danglingFile 0 [])) := by
    rw [readEntryDocument, if_pos (by rw [hlength, markdownLimit]; omega), rawDocument,
      Option.getD_none, Option.getD_some, hread]
  exact ⟨⟨_, _, hdocument, hstuck⟩, fun ⟨_, hws, _⟩ => not_follows_of_stuck hread hstuck hws⟩

end Caveat.Entry
