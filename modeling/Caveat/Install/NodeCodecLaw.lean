import Caveat.Install.NodeCodec
import Caveat.Js.Whole
import Caveat.Lib.Loop

/-!
# What an edit of the node path leaves

The edits of a text cut it into what is kept and what is replaced. As every cut lies between two
characters, the bytes of the file are cut the same way, provided that the text that was read is all
of the file.
-/

namespace Caveat.Install

open Js
open Lib (bind_eq_ok)

theorem ensure_ok {c : Prop} [Decidable c] {message : String} {u : Unit} :
    ensure c message = .ok u ↔ c := by
  rw [ensure]
  split
  · rename_i h
    exact ⟨fun _ => h, fun _ => rfl⟩
  · rename_i h
    exact ⟨fun h' => (nomatch h'), fun h' => absurd h' h⟩

theorem orThrow_ok {α : Type} {message : String} {v : Option α} {w : α} :
    orThrow message v = .ok w ↔ v = some w := by
  cases v with
  | none => exact ⟨fun h => (nomatch h), fun h => nomatch h⟩
  | some v => exact ⟨fun h => congrArg some (Except.ok.inj h), fun h => by cases h; rfl⟩

/-! ## Kept and replaced -/

/-- A part that is replaced, and what is kept behind it. -/
structure Piece (α : Type) where
  old : α
  new : α
  kept : α

section Pieces

variable {α : Type}

def oldText (first : List α) (pieces : List (Piece (List α))) : List α :=
  first ++ pieces.flatMap fun p => p.old ++ p.kept

def newText (first : List α) (pieces : List (Piece (List α))) : List α :=
  first ++ pieces.flatMap fun p => p.new ++ p.kept

/-- What is not replaced adds to both lengths. -/
theorem length_oldText_newText (first : List α) (pieces : List (Piece (List α))) :
    (oldText first pieces).length + (pieces.map fun p => p.new.length).sum =
      (newText first pieces).length + (pieces.map fun p => p.old.length).sum := by
  rw [oldText, newText, List.length_append, List.length_append]
  induction pieces with
  | nil => rfl
  | cons p pieces ih =>
      rw [List.flatMap_cons, List.flatMap_cons, List.map_cons, List.map_cons, List.sum_cons,
        List.sum_cons, List.length_append, List.length_append, List.length_append,
        List.length_append]
      omega

end Pieces

/-- An edit replaces whole characters, and so do the texts before it and its content end. -/
structure WholeEdit (text : Units) (e : Edit) : Prop where
  before : Whole (text.take e.offset)
  old : Whole (e.old text)
  content : Whole e.content

structure WholePiece (p : Piece Units) : Prop where
  old : Whole p.old
  new : Whole p.new
  kept : Whole p.kept

/-- **Editing cuts the text into pieces.** The induction is on the edits, from the last one in the
text to the first; what lies behind the last edit is in pieces already. -/
theorem applyEdits_pieces {text : Units} {edits : List Edit} (hwhole : ∀ e ∈ edits, WholeEdit text e)
    {current : Units} {previous : Nat} (hbound : previous ≤ text.length)
    (hprevious : Whole (text.take previous)) {pieces : List (Piece Units)} (hpieces : ∀ p ∈ pieces, WholePiece p)
    (hold : text = oldText (text.take previous) pieces)
    (hcurrent : current = newText (text.take previous) pieces) {result : Units}
    (h : applyEdits current previous edits = .ok result) :
    ∃ first more, Whole first ∧ (∀ p ∈ more, WholePiece p) ∧ text = oldText first (more ++ pieces) ∧
      result = newText first (more ++ pieces) ∧
      (edits = [] ∧ first = text.take previous ∨ ∃ e ∈ edits, first = text.take e.offset) ∧
      (more.map fun p => (p.old, p.new)) =
        (edits.map fun e => (e.old text, e.content)).reverse := by
  induction edits generalizing current previous pieces with
  | nil =>
      cases h
      exact ⟨text.take previous, [], hprevious, fun _ hp => absurd hp List.not_mem_nil, hold,
        hcurrent, .inl ⟨rfl, rfl⟩, rfl⟩
  | cons e edits ih =>
      rw [applyEdits] at h
      split at h
      · cases h
      rename_i hover
      have he := hwhole e List.mem_cons_self
      have hsplit : text.take previous = text.take e.offset ++
          (e.old text ++ (text.take previous).drop (e.offset + e.length)) := by
        have hold' : e.old text = ((text.take previous).drop e.offset).take e.length := by
          rw [Edit.old, List.drop_take, List.take_take]
          congr 1
          omega
        have htake : text.take e.offset = (text.take previous).take e.offset := by
          rw [List.take_take]
          congr 1
          omega
        rw [hold', htake, ← List.drop_drop, List.take_append_drop, List.take_append_drop]
      let kept := (text.take previous).drop (e.offset + e.length)
      have hkept : Whole kept := by
        have hall := hprevious
        rw [hsplit, ← List.append_assoc] at hall
        exact hall.right
      have hnext := @ih (fun e' he' => hwhole e' (List.mem_cons_of_mem e he'))
        (current.take e.offset ++ e.content ++ current.drop (e.offset + e.length)) e.offset
        (by omega) he.before (⟨e.old text, e.content, kept⟩ :: pieces) ?_ ?_ ?_ h
      · obtain ⟨first, more, hfirst, hmore, htext, hresult, hstart, hspans⟩ := hnext
        refine ⟨first, more ++ [⟨e.old text, e.content, kept⟩], hfirst, ?_, ?_, ?_, .inr ?_, ?_⟩
        · intro p hp
          rcases List.mem_append.mp hp with hp | hp
          · exact hmore p hp
          · rw [List.mem_singleton.mp hp]
            exact ⟨he.old, he.content, hkept⟩
        · rw [List.append_assoc, List.singleton_append]
          exact htext
        · rw [List.append_assoc, List.singleton_append]
          exact hresult
        · rcases hstart with ⟨_, hstart⟩ | ⟨e', he', hstart⟩
          · exact ⟨e, List.mem_cons_self, hstart⟩
          · exact ⟨e', List.mem_cons_of_mem e he', hstart⟩
        · show _ = ((e.old text, e.content) :: edits.map fun e => (e.old text, e.content)).reverse
          rw [List.reverse_cons, List.map_append, hspans]
          rfl
      · intro p hp
        rcases List.mem_cons.mp hp with rfl | hp
        · exact ⟨he.old, he.content, hkept⟩
        · exact hpieces p hp
      · conv_lhs => rw [hold, oldText, hsplit]
        rw [oldText, List.flatMap_cons]
        simp only [List.append_assoc, kept]
      · have hlen : (text.take previous).length = previous := List.length_take_of_le hbound
        have htake : current.take e.offset = text.take e.offset := by
          rw [hcurrent, newText, List.take_append_of_le_length (by omega), List.take_take]
          congr 1
          omega
        have hdrop : current.drop (e.offset + e.length) =
            kept ++ pieces.flatMap fun p => p.new ++ p.kept := by
          rw [hcurrent, newText, List.drop_append_of_le_length (by omega)]
        rw [htake, hdrop, newText, List.flatMap_cons]
        simp only [List.append_assoc]

/-! ## The bytes of the pieces -/

/-- A piece as bytes. -/
def Piece.encoded (p : Piece Units) : Piece Bytes :=
  { old := toUtf8 p.old, new := toUtf8 p.new, kept := toUtf8 p.kept }

theorem toUtf8_flatMap {parts : Piece Units → Units} {pieces : List (Piece Units)}
    (h : ∀ p ∈ pieces, Whole (parts p)) :
    Whole (pieces.flatMap parts) ∧
      toUtf8 (pieces.flatMap parts) = pieces.flatMap fun p => toUtf8 (parts p) := by
  induction pieces with
  | nil => exact ⟨whole_nil, rfl⟩
  | cons p pieces ih =>
      obtain ⟨hrest, hbytes⟩ := ih fun q hq => h q (List.mem_cons_of_mem p hq)
      have hp := h p List.mem_cons_self
      rw [List.flatMap_cons, List.flatMap_cons, toUtf8_append hp, hbytes]
      exact ⟨hp.append hrest, rfl⟩

theorem toUtf8_oldText {first : Units} {pieces : List (Piece Units)} (hfirst : Whole first)
    (h : ∀ p ∈ pieces, WholePiece p) :
    toUtf8 (oldText first pieces) = oldText (toUtf8 first) (pieces.map Piece.encoded) := by
  rw [oldText, toUtf8_append hfirst,
    (toUtf8_flatMap fun p hp => (h p hp).old.append (h p hp).kept).2, oldText, List.flatMap_map]
  congr 1
  exact List.flatMap_congr fun p hp => toUtf8_append (h p hp).old p.kept

theorem toUtf8_newText {first : Units} {pieces : List (Piece Units)} (hfirst : Whole first)
    (h : ∀ p ∈ pieces, WholePiece p) :
    toUtf8 (newText first pieces) = newText (toUtf8 first) (pieces.map Piece.encoded) := by
  rw [newText, toUtf8_append hfirst,
    (toUtf8_flatMap fun p hp => (h p hp).new.append (h p hp).kept).2, newText, List.flatMap_map]
  congr 1
  exact List.flatMap_congr fun p hp => toUtf8_append (h p hp).new p.kept

/-- With well-formed contents a well-formed text stays well formed. -/
theorem isWellFormed_newText {first : Units} {pieces : List (Piece Units)} (hfirst : Whole first)
    (h : ∀ p ∈ pieces, WholePiece p) (hnew : ∀ p ∈ pieces, isWellFormed p.new = true)
    (htext : isWellFormed (oldText first pieces) = true) :
    isWellFormed (newText first pieces) = true := by
  rw [oldText, isWellFormed_append hfirst, Bool.and_eq_true] at htext
  rw [newText, isWellFormed_append hfirst, Bool.and_eq_true]
  refine ⟨htext.1, ?_⟩
  have hrest := htext.2
  clear htext
  induction pieces with
  | nil => rfl
  | cons p pieces ih =>
      have hp := h p List.mem_cons_self
      rw [List.flatMap_cons, isWellFormed_append (hp.old.append hp.kept), isWellFormed_append hp.old,
        Bool.and_eq_true, Bool.and_eq_true] at hrest
      rw [List.flatMap_cons, isWellFormed_append (hp.new.append hp.kept), isWellFormed_append hp.new,
        Bool.and_eq_true, Bool.and_eq_true]
      exact ⟨⟨hnew p List.mem_cons_self, hrest.1.2⟩, ih (fun q hq => h q (List.mem_cons_of_mem p hq))
        (fun q hq => hnew q (List.mem_cons_of_mem p hq)) hrest.2⟩

/-! ## What an edit replaces -/

/-- Units within a JSON string that spell a string. -/
inductive SpellsJson : Units → Units → Prop
  | nil : SpellsJson [] []
  | plain {u : UInt16} {raw s : Units} :
      u ≠ unitOf '\\' → SpellsJson raw s → SpellsJson (u :: raw) (u :: s)
  | escape {e : Units} {v : UInt16} {raw s : Units} :
      unescape e = some v → SpellsJson raw s → SpellsJson (e ++ raw) (v :: s)

theorem ofNat_highSurrogate {u : UInt16} (h : isHighSurrogate u = true) :
    Char.ofNat u.toNat = Char.ofNat 0 := by
  simp only [isHighSurrogate, Bool.and_eq_true, decide_eq_true_eq] at h
  have hinvalid : ¬ u.toNat.isValidChar := by
    rw [Nat.isValidChar]
    omega
  rw [Char.ofNat, dif_neg hinvalid]
  rfl

/-- An escape has two units or six, and the last one is no surrogate. -/
theorem unescape_shape {e : Units} {v : UInt16} (h : unescape e = some v) :
    (e.length = 6 ∨ e.length = 2 ∧ e.getLast? ≠ some (unitOf 'u')) ∧ Whole e := by
  have hzero : ∀ a b c : Char, hexUnit a b c (Char.ofNat 0) = none := by
    intro a b c
    rw [hexUnit]
    cases hexValue a <;> cases hexValue b <;> cases hexValue c <;> rfl
  unfold unescape at h
  split at h
  · rename_i u c
    split at h
    · rename_i hu
      refine ⟨.inr ⟨rfl, fun hc => hu.2 (Option.some.inj hc)⟩, fun w hw => ?_⟩
      obtain rfl : c = w := Option.some.inj hw
      cases hc : isHighSurrogate c with
      | false => rfl
      | true =>
          rw [ofNat_highSurrogate hc] at h
          cases h
    · cases h
  · rename_i u x a b c d
    split at h
    · refine ⟨.inl rfl, fun w hw => ?_⟩
      obtain rfl : d = w := Option.some.inj hw
      cases hd : isHighSurrogate d with
      | false => rfl
      | true =>
          rw [ofNat_highSurrogate hd, hzero] at h
          cases h
    · cases h
  · cases h

theorem unescape_length {u : UInt16} {raw : Units} {v : UInt16}
    (h : unescape ((u :: raw).take (if raw.head? = some (unitOf 'u') then 6 else 2)) = some v) :
    (if raw.head? = some (unitOf 'u') then 6 else 2) ≤ (u :: raw).length := by
  have hshape := (unescape_shape h).1
  rw [List.length_take] at hshape
  split at hshape
  · rename_i hhead
    rw [if_pos hhead]
    rcases hshape with hlen | ⟨hlen, hlast⟩
    · omega
    · -- only the letter of the escape is there
      cases raw with
      | nil => cases hhead
      | cons c raw =>
          cases raw with
          | nil => exact absurd hhead hlast
          | cons d raw =>
              rw [List.length_cons, List.length_cons, List.length_cons] at hlen
              omega
  · rename_i hhead
    rw [if_neg hhead]
    omega

theorem SpellsJson.eq_nil {raw s : Units} (h : SpellsJson raw s) (hraw : raw = []) : s = [] := by
  cases h with
  | nil => rfl
  | plain hu h => cases hraw
  | escape he h =>
      rw [(List.append_eq_nil_iff.mp hraw).1] at he
      cases he

/-- A spelling of a string that ends with a character ends with one. -/
theorem SpellsJson.whole {raw s : Units} (h : SpellsJson raw s) (hs : Whole s) : Whole raw := by
  induction h with
  | nil => exact whole_nil
  | @plain u raw s hu h ih =>
      have hraw := ih (Whole.right (s := [u]) hs)
      cases raw with
      | nil =>
          rw [h.eq_nil rfl] at hs
          exact hs
      | cons v raw => exact fun w hw => hraw w hw
  | @escape e v raw s he h ih => exact (unescape_shape he).2.append (ih (Whole.right (s := [v]) hs))

theorem prefixUnits_spells {fuel : Nat} {raw : Units} {missing : Nat} {found : Nat × Units}
    (h : prefixUnits fuel raw missing = .ok found) :
    found.1 ≤ raw.length ∧ SpellsJson (raw.take found.1) found.2 := by
  induction fuel generalizing raw missing found with
  | zero =>
      cases missing with
      | zero => cases h; exact ⟨Nat.zero_le _, .nil⟩
      | succ missing => cases h
  | succ fuel ih =>
      cases missing with
      | zero => cases h; exact ⟨Nat.zero_le _, .nil⟩
      | succ missing =>
          cases raw with
          | nil => cases h
          | cons u raw =>
              rw [prefixUnits] at h
              split at h
              · obtain ⟨v, hv, h⟩ := bind_eq_ok.mp h
                obtain ⟨more, hmore, h⟩ := bind_eq_ok.mp h
                cases h
                have hv := orThrow_ok.mp hv
                have hsize := unescape_length hv
                obtain ⟨hle, hspells⟩ := ih hmore
                rw [List.length_drop] at hle
                refine ⟨by omega, ?_⟩
                dsimp only
                rw [List.take_add]
                exact .escape hv hspells
              · rename_i hu
                obtain ⟨more, hmore, h⟩ := bind_eq_ok.mp h
                cases h
                obtain ⟨hle, hspells⟩ := ih hmore
                refine ⟨by rw [List.length_cons]; omega, ?_⟩
                dsimp only
                rw [Nat.add_comm, List.take_succ_cons]
                exact .plain hu hspells

theorem jsonPrefixLength_spells {raw s : Units} {n : Nat} (h : jsonPrefixLength raw s = .ok n) :
    n ≤ raw.length ∧ SpellsJson (raw.take n) s := by
  obtain ⟨found, hfound, h⟩ := bind_eq_ok.mp h
  obtain ⟨_, hsame, h⟩ := bind_eq_ok.mp h
  cases h
  rw [← ensure_ok.mp hsame]
  exact prefixUnits_spells hfound

/-- A node path, quoted for a shell or not, ends with a character. -/
theorem isWellFormed_nodeText {σ : Type} {lib : Parsers σ} {node : Units}
    (h : isNodePath lib node = true) (t : RegistrationNodeTarget) :
    isWellFormed (t.nodeText node) = true := by
  have hnode : isWellFormed node = true := by
    have hall := (Bool.and_eq_true_iff.mp h).2
    rw [isWellFormed, List.all_eq_true]
    intro p hp
    have := List.all_eq_true.mp hall p hp
    cases p with
    | char c => rfl
    | lone u => cases this
  have hquote : isWellFormed [quoteMark] = true := by decide
  have hwhole : Whole [quoteMark] := whole_of_isWellFormed hquote
  rw [RegistrationNodeTarget.nodeText]
  split
  · exact hnode
  · rw [quoteCommandPath]
    split
    · rw [← List.singleton_append, isWellFormed_append hwhole,
        isWellFormed_append (whole_of_isWellFormed hnode), hquote, hnode]
      rfl
    · exact hnode

theorem isWellFormed_innerQuote (s : Units) : isWellFormed (innerQuote s) = true :=
  isWellFormed_unitsOf _

section Targets

variable {σ : Type} {lib : Parsers σ}

/-- The edit of a target: what it replaces spells the node path as it was, and what it puts there
spells the proposed one. -/
inductive EditsPrefix (lib : Parsers σ) (text : Units) (beforeNode proposedNode : Units)
    (t : RegistrationNodeTarget) : ConfigFormat → Edit → Prop
  | json {e : Edit} : SpellsJson (e.old text) (t.nodeText beforeNode) →
      e.content = innerQuote (t.nodeText proposedNode) →
      EditsPrefix lib text beforeNode proposedNode t .json e
  | toml {e : Edit} {quote : UInt16} {members : Members σ} :
      lib.parseToml none (unitsOf "value = ".toList ++ quote :: (e.old text ++ [quote])) =
        some (.object members) →
      own members (unitsOf "value".toList) = some (.string (t.nodeText beforeNode)) →
      e.content = (if quote = quoteMark then innerQuote (t.nodeText proposedNode)
        else t.nodeText proposedNode) →
      EditsPrefix lib text beforeNode proposedNode t .toml e

/-- The text before an edit ends with a quotation mark. -/
def AfterQuote (text : Units) (e : Edit) : Prop :=
  ∃ a q, text.take e.offset = a ++ [q] ∧ (q = quoteMark ∨ q = unitOf '\'')

theorem AfterQuote.whole {text : Units} {e : Edit} (h : AfterQuote text e) :
    Whole (text.take e.offset) := by
  obtain ⟨a, q, htext, hq⟩ := h
  intro u hu
  rw [htext, List.getLast?_append] at hu
  obtain rfl : q = u := Option.some.inj hu
  rcases hq with rfl | rfl <;> decide

/-- What is known of an edit that was planned. -/
structure PlannedEdit (lib : Parsers σ) (format : ConfigFormat) (text : Units)
    (beforeNode proposedNode : Units) (t : RegistrationNodeTarget) (e : Edit) : Prop where
  spells : EditsPrefix lib text beforeNode proposedNode t format e
  whole : WholeEdit text e
  content : isWellFormed e.content = true
  quoted : AfterQuote text e

/-- A quoted part of a text, cut out of it. -/
theorem quoted_part {text a raw b : Units} {q : UInt16} {offset : Nat}
    (htext : text = a ++ q :: (raw ++ q :: b)) (ha : a.length = offset) :
    text.take (offset + 1) = a ++ [q] ∧ text.drop (offset + 1) = raw ++ q :: b := by
  subst ha
  rw [htext, ← List.singleton_append, ← List.append_assoc]
  have hlen : (a ++ [q]).length = a.length + 1 := by simp
  exact ⟨List.take_left' hlen, List.drop_left' hlen⟩

theorem jsonEdit_planned {text beforeNode proposedNode : Units}
    (hbefore : isNodePath lib beforeNode = true)
    {t : RegistrationNodeTarget} {e : Edit}
    (h : jsonEdit lib text beforeNode proposedNode t = .ok e) :
    PlannedEdit lib .json text beforeNode proposedNode t e := by
  obtain ⟨node, hnode, h⟩ := bind_eq_ok.mp h
  obtain ⟨_, hstring, h⟩ := bind_eq_ok.mp h
  obtain ⟨n, hn, h⟩ := bind_eq_ok.mp h
  cases h
  obtain ⟨a, raw, b, htext, ha, hraw⟩ :=
    lib.locate_string _ _ _ (orThrow_ok.mp hnode) (ensure_ok.mp hstring).1
  obtain ⟨htake, hdrop⟩ := quoted_part htext ha
  have hslice : (text.drop (node.offset + 1)).take (node.length - 2) = raw := by
    rw [hdrop, List.take_left' (by omega)]
  rw [hslice] at hn
  obtain ⟨hle, hspells⟩ := jsonPrefixLength_spells hn
  have hold : Edit.old ⟨node.offset + 1, n, innerQuote (t.nodeText proposedNode)⟩ text =
      raw.take n := by
    rw [Edit.old, hdrop, List.take_append_of_le_length hle]
  have hquoted : AfterQuote text ⟨node.offset + 1, n, innerQuote (t.nodeText proposedNode)⟩ :=
    ⟨a, quoteMark, htake, .inl rfl⟩
  rw [← hold] at hspells
  refine ⟨.json hspells rfl, ⟨hquoted.whole, ?_, ?_⟩, isWellFormed_innerQuote _, hquoted⟩
  · exact hspells.whole (whole_of_isWellFormed (isWellFormed_nodeText hbefore t))
  · exact whole_of_isWellFormed (isWellFormed_innerQuote _)

/-! ## The strings of a TOML text -/

theorem closeString_closed {quote : UInt16} {s : Units} {n : Nat}
    (h : closeString quote false s = some n) :
    ∃ inner b, s = inner ++ quote :: b ∧ n = inner.length + 1 := by
  induction hlen : s.length using Nat.strong_induction_on generalizing s n with
  | h len ih =>
      match s with
      | [] => cases h
      | [u] =>
          rw [closeString] at h
          split at h
          · cases h
          · split at h
            · rename_i hu
              cases h
              rw [of_decide_eq_true (Bool.and_eq_true_iff.mp hu).2]
              exact ⟨[], [], rfl, rfl⟩
            · cases h
      | u :: v :: rest =>
          rw [closeString] at h
          simp only [Bool.false_eq_true, if_false] at h
          rw [List.length_cons, List.length_cons] at hlen
          split at h
          · obtain ⟨m, hm, rfl⟩ := Option.map_eq_some_iff.mp h
            obtain ⟨inner, b, rfl, rfl⟩ := ih rest.length (by omega) hm rfl
            exact ⟨u :: v :: inner, b, rfl, rfl⟩
          · split at h
            · rename_i hu
              cases h
              obtain ⟨rfl, _⟩ := List.cons.inj hu
              exact ⟨[], v :: rest, rfl, rfl⟩
            · obtain ⟨m, hm, rfl⟩ := Option.map_eq_some_iff.mp h
              obtain ⟨inner, b, hrest, rfl⟩ := ih (v :: rest).length (by
                rw [List.length_cons]; omega) hm rfl
              exact ⟨u :: inner, b, by rw [hrest]; rfl, rfl⟩

/-- Where the token of a string on one line stands, and what it is read as. -/
structure TokenAt (lib : Parsers σ) (text : Units) (token : TomlToken σ) : Prop where
  quote : token.quote = quoteMark ∨ token.quote = unitOf '\''
  stands : token.multiline = false → ∃ a inner b members,
    text = a ++ token.quote :: (inner ++ token.quote :: b) ∧ a.length = token.offset ∧
      token.stop = token.offset + (inner.length + 2) ∧
      lib.parseToml none (unitsOf "value = ".toList ++ token.quote :: (inner ++ [token.quote])) =
        some (.object members) ∧ token.value = own members (unitsOf "value".toList)

theorem tomlStringsFrom_stand {text : Units} {fuel offset : Nat} {rest : Units}
    {tokens : List (TomlToken σ)} (hrest : text.drop offset = rest)
    (h : tomlStringsFrom lib fuel offset rest = .ok tokens) :
    ∀ token ∈ tokens, TokenAt lib text token := by
  induction fuel generalizing offset rest tokens with
  | zero =>
      rw [tomlStringsFrom] at h
      cases h
      exact fun _ h => absurd h List.not_mem_nil
  | succ fuel ih =>
      cases rest with
      | nil =>
          rw [tomlStringsFrom] at h
          cases h
          · exact fun _ h => absurd h List.not_mem_nil
          · exact fun h => nomatch h
      | cons u rest =>
          rw [tomlStringsFrom] at h
          dsimp only at h
          split at h
          · refine ih ?_ h
            rw [← hrest, List.drop_drop, Nat.add_assoc]
          · split at h
            · refine ih ?_ h
              rw [← List.drop_drop, hrest, List.drop_one, List.tail_cons]
            · rename_i hquote
              have hmark : u = quoteMark ∨ u = unitOf '\'' := by
                by_contra hne
                rw [not_or] at hne
                exact hquote (by simp [hne.1, hne.2])
              split at h
              · cases h
              · rename_i n hclose
                split at h
                · rename_i members hvalue
                  obtain ⟨more, hmore, h⟩ := bind_eq_ok.mp h
                  cases h
                  intro token htoken
                  rcases List.mem_cons.mp htoken with rfl | htoken
                  · refine ⟨hmark, fun hline => ?_⟩
                    dsimp only at hline
                    rw [hline] at hclose hvalue
                    obtain ⟨inner, b, hinner, rfl⟩ := closeString_closed hclose
                    rw [if_neg Bool.false_ne_true, List.drop_one, List.tail_cons] at hinner
                    have hstands : text = text.take offset ++ u :: (inner ++ u :: b) := by
                      rw [← hinner, ← hrest, List.take_append_drop]
                    have hoffset : (text.take offset).length = offset := by
                      have hlen := congrArg List.length hrest
                      rw [List.length_drop, List.length_cons] at hlen
                      rw [List.length_take]
                      omega
                    have hraw : (u :: rest).take (1 + (inner.length + 1)) =
                        u :: (inner ++ [u]) := by
                      rw [hinner, Nat.add_comm, List.take_succ_cons, List.take_append,
                        List.take_of_length_le (by omega), Nat.add_sub_cancel_left,
                        List.take_succ_cons, List.take_zero]
                    rw [if_neg Bool.false_ne_true, hraw] at hvalue
                    refine ⟨_, inner, b, members, hstands, hoffset, ?_, hvalue, rfl⟩
                    dsimp only
                    rw [hline, if_neg Bool.false_ne_true]
                    omega
                  · refine ih ?_ hmore token htoken
                    rw [← hrest, List.drop_drop, Nat.add_assoc]
                · cases h

theorem isString_iff {v : Data σ} {s : Units} : v.isString s = true ↔ v = .string s := by
  cases v with
  | string s' =>
      rw [Data.isString, decide_eq_true_eq]
      exact ⟨congrArg Data.string, fun h => Data.string.inj h⟩
  | null => exact ⟨fun h => (nomatch h), fun h => nomatch h⟩
  | scalar s' => exact ⟨fun h => (nomatch h), fun h => nomatch h⟩
  | array items => exact ⟨fun h => (nomatch h), fun h => nomatch h⟩
  | object members => exact ⟨fun h => (nomatch h), fun h => nomatch h⟩

theorem tomlEdit_planned {text beforeNode proposedNode : Units}
    (htext : isWellFormed text = true) (hproposed : isNodePath lib proposedNode = true)
    {tokens : List (TomlToken σ)} (htokens : tomlStrings lib text = .ok tokens) {count : Nat}
    {t : RegistrationNodeTarget} {e : Edit}
    (h : tomlEdit beforeNode proposedNode tokens count t = .ok e) :
    PlannedEdit lib .toml text beforeNode proposedNode t e := by
  obtain ⟨_, hscope, h⟩ := bind_eq_ok.mp h
  obtain ⟨token, htoken, h⟩ := bind_eq_ok.mp h
  obtain ⟨_, hline, h⟩ := bind_eq_ok.mp h
  obtain ⟨_, _, h⟩ := bind_eq_ok.mp h
  cases h
  have honly : tokens.filter (fun token =>
      token.value.any fun v => v.isString (t.command beforeNode)) = [token] := by
    have hone := orThrow_ok.mp htoken
    rw [onlyToken.eq_def] at hone
    split at hone
    · rename_i heq
      rw [heq, Option.some.inj hone]
    · cases hone
  obtain ⟨hmem, hvalue⟩ := List.mem_filter.mp (honly ▸ List.mem_singleton_self token)
  have hat := tomlStringsFrom_stand (by rw [List.drop_zero]) htokens token hmem
  obtain ⟨a, inner, b, members, hstands, ha, hstop, hparse, hown⟩ :=
    hat.stands (ensure_ok.mp hline)
  obtain ⟨htake, hdrop⟩ := quoted_part hstands ha
  have hlen : token.stop - token.offset - 2 = inner.length := by omega
  have hcommand : t.command beforeNode = t.nodeText beforeNode := by
    rw [RegistrationNodeTarget.command, RegistrationNodeTarget.nodeText,
      (ensure_ok.mp hscope).1]
  have hstring : own members (unitsOf "value".toList) = some (.string (t.nodeText beforeNode)) := by
    rw [hown] at hvalue
    cases hv : own members (unitsOf "value".toList) with
    | none => rw [hv] at hvalue; cases hvalue
    | some v =>
        rw [hv, Option.any_some, hcommand] at hvalue
        rw [isString_iff.mp hvalue]
  have hlow : isLowSurrogate token.quote = false := by
    rcases hat.quote with hq | hq <;> rw [hq] <;> decide
  let e : Edit :=
    { offset := token.offset + 1, length := token.stop - token.offset - 2
      content := if token.quote = quoteMark then innerQuote (t.nodeText proposedNode)
        else t.nodeText proposedNode }
  have hold : e.old text = inner := by
    show (text.drop (token.offset + 1)).take (token.stop - token.offset - 2) = inner
    rw [hdrop, hlen, List.take_left' rfl]
  have hquoted : AfterQuote text e := ⟨a, token.quote, htake, hat.quote⟩
  have hcontent : isWellFormed e.content = true := by
    show isWellFormed (if token.quote = quoteMark then _ else _) = true
    split
    · exact isWellFormed_innerQuote _
    · exact isWellFormed_nodeText hproposed t
  refine ⟨@EditsPrefix.toml _ _ _ _ _ _ _ token.quote _ ?_ hstring rfl,
    ⟨hquoted.whole, ?_, whole_of_isWellFormed hcontent⟩, hcontent, hquoted⟩
  · show lib.parseToml none (_ ++ token.quote :: (e.old text ++ [token.quote])) = _
    rw [hold]
    exact hparse
  · show Whole (e.old text)
    rw [hold]
    -- the string ends before its quotation mark
    have hall : isWellFormed ((a ++ [token.quote] ++ inner) ++ token.quote :: b) = true := by
      rw [← htext, hstands]
      simp
    exact (whole_before hlow hall).right

/-- A target that is planned: its value is the command, and it gets an edit. -/
theorem planTarget_ok {text beforeNode proposedNode : Units} {format : ConfigFormat}
    {tokens : List (TomlToken σ)} {count : Nat} {before : Data σ} {s s' : Planned σ}
    {t : RegistrationNodeTarget}
    (h : planTarget lib text beforeNode proposedNode format tokens count before s t = .ok s') :
    ∃ e, targetEdit lib text beforeNode proposedNode format tokens count t = .ok e ∧
      s'.edits = s.edits ++ [e] ∧ atPath before t.commandPath = .ok (.string (t.command beforeNode)) ∧
      replaceAt s.expected t.commandPath (t.command proposedNode) = .ok s'.expected := by
  obtain ⟨_, _, h⟩ := bind_eq_ok.mp h
  obtain ⟨_, _, h⟩ := bind_eq_ok.mp h
  obtain ⟨_, _, h⟩ := bind_eq_ok.mp h
  obtain ⟨value, hvalue, h⟩ := bind_eq_ok.mp h
  obtain ⟨_, hstring, h⟩ := bind_eq_ok.mp h
  obtain ⟨_, _, h⟩ := bind_eq_ok.mp h
  obtain ⟨e, he, h⟩ := bind_eq_ok.mp h
  obtain ⟨expected, hexpected, h⟩ := bind_eq_ok.mp h
  cases h
  rw [isString_iff.mp (ensure_ok.mp hstring)] at hvalue
  exact ⟨e, he, rfl, hvalue, hexpected⟩

/-- The values that the targets are to have. -/
def replaceTargets (targets : List RegistrationNodeTarget) (proposedNode : Units)
    (value : Data σ) : Except String (Data σ) :=
  targets.foldlM (fun value t => replaceAt value t.commandPath (t.command proposedNode)) value

/-- Every target gets its edit. -/
theorem planTargets_ok {text beforeNode proposedNode : Units} {format : ConfigFormat}
    {tokens : List (TomlToken σ)} {count : Nat} {before : Data σ} {P : RegistrationNodeTarget →
      Edit → Prop} (hP : ∀ t e,
        targetEdit lib text beforeNode proposedNode format tokens count t = .ok e → P t e)
    {targets : List RegistrationNodeTarget} {s s' : Planned σ}
    (h : targets.foldlM (planTarget lib text beforeNode proposedNode format tokens count before) s =
      .ok s') :
    ∃ edits, s'.edits = s.edits ++ edits ∧ List.Forall₂ P targets edits ∧
      (∀ t ∈ targets, atPath before t.commandPath = .ok (.string (t.command beforeNode))) ∧
      replaceTargets targets proposedNode s.expected = .ok s'.expected := by
  induction targets generalizing s with
  | nil =>
      cases h
      exact ⟨[], (List.append_nil _).symm, .nil, fun _ h => absurd h List.not_mem_nil, rfl⟩
  | cons t targets ih =>
      rw [List.foldlM_cons] at h
      obtain ⟨s₁, hstep, hrest⟩ := bind_eq_ok.mp h
      obtain ⟨e, he, hedits, hvalue, hexpected⟩ := planTarget_ok hstep
      obtain ⟨edits, hmore, hall, hvalues, hreplaced⟩ := ih hrest
      refine ⟨e :: edits, ?_, .cons (hP t e he) hall, ?_, ?_⟩
      · rw [hmore, hedits, List.append_assoc, List.singleton_append]
      · rw [List.forall_mem_cons]
        exact ⟨hvalue, hvalues⟩
      · rw [replaceTargets, List.foldlM_cons]
        exact bind_eq_ok.mpr ⟨s₁.expected, hexpected, hreplaced⟩

theorem planEdits_ok {format : ConfigFormat} {targets : List RegistrationNodeTarget}
    {beforeNode proposedNode text : Units} (htext : isWellFormed text = true)
    (hbefore : isNodePath lib beforeNode = true) (hproposed : isNodePath lib proposedNode = true)
    {planned : Planned σ}
    (h : planEdits lib format targets beforeNode proposedNode text = .ok planned) :
    List.Forall₂ (PlannedEdit lib format text beforeNode proposedNode) targets planned.edits ∧
      ∃ before, decodeConfig lib format text = .ok before ∧
        (∀ t ∈ targets, atPath before t.commandPath = .ok (.string (t.command beforeNode))) ∧
        replaceTargets targets proposedNode before = .ok planned.expected := by
  obtain ⟨before, hdecode, h⟩ := bind_eq_ok.mp h
  obtain ⟨tokens, htokens, h⟩ := bind_eq_ok.mp h
  have hedit : ∀ t e,
      targetEdit lib text beforeNode proposedNode format tokens targets.length t = .ok e →
      PlannedEdit lib format text beforeNode proposedNode t e := by
    intro t e he
    cases format with
    | json => exact jsonEdit_planned hbefore he
    | toml => exact tomlEdit_planned htext hproposed htokens he
  obtain ⟨edits, hedits, hall, hvalues, hreplaced⟩ := planTargets_ok hedit h
  refine ⟨?_, before, hdecode, hvalues, hreplaced⟩
  rw [hedits]
  exact hall

/-! ## The bytes of the file -/

/-- The file starts with two encoding marks. -/
def TwoMarks (bytes : Bytes) : Prop := bytes.take 6 = bom ++ bom

/-- The text is all of the file, unless the decoder drops a second mark. -/
theorem readText_bytes {bytes : Bytes} {text : Units} (h : readText bytes = .ok text) :
    isWellFormed text = true ∧
      (¬ TwoMarks bytes ∧ bytes = leadingMark bytes ++ toUtf8 text ∧ (toUtf8 text).take 3 ≠ bom ∨
        TwoMarks bytes ∧ bytes = bom ++ (bom ++ toUtf8 text)) := by
  rw [readText] at h
  cases hread : decodeFatal (bytes.drop (leadingMark bytes).length) with
  | none => rw [hread] at h; cases h
  | some t =>
      rw [hread] at h
      cases h
      have hbytes : toUtf8 (unitsOf t) = encodeUtf8 t := toUtf8_of_points (codePoints_unitsOf t)
      rw [hbytes]
      refine ⟨isWellFormed_unitsOf t, ?_⟩
      by_cases hmark : bytes.take 3 = bom
      · rw [leadingMark, if_pos hmark] at hread ⊢
        have hsplit : bytes = bom ++ bytes.drop 3 := by rw [← hmark, List.take_append_drop]
        have htake : bytes.take 6 = bom ++ (bytes.drop 3).take 3 := by
          conv_lhs => rw [hsplit]
          show (bom ++ bytes.drop 3).take (bom.length + 3) = _
          exact List.take_length_add_append 3
        rcases decodeFatal_cases hread with ⟨hne, hdrop⟩ | hdrop
        · refine .inl ⟨fun htwo => hne (List.append_cancel_left (htake.symm.trans htwo)), ?_, ?_⟩
          · rw [← hdrop]
            exact hsplit
          · rw [← hdrop]
            exact hne
        · replace hdrop : bytes.drop 3 = bom ++ encodeUtf8 t := hdrop
          refine .inr ⟨?_, by rw [← hdrop]; exact hsplit⟩
          rw [TwoMarks, htake, hdrop]
          rfl
      · rw [leadingMark, if_neg hmark] at hread ⊢
        rcases decodeFatal_cases hread with ⟨hne, hdrop⟩ | hdrop
        · refine .inl ⟨fun htwo => hmark ?_, hdrop, ?_⟩
          · have := congrArg (List.take 3) htwo
            rwa [List.take_take] at this
          · rw [← hdrop]
            exact hmark
        · refine absurd ?_ hmark
          rw [show bytes = bom ++ encodeUtf8 t from hdrop]
          rfl

/-- Texts that begin alike, up to a byte that is not of the mark, both have a mark or neither. -/
theorem take_mark {x y z : Bytes} {c : UInt8} (hc : c ∉ bom)
    (h : ((x ++ [c]) ++ y).take 3 ≠ bom) : ((x ++ [c]) ++ z).take 3 ≠ bom := by
  intro hz
  rcases Nat.lt_or_ge (x ++ [c]).length 3 with hlt | hge
  · refine hc (hz ▸ ?_)
    rw [List.take_append, List.take_of_length_le (by omega)]
    simp
  · rw [List.take_append_of_le_length hge] at h hz
    exact h hz

theorem readText_written {lead : Bytes} {text : Units} (hlead : lead = [] ∨ lead = bom)
    (htext : isWellFormed text = true) (hmark : (toUtf8 text).take 3 ≠ bom) :
    leadingMark (lead ++ toUtf8 text) = lead ∧ readText (lead ++ toUtf8 text) = .ok text := by
  obtain ⟨t, hpoints, rfl⟩ := exists_text_of_isWellFormed htext
  rw [toUtf8_of_points hpoints] at hmark ⊢
  have hread : decodeFatal (encodeUtf8 t) = some t := decodeFatal_encodeUtf8 hmark
  rcases hlead with rfl | rfl
  · have hnone : leadingMark ([] ++ encodeUtf8 t) = [] := if_neg hmark
    refine ⟨hnone, ?_⟩
    rw [readText, hnone]
    exact congrArg (Except.map unitsOf) (orThrow_ok.mpr hread)
  · have htake : (bom ++ encodeUtf8 t).take 3 = bom := List.take_left' rfl
    have hsome : leadingMark (bom ++ encodeUtf8 t) = bom := if_pos htake
    refine ⟨hsome, ?_⟩
    rw [readText, hsome, List.drop_left' rfl]
    exact congrArg (Except.map unitsOf) (orThrow_ok.mpr hread)

/-- What a file is read as. -/
def fileValue (lib : Parsers σ) (format : ConfigFormat) (bytes : Bytes) : Except String (Data σ) :=
  readText bytes >>= decodeConfig lib format

/-- **A minimal edit**: every target has its edit; the bytes of the file are those that are kept and
those of the edits; and the file is read as before but for the targets. -/
def MinimalEdit [DecidableEq σ] (lib : Parsers σ) (format : ConfigFormat)
    (targets : List RegistrationNodeTarget) (beforeNode proposedNode : Units)
    (bytes output : Bytes) : Prop :=
  ∃ text planned, readText bytes = .ok text ∧
    planEdits lib format targets beforeNode proposedNode text = .ok planned ∧
    List.Forall₂ (fun t e => EditsPrefix lib text beforeNode proposedNode t format e) targets
      planned.edits ∧
    (∃ first pieces, bytes = oldText first pieces ∧ output = newText first pieces ∧
      (pieces.map fun p => (p.old, p.new)).Perm
        (planned.edits.map fun e => (toUtf8 (e.old text), toUtf8 e.content))) ∧
    ∃ before after replaced, fileValue lib format bytes = .ok before ∧
      fileValue lib format output = .ok after ∧
      (∀ t ∈ targets, atPath before t.commandPath = .ok (.string (t.command beforeNode))) ∧
      replaceTargets targets proposedNode before = .ok replaced ∧ sameValue after replaced = true

/-- The edits cut the text that was read. -/
theorem planned_pieces {text afterText beforeNode proposedNode : Units} {format : ConfigFormat}
    {targets : List RegistrationNodeTarget} {edits : List Edit} (htext : isWellFormed text = true)
    (hedits : List.Forall₂ (PlannedEdit lib format text beforeNode proposedNode) targets edits)
    (h : applyEdits text text.length (edits.insertionSort fun a b => b.offset ≤ a.offset) =
      .ok afterText) :
    ∃ first pieces, Whole first ∧ (∀ p ∈ pieces, WholePiece p) ∧ text = oldText first pieces ∧
      afterText = newText first pieces ∧
      (edits ≠ [] → ∃ e ∈ edits, AfterQuote text e ∧ first = text.take e.offset) ∧
      (∀ p ∈ pieces, isWellFormed p.new = true) ∧
      (pieces.map fun p => (p.old, p.new)).Perm (edits.map fun e => (e.old text, e.content)) := by
  have hall : ∀ e ∈ edits, ∃ t, PlannedEdit lib format text beforeNode proposedNode t e := by
    intro e he
    obtain ⟨i, hi, rfl⟩ := List.getElem_of_mem he
    exact ⟨_, hedits.get (by rw [hedits.length_eq]; exact hi) hi⟩
  have hsorted := List.perm_insertionSort (fun a b : Edit => b.offset ≤ a.offset) edits
  have hwhole : ∀ e ∈ edits.insertionSort fun a b => b.offset ≤ a.offset, WholeEdit text e := by
    intro e he
    obtain ⟨t, ht⟩ := hall e (hsorted.mem_iff.mp he)
    exact ht.whole
  have hcover : text = oldText (text.take text.length) [] := by
    rw [oldText, List.flatMap_nil, List.append_nil, List.take_length]
  obtain ⟨first, pieces, hfirst, hpieces, hold, hnew, hstart, hspans⟩ :=
    @applyEdits_pieces _ _ hwhole _ _ (Nat.le_refl _)
      (by rw [List.take_length]; exact whole_of_isWellFormed htext) []
      (fun _ hp => absurd hp List.not_mem_nil) hcover hcover _ h
  rw [List.append_nil] at hold hnew
  have hperm : (pieces.map fun p => (p.old, p.new)).Perm
      (edits.map fun e => (e.old text, e.content)) := by
    rw [hspans]
    exact (List.reverse_perm _).trans (hsorted.map _)
  refine ⟨first, pieces, hfirst, hpieces, hold, hnew, fun hne => ?_, fun p hp => ?_, hperm⟩
  · rcases hstart with ⟨hnil, _⟩ | ⟨e, he, hfirst⟩
    · rw [hnil] at hsorted
      exact absurd hsorted.nil_eq.symm hne
    · obtain ⟨t, ht⟩ := hall e (hsorted.mem_iff.mp he)
      exact ⟨e, hsorted.mem_iff.mp he, ht.quoted, hfirst⟩
  · have hmem := hperm.mem_iff.mp (List.mem_map_of_mem (f := fun p => (p.old, p.new)) hp)
    obtain ⟨e, he, heq⟩ := List.mem_map.mp hmem
    obtain ⟨t, ht⟩ := hall e he
    rw [← (Prod.mk.inj heq).2]
    exact ht.content

variable [DecidableEq σ]

/-- What was done where an edit succeeds. -/
theorem editRegistrationNodeBytes_ok {bytes : Bytes} {format : ConfigFormat}
    {targets : List RegistrationNodeTarget} {beforeNode proposedNode : Units} {result : EditedNode}
    (h : editRegistrationNodeBytes lib bytes format targets beforeNode proposedNode = .ok result) :
    ∃ text planned afterText after, 0 < targets.length ∧ isNodePath lib beforeNode = true ∧
      isNodePath lib proposedNode = true ∧ readText bytes = .ok text ∧
      planEdits lib format targets beforeNode proposedNode text = .ok planned ∧
      applyEdits text text.length (planned.edits.insertionSort fun a b => b.offset ≤ a.offset) =
        .ok afterText ∧
      decodeConfig lib format afterText = .ok after ∧ sameValue after planned.expected = true ∧
      result.bytes = leadingMark bytes ++ toUtf8 afterText := by
  obtain ⟨_, hbound, h⟩ := bind_eq_ok.mp h
  obtain ⟨_, hnodes, h⟩ := bind_eq_ok.mp h
  obtain ⟨text, htext, h⟩ := bind_eq_ok.mp h
  obtain ⟨planned, hplanned, h⟩ := bind_eq_ok.mp h
  obtain ⟨afterText, hafter, h⟩ := bind_eq_ok.mp h
  obtain ⟨after, hdecode, h⟩ := bind_eq_ok.mp h
  obtain ⟨_, hsame, h⟩ := bind_eq_ok.mp h
  cases h
  exact ⟨text, planned, afterText, after, (ensure_ok.mp hbound).2.2.1, (ensure_ok.mp hnodes).2.1,
    (ensure_ok.mp hnodes).2.2, htext, hplanned, hafter, hdecode, ensure_ok.mp hsame, rfl⟩


/-- The spans of the edits add up to the same lengths however the file is cut. -/
theorem sum_spans {pieces : List (Piece Bytes)} {spans : List (Bytes × Bytes)}
    (h : (pieces.map fun p => (p.old, p.new)).Perm spans) :
    (pieces.map fun p => p.old.length).sum = (spans.map fun s => s.1.length).sum ∧
      (pieces.map fun p => p.new.length).sum = (spans.map fun s => s.2.length).sum := by
  have hold := (h.map fun s => s.1.length).sum_nat
  have hnew := (h.map fun s => s.2.length).sum_nat
  rw [List.map_map] at hold hnew
  exact ⟨hold, hnew⟩

/-- A run that succeeds: what was read, and how it was cut. -/
structure CutRun (lib : Parsers σ) (bytes : Bytes) (format : ConfigFormat)
    (targets : List RegistrationNodeTarget) (beforeNode proposedNode : Units) (output : Bytes)
    (text afterText : Units) (planned : Planned σ) (first : Units) (pieces : List (Piece Units)) :
    Prop where
  read : readText bytes = .ok text
  plan : planEdits lib format targets beforeNode proposedNode text = .ok planned
  edits : List.Forall₂ (PlannedEdit lib format text beforeNode proposedNode) targets planned.edits
  values : ∃ before after, decodeConfig lib format text = .ok before ∧
    decodeConfig lib format afterText = .ok after ∧
    (∀ t ∈ targets, atPath before t.commandPath = .ok (.string (t.command beforeNode))) ∧
    replaceTargets targets proposedNode before = .ok planned.expected ∧
    sameValue after planned.expected = true
  written : output = leadingMark bytes ++ toUtf8 afterText
  wellFormed : isWellFormed afterText = true
  start : ∃ e, AfterQuote text e ∧ first = text.take e.offset
  spans : ((pieces.map Piece.encoded).map fun p => (p.old, p.new)).Perm
    (planned.edits.map fun e => (toUtf8 (e.old text), toUtf8 e.content))
  oldBytes : toUtf8 text = oldText (toUtf8 first) (pieces.map Piece.encoded)
  newBytes : toUtf8 afterText = newText (toUtf8 first) (pieces.map Piece.encoded)

theorem cutRun {bytes : Bytes} {format : ConfigFormat} {targets : List RegistrationNodeTarget}
    {beforeNode proposedNode : Units} {result : EditedNode}
    (h : editRegistrationNodeBytes lib bytes format targets beforeNode proposedNode = .ok result) :
    ∃ text afterText planned first pieces, CutRun lib bytes format targets beforeNode proposedNode
      result.bytes text afterText planned first pieces := by
  obtain ⟨text, planned, afterText, after, htargets, hbefore, hproposed, htext, hplanned, happly,
    hdecode, hsame, hresult⟩ := editRegistrationNodeBytes_ok h
  obtain ⟨hwell, _⟩ := readText_bytes htext
  obtain ⟨hedits, before, hvalue, hcommands, hreplaced⟩ :=
    planEdits_ok hwell hbefore hproposed hplanned
  obtain ⟨first, pieces, hfirst, hpieces, hold, hnew, hstart, hcontents, hspans⟩ :=
    planned_pieces hwell hedits happly
  have hne : planned.edits ≠ [] := by
    intro hnil
    rw [List.length_pos_iff] at htargets
    rw [hnil] at hedits
    cases hedits
    exact htargets rfl
  obtain ⟨e, _, hquoted, hstart⟩ := hstart hne
  refine ⟨text, afterText, planned, first, pieces,
    { read := htext, plan := hplanned, edits := hedits
      values := ⟨before, after, hvalue, hdecode, hcommands, hreplaced, hsame⟩
      written := hresult, wellFormed := ?_, start := ⟨e, hquoted, hstart⟩, spans := ?_
      oldBytes := ?_, newBytes := ?_ }⟩
  · rw [hnew]
    exact isWellFormed_newText hfirst hpieces hcontents (hold ▸ hwell)
  · have := hspans.map fun s => (toUtf8 s.1, toUtf8 s.2)
    rw [List.map_map, List.map_map] at this
    rw [List.map_map]
    exact this
  · rw [hold, toUtf8_oldText hfirst hpieces]
  · rw [hnew, toUtf8_newText hfirst hpieces]

/-- The texts before and after share what stands before the first edit, which ends with a quotation
mark; so that no encoding mark comes or goes. -/
theorem CutRun.unmarked {bytes : Bytes} {format : ConfigFormat}
    {targets : List RegistrationNodeTarget} {beforeNode proposedNode : Units} {output : Bytes}
    {text afterText : Units} {planned : Planned σ} {first : Units} {pieces : List (Piece Units)}
    (run : CutRun lib bytes format targets beforeNode proposedNode output text afterText planned first
      pieces) (hmark : (toUtf8 text).take 3 ≠ bom) : (toUtf8 afterText).take 3 ≠ bom := by
  obtain ⟨e, ⟨a, q, htake, hq⟩, hfirst⟩ := run.start
  have hlow : isLowSurrogate q = false := by rcases hq with rfl | rfl <;> decide
  have ha : Whole a := by
    have hcut := List.take_append_drop e.offset text
    rw [htake, List.append_assoc, List.singleton_append] at hcut
    exact whole_before hlow (hcut ▸ (readText_bytes run.read).1)
  obtain ⟨c, hc, hbyte⟩ : ∃ c : UInt8, c ∉ bom ∧ toUtf8 [q] = [c] := by
    rcases hq with rfl | rfl
    · exact ⟨0x22, by decide, by decide⟩
    · exact ⟨0x27, by decide, by decide⟩
  have hbefore : toUtf8 first = toUtf8 a ++ [c] := by
    rw [hfirst, htake, toUtf8_append ha, hbyte]
  rw [run.oldBytes, oldText, hbefore] at hmark
  rw [run.newBytes, newText, hbefore]
  exact take_mark hc hmark

theorem minimal_of_oneMark {bytes : Bytes} {format : ConfigFormat}
    {targets : List RegistrationNodeTarget} {beforeNode proposedNode : Units} {result : EditedNode}
    (h : editRegistrationNodeBytes lib bytes format targets beforeNode proposedNode = .ok result)
    (hone : ¬ TwoMarks bytes) :
    MinimalEdit lib format targets beforeNode proposedNode bytes result.bytes := by
  obtain ⟨text, afterText, planned, first, pieces, run⟩ := cutRun h
  obtain ⟨before, after, hvalue, hdecode, hcommands, hreplaced, hsame⟩ := run.values
  rcases (readText_bytes run.read).2 with ⟨_, hbytes, hmark⟩ | ⟨htwo, _⟩
  · refine ⟨text, planned, run.read, run.plan, run.edits.imp fun _ _ he => he.spells,
      ⟨leadingMark bytes ++ toUtf8 first, pieces.map Piece.encoded, ?_, ?_, run.spans⟩,
      before, after, planned.expected, ?_, ?_, hcommands, hreplaced, hsame⟩
    · rw [oldText, List.append_assoc]
      exact hbytes.trans (congrArg _ run.oldBytes)
    · rw [run.written, newText, List.append_assoc]
      exact congrArg _ run.newBytes
    · exact bind_eq_ok.mpr ⟨text, run.read, hvalue⟩
    · have hlead : leadingMark bytes = [] ∨ leadingMark bytes = bom := by
        rw [leadingMark]
        split
        · exact .inr rfl
        · exact .inl rfl
      rw [fileValue, run.written]
      exact bind_eq_ok.mpr
        ⟨afterText, (readText_written hlead run.wellFormed (run.unmarked hmark)).2, hdecode⟩
  · exact absurd htwo hone

/-- A second mark is missing from what is written, whose other bytes add up. -/
theorem not_minimal_of_twoMarks {bytes : Bytes} {format : ConfigFormat}
    {targets : List RegistrationNodeTarget} {beforeNode proposedNode : Units} {result : EditedNode}
    (h : editRegistrationNodeBytes lib bytes format targets beforeNode proposedNode = .ok result)
    (htwo : TwoMarks bytes) :
    ¬ MinimalEdit lib format targets beforeNode proposedNode bytes result.bytes := by
  rintro ⟨text', planned', htext', hplanned', _, ⟨first', pieces', hold', hnew', hspans'⟩, _⟩
  obtain ⟨text, afterText, planned, first, pieces, run⟩ := cutRun h
  obtain rfl := Except.ok.inj (run.read.symm.trans htext')
  obtain rfl := Except.ok.inj (run.plan.symm.trans hplanned')
  rcases (readText_bytes run.read).2 with ⟨hone, _⟩ | ⟨_, hbytes⟩
  · exact absurd htwo hone
  · have hkept := length_oldText_newText (toUtf8 first) (pieces.map Piece.encoded)
    have hkept' := length_oldText_newText first' pieces'
    rw [(sum_spans run.spans).1, (sum_spans run.spans).2, ← run.oldBytes, ← run.newBytes] at hkept
    rw [(sum_spans hspans').1, (sum_spans hspans').2, ← hold', ← hnew'] at hkept'
    have hlead : leadingMark bytes = bom := by
      rw [leadingMark, if_pos]
      rw [hbytes]
      rfl
    have hlen := congrArg List.length hbytes
    have hlenResult := congrArg List.length run.written
    rw [List.length_append, List.length_append] at hlen
    rw [List.length_append, hlead] at hlenResult
    have hthree : bom.length = 3 := rfl
    omega

/-- **The edit is minimal exactly where the file does not start with two marks.** The first mark is
kept by the code and the second is dropped by the decoder. -/
theorem edit_registration_iff (lib : Parsers σ) {bytes : Bytes} {format : ConfigFormat}
    {targets : List RegistrationNodeTarget} {beforeNode proposedNode : Units} {result : EditedNode}
    (h : editRegistrationNodeBytes lib bytes format targets beforeNode proposedNode = .ok result) :
    MinimalEdit lib format targets beforeNode proposedNode bytes result.bytes ↔
      ¬ TwoMarks bytes :=
  ⟨fun hminimal htwo => not_minimal_of_twoMarks h htwo hminimal, minimal_of_oneMark h⟩

end Targets

/-! ## A hook command -/

/-- A settings file with one hook command. -/
def hookText (command : String) : Units := unitsOf ("\x7b\"h\":\"" ++ command ++ "\"\x7d").toList

def hookBytes (command : String) : Bytes := toUtf8 (hookText command)

def hookValue (command : String) : Data Unit :=
  .object [(unitsOf "h".toList, .string (unitsOf command.toList))]

def hookNode (command : String) : JsonNode where
  isString := true
  value := unitsOf command.toList
  offset := 5
  length := 5

/-- The hashes that such an edit asks for. -/
def hookHashes : List (Bytes × String) :=
  [(toUtf8 (unitsOf "a x".toList),
      "29f0d54830e7bc8c59c1975ec699a4102ae27e373397b31a637d1ae6e528f82d"),
    (toUtf8 (unitsOf "b x".toList),
      "72abd8cee65dd0e5c2a04057e0f724fc1d9298dd69bc21c2a92fc455043ae8b8"),
    (bom ++ (bom ++ hookBytes "a x"),
      "7b873e798002ac006a55d2b73eb426e6934dd1e98001b469537fd5057944f66f"),
    (bom ++ hookBytes "b x",
      "907fe47ffa127ea6aaf7e579abce502c897772ef0eeee40b85e3e194b13b6a88"),
    (hookBytes "a x", "d2cb541a9f2e986c3828088d3c41cfbc7f9220b89cfb7593aa359e2222e2ceb4"),
    (hookBytes "b x", "5bff3699787f2d7fbc01a0bd08b61a9ba238386841895476a9725c17466b84f8")]

/-- The libraries on the two texts. -/
def hookParsers : Parsers Unit where
  letterOrNumber := Char.isAlphanum
  sha256Hex bytes :=
    ((hookHashes.find? fun h => h.1 = bytes).map fun h => unitsOf h.2.toList).getD []
  visit text :=
    if text = hookText "a x" ∨ text = hookText "b x" then
      [.objectBegin, .objectProperty (unitsOf "h".toList), .objectEnd]
    else [.error]
  jsonParse text :=
    if text = hookText "a x" then some (hookValue "a x")
    else if text = hookText "b x" then some (hookValue "b x")
    else none
  locate text path :=
    if text = hookText "a x" ∧ path = [.name (unitsOf "h".toList)] then some (hookNode "a x")
    else none
  parseToml _ _ := none
  locate_string text path node h _ := by
    obtain ⟨⟨rfl, _⟩, hnode⟩ := Option.ite_none_right_eq_some.mp h
    cases hnode
    exact ⟨unitsOf "\x7b\"h\":".toList, unitsOf "a x".toList, unitsOf "\x7d".toList, rfl, rfl, rfl⟩

def hookTarget : RegistrationNodeTarget where
  path := [.name (unitsOf "h".toList)]
  kind := .hook
  suffix := unitsOf " x".toList
  beforeCommandSha256 :=
    unitsOf "29f0d54830e7bc8c59c1975ec699a4102ae27e373397b31a637d1ae6e528f82d".toList
  proposedCommandSha256 :=
    unitsOf "72abd8cee65dd0e5c2a04057e0f724fc1d9298dd69bc21c2a92fc455043ae8b8".toList
  argsSha256 := none

/-- What is left of a file is what stands in it with the other node. -/
def hookEdited (mark mark' : Bytes) : EditedNode where
  bytes := mark' ++ hookBytes "b x"
  beforeSha256 := hookParsers.sha256Hex (mark ++ hookBytes "a x")
  afterSha256 := hookParsers.sha256Hex (mark' ++ hookBytes "b x")
  tokenEdits := 1

theorem edit_registration_iff_hook : MinimalEdit hookParsers .json [hookTarget]
      (unitsOf "a".toList) (unitsOf "b".toList) (hookBytes "a x") (hookBytes "b x") ↔
    ¬ TwoMarks (hookBytes "a x") := by
  have h : editRegistrationNodeBytes hookParsers (hookBytes "a x") .json [hookTarget]
      (unitsOf "a".toList) (unitsOf "b".toList) = .ok (hookEdited [] []) := by decide +kernel
  exact edit_registration_iff hookParsers h

/-- **The second mark of a file is lost.** -/
theorem second_mark_lost :
    editRegistrationNodeBytes hookParsers (bom ++ (bom ++ hookBytes "a x")) .json [hookTarget]
        (unitsOf "a".toList) (unitsOf "b".toList) =
          .ok (hookEdited (bom ++ bom) bom) ∧
      ¬ MinimalEdit hookParsers .json [hookTarget] (unitsOf "a".toList) (unitsOf "b".toList)
        (bom ++ (bom ++ hookBytes "a x")) (bom ++ hookBytes "b x") := by
  have h : editRegistrationNodeBytes hookParsers (bom ++ (bom ++ hookBytes "a x")) .json
      [hookTarget] (unitsOf "a".toList) (unitsOf "b".toList) =
        .ok (hookEdited (bom ++ bom) bom) := by decide +kernel
  have htwo : (bom ++ bom ++ hookBytes "a x").take 6 = bom ++ bom := List.take_left' rfl
  rw [List.append_assoc] at htwo
  exact ⟨h, not_minimal_of_twoMarks h htwo⟩

end Caveat.Install
