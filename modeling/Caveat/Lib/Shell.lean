import Mathlib.Data.List.Basic

/-!
# Words of a POSIX shell

How a shell splits a command on one line into words, before it looks at any of them. What a symbol
means to the shell is its kind. A command that holds an operator, or something that the shell would
expand, is no list of words.
-/

namespace Caveat.Lib

inductive ShellKind where
  | plain
  | blank
  | newline
  | operator
  | single
  | double
  | back
  /-- The dollar sign and the backquote. -/
  | expand
  | hash
deriving DecidableEq

/-- Where the shell is, with the word it has read so far. -/
inductive ShellState (α : Type) where
  | gap
  | word (text : List α)
  | escape (text : List α)
  | single (text : List α)
  | double (text : List α)
  /-- Behind the backslash `b`. -/
  | doubleEscape (text : List α) (b : α)

variable {α : Type} (kind : α → ShellKind)

/-- A symbol outside quotes. -/
def outside (k : ShellKind) (t : List α) (c : α) : Option (ShellState α) :=
  match k with
  | .plain | .hash => some (.word (t ++ [c]))
  | .single => some (.single t)
  | .double => some (.double t)
  | .back => some (.escape t)
  | .blank | .newline | .operator | .expand => none

/-- The words from a place on. -/
def shellWords : ShellState α → List α → Option (List (List α))
  | .gap, [] => some []
  | .word t, [] => some [t]
  | .escape _, [] | .single _, [] | .double _, [] | .doubleEscape _ _, [] => none
  | .gap, c :: s =>
      if kind c = .blank then shellWords .gap s
      else if kind c = .hash then if s.any (fun d => kind d = .newline) then none else some []
      else
        match outside (kind c) [] c with
        | none => none
        | some state => shellWords state s
  | .word t, c :: s =>
      if kind c = .blank then (shellWords .gap s).map (t :: ·)
      else
        match outside (kind c) t c with
        | none => none
        | some state => shellWords state s
  | .escape t, c :: s => if kind c = .newline then none else shellWords (.word (t ++ [c])) s
  | .single t, c :: s =>
      if kind c = .single then shellWords (.word t) s else shellWords (.single (t ++ [c])) s
  | .double t, c :: s =>
      match kind c with
      | .double => shellWords (.word t) s
      | .back => shellWords (.doubleEscape t c) s
      | .expand => none
      | _ => shellWords (.double (t ++ [c])) s
  | .doubleEscape t b, c :: s =>
      match kind c with
      | .newline => shellWords (.double t) s
      | .double | .back | .expand => shellWords (.double (t ++ [c])) s
      | _ => shellWords (.double (t ++ [b, c])) s

/-! ## What is read is kept -/

/-- The word that is being read. -/
def ShellState.text : ShellState α → List α
  | .gap => []
  | .word t | .escape t | .single t | .double t | .doubleEscape t _ => t

variable {kind}

theorem text_outside {k : ShellKind} {t : List α} {c : α} {state : ShellState α}
    (h : outside k t c = some state) : state ≠ .gap ∧ t <+: state.text := by
  cases k with
  | plain | hash => cases h; exact ⟨by simp, List.prefix_append t [c]⟩
  | single | double | back => cases h; exact ⟨by simp, List.prefix_rfl⟩
  | blank | newline | operator | expand => cases h

/-- A word that is being read is the first one, and what has been read of it stays. -/
theorem prefix_of_shellWords {s : List α} : ∀ {state : ShellState α} {words : List (List α)},
    shellWords kind state s = some words → state ≠ .gap →
      ∃ w rest, words = w :: rest ∧ state.text <+: w := by
  induction s with
  | nil =>
      intro state words h hstate
      cases state with
      | gap => exact absurd rfl hstate
      | word t => cases h; exact ⟨t, [], rfl, List.prefix_rfl⟩
      | escape | single | double | doubleEscape => cases h
  | cons c s ih =>
      intro state words h hstate
      -- whatever state follows, its text begins with the text of this one
      have hnext : ∀ next : ShellState α, shellWords kind next s = some words → next ≠ .gap →
          state.text <+: next.text → ∃ w rest, words = w :: rest ∧ state.text <+: w := by
        intro next hs hgap htext
        obtain ⟨w, rest, hw, hprefix⟩ := ih hs hgap
        exact ⟨w, rest, hw, htext.trans hprefix⟩
      cases state with
      | gap => exact absurd rfl hstate
      | word t =>
          rw [shellWords] at h
          split at h
          · obtain ⟨rest, _, rfl⟩ := Option.map_eq_some_iff.mp h
            exact ⟨t, rest, rfl, List.prefix_rfl⟩
          · split at h
            · cases h
            · rename_i next hnextState
              obtain ⟨hgap, htext⟩ := text_outside hnextState
              exact hnext next h hgap htext
      | escape t =>
          rw [shellWords] at h
          split at h
          · cases h
          · exact hnext _ h (by simp) (List.prefix_append t [c])
      | single t =>
          rw [shellWords] at h
          split at h
          · exact hnext _ h (by simp) List.prefix_rfl
          · exact hnext _ h (by simp) (List.prefix_append t [c])
      | double t =>
          rw [shellWords] at h
          split at h
          · exact hnext _ h (by simp) List.prefix_rfl
          · exact hnext _ h (by simp) List.prefix_rfl
          · cases h
          · exact hnext _ h (by simp) (List.prefix_append t [c])
      | doubleEscape t b =>
          rw [shellWords] at h
          split at h
          · exact hnext _ h (by simp) List.prefix_rfl
          · exact hnext _ h (by simp) (List.prefix_append t [c])
          · exact hnext _ h (by simp) (List.prefix_append t [c])
          · exact hnext _ h (by simp) (List.prefix_append t [c])
          · exact hnext _ h (by simp) (List.prefix_append t [b, c])

/-! ## Double quotes -/

variable (kind)

/-- Text that stands for itself between double quotes: nothing is expanded, and every backslash is
followed by a symbol that it does not escape. The flag tells of a backslash before the text. -/
def staysInDouble : Bool → List α → Bool
  | b, [] => !b
  | false, c :: s =>
      match kind c with
      | .double | .expand => false
      | .back => staysInDouble true s
      | _ => staysInDouble false s
  | true, c :: s =>
      match kind c with
      | .newline | .double | .back | .expand => false
      | _ => staysInDouble false s

/-- What text without a mark is read as, and the backslash at its end. -/
def readDouble : Option α → List α → Option (List α × Option α)
  | b, [] => some ([], b)
  | none, c :: s =>
      match kind c with
      | .double | .expand => none
      | .back => readDouble (some c) s
      | _ => (readDouble none s).map fun r => (c :: r.1, r.2)
  | some b, c :: s =>
      match kind c with
      | .newline => readDouble none s
      | .double | .back | .expand => (readDouble none s).map fun r => (c :: r.1, r.2)
      | _ => (readDouble none s).map fun r => (b :: c :: r.1, r.2)

/-- Between double quotes, behind a backslash or not. -/
def doubleState (t : List α) : Option α → ShellState α
  | none => .double t
  | some b => .doubleEscape t b

variable {kind}

theorem shellWords_double (rest : List α) : ∀ (s t : List α) (b : Option α),
    (∀ c ∈ s, kind c ≠ .double) →
      shellWords kind (doubleState t b) (s ++ rest) =
        (readDouble kind b s).bind fun r => shellWords kind (doubleState (t ++ r.1) r.2) rest := by
  intro s
  induction s with
  | nil => intro t b _; rw [readDouble.eq_def]; simp
  | cons c s ih =>
      intro t b hs
      have hrest : ∀ d ∈ s, kind d ≠ .double := fun d hd => hs d (List.mem_cons_of_mem c hd)
      have hplain : ∀ u : List α, shellWords kind (doubleState (t ++ u) none) (s ++ rest) =
          ((readDouble kind none s).map fun r => (u ++ r.1, r.2)).bind
            fun r => shellWords kind (doubleState (t ++ r.1) r.2) rest := by
        intro u
        rw [ih _ none hrest, Option.bind_map]
        simp only [Function.comp_def, List.append_assoc]
      have hback := ih t (some c) hrest
      have hnone := ih t none hrest
      have hc := hs c List.mem_cons_self
      have hone := hplain [c]
      rw [List.cons_append]
      cases b with
      | none =>
          show shellWords kind (.double t) (c :: (s ++ rest)) = _
          rw [shellWords, readDouble]
          cases hk : kind c with
          | double => exact absurd hk hc
          | expand => rfl
          | back => exact hback
          | plain | blank | newline | operator | single | hash => exact hone
      | some b =>
          have htwo := hplain [b, c]
          show shellWords kind (.doubleEscape t b) (c :: (s ++ rest)) = _
          rw [shellWords, readDouble]
          cases hk : kind c with
          | double => exact absurd hk hc
          | newline => exact hnone
          | back | expand => exact hone
          | plain | blank | operator | single | hash => exact htwo

/-- Nothing is added, and what stays as long as it was is the text itself. -/
theorem readDouble_length : ∀ (s : List α) (b : Option α) (r : List α × Option α),
    readDouble kind b s = some r → r.1.length ≤ s.length + b.toList.length ∧
      (r.1.length = s.length + b.toList.length → r.2 = none → staysInDouble kind b.isSome s = true) := by
  intro s
  induction s with
  | nil =>
      intro b r h
      rw [readDouble.eq_def] at h
      cases h
      cases b with
      | none => exact ⟨Nat.zero_le _, fun _ _ => rfl⟩
      | some b => exact ⟨Nat.zero_le _, fun hlength => absurd hlength (by simp)⟩
  | cons c s ih =>
      intro b r h
      cases b with
      | none =>
          rw [readDouble] at h
          rw [Option.isSome_none, staysInDouble]
          cases hk : kind c with
          | double | expand => rw [hk] at h; cases h
          | back =>
              rw [hk] at h
              obtain ⟨hle, hstays⟩ := ih _ _ h
              simp only [Option.toList_some, Option.toList_none, List.length_cons, List.length_nil] at hle hstays ⊢
              exact ⟨by omega, fun hlength hnone => hstays (by omega) hnone⟩
          | plain | blank | newline | operator | single | hash =>
              rw [hk] at h
              obtain ⟨r', hr', rfl⟩ := Option.map_eq_some_iff.mp h
              obtain ⟨hle, hstays⟩ := ih _ _ hr'
              simp only [Option.toList_none, List.length_cons, List.length_nil] at hle hstays ⊢
              exact ⟨by omega, fun hlength hnone => hstays (by omega) hnone⟩
      | some b =>
          rw [readDouble] at h
          rw [Option.isSome_some, staysInDouble]
          cases hk : kind c with
          | newline =>
              rw [hk] at h
              obtain ⟨hle, _⟩ := ih _ _ h
              simp only [Option.toList_some, Option.toList_none, List.length_cons, List.length_nil] at hle ⊢
              exact ⟨by omega, fun hlength => by omega⟩
          | double | back | expand =>
              rw [hk] at h
              obtain ⟨r', hr', rfl⟩ := Option.map_eq_some_iff.mp h
              obtain ⟨hle, _⟩ := ih _ _ hr'
              simp only [Option.toList_some, Option.toList_none, List.length_cons, List.length_nil] at hle ⊢
              exact ⟨by omega, fun hlength => by omega⟩
          | plain | blank | operator | single | hash =>
              rw [hk] at h
              obtain ⟨r', hr', rfl⟩ := Option.map_eq_some_iff.mp h
              obtain ⟨hle, hstays⟩ := ih _ _ hr'
              simp only [Option.toList_some, Option.toList_none, List.length_cons, List.length_nil] at hle hstays ⊢
              exact ⟨by omega, fun hlength hnone => hstays (by omega) hnone⟩

theorem readDouble_of_stays : ∀ (s : List α) (b : Option α), staysInDouble kind b.isSome s = true →
    readDouble kind b s = some (b.toList ++ s, none) := by
  intro s
  induction s with
  | nil =>
      intro b h
      cases b with
      | none => rfl
      | some b => cases h
  | cons c s ih =>
      intro b h
      cases b with
      | none =>
          rw [Option.isSome_none, staysInDouble] at h
          rw [readDouble]
          cases hk : kind c with
          | double | expand => rw [hk] at h; cases h
          | back => rw [hk] at h; exact ih (some c) h
          | plain | blank | newline | operator | single | hash =>
              rw [hk] at h
              simp only [ih none h]
              rfl
      | some b =>
          rw [Option.isSome_some, staysInDouble] at h
          rw [readDouble]
          cases hk : kind c with
          | newline | double | back | expand => rw [hk] at h; cases h
          | plain | blank | operator | single | hash =>
              rw [hk] at h
              simp only [ih none h]
              rfl

/-- **Text between double quotes** is one word, itself, exactly if it stays what it is. -/
theorem shellWords_quoted_iff {mark space : α} (hmark : kind mark = .double) (hspace : kind space = .blank)
    {s : List α} (hs : ∀ c ∈ s, kind c ≠ .double) (rest : List α) (words : List (List α)) :
    shellWords kind .gap (mark :: (s ++ mark :: space :: rest)) = some (s :: words) ↔
      staysInDouble kind false s = true ∧ shellWords kind .gap rest = some words := by
  have hopen : shellWords kind .gap (mark :: (s ++ mark :: space :: rest)) =
      shellWords kind (doubleState [] none) (s ++ mark :: space :: rest) := by
    rw [shellWords, if_neg (by simp [hmark]), if_neg (by simp [hmark]), hmark]
    rfl
  have hclose : ∀ u : List α, shellWords kind (doubleState u none) (mark :: space :: rest) =
      (shellWords kind .gap rest).map (u :: ·) := by
    intro u
    show shellWords kind (.double u) (mark :: space :: rest) = _
    rw [shellWords, hmark]
    show shellWords kind (.word u) (space :: rest) = _
    rw [shellWords, if_pos hspace]
  rw [hopen, shellWords_double _ _ _ _ hs]
  constructor
  · intro h
    obtain ⟨⟨u, b⟩, hread, h⟩ := Option.bind_eq_some_iff.mp h
    cases b with
    | none =>
        rw [List.nil_append, hclose] at h
        obtain ⟨words', hwords, heq⟩ := Option.map_eq_some_iff.mp h
        obtain ⟨rfl, rfl⟩ := List.cons.inj heq
        exact ⟨(readDouble_length _ _ _ hread).2 rfl rfl, hwords⟩
    | some b =>
        -- the mark is escaped and becomes part of the word
        have hescaped : shellWords kind (.double (u ++ [mark])) (space :: rest) = some (s :: words) := by
          have h' : shellWords kind (.doubleEscape u b) (mark :: space :: rest) = some (s :: words) := h
          rw [shellWords, hmark] at h'
          exact h'
        obtain ⟨w, _, hw, hprefix⟩ := prefix_of_shellWords hescaped (by simp)
        obtain ⟨rfl, _⟩ := List.cons.inj hw
        have hmem : mark ∈ s := hprefix.subset (List.mem_append_right u List.mem_cons_self)
        exact absurd hmark (hs mark hmem)
  · rintro ⟨hstays, hwords⟩
    rw [readDouble_of_stays s none hstays, Option.bind_some]
    show shellWords kind (doubleState s none) _ = _
    rw [hclose, hwords]
    rfl

/-! ## No quotes -/

variable (kind)

/-- What text is read as outside double quotes, and whether a single quote is open behind it. -/
def readBare : Bool → List α → Option (List α × Bool)
  | q, [] => some ([], q)
  | false, c :: s =>
      match kind c with
      | .plain | .hash => (readBare false s).map fun r => (c :: r.1, r.2)
      | .single => readBare true s
      | _ => none
  | true, c :: s =>
      if kind c = .single then readBare false s
      else (readBare true s).map fun r => (c :: r.1, r.2)

/-- Within a word, with a single quote open or not. -/
def bareState (t : List α) : Bool → ShellState α
  | false => .word t
  | true => .single t

/-- A symbol that stands for itself within a word. -/
def isBare (c : α) : Bool := kind c = .plain || kind c = .hash

variable {kind}

/-- A symbol that does not call for quotes. -/
def Unquoted (kind : α → ShellKind) (c : α) : Prop :=
  kind c ≠ .blank ∧ kind c ≠ .newline ∧ kind c ≠ .back ∧ kind c ≠ .double

theorem shellWords_bare (rest : List α) : ∀ (s t : List α) (q : Bool), (∀ c ∈ s, Unquoted kind c) →
    shellWords kind (bareState t q) (s ++ rest) =
      (readBare kind q s).bind fun r => shellWords kind (bareState (t ++ r.1) r.2) rest := by
  intro s
  induction s with
  | nil => intro t q _; rw [readBare.eq_def]; simp
  | cons c s ih =>
      intro t q hs
      have hrest : ∀ d ∈ s, Unquoted kind d := fun d hd => hs d (List.mem_cons_of_mem c hd)
      have hone : ∀ q', shellWords kind (bareState (t ++ [c]) q') (s ++ rest) =
          ((readBare kind q' s).map fun r => (c :: r.1, r.2)).bind
            fun r => shellWords kind (bareState (t ++ r.1) r.2) rest := by
        intro q'
        rw [ih _ q' hrest, Option.bind_map]
        simp only [Function.comp_def, List.append_assoc, List.singleton_append]
      have hsame := ih t
      obtain ⟨hblank, hnewline, hback, hdouble⟩ := hs c List.mem_cons_self
      rw [List.cons_append]
      cases q with
      | false =>
          show shellWords kind (.word t) (c :: (s ++ rest)) = _
          rw [shellWords, if_neg hblank, readBare]
          cases hk : kind c with
          | blank => exact absurd hk hblank
          | newline => exact absurd hk hnewline
          | back => exact absurd hk hback
          | double => exact absurd hk hdouble
          | operator | expand => rfl
          | single => exact hsame true hrest
          | plain | hash => exact hone false
      | true =>
          show shellWords kind (.single t) (c :: (s ++ rest)) = _
          rw [shellWords, readBare]
          split
          · exact hsame false hrest
          · exact hone true

/-- Nothing is added, and what stays as long as it was has no quotes. -/
theorem readBare_length : ∀ (s : List α) (q : Bool) (r : List α × Bool),
    readBare kind q s = some r → r.1.length ≤ s.length ∧
      (q = false → r.1.length = s.length → s.all (isBare kind) = true) := by
  intro s
  induction s with
  | nil =>
      intro q r h
      rw [readBare.eq_def] at h
      cases h
      exact ⟨Nat.le_refl _, fun _ _ => rfl⟩
  | cons c s ih =>
      intro q r h
      cases q with
      | false =>
          rw [readBare] at h
          cases hk : kind c with
          | blank | newline | back | double | operator | expand => rw [hk] at h; cases h
          | single =>
              rw [hk] at h
              have hle := (ih _ _ h).1
              rw [List.length_cons]
              exact ⟨by omega, fun _ hlength => by omega⟩
          | plain | hash =>
              rw [hk] at h
              obtain ⟨r', hr', rfl⟩ := Option.map_eq_some_iff.mp h
              obtain ⟨hle, hbare⟩ := ih _ _ hr'
              simp only [List.length_cons]
              refine ⟨by omega, fun _ hlength => ?_⟩
              rw [List.all_cons, hbare rfl (by omega)]
              simp [isBare, hk]
      | true =>
          rw [readBare] at h
          split at h
          · have hle := (ih _ _ h).1
            rw [List.length_cons]
            exact ⟨by omega, fun hq => Bool.noConfusion hq⟩
          · obtain ⟨r', hr', rfl⟩ := Option.map_eq_some_iff.mp h
            have hle := (ih _ _ hr').1
            simp only [List.length_cons]
            exact ⟨by omega, fun hq => Bool.noConfusion hq⟩

theorem readBare_of_all {s : List α} (h : s.all (isBare kind) = true) :
    readBare kind false s = some (s, false) := by
  induction s with
  | nil => rfl
  | cons c s ih =>
      rw [List.all_cons, Bool.and_eq_true] at h
      have hs := ih h.2
      have hc : kind c = .plain ∨ kind c = .hash := by simpa [isBare] using h.1
      rw [readBare]
      rcases hc with hk | hk
      · simp only [hk, hs]; rfl
      · simp only [hk, hs]; rfl

/-- **Text without quotes** is one word, itself, exactly if all its symbols stand for themselves. -/
theorem shellWords_bare_iff {space : α} (hspace : kind space = .blank) {s : List α} (hne : s ≠ [])
    (hhash : ∀ c ∈ s.head?, kind c ≠ .hash) (hs : ∀ c ∈ s, Unquoted kind c) (rest : List α)
    (words : List (List α)) :
    shellWords kind .gap (s ++ space :: rest) = some (s :: words) ↔
      s.all (isBare kind) = true ∧ shellWords kind .gap rest = some words := by
  have hstart : shellWords kind .gap (s ++ space :: rest) =
      shellWords kind (bareState [] false) (s ++ space :: rest) := by
    cases s with
    | nil => exact absurd rfl hne
    | cons c s =>
        have hblank := (hs c List.mem_cons_self).1
        show shellWords kind .gap (c :: (s ++ space :: rest)) =
          shellWords kind (.word []) (c :: (s ++ space :: rest))
        rw [shellWords, if_neg hblank, if_neg (hhash c rfl), shellWords, if_neg hblank]
  have hend : ∀ u : List α, shellWords kind (bareState u false) (space :: rest) =
      (shellWords kind .gap rest).map (u :: ·) := by
    intro u
    show shellWords kind (.word u) (space :: rest) = _
    rw [shellWords, if_pos hspace]
  rw [hstart, shellWords_bare _ _ _ _ hs]
  constructor
  · intro h
    obtain ⟨⟨u, q⟩, hread, h⟩ := Option.bind_eq_some_iff.mp h
    cases q with
    | false =>
        rw [List.nil_append, hend] at h
        obtain ⟨words', hwords, heq⟩ := Option.map_eq_some_iff.mp h
        obtain ⟨rfl, rfl⟩ := List.cons.inj heq
        exact ⟨(readBare_length _ _ _ hread).2 rfl rfl, hwords⟩
    | true =>
        -- the space is between single quotes and becomes part of the word
        have hsingle : shellWords kind (.single (u ++ [space])) rest = some (s :: words) := by
          have h' : shellWords kind (.single u) (space :: rest) = some (s :: words) := h
          rw [shellWords, if_neg (by simp [hspace])] at h'
          exact h'
        obtain ⟨w, _, hw, hprefix⟩ := prefix_of_shellWords hsingle (by simp)
        obtain ⟨rfl, _⟩ := List.cons.inj hw
        have hmem : space ∈ s := hprefix.subset (List.mem_append_right u List.mem_cons_self)
        exact absurd hspace (hs space hmem).1
  · rintro ⟨hall, hwords⟩
    rw [readBare_of_all hall, Option.bind_some, List.nil_append, hend, hwords]
    rfl

/-! ## Words between single quotes -/

section Single

variable [DecidableEq α]

/-- `"'" + value.replaceAll("'", "'\\''") + "'"`. -/
def singleQuote (mark back : α) (s : List α) : List α :=
  mark :: s.flatMap (fun c => if c = mark then [mark, back, mark, mark] else [c]) ++ [mark]

/-- Each mark is written behind a backslash, between the end of a literal and the start of the next. -/
theorem shellWords_single {mark back : α} (hmark : ∀ c, kind c = .single ↔ c = mark)
    (hback : kind back = .back) (rest : List α) : ∀ s t : List α,
    shellWords kind (.single t) (s.flatMap (fun c => if c = mark then [mark, back, mark, mark] else [c]) ++
      mark :: rest) = shellWords kind (.word (t ++ s)) rest := by
  have hsingle : kind mark = .single := (hmark mark).mpr rfl
  intro s
  induction s with
  | nil =>
      intro t
      rw [List.flatMap_nil, List.nil_append, shellWords, if_pos hsingle, List.append_nil]
  | cons c s ih =>
      intro t
      rw [List.flatMap_cons, List.append_assoc]
      by_cases hc : c = mark
      · rw [if_pos hc, hc]
        simp only [List.cons_append, List.nil_append]
        rw [shellWords, if_pos hsingle, shellWords, if_neg (by rw [hback]; decide), hback]
        simp only [outside]
        rw [shellWords, if_neg (by rw [hsingle]; decide), shellWords, if_neg (by rw [hsingle]; decide),
          hsingle]
        simp only [outside]
        rw [ih, List.append_assoc, List.singleton_append]
      · rw [if_neg hc, List.singleton_append, shellWords, if_neg (by rw [hmark]; exact hc), ih,
          List.append_assoc, List.singleton_append]

theorem shellWords_singleQuote {mark back space : α} (hmark : ∀ c, kind c = .single ↔ c = mark)
    (hback : kind back = .back) (hspace : kind space = .blank) (s rest : List α) :
    shellWords kind .gap (singleQuote mark back s ++ space :: rest) =
      (shellWords kind .gap rest).map (s :: ·) := by
  have hsingle : kind mark = .single := (hmark mark).mpr rfl
  rw [singleQuote, List.cons_append, List.cons_append, List.append_assoc, List.singleton_append,
    shellWords, if_neg (by rw [hsingle]; decide), if_neg (by rw [hsingle]; decide), hsingle]
  simp only [outside]
  rw [shellWords_single hmark hback, List.nil_append, shellWords, if_pos hspace]

/-- The last word. -/
theorem shellWords_singleQuote_nil {mark back : α} (hmark : ∀ c, kind c = .single ↔ c = mark)
    (hback : kind back = .back) (s : List α) :
    shellWords kind .gap (singleQuote mark back s) = some [s] := by
  have hsingle : kind mark = .single := (hmark mark).mpr rfl
  rw [singleQuote, List.cons_append, shellWords, if_neg (by rw [hsingle]; decide),
    if_neg (by rw [hsingle]; decide), hsingle]
  simp only [outside]
  rw [shellWords_single hmark hback, List.nil_append, shellWords]

end Single

end Caveat.Lib
