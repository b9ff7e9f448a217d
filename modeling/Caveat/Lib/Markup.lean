import Mathlib.Data.List.Basic

/-!
# Text with tags

A document of tags, each with the text behind it, is read back where no tag holds the symbol that
closes one and no text the symbol that opens one. Text that may hold any symbol is written with
entities for some of them.
-/

namespace Caveat.Lib

variable {α : Type} [DecidableEq α]

/-! ## Tags -/

/-- A tag and the text up to the next one. -/
structure MarkupPart (α : Type) where
  tag : List α
  text : List α

variable (lt gt : α)

def MarkupPart.write (p : MarkupPart α) : List α := lt :: p.tag ++ gt :: p.text

/-- The parts of a document, of which the last is being read. -/
def readParts : Option (MarkupPart α) → Bool → List α → List (MarkupPart α)
  | p, _, [] => p.toList
  | p, inTag, c :: s =>
      if inTag then
        if c = gt then readParts p false s
        else readParts (p.map fun p => { p with tag := p.tag ++ [c] }) true s
      else if c = lt then p.toList ++ readParts (some ⟨[], []⟩) true s
      else readParts (p.map fun p => { p with text := p.text ++ [c] }) false s

/-- The texts behind the tags of a name. -/
def textsOf (name : List α) (document : List α) : List (List α) :=
  (readParts lt gt none false document).filterMap fun p => if p.tag = name then some p.text else none

variable {lt gt}

/-- A part that is read back. -/
def MarkupPart.Plain (lt gt : α) (p : MarkupPart α) : Prop := gt ∉ p.tag ∧ lt ∉ p.text

instance (p : MarkupPart α) : Decidable (p.Plain lt gt) := inferInstanceAs (Decidable (_ ∧ _))

theorem readParts_text (tag : List α) (rest : List α) : ∀ (t done : List α), lt ∉ t →
    readParts lt gt (some ⟨tag, done⟩) false (t ++ rest) =
      readParts lt gt (some ⟨tag, done ++ t⟩) false rest := by
  intro t
  induction t with
  | nil => intro done _; rw [List.append_nil]; rfl
  | cons c t ih =>
      intro done h
      have hc : c ≠ lt := fun he => h (he ▸ List.mem_cons_self)
      rw [List.cons_append, readParts, if_neg Bool.false_ne_true, if_neg hc, Option.map_some,
        ih _ fun hm => h (List.mem_cons_of_mem c hm), List.append_assoc, List.singleton_append]

theorem readParts_tag (rest : List α) : ∀ (t done : List α), gt ∉ t →
    readParts lt gt (some ⟨done, []⟩) true (t ++ gt :: rest) =
      readParts lt gt (some ⟨done ++ t, []⟩) false rest := by
  intro t
  induction t with
  | nil => intro done _; rw [List.append_nil, List.nil_append, readParts, if_pos rfl, if_pos rfl]
  | cons c t ih =>
      intro done h
      have hc : c ≠ gt := fun he => h (he ▸ List.mem_cons_self)
      rw [List.cons_append, readParts, if_pos rfl, if_neg hc, Option.map_some,
        ih _ fun hm => h (List.mem_cons_of_mem c hm), List.append_assoc, List.singleton_append]

/-- **A written document is read back.** -/
theorem readParts_write {parts : List (MarkupPart α)} (h : ∀ p ∈ parts, p.Plain lt gt)
    (last : Option (MarkupPart α)) :
    readParts lt gt last false (parts.flatMap (MarkupPart.write lt gt)) = last.toList ++ parts := by
  induction parts generalizing last with
  | nil => rw [List.flatMap_nil, List.append_nil, readParts]
  | cons p parts ih =>
      obtain ⟨htag, htext⟩ := h p List.mem_cons_self
      rw [List.flatMap_cons, MarkupPart.write, List.append_assoc, List.cons_append, List.cons_append,
        readParts, if_neg Bool.false_ne_true, if_pos rfl, readParts_tag _ _ _ htag,
        readParts_text _ _ _ _ htext, ih fun q hq => h q (List.mem_cons_of_mem p hq)]
      rfl

theorem textsOf_write {parts : List (MarkupPart α)} (h : ∀ p ∈ parts, p.Plain lt gt) (name : List α) :
    textsOf lt gt name (parts.flatMap (MarkupPart.write lt gt)) =
      parts.filterMap fun p => if p.tag = name then some p.text else none := by
  rw [textsOf, readParts_write h]
  rfl

/-! ## Entities -/

variable (amp semi : α) (entities : List (α × List α))

/-- The name of a symbol that has one. -/
def escapeSymbol (c : α) : List α :=
  match entities.lookup c with
  | some name => amp :: name ++ [semi]
  | none => [c]

/-- Text with a name in place of each symbol that has one. -/
def escapeText (t : List α) : List α := t.flatMap (escapeSymbol amp semi entities)

/-- The symbol of a name. -/
def symbolOf (name : List α) : Option α := (entities.find? fun e => e.2 = name).map Prod.fst

/-- Names are replaced by their symbols, where `some` is the name being read. -/
def unescapeText : Option (List α) → List α → Option (List α)
  | none, [] => some []
  | some _, [] => none
  | none, c :: t =>
      if c = amp then unescapeText (some []) t else (unescapeText none t).map (c :: ·)
  | some name, c :: t =>
      if c = semi then (symbolOf entities name).bind fun d => (unescapeText none t).map (d :: ·)
      else unescapeText (some (name ++ [c])) t

/-- The names can be told apart, and the symbol before a name has one itself. -/
structure LawfulEntities : Prop where
  amp : (entities.lookup amp).isSome = true
  semi : ∀ e ∈ entities, semi ∉ e.2
  names : ∀ e ∈ entities, symbolOf entities e.2 = some e.1

variable {amp semi entities}

theorem mem_of_lookup {c : α} {name : List α} (h : entities.lookup c = some name) :
    (c, name) ∈ entities := by
  obtain ⟨before, after, rfl, _⟩ := List.lookup_eq_some_iff.mp h
  simp

theorem unescapeText_name (rest : List α) : ∀ (name done : List α), semi ∉ name →
    unescapeText amp semi entities (some done) (name ++ semi :: rest) =
      (symbolOf entities (done ++ name)).bind fun d =>
        (unescapeText amp semi entities none rest).map (d :: ·) := by
  intro name
  induction name with
  | nil => intro done _; rw [List.append_nil, List.nil_append, unescapeText, if_pos rfl]
  | cons c name ih =>
      intro done h
      have hc : c ≠ semi := fun he => h (he ▸ List.mem_cons_self)
      rw [List.cons_append, unescapeText, if_neg hc, ih _ fun hm => h (List.mem_cons_of_mem c hm),
        List.append_assoc, List.singleton_append]

/-- **Escaped text is read back.** -/
theorem unescapeText_escapeText (h : LawfulEntities amp semi entities) (t : List α) :
    unescapeText amp semi entities none (escapeText amp semi entities t) = some t := by
  induction t with
  | nil => rfl
  | cons c t ih =>
      rw [escapeText, List.flatMap_cons, escapeSymbol, ← escapeText]
      cases hname : entities.lookup c with
      | none =>
          have hc : c ≠ amp := by
            rintro rfl
            have hamp := h.amp
            rw [hname] at hamp
            cases hamp
          show unescapeText amp semi entities none (c :: escapeText amp semi entities t) = _
          rw [unescapeText, if_neg hc, ih]
          rfl
      | some name =>
          have hmem := mem_of_lookup hname
          show unescapeText amp semi entities none
            (amp :: (name ++ [semi] ++ escapeText amp semi entities t)) = _
          rw [unescapeText, if_pos rfl, List.append_assoc, List.singleton_append,
            unescapeText_name _ _ _ (h.semi _ hmem), List.nil_append, h.names _ hmem, Option.bind_some, ih]
          rfl

/-- A symbol with a name stands in escaped text only within names. -/
theorem not_mem_escapeText {c : α} (hc : (entities.lookup c).isSome = true) (hamp : c ≠ amp)
    (hsemi : c ≠ semi) (hnames : ∀ e ∈ entities, c ∉ e.2) (t : List α) :
    c ∉ escapeText amp semi entities t := by
  intro hmem
  obtain ⟨d, _, hd⟩ := List.mem_flatMap.mp hmem
  unfold escapeSymbol at hd
  cases hname : entities.lookup d with
  | none =>
      rw [hname] at hd
      rw [List.mem_singleton.mp hd, hname] at hc
      cases hc
  | some name =>
      rw [hname] at hd
      rcases List.mem_append.mp hd with hd | hd
      · rcases List.mem_cons.mp hd with hd | hd
        · exact hamp hd
        · exact hnames _ (mem_of_lookup hname) hd
      · exact hsemi (List.mem_singleton.mp hd)

end Caveat.Lib
