import Caveat.Publish.Scan
import Caveat.Lib.Maximal

/-!
# Candidates of high entropy

Sorting puts a span that contains another before it, and a span is added if none that was added
contains it, so that the maximal spans are left. The entropy is any function of the text.
-/

namespace Caveat.Publish

open Js Lib

structure MatchSpan where
  start : Nat
  stop : Nat
deriving DecidableEq

/-- A span is not beyond another at either end. -/
def MatchSpan.Within (inner outer : MatchSpan) : Prop :=
  outer.start ≤ inner.start ∧ inner.stop ≤ outer.stop

instance (inner outer : MatchSpan) : Decidable (inner.Within outer) :=
  inferInstanceAs (Decidable (_ ∧ _))

def Found.span (f : Found) : MatchSpan := { start := f.index, stop := f.stop }

/-- The span of a candidate contains that of another. -/
def Found.covers (outer inner : Found) : Bool := decide (inner.span.Within outer.span)

def foundOf (m : Match UInt16) : Found :=
  { rule := .highEntropy, severity := .block, raw := m.raw, index := m.index }

/-! ## The loop, over any entropy -/

section

variable (entropy : Units → Rat) (floorOf : Rat → Rat) (known : List MatchSpan) (line : Units)

/-- The candidates in the order of the rules. -/
def candidatesWith : List Found :=
  highEntropyRules.flatMap (fun rule =>
    ((rule.1.matchAll line).filter (fun m =>
      !m.raw.isEmpty && !isUuid m.raw && !(entropy m.raw < floorOf rule.2))).map foundOf) |>.filter
    (fun f => !known.any (fun span => f.span.Within span))

/-- `highEntropyCandidates`. -/
def highEntropyWith : List Found :=
  ((candidatesWith entropy floorOf known line).insertionSort startsFirst).foldl addCandidate []

/-- A match of a rule that is no UUID, is random enough and lies in no known secret. -/
def Qualifying (f : Found) : Prop :=
  ∃ rule ∈ highEntropyRules, ∃ m ∈ rule.1.matchAll line, f = foundOf m ∧ isUuid m.raw = false ∧
    floorOf rule.2 ≤ entropy m.raw ∧ ∀ span ∈ known, ¬ f.span.Within span

end

/-- The scan uses it with the entropy of Shannon. -/
theorem highEntropyFound_eq (d : Doubles) (known : List Found) (line : Units) :
    highEntropyFound d known line =
      highEntropyWith (shannonEntropy d) d.ofDecimal (known.map Found.span) line := by
  have h : entropyCandidates d known line =
      candidatesWith (shannonEntropy d) d.ofDecimal (known.map Found.span) line := by
    rw [entropyCandidates, candidatesWith]
    refine congrArg₂ _ (funext fun f => ?_) rfl
    rw [List.any_map]
    refine congrArg (fun p => !known.any p) (funext fun span => ?_)
    exact (Bool.decide_and _ _).symm
  rw [highEntropyFound, h, highEntropyWith]

variable {entropy : Units → Rat} {floorOf : Rat → Rat} {known : List MatchSpan} {line : Units}

/-! ## Candidates -/

/-- No rule matches the empty text. -/
theorem consuming_highEntropyRules : ∀ rule ∈ highEntropyRules, rule.1.Consuming := by
  simp [highEntropyRules, Re.Consuming, atLeast]

theorem mem_candidatesWith {f : Found} : f ∈ candidatesWith entropy floorOf known line ↔
    Qualifying entropy floorOf known line f := by
  rw [candidatesWith, List.mem_filter, List.mem_flatMap]
  constructor
  · rintro ⟨⟨rule, hrule, hf⟩, hknown⟩
    obtain ⟨m, hm, rfl⟩ := List.mem_map.mp hf
    rw [List.mem_filter] at hm
    simp only [Bool.and_eq_true, Bool.not_eq_true', decide_eq_false_iff_not, not_lt] at hm
    obtain ⟨hm, ⟨_, huuid⟩, hfloor⟩ := hm
    refine ⟨rule, hrule, m, hm, rfl, huuid, hfloor, fun span hspan hin => ?_⟩
    simp only [Bool.not_eq_true', List.any_eq_false, decide_eq_true_eq] at hknown
    exact hknown span hspan hin
  · rintro ⟨rule, hrule, m, hm, rfl, huuid, hfloor, hknown⟩
    have hraw := Re.raw_ne_nil_of_mem_matchAll (consuming_highEntropyRules rule hrule) hm
    have hpass : (!m.raw.isEmpty && !isUuid m.raw && !(decide (entropy m.raw < floorOf rule.2))) =
        true := by
      rw [huuid, decide_eq_false (not_lt.mpr hfloor), List.isEmpty_eq_false_iff.mpr hraw]
      rfl
    refine ⟨⟨rule, hrule, List.mem_map.mpr ⟨m, List.mem_filter.mpr ⟨hm, hpass⟩, rfl⟩⟩, ?_⟩
    simp only [Bool.not_eq_true', List.any_eq_false, decide_eq_true_eq]
    exact hknown

/-! ## The order -/

instance : Std.Total startsFirst where
  total a b := by
    unfold startsFirst
    omega

instance : IsTrans Found startsFirst where
  trans a b c hab hbc := by
    unfold startsFirst at *
    omega

/-- What lies within an earlier candidate is no longer than it. -/
theorem within_of_startsFirst {a b : Found} (hab : startsFirst a b) (h : a.span.Within b.span) :
    b.span.Within a.span := by
  obtain ⟨hstart, hstop⟩ := h
  rcases hab with hlt | ⟨heq, hle⟩
  · exact absurd hstart (not_le.mpr hlt)
  · exact ⟨le_of_eq heq, hle⟩

theorem Found.covers_refl (a : Found) : a.covers a = true :=
  decide_eq_true ⟨le_refl _, le_refl _⟩

theorem Found.covers_trans (a b c : Found) (hab : a.covers b = true) (hbc : b.covers c = true) :
    a.covers c = true := by
  have hab : b.span.Within a.span := of_decide_eq_true hab
  have hbc : c.span.Within b.span := of_decide_eq_true hbc
  exact decide_eq_true ⟨hab.1.trans hbc.1, hbc.2.trans hab.2⟩

theorem addCandidate_eq : addCandidate = keep Found.covers := by
  funext normalized f
  rw [addCandidate, keep]
  have h : ∀ e : Found, (decide (e.index ≤ f.index) && decide (f.stop ≤ e.stop)) =
      e.covers f := fun e => (Bool.decide_and _ _).symm
  simp only [h]

theorem highEntropyWith_eq : highEntropyWith entropy floorOf known line =
    maximal Found.covers
      ((candidatesWith entropy floorOf known line).insertionSort startsFirst) := by
  rw [highEntropyWith, addCandidate_eq, maximal]

/-! ## What is left -/

/-- **The candidates of high entropy are the maximal ones.** -/
theorem high_entropy_maximal (entropy : Units → Rat) (floorOf : Rat → Rat) (known : List MatchSpan)
    (line : Units) :
    (∀ f ∈ highEntropyWith entropy floorOf known line, Qualifying entropy floorOf known line f) ∧
      (highEntropyWith entropy floorOf known line).Pairwise
        (fun a b => ¬ a.span.Within b.span ∧ ¬ b.span.Within a.span) ∧
      ∀ f, Qualifying entropy floorOf known line f →
        ∃ g ∈ highEntropyWith entropy floorOf known line, f.span.Within g.span := by
  rw [highEntropyWith_eq]
  refine ⟨fun f hf => ?_, ?_, fun f hf => ?_⟩
  · have hmem := (maximal_sublist _ _).subset hf
    rw [List.mem_insertionSort] at hmem
    exact mem_candidatesWith.mp hmem
  · have hsorted := List.pairwise_insertionSort startsFirst
      (candidatesWith entropy floorOf known line)
    refine (pairwise_maximal (hsorted.imp fun {a b} hab hin => ?_)).imp fun {a b} h => ?_
    · exact decide_eq_true (within_of_startsFirst hab (of_decide_eq_true hin))
    · exact ⟨of_decide_eq_false h.2, of_decide_eq_false h.1⟩
  · have hmem : f ∈ (candidatesWith entropy floorOf known line).insertionSort startsFirst := by
      rw [List.mem_insertionSort]
      exact mem_candidatesWith.mpr hf
    obtain ⟨g, hg, hin⟩ := exists_covers_of_mem Found.covers_refl Found.covers_trans hmem
    exact ⟨g, hg, of_decide_eq_true hin⟩

end Caveat.Publish
