import Caveat.Install.ConfigValue
import Caveat.Lib.Loop
import Caveat.Lib.StableSort
import Caveat.Managed.Journal

/-!
# Assigning runs to conditions

`assignedConditions` sorts the runs of an assignment by a digest of the seed and the run, and gives
the first half to one condition and the second half to the other. The run itself stands behind its
digest, so no two runs tie, whatever digests they have.
-/

namespace Caveat.Proposal

open Js Managed Lib
open Install (own own_of_mem)

inductive ProposalCondition where
  | control
  | caveat
deriving DecidableEq

structure AssignmentRun where
  trialId : Units
  judgmentId : Units
  runId : Units

/-- What the conditions depend on. -/
structure ProposalAssignment where
  seed : Units
  runs : List AssignmentRun

/-- `ProposalEvalArtifactError`. -/
structure ArtifactError where
  line : Option Nat
  reason : String
  count : Nat := 1
deriving DecidableEq

def AssignmentRun.ids (run : AssignmentRun) : List Units := [run.trialId, run.judgmentId, run.runId]

def repeatedId : ArtifactError :=
  { line := none, reason := "assignment run identifiers must be unique" }

/-- Add an identifier to those that were seen. -/
def see (seen : List Units) (id : Units) : Except ArtifactError (List Units) :=
  if id ∈ seen then .error repeatedId else .ok (id :: seen)

def checkIds (runs : List AssignmentRun) : Except ArtifactError (List Units) :=
  runs.foldlM (fun seen run => run.ids.foldlM see seen) []

variable (sha : Sha256)

/-- What a run is sorted by. -/
def sortKey (seed : Units) (run : AssignmentRun) : Units :=
  sha.hash (toUtf8 (seed ++ 0 :: run.runId)) ++ 0 :: run.runId

/-- Strings are compared by their code units. -/
def compareRuns (seed : Units) (a b : AssignmentRun) : Ordering :=
  compare (sortKey sha seed a) (sortKey sha seed b)

/-- `index < runs.length / 2`, where the quotient need not be whole. -/
def conditionAt (length index : Nat) : ProposalCondition :=
  if 2 * index < length then .control else .caveat

/-- `assignedConditions`; a map is the list of its entries. -/
def assignedConditions (assignment : ProposalAssignment) :
    Except ArtifactError (List (Units × ProposalCondition)) :=
  if assignment.runs.length < 4 ∨ assignment.runs.length % 2 ≠ 0 then
    .error { line := none, reason := "assignment runs must be an even count of at least 4"
             count := assignment.runs.length }
  else do
    let _ ← checkIds assignment.runs
    .ok (((sorted (compareRuns sha assignment.seed) assignment.runs).mapIdx fun index run =>
      (run.runId, conditionAt assignment.runs.length index)).foldl define [])

/-! ## Identifiers -/

/-- All identifiers of some runs. -/
def allIds (runs : List AssignmentRun) : List Units := runs.flatMap AssignmentRun.ids

theorem foldlM_see (ids seen : List Units) : ids.foldlM see seen =
    if ids.Nodup ∧ ∀ id ∈ ids, id ∉ seen then .ok (ids.reverse ++ seen) else .error repeatedId := by
  induction ids generalizing seen with
  | nil => rfl
  | cons id ids ih =>
      rw [List.foldlM_cons, see]
      by_cases hid : id ∈ seen
      · rw [if_pos hid, if_neg fun h => h.2 id List.mem_cons_self hid]
        rfl
      · rw [if_neg hid]
        refine (ih (id :: seen)).trans ?_
        have hiff : (ids.Nodup ∧ ∀ i ∈ ids, i ∉ id :: seen) ↔
            (id :: ids).Nodup ∧ ∀ i ∈ id :: ids, i ∉ seen := by
          simp only [List.nodup_cons, List.mem_cons, not_or, forall_eq_or_imp]
          constructor
          · rintro ⟨hnodup, hnew⟩
            exact ⟨⟨fun hmem => (hnew id hmem).1 rfl, hnodup⟩, hid, fun i hi => (hnew i hi).2⟩
          · rintro ⟨⟨hmem, hnodup⟩, _, hnew⟩
            exact ⟨hnodup, fun i hi => ⟨fun heq => hmem (heq ▸ hi), hnew i hi⟩⟩
        by_cases hgood : (id :: ids).Nodup ∧ ∀ i ∈ id :: ids, i ∉ seen
        · rw [if_pos (hiff.mpr hgood), if_pos hgood, List.reverse_cons, List.append_assoc]
          rfl
        · rw [if_neg (mt hiff.mp hgood), if_neg hgood]

/-- The check is one loop over all identifiers. -/
theorem checkIds_eq (runs : List AssignmentRun) : checkIds runs =
    if (allIds runs).Nodup then .ok (allIds runs).reverse else .error repeatedId := by
  have hloop : ∀ seen, runs.foldlM (fun seen run => run.ids.foldlM see seen) seen =
      (allIds runs).foldlM see seen := by
    induction runs with
    | nil => exact fun _ => rfl
    | cons run runs ih =>
        intro seen
        rw [allIds, List.flatMap_cons, List.foldlM_append, List.foldlM_cons]
        exact bind_congr ih
  rw [checkIds, hloop, foldlM_see, List.append_nil]
  simp only [List.not_mem_nil, not_false_eq_true, implies_true, and_true]

/-- Runs with distinct identifiers have distinct run identifiers. -/
theorem runIds_nodup {runs : List AssignmentRun} (h : (allIds runs).Nodup) :
    (runs.map AssignmentRun.runId).Nodup := by
  refine h.sublist ?_
  clear h
  induction runs with
  | nil => exact .slnil
  | cons run runs ih =>
      rw [allIds, List.flatMap_cons, List.map_cons]
      exact .cons _ (.cons _ (ih.cons_cons run.runId))

/-! ## Sorting -/

instance transCmp_compareRuns (seed : Units) : Std.TransCmp (compareRuns sha seed) :=
  transCmp_on compare (sortKey sha seed)

/-- A digest has a fixed length, so the run can be read off what it is sorted by. -/
theorem sortKey_runId {seed : Units} {a b : AssignmentRun} (h : sortKey sha seed a = sortKey sha seed b) :
    a.runId = b.runId := by
  have hlength : ∀ bytes, (sha.hash bytes).length = 64 := by
    intro bytes
    have hdigest := sha.isDigest_hash bytes
    rw [isDigest, Bool.and_eq_true] at hdigest
    exact of_decide_eq_true hdigest.1
  have hrest := (List.append_inj h (by rw [hlength, hlength])).2
  exact (List.cons.inj hrest).2

theorem noTies_compareRuns {seed : Units} {runs : List AssignmentRun}
    (h : (runs.map AssignmentRun.runId).Nodup) : NoTies (compareRuns sha seed) runs := by
  intro a ha b hb hab
  have hkey := Std.LawfulEqOrd.compare_eq_iff_eq.mp hab
  exact List.inj_on_of_nodup_map h ha hb (sortKey_runId sha hkey)

/-! ## The two halves -/

theorem mapIdx_halves {α β : Type} (f g : α → β) (l : List α) (k : Nat) :
    (l.mapIdx fun i a => if i < k then f a else g a) = (l.take k).map f ++ (l.drop k).map g := by
  induction l generalizing k with
  | nil => simp
  | cons a l ih =>
      rw [List.mapIdx_cons]
      cases k with
      | zero =>
          have hrest := ih 0
          simp only [Nat.not_lt_zero, if_false, List.take_zero, List.drop_zero, List.map_nil,
            List.nil_append] at hrest ⊢
          rw [hrest, List.map_cons]
      | succ k =>
          have hrest := ih k
          simp only [Nat.add_lt_add_iff_right, Nat.zero_lt_succ, if_true]
          rw [hrest, List.take_succ_cons, List.drop_succ_cons, List.map_cons, List.cons_append]

section Map

variable {sha} {seed : Units} {runs : List AssignmentRun}

/-- The entries of the map. -/
def entriesOf (sha : Sha256) (seed : Units) (runs : List AssignmentRun) :
    List (Units × ProposalCondition) :=
  (sorted (compareRuns sha seed) runs).mapIdx fun index run =>
    (run.runId, conditionAt runs.length index)

theorem perm_sorted : (sorted (compareRuns sha seed) runs).Perm runs := List.perm_insertionSort _ _

theorem entriesOf_keys :
    (entriesOf sha seed runs).map Prod.fst = (sorted (compareRuns sha seed) runs).map AssignmentRun.runId := by
  refine List.ext_getElem? fun i => ?_
  rw [entriesOf, List.getElem?_map, List.getElem?_map, List.getElem?_mapIdx, Option.map_map]
  rfl

theorem entriesOf_nodup (h : (runs.map AssignmentRun.runId).Nodup) :
    ((entriesOf sha seed runs).map Prod.fst).Nodup := by
  rw [entriesOf_keys]
  exact (perm_sorted.map AssignmentRun.runId).nodup_iff.mpr h

/-- The first half and the second half. -/
theorem entriesOf_halves (heven : runs.length % 2 = 0) :
    entriesOf sha seed runs =
      ((sorted (compareRuns sha seed) runs).take (runs.length / 2)).map (fun run => (run.runId, .control)) ++
        ((sorted (compareRuns sha seed) runs).drop (runs.length / 2)).map fun run => (run.runId, .caveat) := by
  rw [← mapIdx_halves, entriesOf]
  refine congrArg (fun f => List.mapIdx f _) (funext fun i => funext fun run => ?_)
  have hhalf : 2 * i < runs.length ↔ i < runs.length / 2 := by omega
  rw [conditionAt]
  simp only [hhalf]
  split
  · rfl
  · rfl

theorem own_entriesOf (h : (runs.map AssignmentRun.runId).Nodup) (heven : runs.length % 2 = 0) :
    (∀ run ∈ (sorted (compareRuns sha seed) runs).take (runs.length / 2),
      own (entriesOf sha seed runs) run.runId = some .control) ∧
    ∀ run ∈ (sorted (compareRuns sha seed) runs).drop (runs.length / 2),
      own (entriesOf sha seed runs) run.runId = some .caveat := by
  have hentries := @entriesOf_halves sha seed runs heven
  constructor
  · intro run hrun
    refine own_of_mem (entriesOf_nodup h) ?_
    rw [hentries]
    exact List.mem_append_left _ (List.mem_map.mpr ⟨run, hrun, rfl⟩)
  · intro run hrun
    refine own_of_mem (entriesOf_nodup h) ?_
    rw [hentries]
    exact List.mem_append_right _ (List.mem_map.mpr ⟨run, hrun, rfl⟩)

/-- The number of runs that a condition is given. -/
def given (conditions : List (Units × ProposalCondition)) (runs : List AssignmentRun)
    (condition : ProposalCondition) : Nat :=
  runs.countP fun run => own conditions run.runId = some condition

theorem given_entriesOf (h : (runs.map AssignmentRun.runId).Nodup) (heven : runs.length % 2 = 0)
    (condition : ProposalCondition) :
    2 * given (entriesOf sha seed runs) runs condition = runs.length := by
  have hperm : (sorted (compareRuns sha seed) runs).Perm runs := perm_sorted
  have hlength := hperm.length_eq
  obtain ⟨hfirst, hsecond⟩ := @own_entriesOf sha seed runs h heven
  rw [given, ← hperm.countP_eq,
    ← List.take_append_drop (runs.length / 2) (sorted (compareRuns sha seed) runs),
    List.countP_append]
  cases condition with
  | control =>
      rw [List.countP_eq_length.mpr fun run hrun => decide_eq_true (hfirst run hrun),
        List.countP_eq_zero.mpr fun run hrun => by rw [hsecond run hrun]; decide,
        List.length_take, hlength]
      omega
  | caveat =>
      rw [List.countP_eq_zero.mpr fun run hrun => by rw [hfirst run hrun]; decide,
        List.countP_eq_length.mpr fun run hrun => decide_eq_true (hsecond run hrun),
        List.length_drop, hlength]
      omega

end Map

/-! ## What is accepted -/

/-- An even number of at least four runs, without a repeated identifier. -/
def ProposalAssignment.Accepted (assignment : ProposalAssignment) : Prop :=
  4 ≤ assignment.runs.length ∧ assignment.runs.length % 2 = 0 ∧ (allIds assignment.runs).Nodup

theorem assignedConditions_ok {assignment : ProposalAssignment} (h : assignment.Accepted) :
    assignedConditions sha assignment =
      .ok (entriesOf sha assignment.seed assignment.runs) := by
  obtain ⟨hfour, heven, hnodup⟩ := h
  have hdefine := @foldl_define _ [] (entriesOf sha assignment.seed assignment.runs)
    (entriesOf_nodup (runIds_nodup hnodup))
  rw [List.nil_append] at hdefine
  rw [assignedConditions, if_neg (by omega), checkIds_eq, if_pos hnodup]
  exact congrArg Except.ok hdefine

theorem accepted_of_ok {assignment : ProposalAssignment}
    {conditions : List (Units × ProposalCondition)}
    (h : assignedConditions sha assignment = .ok conditions) : assignment.Accepted := by
  rw [assignedConditions] at h
  split at h
  · cases h
  · rename_i hcount
    obtain ⟨seen, hseen, _⟩ := bind_eq_ok.mp h
    rw [checkIds_eq] at hseen
    split at hseen
    · rename_i hnodup
      exact ⟨by omega, by omega, hnodup⟩
    · cases hseen

/-- **The assignment is balanced and does not depend on the order of the runs.** -/
theorem assigned_conditions_balanced (sha : Sha256) (assignment : ProposalAssignment) :
    ((∃ conditions, assignedConditions sha assignment = .ok conditions) ↔ assignment.Accepted) ∧
    (∀ conditions, assignedConditions sha assignment = .ok conditions →
      (conditions.map Prod.fst).Perm (assignment.runs.map AssignmentRun.runId) ∧
        ∀ condition, 2 * given conditions assignment.runs condition = assignment.runs.length) ∧
    ∀ runs, runs.Perm assignment.runs →
      assignedConditions sha { assignment with runs := runs } = assignedConditions sha assignment := by
  refine ⟨⟨fun ⟨_, h⟩ => accepted_of_ok sha h, fun h => ⟨_, assignedConditions_ok sha h⟩⟩, ?_, ?_⟩
  · intro conditions h
    have haccepted := accepted_of_ok sha h
    rw [assignedConditions_ok sha haccepted] at h
    cases h
    refine ⟨?_, given_entriesOf (runIds_nodup haccepted.2.2) haccepted.2.1⟩
    rw [entriesOf_keys]
    exact perm_sorted.map AssignmentRun.runId
  · intro runs hperm
    have hids : (allIds runs).Nodup ↔ (allIds assignment.runs).Nodup :=
      (hperm.flatMap_right _).nodup_iff
    rw [assignedConditions, assignedConditions, checkIds_eq, checkIds_eq, hperm.length_eq]
    split
    · rfl
    · by_cases hnodup : (allIds assignment.runs).Nodup
      · rw [if_pos hnodup, if_pos (hids.mpr hnodup),
          sorted_eq_of_perm (noTies_compareRuns sha (runIds_nodup hnodup)) hperm]
        rfl
      · rw [if_neg hnodup, if_neg (mt hids.mp hnodup)]
        rfl

/-- A digest by its number. -/
def hexDigest (n : Nat) : Units :=
  (List.range 64).map fun i => unitOf (hexDigit (n / 16 ^ (63 - i) % 16))

theorem isDigest_hexDigest (n : Nat) : isDigest (hexDigest n) = true := by
  have hunit : ∀ i : Fin 16, isHexUnit (unitOf (hexDigit i)) = true := by decide
  rw [isDigest, Bool.and_eq_true, List.all_eq_true]
  refine ⟨by simp [hexDigest], fun u hu => ?_⟩
  obtain ⟨i, _, rfl⟩ := List.mem_map.mp hu
  exact hunit ⟨_, Nat.mod_lt _ (by decide)⟩

/-- The digests of four runs under one seed. -/
def fourDigests : List (Text × Nat) :=
  [("s\x00r1".toList, 0xf454d303d316c137d25b3fe624b6c519e8a1d02ff8a42bd2b1e6e845b0a0f69a),
    ("s\x00r2".toList, 0xc2958e76b7f13652f2d47e955cb7a428837bfadd869a949b219c78b5241b5f1b),
    ("s\x00r3".toList, 0x4d569fd45ed16dde31d8bc2a080618c7abd32853e5fe437fe2d0c2be51d6f7f4),
    ("s\x00r4".toList, 0x4c9a89a370f596d3e0a7020bbf46fc6e69aea998eb64b3deb9b8ebcd06cdd78b)]

def fourSha : Sha256 where
  hash bytes := hexDigest (((fourDigests.find? fun d => encodeUtf8 d.1 = bytes).map Prod.snd).getD 0)
  isDigest_hash _ := isDigest_hexDigest _

def fourRuns : ProposalAssignment where
  seed := unitsOf ['s']
  runs := ['1', '2', '3', '4'].map fun c => ⟨unitsOf ['t', c], unitsOf ['j', c], unitsOf ['r', c]⟩

theorem assigned_conditions_balanced_four :
    (∃ conditions, assignedConditions fourSha fourRuns = .ok conditions ∧
      (conditions.map Prod.fst).Perm (fourRuns.runs.map AssignmentRun.runId) ∧
        ∀ condition, 2 * given conditions fourRuns.runs condition = fourRuns.runs.length) ∧
    assignedConditions fourSha { fourRuns with runs := fourRuns.runs.reverse } =
      assignedConditions fourSha fourRuns := by
  obtain ⟨haccepted, hbalanced, hperm⟩ := assigned_conditions_balanced fourSha fourRuns
  obtain ⟨conditions, hok⟩ := haccepted.mpr ⟨by decide, by decide, by decide⟩
  exact ⟨⟨conditions, hok, hbalanced conditions hok⟩, hperm _ (List.reverse_perm _)⟩

/-- The last two runs have the lower digests. -/
example : (assignedConditions fourSha fourRuns).toOption.map
      (fun conditions => fourRuns.runs.map fun run => own conditions run.runId) =
    some [some .caveat, some .caveat, some .control, some .control] := by decide +kernel

end Caveat.Proposal
