import Caveat.Js.NumberText
import Caveat.Js.ObjectGraph
import Caveat.Lib.Loop
import Caveat.Lib.StableSort
import Caveat.Proposal.Assignment

/-!
# Canonical JSON

`canonicalProposalExecutionJson` and `stableJson` write a value with the keys of every object in the
order of their code units. The objects that are being written are kept in a set, which is shared by
all calls: each is deleted once it is written, so it may occur again elsewhere, but not within
itself.
-/

namespace Caveat.Proposal

open Js Lib

inductive ValueKind where
  | array
  | plain
  /-- An object of a class. -/
  | other
deriving DecidableEq

/-- The objects of a run: the items of an array, and the own properties of an object. -/
structure Heap (ν : Type) extends Graph Scalar Units ValueKind ν where
  keys_nodup : ∀ n, label n = .plain → ((edges n).map Prod.fst).Nodup

abbrev JsonTree := Tree Scalar Units ValueKind

/-- What the two functions throw. -/
structure CanonicalErrors (ε : Type) where
  notFinite : ε
  cycle : ε
  notPlain : ε

variable {ν ε : Type}

/-- What is written while the set is kept. `none` stands for a model that ran out of fuel. -/
abbrev Writing (ν ε : Type) := StateT (Finset ν) (Except (Option ε))

/-- Members in the order of their keys. -/
def sortMembers {α : Type} (members : List (Units × α)) : List (Units × α) :=
  sorted (fun a b => compare a.1 b.1) members

/-- `[…]`. -/
def arrayText (items : List Text) : Text := '[' :: [','].intercalate items ++ [']']

variable (doubles : Doubles) (errors : CanonicalErrors ε)

def writeScalar : Scalar → Writing ν ε Text
  | .number .nan | .number (.infinite _) => throw (some errors.notFinite)
  | .undefined | .callable => throw (some errors.notPlain)
  | .null => return "null".toList
  | .bool b => return if b then "true".toList else "false".toList
  | .number (.finite q) => return doubles.text q
  | .string s => return quote s

/-- `[…]`, item by item. -/
def writeItems (write : Scalar ⊕ ν → Writing ν ε Text) (items : List (Units × (Scalar ⊕ ν))) :
    Writing ν ε Text := do
  let texts ← items.mapM fun item => write item.2
  return arrayText texts

/-- `{…}`, in the order of the keys. -/
def writeMembers (write : Scalar ⊕ ν → Writing ν ε Text) (members : List (Units × (Scalar ⊕ ν))) :
    Writing ν ε Text := do
  let texts ← (sortMembers members).mapM fun member => do return (member.1, ← write member.2)
  return objectText texts

section Write

variable [DecidableEq ν]

/-- Write an object that is not being written: it is in the set as long as it takes. -/
def guarded (n : ν) (write : Writing ν ε Text) : Writing ν ε Text := fun seen =>
  if n ∈ seen then .error (some errors.cycle)
  else (write.run (insert n seen)).map fun written => (written.1, written.2.erase n)

/-- An object, given how its parts are written. -/
def writeObject (g : Heap ν) (write : Scalar ⊕ ν → Writing ν ε Text) (n : ν) : Writing ν ε Text :=
  match g.label n with
  | .array => guarded errors n (writeItems write (g.edges n))
  | .other => throw (some errors.notPlain)
  | .plain => guarded errors n (writeMembers write (g.edges n))

def canonicalJson (g : Heap ν) : Nat → Scalar ⊕ ν → Writing ν ε Text
  | 0, _ => throw none
  | _ + 1, .inl s => writeScalar doubles errors s
  | fuel + 1, .inr n => writeObject errors g (canonicalJson g fuel) n

/-- With an empty set. A value is nested no deeper than there are objects. -/
def writeCanonical [Fintype ν] (g : Heap ν) (v : Scalar ⊕ ν) : Except (Option ε) Text :=
  ((canonicalJson doubles errors g (Fintype.card ν + 1) v).run ∅).map Prod.fst

end Write

/-- `ProposalExecutionError`. -/
structure ExecutionError where
  line : Option Nat
  reason : String
  count : Nat := 1
deriving DecidableEq

def executionErrors : CanonicalErrors ExecutionError where
  notFinite := { line := none, reason := "canonical JSON requires finite numbers" }
  cycle := { line := none, reason := "canonical JSON rejects cycles" }
  notPlain := { line := none, reason := "canonical JSON requires acyclic plain values" }

def evalErrors : CanonicalErrors ArtifactError where
  notFinite := { line := none, reason := "canonical JSON requires finite numbers" }
  cycle := { line := none, reason := "canonical JSON rejects cycles" }
  notPlain := { line := none, reason := "canonical JSON requires plain JSON values" }

section Functions

variable [Fintype ν] [DecidableEq ν]

def canonicalProposalExecutionJson (g : Heap ν) (v : Scalar ⊕ ν) :
    Except (Option ExecutionError) Text := writeCanonical doubles executionErrors g v

def stableJson (g : Heap ν) (v : Scalar ⊕ ν) : Except (Option ArtifactError) Text :=
  writeCanonical doubles evalErrors g v

end Functions

/-! ## The text of an unfolded value -/

mutual

def canonicalText : JsonTree → Text
  | .leaf s => (s.json doubles).getD []
  | .branch .array items => arrayText (canonicalItems items)
  | .branch .plain members => objectText (sortMembers (canonicalMembers members))
  | .branch .other _ => []

def canonicalItems : List (Units × JsonTree) → List Text
  | [] => []
  | (_, t) :: items => canonicalText t :: canonicalItems items

def canonicalMembers : List (Units × JsonTree) → List (Units × Text)
  | [] => []
  | (key, t) :: members => (key, canonicalText t) :: canonicalMembers members

end

theorem sortMembers_map {α β : Type} (f : α → β) (members : List (Units × α)) :
    sortMembers (members.map fun m => (m.1, f m.2)) =
      (sortMembers members).map fun m => (m.1, f m.2) :=
  (List.map_insertionSort _ _ (fun m : Units × α => (m.1, f m.2)) members
    (fun _ _ _ _ => Iff.rfl)).symm

theorem canonicalItems_eq (items : List (Units × JsonTree)) :
    canonicalItems doubles items = items.map fun item => canonicalText doubles item.2 := by
  induction items with
  | nil => rw [canonicalItems, List.map_nil]
  | cons item items ih => rw [canonicalItems, ih, List.map_cons]

theorem canonicalMembers_eq (members : List (Units × JsonTree)) : canonicalMembers doubles members =
    members.map fun member => (member.1, canonicalText doubles member.2) := by
  induction members with
  | nil => rw [canonicalMembers, List.map_nil]
  | cons member members ih => rw [canonicalMembers, ih, List.map_cons]

/-! ## JSON values -/

/-- A scalar of a JSON value; a number is a double. -/
def IsJsonScalar : Scalar → Prop
  | .null | .bool _ | .string _ => True
  | .number (.finite q) => doubles.round q = .finite q
  | _ => False

/-- A value stands in an array or an object. -/
def IsPart (g : Heap ν) (v w : Scalar ⊕ ν) : Prop := ∃ n k, v = .inr n ∧ (k, w) ∈ g.edges n

/-- Nothing in the value, however deep, is anything else than JSON. -/
def IsJsonValue (g : Heap ν) (v : Scalar ⊕ ν) : Prop :=
  ∀ w, Relation.ReflTransGen (IsPart g) v w →
    w.elim (IsJsonScalar doubles) fun n => g.label n ≠ .other

variable {doubles} {errors}

theorem IsJsonValue.child {g : Heap ν} {n : ν} (h : IsJsonValue doubles g (.inr n))
    {e : Units × (Scalar ⊕ ν)} (he : e ∈ g.edges n) : IsJsonValue doubles g e.2 :=
  fun w hw => h w (.head ⟨n, e.1, rfl, he⟩ hw)

theorem writeScalar_run {s : Scalar} (h : IsJsonScalar doubles s) (seen : Finset ν) :
    (writeScalar doubles errors s).run seen = .ok (canonicalText doubles (.leaf s), seen) := by
  rw [canonicalText]
  cases s with
  | undefined => exact h.elim
  | callable => exact h.elim
  | null => rfl
  | bool b => rfl
  | string s => rfl
  | number n =>
      cases n with
      | nan => exact h.elim
      | infinite b => exact h.elim
      | finite q => rfl

/-- The members of an unfolded value, where each value is given a text. -/
theorem unfoldsAll_texts {g : Heap ν} {x : Scalar ⊕ ν → Text} {es : List (Units × (Scalar ⊕ ν))}
    {ts : List (Units × JsonTree)} (h : UnfoldsAll g.toGraph es ts)
    (hx : ∀ e ∈ es, ∀ t, Unfolds g.toGraph e.2 t → canonicalText doubles t = x e.2) :
    canonicalMembers doubles ts = es.map fun e => (e.1, x e.2) := by
  induction es generalizing ts with
  | nil =>
      cases h with
      | nil => rw [canonicalMembers, List.map_nil]
  | cons e es ih =>
      cases h with
      | cons hfirst hrest =>
          rw [canonicalMembers, List.map_cons, ih hrest fun e he => hx e (List.mem_cons_of_mem _ he),
            hx _ List.mem_cons_self _ hfirst]

/-! ## Objects that are being written -/

section Run

variable [DecidableEq ν] {n : ν} {seen : Finset ν} {write : Writing ν ε Text}

theorem guarded_cycle (h : n ∈ seen) :
    (guarded errors n write).run seen = .error (some errors.cycle) := if_pos h

theorem guarded_ok {text : Text} (h : n ∉ seen)
    (hwrite : write.run (insert n seen) = .ok (text, insert n seen)) :
    (guarded errors n write).run seen = .ok (text, seen) := by
  refine (if_neg h).trans ?_
  rw [hwrite]
  exact congrArg (fun s => Except.ok (text, s)) (Finset.erase_insert h)

theorem guarded_error {e : Option ε} (h : n ∉ seen) (hwrite : write.run (insert n seen) = .error e) :
    (guarded errors n write).run seen = .error e := by
  refine (if_neg h).trans ?_
  rw [hwrite]
  rfl

end Run

section Cycles

variable [DecidableEq ν] {g : Heap ν}

/-- What a call comes to: the text of the value, and the set as it was; or the error of a cycle,
where an object stands within itself or is being written already. -/
def ComesTo (doubles : Doubles) (errors : CanonicalErrors ε) (g : Heap ν) (v : Scalar ⊕ ν)
    (seen : Finset ν) (result : Except (Option ε) (Text × Finset ν)) : Prop :=
  (∃ t, Unfolds g.toGraph v t ∧ result = .ok (canonicalText doubles t, seen) ∧
    ∀ m ∈ seen, ¬ g.Meets v m) ∨
  result = .error (some errors.cycle) ∧ (g.Cyclic v ∨ ∃ m ∈ seen, g.Meets v m)

/-- The text of a call that returned. -/
def resultText (result : Except (Option ε) (Text × Finset ν)) : Text :=
  (result.toOption.map Prod.fst).getD []

/-- The parts of an object, one by one. -/
theorem edges_comeTo {n : ν} {seen : Finset ν} {f : Scalar ⊕ ν → Writing ν ε Text} (hn : n ∉ seen)
    (h : ∀ e ∈ g.edges n, ComesTo doubles errors g e.2 (insert n seen) ((f e.2).run (insert n seen))) :
    (∃ ts, UnfoldsAll g.toGraph (g.edges n) ts ∧
      canonicalMembers doubles ts =
        (g.edges n).map (fun e => (e.1, resultText ((f e.2).run (insert n seen)))) ∧
      (∀ e ∈ g.edges n, (f e.2).run (insert n seen) =
        .ok (resultText ((f e.2).run (insert n seen)), insert n seen)) ∧
      ∀ m ∈ seen, ¬ g.Meets (.inr n) m) ∨
    (∃ e ∈ g.edges n, (f e.2).run (insert n seen) = .error (some errors.cycle)) ∧
      (g.Cyclic (.inr n) ∨ ∃ m ∈ seen, g.Meets (.inr n) m) := by
  by_cases hbad : ∃ e ∈ g.edges n, (f e.2).run (insert n seen) = .error (some errors.cycle)
  · right
    refine ⟨hbad, ?_⟩
    obtain ⟨e, he, herror⟩ := hbad
    rcases h e he with ⟨t, _, hok, _⟩ | ⟨_, hcyclic | ⟨m, hm, hmeets⟩⟩
    · rw [herror] at hok
      cases hok
    · exact .inl (hcyclic.of_edge he)
    · have hback := hmeets.of_edge he
      rcases Finset.mem_insert.mp hm with rfl | hm
      · exact .inl ⟨m, ⟨m, rfl, .refl⟩, hback⟩
      · exact .inr ⟨m, hm, n, rfl, hback.to_reflTransGen⟩
  · left
    have hgood : ∀ e ∈ g.edges n, ∃ t, Unfolds g.toGraph e.2 t ∧
        (f e.2).run (insert n seen) = .ok (canonicalText doubles t, insert n seen) ∧
        ∀ m ∈ insert n seen, ¬ g.Meets e.2 m := by
      intro e he
      rcases h e he with hgood | ⟨herror, _⟩
      · exact hgood
      · exact absurd ⟨e, he, herror⟩ hbad
    have hunfold : ∀ m, (∃ k, (k, Sum.inr m) ∈ g.edges n) → ∃ t, Unfolds g.toGraph (.inr m) t := by
      rintro m ⟨k, hk⟩
      obtain ⟨t, ht, _⟩ := hgood _ hk
      exact ⟨t, ht⟩
    obtain ⟨ts, hts⟩ := exists_unfoldsAll hunfold
    refine ⟨ts, hts, unfoldsAll_texts
      (x := fun v => resultText ((f v).run (insert n seen))) hts fun e he t ht => ?_, fun e he => ?_, fun m hm hmeets => ?_⟩
    · obtain ⟨t', ht', hok, _⟩ := hgood e he
      rw [hok, ht.unique ht']
      rfl
    · obtain ⟨t, _, hok, _⟩ := hgood e he
      rw [hok]
      rfl
    · -- from the object itself, or from one of its parts
      obtain ⟨n', hn', hreach⟩ := hmeets
      obtain rfl : n = n' := Sum.inr.inj hn'
      rcases Relation.ReflTransGen.cases_head hreach with rfl | ⟨c, ⟨k, hk⟩, hrest⟩
      · exact hn hm
      · obtain ⟨_, _, _, hnone⟩ := hgood _ hk
        exact hnone m (Finset.mem_insert_of_mem hm) ⟨c, rfl, hrest⟩

omit [DecidableEq ν] in
theorem ComesTo.ok_or_error {v : Scalar ⊕ ν} {seen : Finset ν}
    {result : Except (Option ε) (Text × Finset ν)} (h : ComesTo doubles errors g v seen result) :
    result = .ok (resultText result, seen) ∨ result = .error (some errors.cycle) := by
  rcases h with ⟨t, _, rfl, _⟩ | ⟨rfl, _⟩
  · exact .inl rfl
  · exact .inr rfl

section Parts

variable {n : ν} {seen : Finset ν} {f : Scalar ⊕ ν → Writing ν ε Text}
  (h : ∀ e ∈ g.edges n, ComesTo doubles errors g e.2 (insert n seen) ((f e.2).run (insert n seen)))

include h

/-- The parts of an object, written one after the other. -/
theorem mapM_comeTo {γ : Type} (step : Units × (Scalar ⊕ ν) → Writing ν ε γ)
    (put : Units × (Scalar ⊕ ν) → Text → γ)
    (hstep : ∀ e s, (step e).run s = ((f e.2).run s).map fun r => (put e r.1, r.2))
    (es : List (Units × (Scalar ⊕ ν))) (hes : ∀ e, e ∈ es ↔ e ∈ g.edges n) :
    ((∀ e ∈ g.edges n, (f e.2).run (insert n seen) =
        .ok (resultText ((f e.2).run (insert n seen)), insert n seen)) →
      (es.mapM step).run (insert n seen) =
        .ok (es.map fun e => put e (resultText ((f e.2).run (insert n seen))), insert n seen)) ∧
    ((∃ e ∈ g.edges n, (f e.2).run (insert n seen) = .error (some errors.cycle)) →
      (es.mapM step).run (insert n seen) = .error (some errors.cycle)) := by
  have hok : ∀ e text, (f e.2).run (insert n seen) = .ok (text, insert n seen) →
      (step e).run (insert n seen) = .ok (put e text, insert n seen) := by
    intro e text hrun
    rw [hstep, hrun]
    rfl
  have herror : ∀ e, (f e.2).run (insert n seen) = .error (some errors.cycle) →
      (step e).run (insert n seen) = .error (some errors.cycle) := by
    intro e hrun
    rw [hstep, hrun]
    rfl
  constructor
  · intro hall
    exact mapM_restores fun e he => hok e _ (hall e ((hes e).mp he))
  · rintro ⟨e, he, hbad⟩
    refine mapM_stops (r := fun e => put e (resultText ((f e.2).run (insert n seen))))
      (fun e he => ?_) ⟨e, (hes e).mpr he, herror e hbad⟩
    rcases (h e ((hes e).mp he)).ok_or_error with hrun | hrun
    · exact .inl (hok e _ hrun)
    · exact .inr (herror e hrun)

/-- What an object comes to, given what its parts do. -/
theorem writeObject_comesTo (hn : n ∉ seen) (hlabel : g.label n ≠ .other) :
    ComesTo doubles errors g (.inr n) seen ((writeObject errors g f n).run seen) := by
  have hitems := mapM_comeTo h (fun e => f e.2) (fun _ text => text)
    (fun e s => by cases (f e.2).run s <;> rfl) (g.edges n) (fun _ => Iff.rfl)
  have hmembers := mapM_comeTo h (fun e => do return (e.1, ← f e.2)) (fun e text => (e.1, text))
    (fun e s => by
      rw [StateT.run_bind]
      cases (f e.2).run s <;> rfl)
    (sortMembers (g.edges n)) (fun _ => mem_sorted)
  rcases edges_comeTo hn h with ⟨ts, hts, htexts, hall, hnone⟩ | ⟨hbad, hcycle⟩
  · refine .inl ⟨_, .node hts, ?_, hnone⟩
    rw [writeObject]
    cases hkind : g.label n with
    | array =>
        refine guarded_ok hn ?_
        have hsame := congrArg (List.map Prod.snd) htexts
        rw [canonicalMembers_eq, List.map_map, List.map_map] at hsame
        rw [writeItems, StateT.run_bind, hitems.1 hall, canonicalText, canonicalItems_eq]
        exact congrArg (fun texts => Except.ok (arrayText texts, insert n seen)) hsame.symm
    | plain =>
        refine guarded_ok hn ?_
        have hsorted := sortMembers_map (fun v => resultText ((f v).run (insert n seen))) (g.edges n)
        rw [writeMembers, StateT.run_bind, hmembers.1 hall, canonicalText, htexts, hsorted]
        rfl
    | other => exact absurd hkind hlabel
  · refine .inr ⟨?_, hcycle⟩
    rw [writeObject]
    cases hkind : g.label n with
    | array =>
        refine guarded_error hn ?_
        rw [writeItems, StateT.run_bind, hitems.2 hbad]
        rfl
    | plain =>
        refine guarded_error hn ?_
        rw [writeMembers, StateT.run_bind, hmembers.2 hbad]
        rfl
    | other => exact absurd hkind hlabel

end Parts

/-- **What a call comes to**, with enough fuel. The induction is on the fuel: an object is written
with one more in the set, and there are no more than all. -/
theorem canonicalJson_comesTo [Fintype ν] {fuel : Nat} {v : Scalar ⊕ ν} {seen : Finset ν}
    (hv : IsJsonValue doubles g v) (hfuel : Fintype.card ν < fuel + seen.card) :
    ComesTo doubles errors g v seen ((canonicalJson doubles errors g fuel v).run seen) := by
  induction fuel generalizing v seen with
  | zero =>
      have hcard := Finset.card_le_univ seen
      omega
  | succ fuel ih =>
      cases v with
      | inl s =>
          refine .inl ⟨.leaf s, .leaf s, writeScalar_run (hv _ .refl) seen, ?_⟩
          rintro m _ ⟨n, hn, _⟩
          cases hn
      | inr n =>
          have hlabel : g.label n ≠ .other := hv _ .refl
          by_cases hn : n ∈ seen
          · refine .inr ⟨?_, .inr ⟨n, hn, n, rfl, .refl⟩⟩
            rw [canonicalJson, writeObject]
            cases hkind : g.label n with
            | array => exact guarded_cycle hn
            | plain => exact guarded_cycle hn
            | other => exact absurd hkind hlabel
          · have hparts : ∀ e ∈ g.edges n, ComesTo doubles errors g e.2 (insert n seen)
                ((canonicalJson doubles errors g fuel e.2).run (insert n seen)) := by
              intro e he
              refine ih (hv.child he) ?_
              rw [Finset.card_insert_of_notMem hn]
              omega
            rw [canonicalJson]
            exact writeObject_comesTo hparts hn hlabel

end Cycles

end Caveat.Proposal
