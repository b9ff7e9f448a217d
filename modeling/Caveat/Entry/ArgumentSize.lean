import Caveat.Js.ObjectGraph
import Caveat.Js.Decoder
import Mathlib.Data.Finset.Card

/-!
# The size of the arguments of a call

`serializedArgumentsUtf8Bytes` counts the bytes that `JSON.stringify` would write, without writing
them and without recursion: tasks stand on a stack, and the objects that are being counted are kept
to notice a cycle.
-/

namespace Caveat.Entry

open Js
open Lib (Graph Tree Unfolds UnfoldsAll)

variable {ν : Type}

/-- `Buffer.byteLength(text)`. -/
def byteLength (text : Text) : Nat := (encodeUtf8 text).length

inductive Task (ν : Type) where
  | value (v : Scalar ⊕ ν)
  | finish (n : ν)

/-- What the loop keeps; the top of the stack comes first. -/
structure Sizing (ν : Type) where
  tasks : List (Task ν)
  ancestors : Finset ν
  bytes : Nat

inductive ArgumentsError where
  /-- `arguments must be a JSON value without cycles`. -/
  | cycle
deriving DecidableEq

/-- An entry that is written. -/
def isWritten (e : Units × (Scalar ⊕ ν)) : Bool := e.2.elim (fun s => !s.isOmitted) fun _ => true

section Loop

variable [DecidableEq ν] (doubles : Doubles) (g : ObjectGraph ν)

/-- The entries of an object that are counted. -/
def countedEntries (n : ν) : List (Units × (Scalar ⊕ ν)) :=
  match g.label n with
  | .array => g.edges n
  | .object => (g.edges n).filter isWritten

/-- The brackets, the commas, and the keys with their colons. -/
def frameBytes (n : ν) : Nat :=
  2 + ((countedEntries g n).length - 1) +
    match g.label n with
    | .array => 0
    | .object => ((countedEntries g n).map fun e => byteLength (quote e.1) + 1).sum

/-- One task, taken from the stack. -/
def Sizing.perform (s : Sizing ν) : Task ν → Except ArgumentsError (Sizing ν)
  | .finish n => .ok { s with ancestors := s.ancestors.erase n }
  | .value (.inl v) =>
      .ok { s with bytes := s.bytes + byteLength ((v.json doubles).getD "null".toList) }
  | .value (.inr n) =>
      if n ∈ s.ancestors then .error .cycle
      else .ok
        { tasks := (countedEntries g n).map (fun e => .value e.2) ++ .finish n :: s.tasks
          ancestors := insert n s.ancestors
          bytes := s.bytes + frameBytes g n }

def runSizing : Nat → Sizing ν → Option (Except ArgumentsError Nat)
  | 0, _ => none
  | fuel + 1, s =>
      match s.tasks with
      | [] => some (.ok s.bytes)
      | task :: tasks =>
          match ({ s with tasks := tasks } : Sizing ν).perform doubles g task with
          | .error e => some (.error e)
          | .ok s' => runSizing fuel s'

/-- The loop ends with a result. -/
def Sizing.Ends (s : Sizing ν) (r : Except ArgumentsError Nat) : Prop :=
  ∃ fuel, runSizing doubles g fuel s = some r

/-- `serializedArgumentsUtf8Bytes(args)` returns or throws. -/
def SerializedArgumentsUtf8Bytes (args : Scalar ⊕ ν) (r : Except ArgumentsError Nat) : Prop :=
  Sizing.Ends doubles g { tasks := [.value args], ancestors := ∅, bytes := 0 } r

end Loop

/-! ## The bytes of a text -/

section Bytes

variable {doubles : Doubles}

theorem byteLength_append (s t : Text) : byteLength (s ++ t) = byteLength s + byteLength t := by
  rw [byteLength, encodeUtf8_append, List.length_append, byteLength, byteLength]

theorem byteLength_ascii {c : Char} (h : c.toNat < 128) (t : Text) :
    byteLength (c :: t) = 1 + byteLength t := by
  have hone : byteLength [c] = 1 := by
    rw [byteLength, encodeUtf8, List.flatMap_singleton, encode_ascii h, List.length_singleton]
  rw [← List.singleton_append, byteLength_append, hone]

/-- The parts and the commas between them. -/
theorem byteLength_intercalate (parts : List Text) :
    byteLength ([','].intercalate parts) = (parts.length - 1) + (parts.map byteLength).sum := by
  induction parts with
  | nil => rfl
  | cons part parts ih =>
      by_cases hnil : parts = []
      · subst hnil
        simp
      · have hlen := List.length_pos_iff.mpr hnil
        rw [List.intercalate_cons_of_ne_nil hnil, byteLength_append, byteLength_append, ih,
          List.map_cons, List.sum_cons, List.length_cons]
        have hcomma : byteLength [','] = 1 := by decide
        omega

/-- The bytes of a value where it stands as an item. -/
def textSize (doubles : Doubles) (t : ObjectTree) : Nat :=
  byteLength ((jsonText doubles t).getD "null".toList)

def sizeAll (doubles : Doubles) (children : List (Units × ObjectTree)) : Nat :=
  (children.map fun child => textSize doubles child.2).sum

theorem textSize_array (children : List (Units × ObjectTree)) :
    textSize doubles (.branch .array children) =
      2 + (children.length - 1) + sizeAll doubles children := by
  have hitems : jsonItems doubles children =
      children.map fun child => (jsonText doubles child.2).getD "null".toList := by
    induction children with
    | nil => rw [jsonItems, List.map_nil]
    | cons child children ih => rw [jsonItems, ih, List.map_cons]
  rw [textSize, jsonText, Option.getD_some, List.cons_append, byteLength_ascii (by decide),
    byteLength_append, byteLength_intercalate, hitems, List.length_map, List.map_map, sizeAll]
  have hclose : byteLength [']'] = 1 := by decide
  rw [hclose]
  show 1 + (children.length - 1 + (children.map fun child => textSize doubles child.2).sum + 1) = _
  omega

/-- The members that are written. -/
def writtenMembers (doubles : Doubles) (children : List (Units × ObjectTree)) :
    List (Units × ObjectTree) :=
  children.filter fun child => (jsonText doubles child.2).isSome

theorem textSize_object (children : List (Units × ObjectTree)) :
    textSize doubles (.branch .object children) =
      2 + ((writtenMembers doubles children).length - 1) +
        ((writtenMembers doubles children).map fun child => byteLength (quote child.1) + 1).sum +
        sizeAll doubles (writtenMembers doubles children) := by
  have hmembers : (jsonMembers doubles children).map memberText =
      (writtenMembers doubles children).map fun child =>
        quote child.1 ++ ':' :: (jsonText doubles child.2).getD "null".toList := by
    induction children with
    | nil => rw [jsonMembers]; rfl
    | cons child children ih =>
        rw [jsonMembers, List.map_append, ih, writtenMembers, writtenMembers, List.filter_cons]
        cases hchild : jsonText doubles child.2 with
        | none => simp
        | some text => simp [memberText, hchild]
  rw [textSize, jsonText, Option.getD_some, objectText, List.cons_append,
    byteLength_ascii (by decide), byteLength_append, byteLength_intercalate, hmembers,
    List.length_map, List.map_map, sizeAll]
  have hclose : byteLength ['}'] = 1 := by decide
  have hsum : ∀ ms : List (Units × ObjectTree), (ms.map (byteLength ∘ fun child =>
      quote child.1 ++ ':' :: (jsonText doubles child.2).getD "null".toList)).sum =
      (ms.map fun child => byteLength (quote child.1) + 1).sum +
        (ms.map fun child => textSize doubles child.2).sum := by
    intro ms
    induction ms with
    | nil => rfl
    | cons m ms ih =>
        rw [List.map_cons, List.sum_cons, ih, List.map_cons, List.map_cons, List.sum_cons,
          List.sum_cons, Function.comp, byteLength_append, byteLength_ascii (by decide), textSize]
        omega
  rw [hclose, hsum]
  omega

variable {g : ObjectGraph ν}

/-- What is counted of an object is what is written of what it unfolds to. -/
theorem exists_unfoldsAll_written {edges : List (Units × (Scalar ⊕ ν))}
    {ts : List (Units × ObjectTree)} (h : UnfoldsAll g (edges.filter isWritten) ts) :
    ∃ all, UnfoldsAll g edges all ∧ writtenMembers doubles all = ts := by
  induction edges generalizing ts with
  | nil =>
      cases h with
      | nil => exact ⟨[], .nil, rfl⟩
  | cons e edges ih =>
      obtain ⟨k, v⟩ := e
      by_cases hv : isWritten (k, v) = true
      · rw [List.filter_cons_of_pos hv] at h
        cases h with
        | @cons _ _ t _ ts hfirst hrest =>
            obtain ⟨all, hall, rfl⟩ := ih hrest
            refine ⟨(k, t) :: all, .cons hfirst hall, ?_⟩
            exact List.filter_cons_of_pos ((jsonText_isSome hfirst).trans hv)
      · rw [List.filter_cons_of_neg hv] at h
        obtain ⟨all, hall, rfl⟩ := ih h
        rcases v with s | n
        · refine ⟨(k, .leaf s) :: all, .cons (.leaf s) hall, ?_⟩
          exact List.filter_cons_of_neg fun hs =>
            hv ((jsonText_isSome (g := g) (.leaf s)).symm.trans hs)
        · exact absurd rfl hv

/-- The frame and the counted entries make up the object. -/
theorem exists_unfolds_counted {n : ν} {ts : List (Units × ObjectTree)}
    (h : UnfoldsAll g (countedEntries g n) ts) :
    ∃ t, Unfolds g (.inr n) t ∧ textSize doubles t = frameBytes g n + sizeAll doubles ts := by
  have hlen := congrArg List.length h.keys
  rw [List.length_map, List.length_map] at hlen
  cases hlabel : g.label n with
  | array =>
      have hentries : countedEntries g n = g.edges n := by rw [countedEntries, hlabel]
      have hframe : frameBytes g n = 2 + (ts.length - 1) := by
        rw [frameBytes, hlabel, hlen, Nat.add_zero]
      refine ⟨.branch (g.label n) ts, .node (hentries ▸ h), ?_⟩
      rw [hlabel, textSize_array, hframe]
  | object =>
      have hentries : countedEntries g n = (g.edges n).filter isWritten := by
        rw [countedEntries, hlabel]
      obtain ⟨all, hall, hts⟩ : ∃ all, UnfoldsAll g (g.edges n) all ∧
          writtenMembers doubles all = ts := exists_unfoldsAll_written (hentries ▸ h)
      have hkeys : (ts.map fun child => byteLength (quote child.1) + 1) =
          (countedEntries g n).map fun e => byteLength (quote e.1) + 1 := by
        have := congrArg (List.map fun k : Units => byteLength (quote k) + 1) h.keys
        rwa [List.map_map, List.map_map] at this
      have hframe : frameBytes g n = 2 + (ts.length - 1) +
          (ts.map fun child => byteLength (quote child.1) + 1).sum := by
        rw [frameBytes, hlabel, hlen, hkeys]
      refine ⟨.branch (g.label n) all, .node hall, ?_⟩
      rw [hlabel, textSize_object, hts, hframe]

theorem mem_edges_of_counted {n : ν} {e : Units × (Scalar ⊕ ν)} (h : e ∈ countedEntries g n) :
    e ∈ g.edges n := by
  rw [countedEntries] at h
  cases hlabel : g.label n with
  | array => rwa [hlabel] at h
  | object =>
      rw [hlabel] at h
      exact List.mem_of_mem_filter h

end Bytes

/-! ## What the loop does with a value -/

section Law

variable [DecidableEq ν] {doubles : Doubles} {g : ObjectGraph ν}

theorem runSizing_mono {fuel fuel' : Nat} (h : fuel ≤ fuel') {s : Sizing ν}
    {r : Except ArgumentsError Nat} (hr : runSizing doubles g fuel s = some r) :
    runSizing doubles g fuel' s = some r := by
  induction fuel generalizing fuel' s with
  | zero => exact absurd hr (by simp [runSizing])
  | succ fuel ih =>
      obtain ⟨fuel', rfl⟩ : ∃ n, fuel' = n + 1 := ⟨fuel' - 1, by omega⟩
      rw [runSizing] at hr ⊢
      cases htasks : s.tasks with
      | nil => rwa [htasks] at hr
      | cons task tasks =>
          rw [htasks] at hr
          dsimp only at hr ⊢
          cases hstep : ({ s with tasks := tasks } : Sizing ν).perform doubles g task with
          | error e => rwa [hstep] at hr
          | ok s' =>
              rw [hstep] at hr
              exact ih (by omega) hr

/-- The loop has one result. -/
theorem Sizing.Ends.unique {s : Sizing ν} {r r' : Except ArgumentsError Nat}
    (h : s.Ends doubles g r) (h' : s.Ends doubles g r') : r = r' := by
  obtain ⟨fuel, hr⟩ := h
  obtain ⟨fuel', hr'⟩ := h'
  have hsame := (runSizing_mono (Nat.le_max_left fuel fuel') hr).symm.trans
    (runSizing_mono (Nat.le_max_right fuel fuel') hr')
  exact Option.some.inj hsame

theorem Sizing.Ends.step {task : Task ν} {s s' : Sizing ν} {r : Except ArgumentsError Nat}
    (hstep : s.perform doubles g task = .ok s') (h : s'.Ends doubles g r) :
    ({ s with tasks := task :: s.tasks } : Sizing ν).Ends doubles g r := by
  obtain ⟨fuel, hr⟩ := h
  refine ⟨fuel + 1, ?_⟩
  rw [runSizing]
  show (match s.perform doubles g task with
    | .error e => some (.error e)
    | .ok s' => runSizing doubles g fuel s') = some r
  rw [hstep]
  exact hr

theorem Sizing.Ends.throw {task : Task ν} {s : Sizing ν} {e : ArgumentsError}
    (hstep : s.perform doubles g task = .error e) :
    ({ s with tasks := task :: s.tasks } : Sizing ν).Ends doubles g (.error e) := by
  refine ⟨1, ?_⟩
  rw [runSizing]
  show (match s.perform doubles g task with
    | .error e => some (.error e)
    | .ok s' => runSizing doubles g 0 s') = some (.error e)
  rw [hstep]

/-- Whatever the loop does from the second state on, it does from the first. -/
def Sizing.Leads (doubles : Doubles) (g : ObjectGraph ν) (s s' : Sizing ν) : Prop :=
  ∀ r, s'.Ends doubles g r → s.Ends doubles g r

/-- A value is counted as what it unfolds to. -/
def Counts (doubles : Doubles) (g : ObjectGraph ν) (ancestors : Finset ν) (v : Scalar ⊕ ν) : Prop :=
  ∃ t, Unfolds g v t ∧ ∀ (rest : List (Task ν)) (bytes : Nat),
    Sizing.Leads doubles g ⟨.value v :: rest, ancestors, bytes⟩
      ⟨rest, ancestors, bytes + textSize doubles t⟩

/-- A value is refused, and one of the objects above it or below it comes back to itself. -/
def Refuses (doubles : Doubles) (g : ObjectGraph ν) (ancestors : Finset ν) (v : Scalar ⊕ ν) : Prop :=
  (∀ (rest : List (Task ν)) (bytes : Nat),
    Sizing.Ends doubles g ⟨.value v :: rest, ancestors, bytes⟩ (.error .cycle)) ∧
  ((∃ a ∈ ancestors, g.Meets v a) ∨ g.Cyclic v)

/-- Entries are counted one after the other, up to one that is refused. -/
theorem counts_entries {ancestors : Finset ν} {entries : List (Units × (Scalar ⊕ ν))}
    (h : ∀ e ∈ entries, Counts doubles g ancestors e.2 ∨ Refuses doubles g ancestors e.2) :
    (∃ ts, UnfoldsAll g entries ts ∧ ∀ (rest : List (Task ν)) (bytes : Nat),
      Sizing.Leads doubles g ⟨entries.map (fun e => .value e.2) ++ rest, ancestors, bytes⟩
        ⟨rest, ancestors, bytes + sizeAll doubles ts⟩) ∨
    ∃ e ∈ entries, ((∃ a ∈ ancestors, g.Meets e.2 a) ∨ g.Cyclic e.2) ∧
      ∀ (rest : List (Task ν)) (bytes : Nat), Sizing.Ends doubles g
        ⟨entries.map (fun e => .value e.2) ++ rest, ancestors, bytes⟩ (.error .cycle) := by
  induction entries with
  | nil => exact .inl ⟨[], .nil, fun _ _ _ h => h⟩
  | cons e entries ih =>
      rcases h e List.mem_cons_self with ⟨t, ht, hlead⟩ | ⟨hends, hcycle⟩
      · rcases ih fun e' he' => h e' (List.mem_cons_of_mem e he') with ⟨ts, hts, hrest⟩ | hthrow
        · refine .inl ⟨(e.1, t) :: ts, .cons ht hts, fun rest bytes r hr => ?_⟩
          refine hlead _ _ _ (hrest _ _ _ ?_)
          rw [sizeAll, List.map_cons, List.sum_cons] at hr
          rwa [sizeAll, Nat.add_assoc]
        · obtain ⟨e', he', hcycle, hends⟩ := hthrow
          exact .inr ⟨e', List.mem_cons_of_mem e he', hcycle, fun rest bytes =>
            hlead _ _ _ (hends rest _)⟩
      · exact .inr ⟨e, List.mem_cons_self, hcycle, fun rest bytes => hends _ _⟩

/-- **Every value is counted or refused**; an object joins the ancestors while its entries are
counted, so that ever fewer objects are left. -/
theorem counts_or_refuses [Fintype ν] (ancestors : Finset ν) (v : Scalar ⊕ ν) :
    Counts doubles g ancestors v ∨ Refuses doubles g ancestors v := by
  induction hk : (ancestorsᶜ).card using Nat.strong_induction_on generalizing ancestors v with
  | h k ih =>
      rcases v with s | n
      · refine .inl ⟨.leaf s, .leaf s, fun rest bytes r hr => ?_⟩
        refine Sizing.Ends.step (s := ⟨rest, ancestors, bytes⟩) rfl ?_
        rwa [textSize, jsonText] at hr
      by_cases hn : n ∈ ancestors
      · refine .inr ⟨fun rest bytes => ?_, .inl ⟨n, hn, n, rfl, .refl⟩⟩
        exact Sizing.Ends.throw (s := ⟨rest, ancestors, bytes⟩) (if_pos hn)
      have hstep : ∀ rest bytes, Sizing.perform doubles g ⟨rest, ancestors, bytes⟩ (.value (.inr n)) =
          .ok ⟨(countedEntries g n).map (fun e => .value e.2) ++ .finish n :: rest,
            insert n ancestors, bytes + frameBytes g n⟩ := fun rest bytes => if_neg hn
      have hless : ((insert n ancestors)ᶜ).card < k := by
        rw [← hk, Finset.compl_insert]
        exact Finset.card_erase_lt_of_mem (Finset.mem_compl.mpr hn)
      rcases counts_entries fun e _ => ih _ hless (insert n ancestors) e.2 rfl with
        ⟨ts, hts, hlead⟩ | ⟨e, he, hcycle, hthrow⟩
      · obtain ⟨t, ht, hsize⟩ : ∃ t, Unfolds g (.inr n) t ∧
            textSize doubles t = frameBytes g n + sizeAll doubles ts := exists_unfolds_counted hts
        refine .inl ⟨t, ht, fun rest bytes r hr => (hlead _ _ _ ?_).step (hstep rest bytes)⟩
        refine Sizing.Ends.step (s := ⟨rest, _, _⟩) rfl ?_
        rw [hsize, ← Nat.add_assoc] at hr
        rwa [Finset.erase_insert hn]
      · refine .inr ⟨fun rest bytes => (hthrow _ _).step (hstep rest bytes), ?_⟩
        have hedge := mem_edges_of_counted he
        rcases hcycle with ⟨a, ha, hmeets⟩ | hcycle
        · rcases Finset.mem_insert.mp ha with rfl | ha
          · exact .inr ⟨a, ⟨a, rfl, .refl⟩, hmeets.of_edge hedge⟩
          · exact .inl ⟨a, ha, n, rfl, (hmeets.of_edge hedge).to_reflTransGen⟩
        · exact .inr (hcycle.of_edge hedge)

/-- **The arguments are measured exactly.** The loop ends with one result: it throws if and only if
an object comes back to itself, and else it returns the bytes of the JSON text. -/
theorem arguments_size_exact [Finite ν] (doubles : Doubles) (g : ObjectGraph ν) (args : Scalar ⊕ ν)
    (hargs : ∀ s, args = .inl s → s.isOmitted = false) :
    (∃! r, SerializedArgumentsUtf8Bytes doubles g args r) ∧
      ∀ r, SerializedArgumentsUtf8Bytes doubles g args r ↔
        (r = .error .cycle ∧ g.Cyclic args) ∨
          ∃ text, Stringifies doubles g args text ∧ r = .ok (byteLength text) := by
  have := Fintype.ofFinite ν
  have hcases : Counts doubles g ∅ args ∨ Refuses doubles g ∅ args := counts_or_refuses ∅ args
  rcases hcases with ⟨t, ht, hlead⟩ | ⟨hends, hcycle⟩
  · have hsome : (jsonText doubles t).isSome = true := by
      rw [jsonText_isSome ht]
      rcases args with s | n
      · rw [Sum.elim_inl, hargs s rfl]; rfl
      · rfl
    obtain ⟨text, htext⟩ := Option.isSome_iff_exists.mp hsome
    have hends : SerializedArgumentsUtf8Bytes doubles g args (.ok (byteLength text)) := by
      refine hlead [] 0 _ ⟨1, ?_⟩
      rw [textSize, htext, Option.getD_some, Nat.zero_add]
      rfl
    refine ⟨⟨_, hends, fun r hr => hr.unique hends⟩, fun r => ⟨fun hr => ?_, ?_⟩⟩
    · exact .inr ⟨text, ⟨t, ht, htext⟩, hr.unique hends⟩
    · rintro (⟨-, hcycle⟩ | ⟨text', ⟨t', ht', htext'⟩, rfl⟩)
      · exact absurd hcycle ht.acyclic
      · rw [ht'.unique ht, htext, Option.some.injEq] at htext'
        exact htext' ▸ hends
  · have hcyclic : g.Cyclic args := by
      rcases hcycle with ⟨a, ha, _⟩ | hcycle
      · exact absurd ha (Finset.notMem_empty a)
      · exact hcycle
    refine ⟨⟨_, hends [] 0, fun r hr => hr.unique (hends [] 0)⟩, fun r => ⟨fun hr => ?_, ?_⟩⟩
    · exact .inl ⟨hr.unique (hends [] 0), hcyclic⟩
    · rintro (⟨rfl, -⟩ | ⟨text, ⟨t, ht, _⟩, rfl⟩)
      · exact hends [] 0
      · exact absurd hcyclic ht.acyclic

/-- One object under two keys. -/
def sharedArguments : ObjectGraph (Fin 2) where
  label := fun n => if n = 0 then .array else .object
  edges := fun n => if n = 0 then [([], .inr 1), ([], .inr 1)]
    else [(unitsOf "a".toList, .inl .null), (unitsOf "b".toList, .inl .undefined)]

theorem arguments_size_exact_shared :
    ∃! r, SerializedArgumentsUtf8Bytes plainDoubles sharedArguments (.inr 0) r :=
  (arguments_size_exact plainDoubles sharedArguments (.inr 0) fun _ h => nomatch h).1

end Law

end Caveat.Entry
