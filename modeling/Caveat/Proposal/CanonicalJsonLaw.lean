import Caveat.Proposal.CanonicalJson

/-!
# Canonical JSON is injective

Every kind of value begins with a character of its own, and no value ends within another: a number
ends where something follows that is no part of a number, and everything else with its last
character. So the parts of two texts that are the same can be compared one by one.
-/

namespace Caveat.Proposal

open Js Lib

/-! ## The same up to the order of keys -/

mutual

inductive SameTree : JsonTree → JsonTree → Prop where
  | leaf (s : Scalar) : SameTree (.leaf s) (.leaf s)
  | array {items items' : List (Units × JsonTree)} :
      SameItems items items' → SameTree (.branch .array items) (.branch .array items')
  | plain {members ms ms' members' : List (Units × JsonTree)} : members.Perm ms →
      SameMembers ms ms' → ms'.Perm members' →
      SameTree (.branch .plain members) (.branch .plain members')

/-- Item by item. -/
inductive SameItems : List (Units × JsonTree) → List (Units × JsonTree) → Prop where
  | nil : SameItems [] []
  | cons {k k' : Units} {t t' : JsonTree} {items items' : List (Units × JsonTree)} :
      SameTree t t' → SameItems items items' → SameItems ((k, t) :: items) ((k', t') :: items')

/-- Member by member, under the same keys. -/
inductive SameMembers : List (Units × JsonTree) → List (Units × JsonTree) → Prop where
  | nil : SameMembers [] []
  | cons {key : Units} {t t' : JsonTree} {members members' : List (Units × JsonTree)} :
      SameTree t t' → SameMembers members members' →
      SameMembers ((key, t) :: members) ((key, t') :: members')

end

/-- Two values have unfoldings that are the same up to the order of keys. -/
def SameValue {ν : Type} (g : Heap ν) (v : Scalar ⊕ ν) (g' : Heap ν) (v' : Scalar ⊕ ν) : Prop :=
  ∃ t t', Unfolds g.toGraph v t ∧ Unfolds g'.toGraph v' t' ∧ SameTree t t'

theorem sameItems_of_forall {items items' : List (Units × JsonTree)}
    (h : List.Forall₂ (fun a b => SameTree a.2 b.2) items items') : SameItems items items' := by
  induction h with
  | nil => exact .nil
  | @cons a b items items' hab _ ih =>
      obtain ⟨key, t⟩ := a
      obtain ⟨key', t'⟩ := b
      exact .cons hab ih

theorem sameMembers_of_forall {members members' : List (Units × JsonTree)}
    (h : List.Forall₂ (fun a b => a.1 = b.1 ∧ SameTree a.2 b.2) members members') :
    SameMembers members members' := by
  induction h with
  | nil => exact .nil
  | @cons a b members members' hab _ ih =>
      obtain ⟨key, t⟩ := a
      obtain ⟨key', t'⟩ := b
      obtain ⟨hkey, hsame⟩ := hab
      obtain rfl : key = key' := hkey
      exact .cons hsame ih

/-! ## JSON trees -/

variable {doubles : Doubles}

/-- An unfolded JSON value. -/
inductive IsJsonTree (doubles : Doubles) : JsonTree → Prop where
  | leaf {s : Scalar} : IsJsonScalar doubles s → IsJsonTree doubles (.leaf s)
  | array {items : List (Units × JsonTree)} :
      (∀ item ∈ items, IsJsonTree doubles item.2) → IsJsonTree doubles (.branch .array items)
  | plain {members : List (Units × JsonTree)} : (members.map Prod.fst).Nodup →
      (∀ member ∈ members, IsJsonTree doubles member.2) →
      IsJsonTree doubles (.branch .plain members)

theorem IsJsonTree.items {items : List (Units × JsonTree)}
    (h : IsJsonTree doubles (.branch .array items)) : ∀ item ∈ items, IsJsonTree doubles item.2 := by
  cases h with
  | array hall => exact hall

theorem IsJsonTree.members {members : List (Units × JsonTree)}
    (h : IsJsonTree doubles (.branch .plain members)) :
    (members.map Prod.fst).Nodup ∧ ∀ member ∈ members, IsJsonTree doubles member.2 := by
  cases h with
  | plain hnodup hall => exact ⟨hnodup, hall⟩

section Trees

variable {ν : Type} {g : Heap ν}

mutual

theorem isJsonTree_of_unfolds {v : Scalar ⊕ ν} {t : JsonTree} (h : Unfolds g.toGraph v t)
    (hv : IsJsonValue doubles g v) : IsJsonTree doubles t := by
  cases h with
  | leaf s => exact .leaf (hv _ .refl)
  | @node n children hall =>
      have hchildren := isJsonTree_of_unfoldsAll hall fun e he => hv.child he
      cases hkind : g.label n with
      | array => exact .array hchildren
      | plain =>
          refine .plain ?_ hchildren
          rw [hall.keys]
          exact g.keys_nodup n hkind
      | other => exact absurd hkind (hv _ .refl)

theorem isJsonTree_of_unfoldsAll {es : List (Units × (Scalar ⊕ ν))} {ts : List (Units × JsonTree)}
    (h : UnfoldsAll g.toGraph es ts) (hes : ∀ e ∈ es, IsJsonValue doubles g e.2) :
    ∀ child ∈ ts, IsJsonTree doubles child.2 := by
  cases h with
  | nil => exact fun _ hc => absurd hc List.not_mem_nil
  | cons hfirst hrest =>
      intro child hc
      rcases List.mem_cons.mp hc with rfl | hc
      · exact isJsonTree_of_unfolds hfirst (hes _ List.mem_cons_self)
      · exact isJsonTree_of_unfoldsAll hrest (fun e he => hes e (List.mem_cons_of_mem _ he)) child hc

end

end Trees

/-! ## The same texts of the same values -/

theorem noTies_members {α : Type} {members : List (Units × α)} (h : (members.map Prod.fst).Nodup) :
    NoTies (fun a b : Units × α => compare a.1 b.1) members := by
  intro a ha b hb hab
  exact List.inj_on_of_nodup_map h ha hb (Std.LawfulEqOrd.compare_eq_iff_eq.mp hab)

instance transCmp_members {α : Type} :
    Std.TransCmp fun a b : Units × α => compare a.1 b.1 := transCmp_on compare Prod.fst

theorem sortMembers_perm {α : Type} {members members' : List (Units × α)}
    (h : (members.map Prod.fst).Nodup) (hperm : members'.Perm members) :
    sortMembers members' = sortMembers members := sorted_eq_of_perm (noTies_members h) hperm

variable (doubles) in
theorem canonicalMembers_perm {members ms : List (Units × JsonTree)} (h : members.Perm ms) :
    (canonicalMembers doubles members).Perm (canonicalMembers doubles ms) := by
  rw [canonicalMembers_eq, canonicalMembers_eq]
  exact h.map _

variable (doubles) in
theorem canonicalMembers_keys (members : List (Units × JsonTree)) :
    (canonicalMembers doubles members).map Prod.fst = members.map Prod.fst := by
  rw [canonicalMembers_eq, List.map_map]
  rfl

mutual

theorem canonicalText_eq_of_same : ∀ {t t' : JsonTree}, SameTree t t' → IsJsonTree doubles t →
    canonicalText doubles t = canonicalText doubles t'
  | _, _, .leaf _, _ => rfl
  | _, _, .array hitems, ht => by
      rw [canonicalText, canonicalText, canonicalItems_eq_of_same hitems ht.items]
  | _, _, .plain hperm hmembers hperm', ht => by
      have htexts := canonicalMembers_eq_of_same hmembers fun m hm =>
        ht.members.2 m (hperm.mem_iff.mpr hm)
      have hfirst := canonicalMembers_perm doubles hperm
      have hlast := canonicalMembers_perm doubles hperm'
      rw [← htexts] at hlast
      have hkeys := ht.members.1
      rw [← canonicalMembers_keys doubles] at hkeys
      rw [canonicalText, canonicalText, sortMembers_perm hkeys (hlast.symm.trans hfirst.symm)]

theorem canonicalItems_eq_of_same : ∀ {items items' : List (Units × JsonTree)},
    SameItems items items' → (∀ item ∈ items, IsJsonTree doubles item.2) →
    canonicalItems doubles items = canonicalItems doubles items'
  | _, _, .nil, _ => rfl
  | _, _, .cons hfirst hrest, hall => by
      rw [canonicalItems, canonicalItems, canonicalText_eq_of_same hfirst (hall _ List.mem_cons_self),
        canonicalItems_eq_of_same hrest fun m hm => hall m (List.mem_cons_of_mem _ hm)]

theorem canonicalMembers_eq_of_same : ∀ {members members' : List (Units × JsonTree)},
    SameMembers members members' → (∀ member ∈ members, IsJsonTree doubles member.2) →
    canonicalMembers doubles members = canonicalMembers doubles members'
  | _, _, .nil, _ => rfl
  | _, _, .cons hfirst hrest, hall => by
      rw [canonicalMembers, canonicalMembers,
        canonicalText_eq_of_same hfirst (hall _ List.mem_cons_self),
        canonicalMembers_eq_of_same hrest fun m hm => hall m (List.mem_cons_of_mem _ hm)]

end

/-! ## How a value begins -/

inductive ValueShape where
  | null
  | bool
  | number
  | string
  | array
  | plain
deriving DecidableEq

def scalarShape : Scalar → ValueShape
  | .null => .null
  | .bool _ => .bool
  | .string _ => .string
  | _ => .number

def treeShape : JsonTree → ValueShape
  | .leaf s => scalarShape s
  | .branch .array _ => .array
  | .branch _ _ => .plain

/-- The shape of a value that begins with a character. -/
def shapeOf (c : Char) : ValueShape :=
  if c = 'n' then .null
  else if c = 't' ∨ c = 'f' then .bool
  else if c = '"' then .string
  else if c = '[' then .array
  else if c = '\x7b' then .plain
  else .number

theorem shapeOf_number {c : Char} (h : isNumberChar c = true) : shapeOf c = .number ∧ c ≠ ']' := by
  have hne : ∀ d : Char, isNumberChar d = false → c ≠ d := by
    rintro d hd rfl
    rw [hd] at h
    cases h
  refine ⟨?_, hne ']' (by decide)⟩
  rw [shapeOf, if_neg (hne 'n' (by decide)),
    if_neg (not_or.mpr ⟨hne 't' (by decide), hne 'f' (by decide)⟩), if_neg (hne '"' (by decide)),
    if_neg (hne '[' (by decide)), if_neg (hne '\x7b' (by decide))]

theorem canonicalText_array (items : List (Units × JsonTree)) :
    canonicalText doubles (.branch .array items) =
      ['['] ++ listCode (fun item => canonicalText doubles item.2) ',' ']' items := by
  rw [canonicalText, canonicalItems_eq]
  rfl

theorem canonicalText_plain (members : List (Units × JsonTree)) :
    canonicalText doubles (.branch .plain members) =
      ['\x7b'] ++ listCode (fun member => memberText (member.1, canonicalText doubles member.2)) ','
        '\x7d' (sortMembers members) := by
  have hsorted := sortMembers_map (canonicalText doubles) members
  rw [canonicalText, canonicalMembers_eq, hsorted, objectText, List.map_map]
  rfl

section Apart

variable (hread : doubles.ReadsBack)

include hread

/-- A value begins with a character that tells its shape. -/
theorem exists_canonicalText_cons {t : JsonTree} (h : IsJsonTree doubles t) :
    ∃ c rest, canonicalText doubles t = c :: rest ∧ shapeOf c = treeShape t ∧ c ≠ ']' := by
  cases h with
  | array hall => exact ⟨'[', _, canonicalText_array _, rfl, by decide⟩
  | plain hnodup hall => exact ⟨'\x7b', _, canonicalText_plain _, rfl, by decide⟩
  | @leaf s hs =>
      rw [canonicalText]
      cases s with
      | undefined => exact hs.elim
      | callable => exact hs.elim
      | null => exact ⟨'n', _, rfl, rfl, by decide⟩
      | bool b =>
          cases b with
          | true => exact ⟨'t', _, rfl, rfl, by decide⟩
          | false => exact ⟨'f', _, rfl, rfl, by decide⟩
      | string s => exact ⟨'"', _, quote_eq_cons s, rfl, by decide⟩
      | number n =>
          cases n with
          | nan => exact hs.elim
          | infinite b => exact hs.elim
          | finite q =>
              obtain ⟨c, rest, htext, hc⟩ := hread.exists_cons hs
              exact ⟨c, rest, htext, (shapeOf_number hc).1, (shapeOf_number hc).2⟩

/-- Texts that begin alike are those of values of one shape. -/
theorem treeShape_eq {t t' : JsonTree} (h : IsJsonTree doubles t) (h' : IsJsonTree doubles t')
    {r r' : Text} (heq : canonicalText doubles t ++ r = canonicalText doubles t' ++ r') :
    treeShape t = treeShape t' := by
  obtain ⟨c, rest, htext, hc, _⟩ := exists_canonicalText_cons hread h
  obtain ⟨c', rest', htext', hc', _⟩ := exists_canonicalText_cons hread h'
  rw [htext, htext'] at heq
  rw [← hc, ← hc', (List.cons.inj heq).1]

theorem scalar_tellsApart {s s' : Scalar} (h : IsJsonScalar doubles s) (h' : IsJsonScalar doubles s')
    (hshape : scalarShape s = scalarShape s') :
    TellsApart Delimited (s = s') (canonicalText doubles (.leaf s)) (canonicalText doubles (.leaf s')) := by
  rw [canonicalText, canonicalText]
  intro r r' hr hr' heq
  cases s with
  | undefined => exact h.elim
  | callable => exact h.elim
  | null =>
      obtain rfl : s' = .null := by
        cases s' <;> first | rfl | cases hshape
      exact ⟨rfl, List.append_cancel_left heq⟩
  | bool b =>
      obtain ⟨b', rfl⟩ : ∃ b', s' = .bool b' := by
        cases s' <;> first | exact ⟨_, rfl⟩ | cases hshape
      cases b <;> cases b' <;> cases heq <;> exact ⟨rfl, rfl⟩
  | string s =>
      obtain ⟨s', rfl⟩ : ∃ s'', s' = .string s'' := by
        cases s' <;> first | exact ⟨_, rfl⟩ | cases hshape
      obtain ⟨rfl, hrest⟩ := prefixFree_quote s s' trivial trivial r r' heq
      exact ⟨rfl, hrest⟩
  | number n =>
      obtain ⟨q, rfl, hq⟩ : ∃ q, n = .finite q ∧ doubles.round q = .finite q := by
        cases n <;> first | exact h.elim | exact ⟨_, rfl, h⟩
      obtain ⟨q', rfl, hq'⟩ : ∃ q', s' = .number (.finite q') ∧ doubles.round q' = .finite q' := by
        cases s' with
        | number n' => cases n' <;> first | exact h'.elim | exact ⟨_, rfl, h'⟩
        | _ => first | exact h'.elim | cases hshape
      obtain ⟨rfl, hrest⟩ := hread.tellsApart hq hq' r r' hr hr' heq
      exact ⟨rfl, hrest⟩

/-- **The text of a value tells it up to the order of keys**, and where it ends. The induction is on
the value; items and members are told apart one by one. -/
theorem canonicalText_tellsApart {t : JsonTree} (h : IsJsonTree doubles t) :
    ∀ {t' : JsonTree}, IsJsonTree doubles t' →
      TellsApart Delimited (SameTree t t') (canonicalText doubles t) (canonicalText doubles t') := by
  have hdelimited : ∀ c r, c = ',' ∨ c = ']' ∨ c = '\x7d' → Delimited (c :: r) := by
    intro c r hc d hd
    obtain rfl : c = d := Option.some.inj hd
    exact hc
  induction h with
  | @leaf s hs =>
      intro t' h' r r' hr hr' heq
      have hshape := treeShape_eq hread (.leaf hs) h' heq
      cases h' with
      | @leaf s' hs' =>
          obtain ⟨rfl, hrest⟩ := scalar_tellsApart hread hs hs' hshape r r' hr hr' heq
          exact ⟨.leaf s, hrest⟩
      | array hall => cases s <;> cases hshape
      | plain hnodup hall => cases s <;> cases hshape
  | @array items hall ih =>
      intro t' h' r r' hr hr' heq
      have hshape := treeShape_eq hread (.array hall) h' heq
      cases h' with
      | @leaf s' hs' => cases s' <;> cases hshape
      | plain hnodup hall' => cases hshape
      | @array items' hall' =>
          have hlists : TellsApart (fun _ => True)
              (List.Forall₂ (fun a b : Units × JsonTree => SameTree a.2 b.2) items items')
              (listCode (fun item => canonicalText doubles item.2) ',' ']' items)
              (listCode (fun item => canonicalText doubles item.2) ',' ']' items') := by
            refine listCode_tellsApart (by decide)
              (fun r => ⟨hdelimited _ r (.inl rfl), hdelimited _ r (.inr (.inl rfl))⟩) ?_
              fun a ha b hb => ih a ha (hall' b hb)
            intro a ha
            have htree : IsJsonTree doubles a.2 := (List.mem_append.mp ha).elim (hall a) (hall' a)
            obtain ⟨c, rest, htext, _, hc⟩ := exists_canonicalText_cons hread htree
            exact ⟨c, rest, htext, hc⟩
          rw [canonicalText_array, canonicalText_array] at heq
          obtain ⟨hsame, hrest⟩ := hlists.after ['['] r r' trivial trivial heq
          exact ⟨.array (sameItems_of_forall hsame), hrest⟩
  | @plain members hnodup hall ih =>
      intro t' h' r r' hr hr' heq
      have hshape := treeShape_eq hread (.plain hnodup hall) h' heq
      cases h' with
      | @leaf s' hs' => cases s' <;> cases hshape
      | array hall' => cases hshape
      | @plain members' hnodup' hall' =>
          have hmembers : TellsApart (fun _ => True)
              (List.Forall₂ (fun a b : Units × JsonTree => a.1 = b.1 ∧ SameTree a.2 b.2)
                (sortMembers members) (sortMembers members'))
              (listCode (fun member => memberText (member.1, canonicalText doubles member.2)) ','
                '\x7d' (sortMembers members))
              (listCode (fun member => memberText (member.1, canonicalText doubles member.2)) ','
                '\x7d' (sortMembers members')) := by
            refine listCode_tellsApart (by decide)
              (fun r => ⟨hdelimited _ r (.inl rfl), hdelimited _ r (.inr (.inr rfl))⟩) ?_ ?_
            · intro a _
              exact ⟨'"', _, quote_append a.1 (':' :: canonicalText doubles a.2), by decide⟩
            · intro a ha b hb
              have hvalue := ih a (mem_sorted.mp ha) (hall' b (mem_sorted.mp hb))
              exact prefixFree_quote.before_text trivial trivial (hvalue.after [':'])
          rw [canonicalText_plain, canonicalText_plain] at heq
          obtain ⟨hsame, hrest⟩ := hmembers.after ['\x7b'] r r' trivial trivial heq
          exact ⟨.plain (List.perm_insertionSort _ members).symm (sameMembers_of_forall hsame)
            (List.perm_insertionSort _ members'), hrest⟩

theorem canonicalText_inj {t t' : JsonTree} (h : IsJsonTree doubles t) (h' : IsJsonTree doubles t')
    (heq : canonicalText doubles t = canonicalText doubles t') : SameTree t t' := by
  have hnil : Delimited [] := fun c hc => absurd hc (by simp)
  exact (canonicalText_tellsApart hread h h' [] [] hnil hnil (by rw [heq])).1

end Apart

/-! ## The two functions -/

section Law

variable {ν ε : Type} [Fintype ν] [DecidableEq ν]

/-- A function writes canonical JSON: it returns on the JSON values without a cycle, and the texts of
two of them are the same just if the values are, up to the order of keys. -/
structure IsCanonical (doubles : Doubles) (write : Heap ν → Scalar ⊕ ν → Except (Option ε) Text)
    (cycle : ε) : Prop where
  accepts : ∀ g v, IsJsonValue doubles g v → ((∃ text, write g v = .ok text) ↔ ¬ g.Cyclic v)
  rejects : ∀ g v, IsJsonValue doubles g v → g.Cyclic v → write g v = .error (some cycle)
  injective : ∀ g g' v v', IsJsonValue doubles g v → IsJsonValue doubles g' v' → ¬ g.Cyclic v →
    ¬ g'.Cyclic v' → (write g v = write g' v' ↔ SameValue g v g' v')

/-- What a call comes to with an empty set. -/
theorem writeCanonical_cases (errors : CanonicalErrors ε) {g : Heap ν} {v : Scalar ⊕ ν}
    (hv : IsJsonValue doubles g v) :
    (∃ t, Unfolds g.toGraph v t ∧ writeCanonical doubles errors g v = .ok (canonicalText doubles t)) ∨
      writeCanonical doubles errors g v = .error (some errors.cycle) ∧ g.Cyclic v := by
  have hfuel : Fintype.card ν < Fintype.card ν + 1 + (∅ : Finset ν).card := by
    rw [Finset.card_empty]
    omega
  have hcomes : ComesTo doubles errors g v ∅ _ := canonicalJson_comesTo hv hfuel
  rcases hcomes with ⟨t, ht, hok, _⟩ | ⟨herror, hcycle⟩
  · refine .inl ⟨t, ht, ?_⟩
    rw [writeCanonical, hok]
    rfl
  · refine .inr ⟨?_, ?_⟩
    · rw [writeCanonical, herror]
      rfl
    · rcases hcycle with hcycle | ⟨m, hm, _⟩
      · exact hcycle
      · exact absurd hm (Finset.notMem_empty m)

theorem writeCanonical_isCanonical (hread : doubles.ReadsBack) (errors : CanonicalErrors ε) :
    IsCanonical doubles (ν := ν) (writeCanonical doubles errors) errors.cycle where
  accepts g v hv := by
    rcases writeCanonical_cases errors hv with ⟨t, ht, hok⟩ | ⟨herror, hcycle⟩
    · exact ⟨fun _ => ht.acyclic, fun _ => ⟨_, hok⟩⟩
    · refine ⟨fun ⟨text, hok⟩ => ?_, fun hacyclic => absurd hcycle hacyclic⟩
      rw [herror] at hok
      cases hok
  rejects g v hv hcycle := by
    rcases writeCanonical_cases errors hv with ⟨t, ht, _⟩ | ⟨herror, _⟩
    · exact absurd hcycle ht.acyclic
    · exact herror
  injective g g' v v' hv hv' hacyclic hacyclic' := by
    rcases writeCanonical_cases errors hv with ⟨t, ht, hok⟩ | ⟨_, hcycle⟩
    · rcases writeCanonical_cases errors hv' with ⟨t', ht', hok'⟩ | ⟨_, hcycle⟩
      · have htree := isJsonTree_of_unfolds ht hv
        have htree' := isJsonTree_of_unfolds ht' hv'
        rw [hok, hok']
        constructor
        · intro hsame
          exact ⟨t, t', ht, ht', canonicalText_inj hread htree htree' (Except.ok.inj hsame)⟩
        · rintro ⟨u, u', hu, hu', hsame⟩
          rw [← hu.unique ht, ← hu'.unique ht', canonicalText_eq_of_same hsame]
          rw [hu.unique ht]
          exact htree
      · exact absurd hcycle hacyclic'
    · exact absurd hcycle hacyclic

/-- **Both functions write canonical JSON.** -/
theorem canonical_json_injective (doubles : Doubles) (hread : doubles.ReadsBack) :
    IsCanonical (ν := ν) doubles (canonicalProposalExecutionJson doubles) executionErrors.cycle ∧
      IsCanonical (ν := ν) doubles (stableJson doubles) evalErrors.cycle :=
  ⟨writeCanonical_isCanonical hread executionErrors, writeCanonical_isCanonical hread evalErrors⟩

end Law

/-! ## A shared object, and an array within itself -/

theorem isJsonValue_of_heap {ν : Type} {g : Heap ν} (hlabel : ∀ n, g.label n ≠ .other)
    (hleaf : ∀ n k s, (k, Sum.inl s) ∈ g.edges n → IsJsonScalar doubles s) (n : ν) :
    IsJsonValue doubles g (.inr n) := by
  intro w hw
  rcases Relation.ReflTransGen.cases_tail hw with rfl | ⟨_, _, m, k, _, hm⟩
  · exact hlabel n
  · cases w with
    | inl s => exact hleaf m k s hm
    | inr m' => exact hlabel m'

/-- An array with one object twice. -/
def sharedObjects : Graph Scalar Units ValueKind Bool where
  label | false => .array | true => .plain
  edges
    | false => [(unitsOf ['0'], .inr true), (unitsOf ['1'], .inr true)]
    | true => [(unitsOf ['a'], .inl (.bool true))]

theorem sharedObjects_keys : ∀ n, sharedObjects.label n = .plain →
    ((sharedObjects.edges n).map Prod.fst).Nodup := by
  decide

def sharedHeap : Heap Bool := { sharedObjects with keys_nodup := sharedObjects_keys }

/-- An array that is its own item. -/
def loopHeap : Heap Unit where
  label _ := .array
  edges _ := [(unitsOf ['0'], .inr ())]
  keys_nodup _ h := by cases h

theorem sharedHeap_unfolds : ∃ t, Unfolds sharedHeap.toGraph (.inr false) t :=
  ⟨_, .node (.cons (.node (.cons (.leaf _) .nil)) (.cons (.node (.cons (.leaf _) .nil)) .nil))⟩

theorem loopHeap_cyclic : loopHeap.Cyclic (.inr ()) :=
  ⟨(), ⟨(), rfl, .refl⟩, .single ⟨_, List.mem_singleton.mpr rfl⟩⟩

theorem sharedHeap_isJsonValue (n : Bool) : IsJsonValue naturalDoubles sharedHeap (.inr n) := by
  refine isJsonValue_of_heap (Bool.forall_bool.mpr ⟨by decide, by decide⟩)
    (Bool.forall_bool.mpr ⟨fun k s hs => ?_, fun k s hs => ?_⟩) n
  · simp [sharedHeap, sharedObjects] at hs
  · simp only [sharedHeap, sharedObjects, List.mem_singleton, Prod.mk.injEq, Sum.inl.injEq] at hs
    rw [hs.2]
    trivial

theorem loopHeap_isJsonValue : IsJsonValue naturalDoubles loopHeap (.inr ()) := by
  refine isJsonValue_of_heap (fun n h => ?_) (fun n k s hs => ?_) ()
  · cases h
  · simp [loopHeap] at hs

theorem canonical_json_injective_shared :
    (∃ text, canonicalProposalExecutionJson naturalDoubles sharedHeap (.inr false) = .ok text) ∧
      stableJson naturalDoubles loopHeap (.inr ()) = .error (some evalErrors.cycle) := by
  have hshared := canonical_json_injective (ν := Bool) naturalDoubles naturalDoubles_readsBack
  have hloop := canonical_json_injective (ν := Unit) naturalDoubles naturalDoubles_readsBack
  obtain ⟨t, ht⟩ := sharedHeap_unfolds
  exact ⟨(hshared.1.accepts sharedHeap (.inr false) (sharedHeap_isJsonValue false)).mpr ht.acyclic,
    hloop.2.rejects loopHeap (.inr ()) loopHeap_isJsonValue loopHeap_cyclic⟩

end Caveat.Proposal
