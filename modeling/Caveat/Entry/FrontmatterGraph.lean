import Caveat.Entry.Constraints
import Caveat.Entry.ArgumentSize
import Caveat.Lib.Loop

/-!
# The limits on a frontmatter graph

`assertFrontmatterGraph` walks the values of a frontmatter with their aliases: a shared object is
counted at each place it occurs, and the walk stops at a bound or at an object that stands above
itself.
-/

namespace Caveat.Entry

open Js
open Lib (Graph Tree Unfolds UnfoldsAll bind_eq_ok)

variable {ν : Type}

/-- `Buffer.byteLength` of a string of code units. -/
def unitsByteLength (s : Units) : Nat := (toUtf8 s).length

def GraphCount.addUnits (c : GraphCount) (s : Units) : GraphCount :=
  { c with scalarBytes := c.scalarBytes + unitsByteLength s }

section Walk

variable [DecidableEq ν] (g : ObjectGraph ν)

/-- `visit`. `ancestors` holds the objects above the value: each is deleted once its entries are
done. -/
def visitGraph (v : Scalar ⊕ ν) (depth : Nat) (ancestors : Finset ν) (c : GraphCount) :
    Except EntryError GraphCount := do
  let c ← c.tick
  if _h : depthLimit < depth then
    .error (.constraint
      { field := "frontmatter.depth", limit := depthLimit, actual := depth
        measure := .depth, actualKind := .lowerBound })
  else match v with
    | .inl (.string s) => .ok (c.addUnits s)
    | .inl _ => .ok c
    | .inr n =>
        if n ∈ ancestors then
          .error (.constraint
            { field := "frontmatter.graph", limit := graphLimit, actual := c.work
              measure := .expandedNodesAndEdges, actualKind := .lowerBound, reason := "cycle" })
        else
          (g.edges n).foldlM (fun c e => do
            let c ← c.tick
            visitGraph e.2 (depth + 1) (insert n ancestors)
              (if g.label n = .array then c else c.addUnits e.1)) c
termination_by depthLimit + 1 - depth
decreasing_by omega

/-- `assertFrontmatterGraph(value)`. -/
def assertValueGraph (v : Scalar ⊕ ν) : Except EntryError Unit := do
  let c ← visitGraph g v 0 ∅ { work := 0, scalarBytes := 0 }
  if frontmatterLimit < c.scalarBytes then
    .error (.constraint
      { field := "frontmatter", limit := frontmatterLimit, actual := c.scalarBytes
        actualKind := .lowerBound })
  else .ok ()

end Walk

/-! ## What is bounded -/

def leafBytes : Scalar → Nat
  | .string s => unitsByteLength s
  | _ => 0

/-- The bytes of a key; the index of an item counts nothing. -/
def keyBytes (kind : ObjectKind) (key : Units) : Nat :=
  if kind = .array then 0 else unitsByteLength key

mutual

/-- The bytes of the strings and the keys, each time they occur. -/
def scalarBytes : ObjectTree → Nat
  | .leaf s => leafBytes s
  | .branch kind children => scalarBytesAll kind children

def scalarBytesAll (kind : ObjectKind) : List (Units × ObjectTree) → Nat
  | [] => 0
  | (key, t) :: children => keyBytes kind key + scalarBytes t + scalarBytesAll kind children

end

/-- The limits on an unfolded value. -/
structure WithinLimits (t : ObjectTree) : Prop where
  expanded : t.expanded ≤ graphLimit
  depth : t.depth ≤ depthLimit
  scalars : scalarBytes t ≤ frontmatterLimit

/-! ## What the walk counts -/

theorem GraphCount.tick_eq_ok {c c' : GraphCount} :
    c.tick = .ok c' ↔ c.work + 1 ≤ graphLimit ∧ c' = { c with work := c.work + 1 } := by
  rw [GraphCount.tick]
  split
  · rename_i h
    exact ⟨fun h' => (nomatch h'), fun h' => absurd h'.1 (by omega)⟩
  · rename_i h
    exact ⟨fun h' => ⟨by omega, (Except.ok.inj h').symm⟩, fun h' => by rw [h'.2]⟩

/-- The counts after a tree. -/
def GraphCount.plus (c : GraphCount) (work bytes : Nat) : GraphCount :=
  { work := c.work + work, scalarBytes := c.scalarBytes + bytes }

theorem GraphCount.tick_plus {c : GraphCount} (h : c.work + 1 ≤ graphLimit) :
    c.tick = .ok (c.plus 1 0) := GraphCount.tick_eq_ok.mpr ⟨h, rfl⟩

theorem GraphCount.plus_plus (c : GraphCount) (work bytes work' bytes' : Nat) :
    (c.plus work bytes).plus work' bytes' = c.plus (work + work') (bytes + bytes') := by
  simp only [GraphCount.plus, Nat.add_assoc]

theorem GraphCount.addUnits_eq (c : GraphCount) (s : Units) :
    c.addUnits s = c.plus 0 (unitsByteLength s) := rfl

section Law

variable [DecidableEq ν] {g : ObjectGraph ν}

/-- One edge of an object. -/
def visitEntry (g : ObjectGraph ν) (n : ν) (depth : Nat) (ancestors : Finset ν) (c : GraphCount)
    (e : Units × (Scalar ⊕ ν)) : Except EntryError GraphCount := do
  let c ← c.tick
  visitGraph g e.2 (depth + 1) (insert n ancestors)
    (if g.label n = .array then c else c.addUnits e.1)

theorem visitGraph_leaf (s : Scalar) {depth : Nat} (h : depth ≤ depthLimit) (ancestors : Finset ν)
    (c : GraphCount) :
    visitGraph g (.inl s) depth ancestors c = c.tick.map fun c => c.plus 0 (leafBytes s) := by
  rw [visitGraph]
  cases hc : c.tick with
  | error e => rfl
  | ok c =>
      show (if h : depthLimit < depth then _ else _) = _
      rw [dif_neg (by omega)]
      cases s <;> rfl

theorem visitGraph_node {n : ν} {depth : Nat} (h : depth ≤ depthLimit) {ancestors : Finset ν}
    (hn : n ∉ ancestors) (c : GraphCount) :
    visitGraph g (.inr n) depth ancestors c =
      c.tick.bind fun c => (g.edges n).foldlM (visitEntry g n depth ancestors) c := by
  rw [visitGraph]
  cases hc : c.tick with
  | error e => rfl
  | ok c =>
      show (if h : depthLimit < depth then _ else _) = _
      rw [dif_neg (by omega)]
      exact if_neg hn

theorem visitEntry_ok {n : ν} {depth : Nat} {ancestors : Finset ν} {c c' : GraphCount}
    {e : Units × (Scalar ⊕ ν)} :
    visitEntry g n depth ancestors c e = .ok c' ↔
      c.work + 1 ≤ graphLimit ∧
        visitGraph g e.2 (depth + 1) (insert n ancestors)
          (c.plus 1 (keyBytes (g.label n) e.1)) = .ok c' := by
  have hkey : (if g.label n = .array then c.plus 1 0 else (c.plus 1 0).addUnits e.1) =
      c.plus 1 (keyBytes (g.label n) e.1) := by
    rw [keyBytes, GraphCount.addUnits_eq, GraphCount.plus_plus, Nat.zero_add]
    split <;> rfl
  rw [visitEntry, bind_eq_ok]
  constructor
  · rintro ⟨c₁, htick, hvisit⟩
    obtain ⟨hwork, rfl⟩ := GraphCount.tick_eq_ok.mp htick
    exact ⟨hwork, hkey ▸ hvisit⟩
  · rintro ⟨hwork, hvisit⟩
    exact ⟨_, GraphCount.tick_plus hwork, hkey ▸ hvisit⟩

theorem visitGraph_deep {v : Scalar ⊕ ν} {depth : Nat} (h : depthLimit < depth)
    (ancestors : Finset ν) (c c' : GraphCount) : visitGraph g v depth ancestors c ≠ .ok c' := by
  intro hok
  rw [visitGraph] at hok
  obtain ⟨c₁, _, hok⟩ := bind_eq_ok.mp hok
  rw [dif_pos h] at hok
  cases hok

/-- What an accepted value counts as. -/
def Accepted (g : ObjectGraph ν) (v : Scalar ⊕ ν) (depth : Nat) (c c' : GraphCount) : Prop :=
  ∃ t, Unfolds g v t ∧ depth + t.depth ≤ depthLimit ∧ c'.work ≤ graphLimit ∧
    c' = c.plus t.expanded (scalarBytes t)

theorem visitEntries_sound {n : ν} {depth : Nat} {ancestors : Finset ν} (hdepth : depth ≤ depthLimit)
    (hvisit : ∀ v c c', visitGraph g v (depth + 1) (insert n ancestors) c = .ok c' →
      Accepted g v (depth + 1) c c')
    {edges : List (Units × (Scalar ⊕ ν))} {c c' : GraphCount} (hc : c.work ≤ graphLimit)
    (h : edges.foldlM (visitEntry g n depth ancestors) c = .ok c') :
    ∃ ts, UnfoldsAll g edges ts ∧ depth + Tree.depthAll ts ≤ depthLimit ∧ c'.work ≤ graphLimit ∧
      c' = c.plus (Tree.expandedAll ts) (scalarBytesAll (g.label n) ts) := by
  induction edges generalizing c with
  | nil =>
      cases h
      exact ⟨[], .nil, hdepth, hc, rfl⟩
  | cons e edges ih =>
      rw [List.foldlM_cons] at h
      obtain ⟨c₁, hentry, hrest⟩ := bind_eq_ok.mp h
      obtain ⟨t, ht, htdepth, hwork, rfl⟩ := hvisit _ _ _ (visitEntry_ok.mp hentry).2
      obtain ⟨ts, hts, htsdepth, hwork', rfl⟩ := ih hwork hrest
      refine ⟨(e.1, t) :: ts, .cons ht hts, ?_, hwork', ?_⟩
      · rw [Tree.depthAll]
        omega
      · rw [GraphCount.plus_plus, GraphCount.plus_plus, Tree.expandedAll, scalarBytesAll,
          Nat.add_assoc, Nat.add_assoc]

/-- **What is accepted is bounded.** The induction is on what is left of the depth. -/
theorem visitGraph_sound {room depth : Nat} (hroom : depth + room = depthLimit + 1)
    {v : Scalar ⊕ ν} {ancestors : Finset ν} {c c' : GraphCount}
    (h : visitGraph g v depth ancestors c = .ok c') : Accepted g v depth c c' := by
  induction room generalizing depth v ancestors c c' with
  | zero => exact absurd h (visitGraph_deep (by omega) _ _ _)
  | succ room ih =>
      have hdepth : depth ≤ depthLimit := by omega
      rcases v with s | n
      · rw [visitGraph_leaf s hdepth] at h
        cases hc : c.tick with
        | error e => rw [hc] at h; cases h
        | ok c₁ =>
            obtain ⟨hwork, rfl⟩ := GraphCount.tick_eq_ok.mp hc
            rw [hc] at h
            cases h
            exact ⟨.leaf s, .leaf s, by rwa [Tree.depth, Nat.add_zero], hwork, rfl⟩
      · by_cases hn : n ∈ ancestors
        · rw [visitGraph] at h
          obtain ⟨c₁, _, h⟩ := bind_eq_ok.mp h
          rw [dif_neg (by omega)] at h
          cases (if_pos hn).symm.trans h
        rw [visitGraph_node hdepth hn] at h
        obtain ⟨c₁, hc, h⟩ := bind_eq_ok.mp h
        obtain ⟨hwork, rfl⟩ := GraphCount.tick_eq_ok.mp hc
        obtain ⟨ts, hts, htsdepth, hwork', rfl⟩ :=
          visitEntries_sound hdepth (fun v c c' => ih (by omega)) hwork h
        refine ⟨_, .node hts, by rwa [Tree.depth], hwork', ?_⟩
        rw [Tree.expanded, scalarBytes]
        exact (c.plus_plus 1 0 _ _).trans (by rw [Nat.zero_add])

mutual

/-- **What is bounded is accepted.** A value with a finite unfolding does not meet the objects above
it. -/
theorem visitGraph_complete {v : Scalar ⊕ ν} {t : ObjectTree} (h : Unfolds g v t) {depth : Nat}
    {ancestors : Finset ν} {c : GraphCount} (hdepth : depth + t.depth ≤ depthLimit)
    (hfree : ∀ a ∈ ancestors, ¬ g.Meets v a) (hwork : c.work + t.expanded ≤ graphLimit) :
    visitGraph g v depth ancestors c = .ok (c.plus t.expanded (scalarBytes t)) := by
  cases h with
  | leaf s =>
      rw [Tree.depth] at hdepth
      rw [Tree.expanded] at hwork ⊢
      rw [visitGraph_leaf s (by omega), GraphCount.tick_plus hwork, scalarBytes]
      exact congrArg Except.ok ((c.plus_plus 1 0 0 _).trans (by rw [Nat.zero_add]))
  | @node n ts hall =>
      rw [Tree.depth] at hdepth
      rw [Tree.expanded] at hwork ⊢
      have hn : n ∉ ancestors := fun hn => hfree n hn ⟨n, rfl, .refl⟩
      rw [visitGraph_node (by omega) hn, GraphCount.tick_plus (by omega), scalarBytes]
      refine (visitEntries_complete hall hdepth ?_ ?_).trans ?_
      · intro e he a ha hmeets
        rcases Finset.mem_insert.mp ha with rfl | ha
        · exact (Unfolds.node hall).irrefl (hmeets.of_edge he)
        · exact hfree a ha ⟨n, rfl, (hmeets.of_edge he).to_reflTransGen⟩
      · show c.work + 1 + Tree.expandedAll ts ≤ graphLimit
        omega
      · rw [GraphCount.plus_plus, Nat.zero_add]

theorem visitEntries_complete {edges : List (Units × (Scalar ⊕ ν))}
    {ts : List (Units × ObjectTree)} (h : UnfoldsAll g edges ts) {n : ν} {depth : Nat}
    {ancestors : Finset ν} {c : GraphCount} (hdepth : depth + Tree.depthAll ts ≤ depthLimit)
    (hfree : ∀ e ∈ edges, ∀ a ∈ insert n ancestors, ¬ g.Meets e.2 a)
    (hwork : c.work + Tree.expandedAll ts ≤ graphLimit) :
    edges.foldlM (visitEntry g n depth ancestors) c =
      .ok (c.plus (Tree.expandedAll ts) (scalarBytesAll (g.label n) ts)) := by
  cases h with
  | nil => rfl
  | @cons k v t edges ts hfirst hrest =>
      rw [Tree.depthAll] at hdepth
      rw [Tree.expandedAll] at hwork ⊢
      have hvisit : visitGraph g v (depth + 1) (insert n ancestors) (c.plus 1 (keyBytes (g.label n) k)) =
          .ok _ :=
        visitGraph_complete hfirst (by omega) (hfree _ List.mem_cons_self)
          (by show c.work + 1 + t.expanded ≤ graphLimit; omega)
      have hentry : visitEntry g n depth ancestors c (k, v) = .ok _ :=
        visitEntry_ok.mpr ⟨by omega, hvisit⟩
      rw [GraphCount.plus_plus] at hentry
      rw [List.foldlM_cons, hentry, scalarBytesAll]
      refine (visitEntries_complete hrest (by omega)
        (fun e he => hfree e (List.mem_cons_of_mem _ he)) ?_).trans ?_
      · show c.work + (1 + t.expanded) + Tree.expandedAll ts ≤ graphLimit
        omega
      · rw [GraphCount.plus_plus]

end

/-- **The unfolding is bounded, not the graph.** A value is accepted if and only if it has a finite
unfolding within the limits; what is accepted has a JSON text, and that text is the text of such an
unfolding. -/
theorem value_graph_iff (g : ObjectGraph ν) (v : Scalar ⊕ ν) :
    (assertValueGraph g v = .ok () ↔ ∃ t, Unfolds g v t ∧ WithinLimits t) ∧
      (assertValueGraph g v = .ok () → (∀ s, v = .inl s → s.isOmitted = false) →
        ∀ doubles, ∃ t text, Unfolds g v t ∧ WithinLimits t ∧ jsonText doubles t = some text) := by
  have hiff : assertValueGraph g v = .ok () ↔ ∃ t, Unfolds g v t ∧ WithinLimits t := by
    rw [assertValueGraph, bind_eq_ok]
    constructor
    · rintro ⟨c, hvisit, hbytes⟩
      obtain ⟨t, ht, hdepth, hwork, rfl⟩ := visitGraph_sound (Nat.zero_add _) hvisit
      have hscalars : ¬ frontmatterLimit < 0 + scalarBytes t := by
        intro hlt
        cases (if_pos hlt).symm.trans hbytes
      simp only [GraphCount.plus, Nat.zero_add] at hwork hdepth
      exact ⟨t, ht, hwork, hdepth, by omega⟩
    · rintro ⟨t, ht, hlimits⟩
      refine ⟨_, visitGraph_complete ht (by simpa using hlimits.depth)
        (fun a ha => absurd ha (Finset.notMem_empty a)) (by simpa using hlimits.expanded), ?_⟩
      have hscalars : ¬ frontmatterLimit < 0 + scalarBytes t := by
        have := hlimits.scalars
        omega
      exact if_neg hscalars
  refine ⟨hiff, fun hok hv doubles => ?_⟩
  obtain ⟨t, ht, hlimits⟩ := hiff.mp hok
  have hsome : (jsonText doubles t).isSome = true := by
    rw [jsonText_isSome ht]
    rcases v with s | n
    · rw [Sum.elim_inl, hv s rfl]; rfl
    · rfl
  obtain ⟨text, htext⟩ := Option.isSome_iff_exists.mp hsome
  exact ⟨t, text, ht, hlimits, htext⟩

end Law

end Caveat.Entry
