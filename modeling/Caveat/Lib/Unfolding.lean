import Mathlib.Logic.Relation
import Mathlib.Data.Fintype.Card
import Mathlib.Data.Fintype.EquivFin

/-!
# Graphs and their unfoldings

A value of a graph is a leaf or a node, and a node has a label and labelled edges to values. Followed
from a value on, the edges unfold to a tree, in which a shared node stands once for each path to it.
The tree is finite exactly if no node that is reached comes back to itself.
-/

namespace Caveat.Lib

open Relation (ReflTransGen TransGen)

variable {σ κ ℓ ν : Type}

structure Graph (σ κ ℓ ν : Type) where
  label : ν → ℓ
  edges : ν → List (κ × (σ ⊕ ν))

inductive Tree (σ κ ℓ : Type) where
  | leaf (s : σ)
  | branch (label : ℓ) (children : List (κ × Tree σ κ ℓ))

mutual

/-- A value, followed to all its leaves. -/
inductive Unfolds (g : Graph σ κ ℓ ν) : σ ⊕ ν → Tree σ κ ℓ → Prop where
  | leaf (s : σ) : Unfolds g (.inl s) (.leaf s)
  | node {n : ν} {children : List (κ × Tree σ κ ℓ)} :
      UnfoldsAll g (g.edges n) children → Unfolds g (.inr n) (.branch (g.label n) children)

/-- The values at some edges, one after the other. -/
inductive UnfoldsAll (g : Graph σ κ ℓ ν) :
    List (κ × (σ ⊕ ν)) → List (κ × Tree σ κ ℓ) → Prop where
  | nil : UnfoldsAll g [] []
  | cons {k : κ} {v : σ ⊕ ν} {t : Tree σ κ ℓ} {edges : List (κ × (σ ⊕ ν))}
      {children : List (κ × Tree σ κ ℓ)} :
      Unfolds g v t → UnfoldsAll g edges children → UnfoldsAll g ((k, v) :: edges) ((k, t) :: children)

end

mutual

/-- The number of nodes and leaves. -/
def Tree.size : Tree σ κ ℓ → Nat
  | .leaf _ => 1
  | .branch _ children => Tree.sizeAll children + 1

def Tree.sizeAll : List (κ × Tree σ κ ℓ) → Nat
  | [] => 0
  | (_, t) :: children => t.size + Tree.sizeAll children

end

mutual

/-- The number of edges down to the lowest leaf or node. -/
def Tree.depth : Tree σ κ ℓ → Nat
  | .leaf _ => 0
  | .branch _ children => Tree.depthAll children

def Tree.depthAll : List (κ × Tree σ κ ℓ) → Nat
  | [] => 0
  | (_, t) :: children => max (t.depth + 1) (Tree.depthAll children)

end

mutual

/-- The number of nodes, leaves and edges. -/
def Tree.expanded : Tree σ κ ℓ → Nat
  | .leaf _ => 1
  | .branch _ children => 1 + Tree.expandedAll children

def Tree.expandedAll : List (κ × Tree σ κ ℓ) → Nat
  | [] => 0
  | (_, t) :: children => 1 + t.expanded + Tree.expandedAll children

end

variable {g : Graph σ κ ℓ ν}

mutual

/-- A value has one unfolding. -/
theorem Unfolds.unique {v : σ ⊕ ν} {t t' : Tree σ κ ℓ} (h : Unfolds g v t) (h' : Unfolds g v t') :
    t = t' := by
  cases h with
  | leaf s =>
      cases h' with
      | leaf => rfl
  | node hall =>
      cases h' with
      | node hall' => rw [hall.unique hall']

theorem UnfoldsAll.unique {edges : List (κ × (σ ⊕ ν))} {ts ts' : List (κ × Tree σ κ ℓ)}
    (h : UnfoldsAll g edges ts) (h' : UnfoldsAll g edges ts') : ts = ts' := by
  cases h with
  | nil =>
      cases h' with
      | nil => rfl
  | cons hfirst hrest =>
      cases h' with
      | cons hfirst' hrest' => rw [hfirst.unique hfirst', hrest.unique hrest']

end

/-! ## Reaching nodes -/

/-- A node has an edge to another. -/
def Graph.Child (g : Graph σ κ ℓ ν) (n m : ν) : Prop := ∃ k, (k, Sum.inr m) ∈ g.edges n

/-- A value is a node from which another is reached. -/
def Graph.Meets (g : Graph σ κ ℓ ν) (v : σ ⊕ ν) (m : ν) : Prop :=
  ∃ n, v = .inr n ∧ ReflTransGen g.Child n m

/-- A node that the value reaches comes back to itself. -/
def Graph.Cyclic (g : Graph σ κ ℓ ν) (v : σ ⊕ ν) : Prop := ∃ m, g.Meets v m ∧ TransGen g.Child m m

theorem Graph.Meets.of_edge {n m : ν} {k : κ} {v : σ ⊕ ν} (hv : (k, v) ∈ g.edges n)
    (h : g.Meets v m) : TransGen g.Child n m := by
  obtain ⟨n', rfl, hm⟩ := h
  exact .head' ⟨k, hv⟩ hm

theorem Graph.Cyclic.of_edge {n : ν} {k : κ} {v : σ ⊕ ν} (hv : (k, v) ∈ g.edges n)
    (h : g.Cyclic v) : g.Cyclic (.inr n) := by
  obtain ⟨m, hmeets, hm⟩ := h
  exact ⟨m, ⟨n, rfl, (hmeets.of_edge hv).to_reflTransGen⟩, hm⟩

/-- The children stand under the keys of the edges. -/
theorem UnfoldsAll.keys {edges : List (κ × (σ ⊕ ν))} {ts : List (κ × Tree σ κ ℓ)}
    (h : UnfoldsAll g edges ts) : ts.map Prod.fst = edges.map Prod.fst := by
  induction edges generalizing ts with
  | nil =>
      cases h with
      | nil => rfl
  | cons e edges ih =>
      cases h with
      | cons hfirst hrest => rw [List.map_cons, List.map_cons, ih hrest]

theorem UnfoldsAll.child {edges : List (κ × (σ ⊕ ν))} {ts : List (κ × Tree σ κ ℓ)}
    (h : UnfoldsAll g edges ts) {k : κ} {v : σ ⊕ ν} (hv : (k, v) ∈ edges) :
    ∃ t, Unfolds g v t ∧ t.size ≤ Tree.sizeAll ts := by
  induction edges generalizing ts with
  | nil => exact absurd hv List.not_mem_nil
  | cons e edges ih =>
      cases h with
      | @cons _ w t _ ts hfirst hrest =>
          rw [Tree.sizeAll]
          rcases List.mem_cons.mp hv with heq | hv
          · obtain ⟨rfl, rfl⟩ := Prod.mk.inj heq
            exact ⟨t, hfirst, by omega⟩
          · obtain ⟨t', ht', hle⟩ := ih hrest hv
            exact ⟨t', ht', by omega⟩

/-- What a node unfolds to is larger than what its children do. -/
theorem Unfolds.child {n m : ν} {t : Tree σ κ ℓ} (h : Unfolds g (.inr n) t) (hm : g.Child n m) :
    ∃ t', Unfolds g (.inr m) t' ∧ t'.size < t.size := by
  obtain ⟨k, hk⟩ := hm
  cases h with
  | node hall =>
      obtain ⟨t', ht', hle⟩ := hall.child hk
      exact ⟨t', ht', by rw [Tree.size]; omega⟩

theorem Unfolds.descendant {n m : ν} {t : Tree σ κ ℓ} (h : Unfolds g (.inr n) t)
    (hm : TransGen g.Child n m) : ∃ t', Unfolds g (.inr m) t' ∧ t'.size < t.size := by
  induction hm with
  | single hm => exact h.child hm
  | tail _ hm ih =>
      obtain ⟨t', ht', hlt⟩ := ih
      obtain ⟨t'', ht'', hlt'⟩ := ht'.child hm
      exact ⟨t'', ht'', hlt'.trans hlt⟩

/-- A node with a finite unfolding does not come back to itself. -/
theorem Unfolds.irrefl {n : ν} {t : Tree σ κ ℓ} (h : Unfolds g (.inr n) t) :
    ¬ TransGen g.Child n n := by
  intro hn
  obtain ⟨t', ht', hlt⟩ := h.descendant hn
  rw [ht'.unique h] at hlt
  exact Nat.lt_irrefl _ hlt

theorem Unfolds.acyclic {v : σ ⊕ ν} {t : Tree σ κ ℓ} (h : Unfolds g v t) : ¬ g.Cyclic v := by
  rintro ⟨m, ⟨n, rfl, hn⟩, hm⟩
  rcases Relation.reflTransGen_iff_eq_or_transGen.mp hn with rfl | hn
  · exact h.irrefl hm
  · obtain ⟨t', ht', _⟩ := h.descendant hn
    exact ht'.irrefl hm

theorem exists_unfoldsAll {edges : List (κ × (σ ⊕ ν))}
    (h : ∀ m, (∃ k, (k, Sum.inr m) ∈ edges) → ∃ t, Unfolds g (.inr m) t) :
    ∃ ts, UnfoldsAll g edges ts := by
  induction edges with
  | nil => exact ⟨[], .nil⟩
  | cons e edges ih =>
      obtain ⟨k, v⟩ := e
      obtain ⟨ts, hts⟩ := ih fun m ⟨k', hk'⟩ => h m ⟨k', List.mem_cons_of_mem _ hk'⟩
      cases v with
      | inl s => exact ⟨(k, .leaf s) :: ts, .cons (.leaf s) hts⟩
      | inr m =>
          obtain ⟨t, ht⟩ := h m ⟨k, List.mem_cons_self⟩
          exact ⟨(k, t) :: ts, .cons ht hts⟩

/-- **In a finite graph the unfolding is finite where there is no cycle.** -/
theorem exists_unfolds [Finite ν] {v : σ ⊕ ν} (h : ¬ g.Cyclic v) : ∃ t, Unfolds g v t := by
  let below : {m // g.Meets v m} → {m // g.Meets v m} → Prop := fun m n => TransGen g.Child n.1 m.1
  have : IsTrans _ below := ⟨fun _ _ _ hab hbc => hbc.trans hab⟩
  have : Std.Irrefl below := ⟨fun m hm => h ⟨m.1, m.2, hm⟩⟩
  have hwf := Finite.wellFounded_of_trans_of_irrefl below
  have hnode : ∀ m : {m // g.Meets v m}, ∃ t, Unfolds g (.inr m.1) t := by
    intro m
    induction m using hwf.induction with
    | h m ih =>
        obtain ⟨n, hv, hn⟩ := m.2
        obtain ⟨ts, hts⟩ := @exists_unfoldsAll _ _ _ _ g (g.edges m.1) fun m' hm' =>
          ih ⟨m', n, hv, hn.tail hm'⟩ (.single hm')
        exact ⟨_, .node hts⟩
  cases v with
  | inl s => exact ⟨_, .leaf s⟩
  | inr n => exact hnode ⟨n, n, rfl, .refl⟩

end Caveat.Lib
