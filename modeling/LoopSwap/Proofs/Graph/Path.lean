/-
**Paths, reachability and dominance.**

The analyses of a flow graph answer questions about its paths.  This module says what the
questions mean, without any algorithm: a path starts at the entry and follows edges between listed
nodes, a node is reachable if a path ends in it, and `a` dominates `b` if no path to `b` avoids `a`.

Most arguments about loops follow a walk that stays inside a set or keeps away from a node, up to
the place where it first meets, or last leaves, another set.  `ReachVia r P a b` is reachability
from `a` by way of nodes that satisfy `P`, and the two cuts are `ReachVia.first_meet` and
`ReachVia.last_meet`.

Main definitions:

* `LoopSwap.Walk`, `LoopSwap.ReachVia` — walks along a relation, with and without their nodes;
* `LoopSwap.FlowGraph.Edge`, `LoopSwap.FlowGraph.Path` — the edges and the paths of a graph;
* `LoopSwap.FlowGraph.Reachable`, `LoopSwap.FlowGraph.Dominates` — what paths decide.

Main results:

* `LoopSwap.FlowGraph.Reachable.iff_reachVia` — reachability is what the edges generate;
* `LoopSwap.FlowGraph.dominates_iff` — dominance is unreachability around a node;
* `LoopSwap.FlowGraph.Dominates.antisymm` — two different nodes do not dominate each other.
-/

import LoopSwap.Graph.Basic
import Mathlib.Logic.Relation
import Mathlib.Tactic.ByContra

set_option relaxedAutoImplicit false
set_option autoImplicit false

namespace LoopSwap

variable {α : Type}

/-! ### Walks -/

/-- `Walk r a b p` is a walk from `a` to `b` along `r` whose nodes, both ends included, are `p`. -/
inductive Walk (r : α → α → Prop) : α → α → List α → Prop
  | here (a : α) : Walk r a a [a]
  | step {a b c : α} {p : List α} : r a b → Walk r b c p → Walk r a c (a :: p)

namespace Walk

variable {r : α → α → Prop} {a b c x : α} {p q : List α}

theorem start_mem (h : Walk r a b p) : a ∈ p := by
  cases h with
  | here => exact List.mem_singleton_self a
  | step => exact List.mem_cons_self

theorem end_mem (h : Walk r a b p) : b ∈ p := by
  induction h with
  | here a => exact List.mem_singleton_self a
  | step _ _ ih => exact List.mem_cons_of_mem _ ih

/-- A walk can be extended by an edge at its end. -/
theorem snoc (h : Walk r a b p) (hbc : r b c) : Walk r a c (p ++ [c]) := by
  induction h with
  | here a => exact .step hbc (.here c)
  | step hab _ ih => exact .step hab (ih hbc)

/-- A walk visits nothing that it does not lead to. -/
theorem exists_prefix (h : Walk r a b p) (hx : x ∈ p) : ∃ q, Walk r a x q := by
  induction h with
  | here a =>
      obtain rfl := List.mem_singleton.1 hx
      exact ⟨[x], .here x⟩
  | @step a _ _ _ hab _ ih =>
      rcases List.mem_cons.1 hx with rfl | hx
      · exact ⟨[x], .here x⟩
      · obtain ⟨q, hq⟩ := ih hx
        exact ⟨a :: q, .step hab hq⟩

end Walk

/-! ### Reachability by way of some nodes -/

/-- `b` can be reached from `a` along `r` so that every node after `a` satisfies `P`. -/
def ReachVia (r : α → α → Prop) (P : α → Prop) (a b : α) : Prop :=
  Relation.ReflTransGen (fun x y => r x y ∧ P y) a b

namespace ReachVia

variable {r s : α → α → Prop} {P Q : α → Prop} {a b c : α}

theorem refl (a : α) : ReachVia r P a a := Relation.ReflTransGen.refl

theorem trans (hab : ReachVia r P a b) (hbc : ReachVia r P b c) : ReachVia r P a c :=
  Relation.ReflTransGen.trans hab hbc

theorem tail (hab : ReachVia r P a b) (hbc : r b c) (hc : P c) : ReachVia r P a c :=
  Relation.ReflTransGen.tail hab ⟨hbc, hc⟩

theorem head (hab : r a b) (hb : P b) (hbc : ReachVia r P b c) : ReachVia r P a c :=
  Relation.ReflTransGen.head ⟨hab, hb⟩ hbc

theorem single (hab : r a b) (hb : P b) : ReachVia r P a b := (refl a).tail hab hb

theorem mono (h : ReachVia r P a b) (hPQ : ∀ x, P x → Q x) : ReachVia r Q a b :=
  Relation.ReflTransGen.mono (fun _ y hxy => ⟨hxy.1, hPQ y hxy.2⟩) a b h

/-- The end of a walk that moves satisfies what the nodes on the way satisfy. -/
theorem eq_or_end (h : ReachVia r P a b) : b = a ∨ P b := by
  cases h with
  | refl => exact Or.inl rfl
  | tail _ hlast => exact Or.inr hlast.2

/-- A set that is closed under the edges of the walk is not left. -/
theorem mem_of_closed {S : α → Prop} (h : ReachVia r P a b) (ha : S a)
    (hS : ∀ x y, S x → r x y → P y → S y) : S b := by
  induction h with
  | refl => exact ha
  | tail _ hlast ih => exact hS _ _ ih hlast.1 hlast.2

/-- The walk up to the first node in `Q`, or the whole walk if it meets none. -/
theorem first_meet (Q : α → Prop) (h : ReachVia r P a b) :
    ReachVia r (fun x => P x ∧ ¬ Q x) a b ∨
      ∃ u v, ReachVia r (fun x => P x ∧ ¬ Q x) a u ∧ r u v ∧ P v ∧ Q v ∧ ReachVia r P v b := by
  induction h using Relation.ReflTransGen.head_induction_on with
  | refl => exact Or.inl (refl _)
  | @head x y hxy hyb ih =>
      by_cases hQ : Q y
      · exact Or.inr ⟨x, y, refl x, hxy.1, hxy.2, hQ, hyb⟩
      · rcases ih with ih | ⟨u, v, hyu, huv⟩
        · exact Or.inl (head hxy.1 ⟨hxy.2, hQ⟩ ih)
        · exact Or.inr ⟨u, v, head hxy.1 ⟨hxy.2, hQ⟩ hyu, huv⟩

/-- The walk after its last node in `Q`, provided it starts in `Q`. -/
theorem last_meet (Q : α → Prop) (h : ReachVia r P a b) (ha : Q a) :
    ∃ u, Q u ∧ ReachVia r P a u ∧ ReachVia r (fun x => P x ∧ ¬ Q x) u b := by
  induction h with
  | refl => exact ⟨a, ha, refl a, refl a⟩
  | @tail y z hay hyz ih =>
      by_cases hQ : Q z
      · exact ⟨z, hQ, tail hay hyz.1 hyz.2, refl z⟩
      · obtain ⟨u, hu, hau, huy⟩ := ih
        exact ⟨u, hu, hau, tail huy hyz.1 ⟨hyz.2, hQ⟩⟩

/-- A walk that leaves `Q` crosses its border. -/
theorem exists_crossing (Q : α → Prop) (h : ReachVia r P a b) (ha : Q a) (hb : ¬ Q b) :
    ∃ u v, Q u ∧ ¬ Q v ∧ r u v ∧ P v ∧ ReachVia r P a u ∧
      ReachVia r (fun x => P x ∧ ¬ Q x) v b := by
  obtain ⟨u, hu, hau, hub⟩ := last_meet Q h ha
  rcases Relation.ReflTransGen.cases_head hub with rfl | ⟨v, huv, hvb⟩
  · exact absurd hu hb
  · exact ⟨u, v, hu, huv.2.2, huv.1, huv.2.1, hau, hvb⟩

theorem exists_walk (h : ReachVia r P a b) :
    ∃ p, Walk r a b p ∧ ∀ x ∈ p, x = a ∨ P x := by
  induction h with
  | refl => exact ⟨[a], .here a, fun x hx => Or.inl (List.mem_singleton.1 hx)⟩
  | @tail y z _ hyz ih =>
      obtain ⟨p, hp, hP⟩ := ih
      refine ⟨p ++ [z], hp.snoc hyz.1, fun x hx => ?_⟩
      rcases List.mem_append.1 hx with hx | hx
      · exact hP x hx
      · rw [List.mem_singleton.1 hx]
        exact Or.inr hyz.2

end ReachVia

theorem Walk.reachVia {r : α → α → Prop} {P : α → Prop} {a b : α} {p : List α}
    (h : Walk r a b p) (hP : ∀ x ∈ p, P x) : ReachVia r P a b := by
  induction h with
  | here a => exact .refl a
  | step hab hw ih =>
      have htail := fun x hx => hP x (List.mem_cons_of_mem _ hx)
      exact .head hab (htail _ hw.start_mem) (ih htail)

/-! ### Flow graphs -/

namespace FlowGraph

variable {g : FlowGraph α} {a b c : α} {p : List α}

/-- An edge between listed nodes. -/
def Edge (g : FlowGraph α) (a b : α) : Prop := a ∈ g.listed ∧ b ∈ g.listed ∧ b ∈ g.succs a

/-- `p` is a path from the entry to `b`. -/
def Path (g : FlowGraph α) (b : α) (p : List α) : Prop :=
  ∃ e, g.entry = some e ∧ e ∈ g.listed ∧ Walk g.Edge e b p

/-- Some path leads to `b`. -/
def Reachable (g : FlowGraph α) (b : α) : Prop := ∃ p, g.Path b p

/-- Every path to `b` visits `a`. -/
def Dominates (g : FlowGraph α) (a b : α) : Prop := ∀ p, g.Path b p → a ∈ p

theorem edge_iff_mem_next [DecidableEq α] : g.Edge a b ↔ b ∈ g.next a := mem_next.symm

namespace Reachable

/-- Reachability is what the edges generate from the entry. -/
theorem iff_reachVia : g.Reachable b ↔
    ∃ e, g.entry = some e ∧ e ∈ g.listed ∧ ReachVia g.Edge (fun _ => True) e b := by
  constructor
  · rintro ⟨p, e, he, hl, hp⟩
    exact ⟨e, he, hl, hp.reachVia fun _ _ => trivial⟩
  · rintro ⟨e, he, hl, h⟩
    obtain ⟨p, hp, -⟩ := h.exists_walk
    exact ⟨p, e, he, hl, hp⟩

theorem entry (he : g.entry = some a) (ha : a ∈ g.listed) : g.Reachable a :=
  ⟨[a], a, he, ha, .here a⟩

theorem next (ha : g.Reachable a) (hab : g.Edge a b) : g.Reachable b := by
  obtain ⟨p, e, he, hl, hp⟩ := ha
  exact ⟨p ++ [b], e, he, hl, hp.snoc hab⟩

/-- A reachable node is listed. -/
theorem listed (h : g.Reachable b) : b ∈ g.listed := by
  obtain ⟨e, he, hl, h⟩ := iff_reachVia.1 h
  exact h.mem_of_closed hl fun _ _ _ hxy _ => hxy.2.1

/-- A reachable node is the entry or has a reachable predecessor. -/
theorem eq_entry_or_pred (h : g.Reachable b) :
    g.entry = some b ∨ ∃ a, g.Reachable a ∧ g.Edge a b := by
  obtain ⟨e, he, hl, h⟩ := iff_reachVia.1 h
  cases h with
  | refl => exact Or.inl he
  | @tail c _ hc hcb => exact Or.inr ⟨c, iff_reachVia.2 ⟨e, he, hl, hc⟩, hcb.1⟩

/-- The nodes of a walk from a reachable node are reachable. -/
theorem via {P : α → Prop} (ha : g.Reachable a) (h : ReachVia g.Edge P a b) : g.Reachable b :=
  h.mem_of_closed ha fun _ _ hx hxy _ => hx.next hxy

end Reachable

/-- `a` dominates `b` exactly if the entry is `a` or does not lead to `b` around `a`. -/
theorem dominates_iff : g.Dominates a b ↔
    ∀ e, g.entry = some e → e ∈ g.listed → e = a ∨ ¬ ReachVia g.Edge (· ≠ a) e b := by
  constructor
  · intro h e he hl
    by_contra hcon
    obtain ⟨hea, hreach⟩ := not_or.1 hcon
    obtain ⟨p, hp, hmem⟩ := (not_not.1 hreach).exists_walk
    rcases hmem a (h p ⟨e, he, hl, hp⟩) with rfl | hne
    · exact hea rfl
    · exact hne rfl
  · rintro h p ⟨e, he, hl, hp⟩
    by_contra hap
    have hne : ∀ x ∈ p, x ≠ a := fun x hx hxa => hap (hxa ▸ hx)
    rcases h e he hl with rfl | hno
    · exact hap hp.start_mem
    · exact hno (hp.reachVia hne)

namespace Dominates

theorem refl (g : FlowGraph α) (a : α) : g.Dominates a a := by
  rintro p ⟨e, -, -, hp⟩
  exact hp.end_mem

/-- What dominates a node dominates each of its reachable predecessors, itself apart. -/
theorem pred (h : g.Dominates a b) (hne : a ≠ b) (hcb : g.Edge c b) : g.Dominates a c := by
  rintro p ⟨e, he, hl, hp⟩
  rcases List.mem_append.1 (h _ ⟨e, he, hl, hp.snoc hcb⟩) with hap | hab
  · exact hap
  · exact absurd (List.mem_singleton.1 hab) hne

/-- A node that dominates a reachable one is reachable. -/
theorem reachable (h : g.Dominates a b) (hb : g.Reachable b) : g.Reachable a := by
  obtain ⟨p, e, he, hl, hp⟩ := hb
  obtain ⟨q, hq⟩ := hp.exists_prefix (h p ⟨e, he, hl, hp⟩)
  exact ⟨q, e, he, hl, hq⟩

/-- From a node to what it dominates there is a walk that does not come back to the node. -/
theorem exists_reachVia (h : g.Dominates a b) (hb : g.Reachable b) :
    ReachVia g.Edge (· ≠ a) a b := by
  obtain ⟨e, he, hl, hreach⟩ := Reachable.iff_reachVia.1 hb
  by_cases hea : e = a
  · subst hea
    obtain ⟨u, rfl, -, hub⟩ := hreach.last_meet (· = e) rfl
    exact hub.mono fun x hx => hx.2
  · have hno := (dominates_iff.1 h e he hl).resolve_left hea
    rcases hreach.first_meet (· = a) with hall | ⟨u, v, -, -, -, rfl, hvb⟩
    · exact absurd (hall.mono fun x hx => hx.2) hno
    · obtain ⟨w, rfl, -, hwb⟩ := hvb.last_meet (· = v) rfl
      exact hwb.mono fun x hx => hx.2

/-- Two nodes that dominate each other are the same, if one of them is reachable. -/
theorem antisymm (hab : g.Dominates a b) (hba : g.Dominates b a) (hb : g.Reachable b) : a = b := by
  by_contra hne
  obtain ⟨e, he, hl, hreach⟩ := Reachable.iff_reachVia.1 hb
  -- the walk up to the first of the two nodes reaches that one around the other
  have key : ∀ x y, (x = a ∧ y = b) ∨ (x = b ∧ y = a) → e ≠ y →
      ReachVia g.Edge (· ≠ y) e x → False := by
    rintro x y (⟨rfl, rfl⟩ | ⟨rfl, rfl⟩) hey hx
    · exact ((dominates_iff.1 hba e he hl).resolve_left hey) hx
    · exact ((dominates_iff.1 hab e he hl).resolve_left hey) hx
  by_cases hea : e = a
  · subst hea
    exact key e b (Or.inl ⟨rfl, rfl⟩) hne (.refl e)
  · by_cases heb : e = b
    · subst heb
      exact key e a (Or.inr ⟨rfl, rfl⟩) hea (.refl e)
    · rcases hreach.first_meet (fun x => x = a ∨ x = b) with hall | ⟨u, v, heu, huv, -, hv, -⟩
      · exact key b a (Or.inr ⟨rfl, rfl⟩) hea (hall.mono fun x hx hxa => hx.2 (Or.inl hxa))
      · rcases hv with rfl | rfl
        · have hav := heu.mono fun x hx => fun hxb : x = b => hx.2 (Or.inr hxb)
          exact key v b (Or.inl ⟨rfl, rfl⟩) heb (hav.tail huv hne)
        · have hbv := heu.mono fun x hx => fun hxa : x = a => hx.2 (Or.inl hxa)
          exact key v a (Or.inr ⟨rfl, rfl⟩) hea (hbv.tail huv (Ne.symm hne))

end Dominates

end FlowGraph

end LoopSwap
