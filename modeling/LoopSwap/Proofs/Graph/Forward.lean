/-
**Which way edges go in the order.**

When the search leaves a node, everything that the node leads to has been entered.  So a successor
is left already, and stands behind the node in the order, or it is still open.  The open nodes on
the stack are the way that the search is exploring, each led to by the one below it; so a successor
that is still open leads back to the node.

An edge therefore goes forward in the order, or to a node from which there is a way back to its
start.  Where there are no cycles, all edges go forward.

Main definitions:

* `LoopSwap.Exploring` — every visit on the stack follows the open node below it;
* `LoopSwap.Awaited` — what an open node leads to waits above it, as long as it is fresh;
* `LoopSwap.Forward` — edges go forward in a list, or there is a way back;
* `LoopSwap.ForwardInv` — what the search keeps.

Main results:

* `LoopSwap.ForwardInv.run` — the edges of the final order go forward or have a way back;
* `LoopSwap.FlowGraph.order_lists_reachable_forward` — the order of a graph.
-/

import LoopSwap.Graph.Facts
import LoopSwap.Proofs.Graph.Order
import Mathlib.Data.List.Basic

set_option relaxedAutoImplicit false
set_option autoImplicit false

namespace LoopSwap

variable {α : Type} {next : α → List α} {a b : α} {rest : List (Visit α)} {left : List α}

/-- `a` leads to `b`, over any number of edges. -/
def LeadsTo (next : α → List α) (a b : α) : Prop :=
  Relation.ReflTransGen (fun x y => y ∈ next x) a b

/-! ### The way that is explored -/

/-- Every visit on the stack is of a successor of the nearest open node below it. -/
def Exploring (next : α → List α) : List (Visit α) → Prop
  | [] => True
  | .enter a :: rest | .leave a :: rest =>
    (∀ x, (opened rest).head? = some x → a ∈ next x) ∧ Exploring next rest

namespace Exploring

theorem enters (h : Exploring next (.enter a :: rest)) {l : List α} (hl : ∀ b ∈ l, b ∈ next a) :
    Exploring next (l.map .enter ++ .leave a :: rest) := by
  induction l with
  | nil => exact h
  | cons b l ih =>
      refine ⟨fun x hx => ?_, ih fun c hc => hl c (List.mem_cons_of_mem _ hc)⟩
      obtain rfl : a = x := by simpa using hx
      exact hl b List.mem_cons_self

/-- Every open node leads to the latest one. -/
theorem leadsTo (h : Exploring next (.leave a :: rest)) :
    ∀ x ∈ opened rest, LeadsTo next x a := by
  induction rest generalizing a with
  | nil => exact List.forall_mem_nil _
  | cons v rest ih =>
      cases v with
      | enter b => exact ih ⟨h.1, h.2.2⟩
      | leave b =>
          have hba : a ∈ next b := h.1 b rfl
          refine List.forall_mem_cons.2 ⟨.single hba, fun x hx => ?_⟩
          exact (ih h.2 x hx).tail hba

end Exploring

/-! ### What waits on the stack -/

/-- The fresh successors of every open node wait on the stack above it or are among `above`. -/
def Awaited (next : α → List α) (fresh : List α) : List α → List (Visit α) → Prop
  | _, [] => True
  | above, .enter a :: rest => Awaited next fresh (a :: above) rest
  | above, .leave a :: rest =>
    (∀ b ∈ next a, b ∈ fresh → b ∈ above) ∧ Awaited next fresh above rest

namespace Awaited

variable {fresh fresh' above above' : List α} {stack : List (Visit α)}

/-- What is not fresh any more need not wait. -/
theorem mono (h : Awaited next fresh above stack) (hfresh : ∀ b ∈ fresh', b ∈ fresh)
    (habove : ∀ b ∈ fresh', b ∈ above → b ∈ above') : Awaited next fresh' above' stack := by
  induction stack generalizing above above' with
  | nil => trivial
  | cons v stack ih =>
      cases v with
      | enter a =>
          refine ih h fun b hb hmem => ?_
          rcases List.mem_cons.1 hmem with rfl | hmem
          · exact List.mem_cons_self
          · exact List.mem_cons_of_mem _ (habove b hb hmem)
      | leave a =>
          exact ⟨fun b hb hb' => habove b hb' (h.1 b hb (hfresh b hb')), ih h.2 habove⟩

theorem enters_iff {l : List α} :
    Awaited next fresh above (l.map .enter ++ stack) ↔
      Awaited next fresh (l.reverse ++ above) stack := by
  induction l generalizing above with
  | nil => rfl
  | cons a l ih =>
      rw [List.reverse_cons, List.append_assoc, List.singleton_append]
      exact ih

end Awaited

/-! ### Edges in a list -/

/-- From every node of the list, edges go to nodes behind it or to nodes that lead back to it. -/
def Forward (next : α → List α) : List α → Prop
  | [] => True
  | a :: l => (∀ b ∈ next a, b ∈ l ∨ LeadsTo next b a) ∧ Forward next l

theorem Forward.of_append {before behind : List α} (h : Forward next (before ++ a :: behind)) :
    ∀ b ∈ next a, b ∈ behind ∨ LeadsTo next b a := by
  induction before with
  | nil => exact h.1
  | cons c before ih => exact ih h.2

/-- By places: an edge to a node of the list goes forward, or there is a way back. -/
theorem Forward.idxOf_lt [DecidableEq α] {l : List α} (h : Forward next l) (hl : l.Nodup)
    (ha : a ∈ l) (hab : b ∈ next a) : l.idxOf a < l.idxOf b ∨ LeadsTo next b a := by
  obtain ⟨before, behind, rfl⟩ := List.append_of_mem ha
  refine (h.of_append b hab).imp_left fun hb => ?_
  obtain ⟨-, hbehind, hdisjoint⟩ := List.nodup_append.1 hl
  have hab' : a ≠ b := fun heq => (List.nodup_cons.1 hbehind).1 (heq ▸ hb)
  have hbefore : ∀ x, x ∈ a :: behind → x ∉ before := fun x hx hx' => hdisjoint x hx' x hx rfl
  rw [List.idxOf_append_of_notMem (hbefore a List.mem_cons_self),
    List.idxOf_append_of_notMem (hbefore b (List.mem_cons_of_mem _ hb)), List.idxOf_cons_self,
    List.idxOf_cons_ne _ hab']
  omega

/-! ### The search -/

/-- What a search keeps of the edges. -/
structure ForwardInv (next : α → List α) (fresh : List α) (stack : List (Visit α))
    (left : List α) : Prop where
  exploring : Exploring next stack
  awaited : Awaited next fresh [] stack
  forward : Forward next left

namespace ForwardInv

variable {nodes fresh : List α} {root : α}

theorem init (next : α → List α) (nodes : List α) (root : α) :
    ForwardInv next nodes [.enter root] [] where
  exploring := ⟨fun x hx => by simp at hx, trivial⟩
  awaited := trivial
  forward := trivial

/-- What the node that is left leads to is left already or still open. -/
theorem leave (h : ForwardInv next fresh (.leave a :: rest) left)
    (hs : SearchInv next nodes root fresh (.leave a :: rest) left)
    (hnext : ∀ x, ∀ y ∈ next x, y ∈ nodes) : ForwardInv next fresh rest (a :: left) where
  exploring := h.exploring.2
  awaited := h.awaited.2
  forward := by
    refine ⟨fun b hb => ?_, h.forward⟩
    have hmem : b ∈ fresh ++ trail (.leave a :: rest) left := hs.perm.mem_iff.2 (hnext a b hb)
    rw [trail, opened_leave, List.mem_append, List.mem_append, List.mem_reverse,
      List.mem_cons] at hmem
    rcases hmem with hfresh | (rfl | hopen) | hleft
    · cases h.awaited.1 b hb hfresh
    · exact Or.inr .refl
    · exact Or.inr (h.exploring.leadsTo b hopen)
    · exact Or.inl hleft

theorem skip (h : ForwardInv next fresh (.enter a :: rest) left) (ha : a ∉ fresh) :
    ForwardInv next fresh rest left where
  exploring := h.exploring.2
  awaited := by
    have hawaited : Awaited next fresh [a] rest := h.awaited
    exact hawaited.mono (fun _ hb => hb) fun _ hb hba =>
      absurd (List.mem_singleton.1 hba ▸ hb) ha
  forward := h.forward

variable [DecidableEq α]

theorem enter (h : ForwardInv next fresh (.enter a :: rest) left) (hfresh : fresh.Nodup) :
    ForwardInv next (fresh.erase a)
      (((next a).filter (· ∈ fresh.erase a)).map .enter ++ .leave a :: rest) left where
  exploring := h.exploring.enters fun b hb => (List.mem_filter.1 hb).1
  awaited := by
    rw [Awaited.enters_iff, List.append_nil]
    refine ⟨fun b hb hb' => ?_, ?_⟩
    · exact List.mem_reverse.2 (List.mem_filter.2 ⟨hb, decide_eq_true hb'⟩)
    · -- of what waited above, only `a` is gone, and it is not fresh any more
      have hawaited : Awaited next fresh [a] rest := h.awaited
      refine hawaited.mono (fun _ => List.mem_of_mem_erase) ?_
      intro b hb hba
      obtain rfl := List.mem_singleton.1 hba
      exact absurd rfl (hfresh.mem_erase_iff.1 hb).1
  forward := h.forward

/-- When the search ends, the edges go forward or there is a way back. -/
theorem run {stack : List (Visit α)} (h : ForwardInv next fresh stack left)
    (hs : SearchInv next nodes root fresh stack left) (hnodes : nodes.Nodup)
    (hnext : ∀ x, ∀ y ∈ next x, y ∈ nodes) : Forward next (search next fresh stack left) := by
  fun_induction search next fresh stack left with
  | case1 fresh left => exact h.forward
  | case2 fresh left a rest ih => exact ih (h.leave hs hnext) hs.leave
  | case3 fresh left a rest ha fresh' ih =>
      have hfresh : fresh.Nodup := (List.nodup_append.1 (hs.perm.nodup_iff.2 hnodes)).1
      exact ih (h.enter hfresh) (hs.enter ha hnodes)
  | case4 fresh left a rest ha ih => exact ih (h.skip ha) (hs.skip ha)

end ForwardInv

/-! ### The order of a graph -/

namespace FlowGraph

variable [DecidableEq α] {g : FlowGraph α} {e : α}

theorem leadsTo_next_iff : LeadsTo g.next a b ↔ Relation.ReflTransGen g.Edge a b := by
  have hedge : (fun x y => y ∈ g.next x) = g.Edge := by
    funext x y
    exact propext edge_iff_mem_next.symm
  rw [LeadsTo, hedge]

theorem forward_order (g : FlowGraph α) : Forward g.next g.order := by
  cases he : g.entry with
  | none =>
      rw [g.order_eq_nil he]
      trivial
  | some e =>
      have hrun := (ForwardInv.init g.next g.nodes e).run (.init g.next g.nodes e) g.nodup_nodes
        fun x y hy => mem_nodes.2 (mem_next.1 hy).2.1
      unfold order
      rw [he]
      exact hrun

/-- An edge from a reachable node goes forward in the order, or there is a way back. -/
theorem idxOf_lt_of_edge (ha : g.Reachable a) (hab : g.Edge a b) :
    g.order.idxOf a < g.order.idxOf b ∨ Relation.ReflTransGen g.Edge b a := by
  rw [← leadsTo_next_iff]
  exact g.forward_order.idxOf_lt g.nodup_order (g.mem_order.2 ha) (edge_iff_mem_next.1 hab)

theorem head?_order (he : g.entry = some e) (hl : e ∈ g.listed) : g.order.head? = some e := by
  have hmem : e ∈ g.order := g.mem_order.2 (.entry he hl)
  cases horder : g.order with
  | nil =>
      rw [horder] at hmem
      cases hmem
  | cons a l =>
      have hentry := g.order_zero (a := a) (by rw [horder]; rfl)
      rw [List.head?_cons, ← hentry, he]

theorem order_eq_nil_of_not_listed (h : ∀ e, g.entry = some e → e ∉ g.listed) : g.order = [] := by
  refine List.eq_nil_iff_forall_not_mem.2 fun a ha => ?_
  obtain ⟨p, e, he, hl, -⟩ := g.mem_order.1 ha
  exact h e he hl

/-- **The order of a graph.**  It lists the nodes that can be reached from the entry, each once and
the entry first; if the entry is missing or not listed, it is empty.  A node counts as reachable if
it is in the order.  An edge between reachable nodes goes forward in the order or to a node that
leads back to its start; so, if no reachable node leads back to itself, all these edges go
forward. -/
theorem order_lists_reachable_forward (g : FlowGraph α) :
    (∀ a, a ∈ g.facts.order ↔ g.Reachable a) ∧
      g.facts.order.Nodup ∧
      (∀ e, g.entry = some e → e ∈ g.listed → g.facts.order.head? = some e) ∧
      ((∀ e, g.entry = some e → e ∉ g.listed) → g.facts.order = []) ∧
      (∀ a, g.facts.reachable a = true ↔ a ∈ g.facts.order) ∧
      (∀ a b, g.Reachable a → g.Reachable b → g.Edge a b →
        g.facts.order.idxOf a < g.facts.order.idxOf b ∨ Relation.ReflTransGen g.Edge b a) ∧
      ((∀ a, g.Reachable a → ¬ Relation.TransGen g.Edge a a) →
        ∀ a b, g.Reachable a → g.Reachable b → g.Edge a b →
          g.facts.order.idxOf a < g.facts.order.idxOf b) := by
  refine ⟨fun a => g.mem_order, g.nodup_order, fun e => head?_order, order_eq_nil_of_not_listed,
    fun a => reachable_facts, fun a b ha _ => idxOf_lt_of_edge ha, ?_⟩
  intro hacyclic a b ha _ hab
  refine (idxOf_lt_of_edge ha hab).resolve_right fun hback => ?_
  exact hacyclic a ha (.head' hab hback)

end FlowGraph

end LoopSwap
