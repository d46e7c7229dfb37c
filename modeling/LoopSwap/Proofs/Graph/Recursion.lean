/-
**The search as a recursion.**

The search of `LoopSwap.search` keeps what it still has to do on a stack of its own.  A recursive
search has no such stack: a visit marks its node, visits the successors one after the other, in the
order in which the graph gives them, and is finished then.  A node that is marked already, or that
is not listed, is skipped.

The two agree.  While the recursion visits the nodes of a list, the explicit search works off the
enterings of these nodes on top of its stack.  It does not matter that it has put only those on the
stack that were fresh at the time: the others would be skipped as well.

Main definitions:

* `LoopSwap.Traversal` — the nodes marked and the nodes finished;
* `LoopSwap.FlowGraph.visit`, `LoopSwap.FlowGraph.explore` — the visit of a node, and of several;
* `LoopSwap.FlowGraph.traversal` — the visit of the entry;
* `LoopSwap.FlowGraph.unmarked` — the nodes that are still to be visited.

Main results:

* `LoopSwap.FlowGraph.visit_eq` — the recursion;
* `LoopSwap.FlowGraph.search_explore` — the search with the enterings on its stack;
* `LoopSwap.FlowGraph.order_eq_reverse_finished` — the order is the finishing order backwards.
-/

import LoopSwap.Graph.Facts
import Mathlib.Data.List.Nodup

set_option relaxedAutoImplicit false
set_option autoImplicit false

namespace LoopSwap

variable {α : Type}

/-! ### Traversals -/

/-- What a recursive search has done: the nodes that it has marked, and those of them whose visits
are finished, the earliest first. -/
structure Traversal (α : Type) where
  marked : List α
  finished : List α

namespace Traversal

/-- Nothing is visited. -/
def start : Traversal α := ⟨[], []⟩

/-- The visit of `a` begins. -/
def enter (t : Traversal α) (a : α) : Traversal α := ⟨a :: t.marked, t.finished⟩

/-- The visit of `a` is finished. -/
def leave (t : Traversal α) (a : α) : Traversal α := ⟨t.marked, t.finished ++ [a]⟩

end Traversal

namespace FlowGraph

variable [DecidableEq α] (g : FlowGraph α) {t : Traversal α} {a : α} {todo : List α}

/-! ### The recursion -/

/-- The nodes that are still to be visited. -/
def unmarked (t : Traversal α) : List α := g.nodes.filter (· ∉ t.marked)

theorem mem_unmarked : a ∈ g.unmarked t ↔ a ∈ g.listed ∧ a ∉ t.marked := by
  simp [unmarked]

/-- Marking a node takes it from those that are still to be visited. -/
theorem unmarked_enter : g.unmarked (t.enter a) = (g.unmarked t).erase a := by
  rw [unmarked, unmarked, (g.nodup_nodes.filter _).erase_eq_filter, List.filter_filter]
  refine List.filter_congr fun b _ => ?_
  by_cases hb : b = a <;> simp [Traversal.enter, hb]

theorem length_unmarked_enter_lt (ha : a ∈ g.unmarked t) :
    (g.unmarked (t.enter a)).length < (g.unmarked t).length := by
  rw [unmarked_enter, List.length_erase_of_mem ha]
  exact Nat.sub_one_lt (Nat.ne_of_gt (List.length_pos_of_mem ha))

/-- Marking more leaves no more to be visited. -/
theorem length_unmarked_le {t' : Traversal α} (h : ∀ a ∈ t.marked, a ∈ t'.marked) :
    (g.unmarked t').length ≤ (g.unmarked t).length := by
  have hsub : (g.unmarked t').Sublist (g.unmarked t) := by
    refine List.monotone_filter_right _ fun b hb => ?_
    simp only [decide_eq_true_eq] at hb ⊢
    exact fun hmem => hb (h b hmem)
  exact hsub.length_le

/-- Visits the nodes of a list one after the other, and says that no mark is lost. -/
def exploreFrom (t : Traversal α) (todo : List α) :
    { t' : Traversal α // ∀ a ∈ t.marked, a ∈ t'.marked } :=
  match todo with
  | [] => ⟨t, fun _ hmem => hmem⟩
  | a :: rest =>
    if _ha : a ∈ g.unmarked t then
      let inner := exploreFrom (t.enter a) (g.succs a)
      let outer := exploreFrom (inner.1.leave a) rest
      ⟨outer.1, fun b hb => outer.2 b (inner.2 b (List.mem_cons_of_mem a hb))⟩
    else exploreFrom t rest
termination_by ((g.unmarked t).length, todo.length)
decreasing_by
  · exact .left _ _ (g.length_unmarked_enter_lt _ha)
  · refine .left _ _ (Nat.lt_of_le_of_lt ?_ (g.length_unmarked_enter_lt _ha))
    exact g.length_unmarked_le inner.2
  · exact .right _ (Nat.lt_succ_self _)

/-- Visits the nodes of a list one after the other. -/
def explore (t : Traversal α) (todo : List α) : Traversal α := (g.exploreFrom t todo).1

/-- Visits a node. -/
def visit (t : Traversal α) (a : α) : Traversal α := g.explore t [a]

/-- Visits the entry, if there is one. -/
def traversal : Traversal α :=
  match g.entry with
  | none => .start
  | some e => g.visit .start e

@[simp] theorem explore_nil : g.explore t [] = t := by
  simp [explore, exploreFrom]

theorem explore_cons_of_mem (ha : a ∈ g.unmarked t) :
    g.explore t (a :: todo) = g.explore ((g.explore (t.enter a) (g.succs a)).leave a) todo := by
  simp [explore, exploreFrom, ha]

theorem explore_cons_of_not_mem (ha : a ∉ g.unmarked t) :
    g.explore t (a :: todo) = g.explore t todo := by
  simp [explore, exploreFrom, ha]

/-- The nodes of a list are visited one by one. -/
theorem explore_eq_foldl : g.explore t todo = todo.foldl g.visit t := by
  induction todo generalizing t with
  | nil => simp
  | cons a todo ih =>
      rw [List.foldl_cons, ← ih, visit]
      by_cases ha : a ∈ g.unmarked t
      · rw [explore_cons_of_mem g ha, explore_cons_of_mem g ha, explore_nil]
      · rw [explore_cons_of_not_mem g ha, explore_cons_of_not_mem g ha, explore_nil]

/-- The recursion: a visit marks its node and visits the successors before it is finished. -/
theorem visit_eq (t : Traversal α) (a : α) :
    g.visit t a =
      if a ∈ g.listed ∧ a ∉ t.marked then ((g.succs a).foldl g.visit (t.enter a)).leave a
      else t := by
  rw [visit]
  by_cases ha : a ∈ g.unmarked t
  · rw [if_pos (g.mem_unmarked.1 ha), explore_cons_of_mem g ha, explore_nil, explore_eq_foldl]
  · rw [if_neg fun hcond => ha (g.mem_unmarked.2 hcond), explore_cons_of_not_mem g ha, explore_nil]

/-! ### The search -/

/-- The successors that the search puts on its stack are those that the recursion will not skip at
once. -/
theorem filter_next (ha : a ∈ g.listed) :
    (g.next a).filter (· ∈ g.unmarked t) = (g.succs a).filter (· ∈ g.unmarked t) := by
  rw [next, nextIn, if_pos (mem_nodes.2 ha), List.filter_filter]
  refine List.filter_congr fun b _ => ?_
  simp only [mem_unmarked, mem_nodes, Bool.decide_and]
  cases decide (b ∈ g.listed) <;> simp

theorem unmarked_leave : g.unmarked (t.leave a) = g.unmarked t := rfl

theorem mem_unmarked_explore (h : a ∈ g.unmarked (g.explore t todo)) : a ∈ g.unmarked t := by
  rw [mem_unmarked] at h ⊢
  exact ⟨h.1, fun hmem => h.2 ((g.exploreFrom t todo).2 a hmem)⟩

theorem length_unmarked_explore_le :
    (g.unmarked (g.explore t todo)).length ≤ (g.unmarked t).length :=
  g.length_unmarked_le (g.exploreFrom t todo).2

/-- The search enters an unmarked node as the recursion does, and leaves it after its successors. -/
theorem search_enter {stack : List (Visit α)} {left : List α} (ha : a ∈ g.unmarked t) :
    search g.next (g.unmarked t) (.enter a :: stack) left =
      search g.next (g.unmarked (t.enter a))
        (((g.succs a).filter (· ∈ g.unmarked (t.enter a))).map .enter ++ .leave a :: stack)
        left := by
  rw [← filter_next g (g.mem_unmarked.1 ha).1, unmarked_enter]
  rw [search, if_pos ha]

/-- The recursion on a list is the search with the enterings of the list on top of its stack.  Those
of nodes that are marked already may be left out. -/
theorem search_explore (t : Traversal α) (todo kept : List α) (stack : List (Visit α))
    (hkept : ∀ b ∈ g.unmarked t, b ∈ kept) :
    search g.next (g.unmarked t) ((todo.filter (· ∈ kept)).map .enter ++ stack)
        t.finished.reverse =
      search g.next (g.unmarked (g.explore t todo)) stack
        (g.explore t todo).finished.reverse := by
  -- a visit leaves fewer nodes unmarked, for its successors and for the nodes behind it
  induction hn : (g.unmarked t).length using Nat.strongRecOn generalizing t todo kept stack with
  | ind n ih =>
      induction todo with
      | nil => simp
      | cons a todo ihTodo =>
          by_cases ha : a ∈ g.unmarked t
          · obtain ⟨t₁, ht₁⟩ : ∃ t₁, t₁ = g.explore (t.enter a) (g.succs a) := ⟨_, rfl⟩
            have hlt : (g.unmarked (t.enter a)).length < n := hn ▸ g.length_unmarked_enter_lt ha
            have hlt₁ : (g.unmarked t₁).length < n :=
              Nat.lt_of_le_of_lt (ht₁ ▸ g.length_unmarked_explore_le) hlt
            have hkept₁ : ∀ b ∈ g.unmarked t₁, b ∈ kept := by
              intro b hb
              have hb' : b ∈ g.unmarked (t.enter a) := g.mem_unmarked_explore (ht₁ ▸ hb)
              rw [unmarked_enter] at hb'
              exact hkept b (List.mem_of_mem_erase hb')
            have hcons : (a :: todo).filter (· ∈ kept) = a :: todo.filter (· ∈ kept) :=
              List.filter_cons_of_pos (by simpa using hkept a ha)
            have hinner := ih _ hlt (t.enter a) (g.succs a) (g.unmarked (t.enter a))
              (.leave a :: ((todo.filter (· ∈ kept)).map .enter ++ stack)) (fun _ hb => hb) rfl
            have hleave : (t₁.leave a).finished.reverse = a :: t₁.finished.reverse := by
              simp [Traversal.leave]
            have houter := ih _ hlt₁ (t₁.leave a) todo kept stack hkept₁ rfl
            rw [explore_cons_of_mem g ha, ← ht₁, ← houter, hcons, List.map_cons, List.cons_append,
              search_enter g ha]
            refine hinner.trans ?_
            rw [← ht₁, search, unmarked_leave, hleave]
          · rw [explore_cons_of_not_mem g ha, ← ihTodo]
            by_cases hk : a ∈ kept
            · have hcons : (a :: todo).filter (· ∈ kept) = a :: todo.filter (· ∈ kept) :=
                List.filter_cons_of_pos (by simpa using hk)
              rw [hcons, List.map_cons, List.cons_append, search, if_neg ha]
            · rw [List.filter_cons_of_neg (by simpa using hk)]

/-- **The order is the finishing order backwards.**  The recursive search visits a listed node that
it has not marked: it marks it, visits the successors in the order in which they are given, and is
finished with it then.  The order of a graph lists the nodes that a visit of the entry finishes, the
last one first. -/
theorem order_eq_reverse_finished (g : FlowGraph α) :
    (∀ t a, g.visit t a =
      if a ∈ g.listed ∧ a ∉ t.marked then ((g.succs a).foldl g.visit (t.enter a)).leave a
      else t) ∧
      g.facts.order = g.traversal.finished.reverse := by
  refine ⟨g.visit_eq, ?_⟩
  rw [order_facts, order, traversal]
  cases he : g.entry with
  | none => rfl
  | some e =>
      have hnodes : g.unmarked .start = g.nodes := by
        simp [unmarked, Traversal.start]
      have hrun := g.search_explore .start [e] (e :: g.nodes) [] fun b hb =>
        List.mem_cons_of_mem e (hnodes ▸ hb)
      rw [hnodes] at hrun
      simpa [visit, search, Traversal.start] using hrun

end FlowGraph

end LoopSwap
