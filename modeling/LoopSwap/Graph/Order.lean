/-
**Depth-first order.**

The nodes reachable from the entry are listed in reverse postorder: a node comes before everything
its search finishes earlier.  The search keeps a stack of visits.  Entering a node that is still
fresh puts its own leaving below the entering of its successors, and a node is written down, in
front of those already left, when it is left.

Main definitions:

* `LoopSwap.Visit` — what the search still has to do;
* `LoopSwap.search` — the search;
* `LoopSwap.FlowGraph.order` — the reachable nodes in reverse postorder.
-/

import LoopSwap.Graph.Basic

set_option relaxedAutoImplicit false
set_option autoImplicit false

namespace LoopSwap

/-- A visit of a search: a node to be entered, or one to be left. -/
inductive Visit (α : Type) where
  | enter (a : α)
  | leave (a : α)

/-- Works off a stack of visits.  `fresh` are the nodes not entered yet, `left` those already
left, the latest first. -/
def search {α : Type} [DecidableEq α] (next : α → List α) (fresh : List α)
    (stack : List (Visit α)) (left : List α) : List α :=
  match stack with
  | [] => left
  | .leave a :: rest => search next fresh rest (a :: left)
  | .enter a :: rest =>
    if a ∈ fresh then
      let fresh' := fresh.erase a
      search next fresh'
        (((next a).filter (· ∈ fresh')).map .enter ++ .leave a :: rest) left
    else search next fresh rest left
termination_by stack.length + pendingWeight next fresh
decreasing_by
  · simp only [List.length_cons]
    omega
  · next h =>
      have hweight := pendingWeight_erase next h
      have hfilter := List.length_filter_le (fun b => decide (b ∈ fresh.erase a)) (next a)
      simp only [List.length_append, List.length_map, List.length_cons]
      omega
  · simp only [List.length_cons]
    omega

/-- The nodes reachable from the entry, in reverse postorder. -/
def FlowGraph.order {α : Type} [DecidableEq α] (g : FlowGraph α) : List α :=
  match g.entry with
  | none => []
  | some entry => search g.next g.nodes [.enter entry] []

end LoopSwap
