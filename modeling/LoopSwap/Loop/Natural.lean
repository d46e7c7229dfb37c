/-
**Natural loops.**

An edge whose target dominates its source goes back: every way to its source has already passed
its target.  The back edges to one block, the *header*, make one loop.  Its blocks are the header
and everything that can reach the source of such an edge without passing the header.

Main definitions:

* `LoopSwap.closure` — what can be reached from given nodes;
* `LoopSwap.NaturalLoop` — a header and the blocks of its loop;
* `LoopSwap.FlowFacts.tails`, `LoopSwap.FlowFacts.loopBody` — the sources of the back edges to a
  header and the loop they make;
* `LoopSwap.naturalLoops` — the loops of a layout, by the place of their headers.

Main results:

* `LoopSwap.header_mem_of_mem_naturalLoops` — a loop contains its header.
-/

import LoopSwap.Graph.Facts

set_option relaxedAutoImplicit false
set_option autoImplicit false

namespace LoopSwap

variable {α : Type} [DecidableEq α]

/-! ### Closure -/

/-- Adds to `found` the nodes of `fresh` that can be reached from `todo` by way of nodes of
`fresh`. -/
def closure (next : α → List α) (fresh todo found : List α) : List α :=
  match todo with
  | [] => found
  | a :: rest =>
    if a ∈ fresh then closure next (fresh.erase a) (next a ++ rest) (a :: found)
    else closure next fresh rest found
termination_by todo.length + pendingWeight next fresh
decreasing_by
  · next h =>
      have hweight := pendingWeight_erase next h
      simp only [List.length_append, List.length_cons]
      omega
  · simp only [List.length_cons]
    omega

/-- What has been found stays found. -/
theorem mem_closure_of_mem {next : α → List α} {fresh todo found : List α} {a : α}
    (h : a ∈ found) : a ∈ closure next fresh todo found := by
  fun_induction closure next fresh todo found with
  | case1 => exact h
  | case2 fresh found b rest hb ih => exact ih (List.mem_cons_of_mem _ h)
  | case3 fresh found b rest hb ih => exact ih h

/-! ### Loops -/

/-- A header and the blocks of its loop, in the order of the layout. -/
structure NaturalLoop where
  header : BlockId
  blocks : List BlockId
  deriving DecidableEq

/-- The number of blocks of a loop. -/
def NaturalLoop.size (l : NaturalLoop) : Nat := l.blocks.length

namespace FlowFacts

/-- The sources of the back edges to `h`. -/
def tails (x : FlowFacts α) (h : α) : List α := (x.preds h).filter fun t => x.dominates h t

/-- The nodes of the loop that the back edges from `tails` to `h` make. -/
def loopBody (x : FlowFacts α) (h : α) (tails : List α) : List α :=
  closure x.preds (x.nodes.erase h) tails [h]

end FlowFacts

/-- The loop with header `h`, if back edges lead to it. -/
def naturalLoop? (x : FlowFacts BlockId) (layout : List BlockId) (h : BlockId) :
    Option NaturalLoop :=
  match x.tails h with
  | [] => none
  | tails =>
    let body := x.loopBody h tails
    some ⟨h, layout.filter (· ∈ body)⟩

/-- The loops whose headers are in the layout, in its order. -/
def naturalLoops (x : FlowFacts BlockId) (layout : List BlockId) : List NaturalLoop :=
  layout.filterMap (naturalLoop? x layout)

/-- The header of a loop is in the layout and in the loop. -/
theorem header_mem_of_mem_naturalLoops {x : FlowFacts BlockId} {layout : List BlockId}
    {l : NaturalLoop} (h : l ∈ naturalLoops x layout) :
    l.header ∈ layout ∧ l.header ∈ l.blocks := by
  obtain ⟨b, hb, hl⟩ := List.mem_filterMap.1 h
  unfold naturalLoop? at hl
  split at hl
  · cases hl
  · cases hl
    refine ⟨hb, List.mem_filter.2 ⟨hb, ?_⟩⟩
    exact decide_eq_true (mem_closure_of_mem List.mem_cons_self)

end LoopSwap
