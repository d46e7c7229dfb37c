/-
**Graphs that agree on what can be reached.**

Reachability, dominance and loops are about ways from the entry.  So two graphs with the same entry
have them in common if they have the same edges out of the nodes of the first: a way never leaves
these nodes, in whatever order they are listed and whatever else the second graph has.

Two functions that agree in this way have the same loops, and each loop is connected to the rest of
the function by the same blocks.

Main definitions:

* `LoopSwap.FlowGraph.Agrees`, `LoopSwap.Func.Agrees` — the same entry, and the same edges out of
  the nodes of the first.

Main results:

* `LoopSwap.FlowGraph.Agrees.inLoop_iff` — loops by paths;
* `LoopSwap.Func.Agrees.mem_blocks_iff` — the blocks of a loop that is found;
* `LoopSwap.Func.Agrees.preheader?_eq`, `LoopSwap.Func.Agrees.latch?_eq`,
  `LoopSwap.Func.Agrees.exit?_eq` — its connecting blocks.
-/

import LoopSwap.Proofs.Loop.Connections

set_option relaxedAutoImplicit false
set_option autoImplicit false

namespace LoopSwap

/-! ### Graphs -/

namespace FlowGraph

variable {α : Type} {g g' : FlowGraph α} {a b h t : α}

/-- `g'` has the entry of `g` and, out of the nodes of `g`, the edges of `g`. -/
structure Agrees (g g' : FlowGraph α) : Prop where
  entry : g'.entry = g.entry
  entry_listed : ∀ e, g.entry = some e → (e ∈ g'.listed ↔ e ∈ g.listed)
  edge : ∀ a ∈ g.listed, ∀ b, g'.Edge a b ↔ g.Edge a b

namespace Agrees

variable (hg : g.Agrees g')

include hg

/-- From a node of `g` one gets to the same nodes in both graphs. -/
theorem reachVia_iff {P : α → Prop} (ha : a ∈ g.listed) :
    ReachVia g'.Edge P a b ↔ ReachVia g.Edge P a b := by
  constructor
  · intro hab
    -- a way in `g'` is followed in `g` as long as it stays among the nodes of `g`, which it does
    refine (hab.mem_of_closed (S := fun x => x ∈ g.listed ∧ ReachVia g.Edge P a x) ⟨ha, .refl a⟩
      fun x y hx hxy hy => ?_).2
    have hedge := (hg.edge x hx.1 y).1 hxy
    exact ⟨hedge.2.1, hx.2.tail hedge hy⟩
  · intro hab
    exact Relation.ReflTransGen.mono (fun x y hxy => ⟨(hg.edge x hxy.1.1 y).2 hxy.1, hxy.2⟩) a b hab

theorem reachable_iff : g'.Reachable a ↔ g.Reachable a := by
  rw [Reachable.iff_reachVia, Reachable.iff_reachVia, hg.entry]
  refine exists_congr fun e => and_congr_right fun he => ?_
  rw [hg.entry_listed e he]
  exact and_congr_right fun hl => hg.reachVia_iff hl

theorem dominates_iff : g'.Dominates a b ↔ g.Dominates a b := by
  rw [FlowGraph.dominates_iff, FlowGraph.dominates_iff, hg.entry]
  refine forall_congr' fun e => forall_congr' fun he => ?_
  rw [hg.entry_listed e he]
  exact forall_congr' fun hl => or_congr_right (not_congr (hg.reachVia_iff hl))

/-- Graphs that agree have the same reachable predecessors. -/
theorem pred_iff : g'.Reachable a ∧ g'.Edge a b ↔ g.Reachable a ∧ g.Edge a b := by
  rw [hg.reachable_iff]
  exact and_congr_right fun ha => hg.edge a ha.listed b

theorem backEdge_iff : g'.BackEdge t h ↔ g.BackEdge t h := by
  constructor
  · rintro ⟨hreach, hedge, hdom⟩
    obtain ⟨hreach', hedge'⟩ := hg.pred_iff.1 ⟨hreach, hedge⟩
    exact ⟨hreach', hedge', hg.dominates_iff.1 hdom⟩
  · rintro ⟨hreach, hedge, hdom⟩
    obtain ⟨hreach', hedge'⟩ := hg.pred_iff.2 ⟨hreach, hedge⟩
    exact ⟨hreach', hedge', hg.dominates_iff.2 hdom⟩

/-- Graphs that agree have the same loops. -/
theorem inLoop_iff : g'.InLoop h a ↔ g.InLoop h a := by
  refine exists_congr fun t => and_congr hg.backEdge_iff (or_congr_right ?_)
  refine and_congr_right fun _ => ?_
  rw [hg.reachable_iff]
  exact and_congr_right fun hreach => hg.reachVia_iff hreach.listed

end Agrees

end FlowGraph

/-! ### Functions -/

namespace Func

variable {f g : Func}

/-- `g` has the entry of `f`, and the blocks of `f` lead to the same blocks in both. -/
structure Agrees (f g : Func) : Prop where
  graph : f.graph.Agrees g.graph
  successors : ∀ a ∈ f.layout, g.successors a = f.successors a

namespace Agrees

variable (hg : f.Agrees g) {n n' : NaturalLoop}
  (hn : n ∈ naturalLoops f.graph.facts f.layout) (hn' : n' ∈ naturalLoops g.graph.facts g.layout)
  (hheader : n'.header = n.header)

include hg hn hn' hheader

/-- Loops with the same header have the same blocks. -/
theorem mem_blocks_iff {b : BlockId} : b ∈ n'.blocks ↔ b ∈ n.blocks := by
  rw [LoopSwap.mem_blocks_iff hn', LoopSwap.mem_blocks_iff hn, hheader, hg.graph.inLoop_iff]

theorem preheader?_eq : n'.preheader? g g.graph.facts = n.preheader? f f.graph.facts := by
  refine Option.ext fun p => ?_
  have henters : ∀ a, g.graph.Reachable a ∧ g.graph.Edge a n'.header ∧ a ∉ n'.blocks ↔
      f.graph.Reachable a ∧ f.graph.Edge a n.header ∧ a ∉ n.blocks := by
    intro a
    rw [← and_assoc, hg.graph.pred_iff, and_assoc, hg.mem_blocks_iff hn hn' hheader, hheader]
  rw [NaturalLoop.preheader?_eq_some_iff, NaturalLoop.preheader?_eq_some_iff]
  simp only [henters]
  refine and_congr_left fun hp => ?_
  rw [hheader, hg.successors p ((hp p).2 rfl).1.listed]

theorem latch?_eq : n'.latch? g.graph.facts = n.latch? f.graph.facts := by
  refine Option.ext fun t => ?_
  have hturns : ∀ a, g.graph.Reachable a ∧ g.graph.Edge a n'.header ∧ a ∈ n'.blocks ↔
      f.graph.Reachable a ∧ f.graph.Edge a n.header ∧ a ∈ n.blocks := by
    intro a
    rw [← and_assoc, hg.graph.pred_iff, and_assoc, hg.mem_blocks_iff hn hn' hheader, hheader]
  rw [NaturalLoop.latch?_eq_some_iff, NaturalLoop.latch?_eq_some_iff]
  simp only [hturns]

theorem exit?_eq : n'.exit? g = n.exit? f := by
  refine Option.ext fun x => ?_
  have hleaves : ∀ b, (∃ a ∈ n'.blocks, b ∈ g.successors a) ∧ b ∉ n'.blocks ↔
      (∃ a ∈ n.blocks, b ∈ f.successors a) ∧ b ∉ n.blocks := by
    intro b
    rw [hg.mem_blocks_iff hn hn' hheader]
    refine and_congr_left fun _ => exists_congr fun a => ?_
    rw [hg.mem_blocks_iff hn hn' hheader]
    refine and_congr_right fun ha => ?_
    rw [hg.successors a ((LoopSwap.mem_blocks_iff hn).1 ha).reachable.listed]
  rw [NaturalLoop.exit?_eq_some_iff, NaturalLoop.exit?_eq_some_iff]
  simp only [hleaves]

end Agrees

end Func

end LoopSwap
