/-
**Dead code does not change the loops.**

Blocks that no block of a function leads to are never entered, wherever they lead themselves.  They
do stand in the layout between the blocks of a loop, and they may lead to its header, its latch or
its body.  But loops, their order and their connecting blocks are a matter of reachable blocks, and
the layout without the dead blocks is the old one.

Main definitions:

* `LoopSwap.Func.DeadExtension` — a function with dead blocks added to it.

Main results:

* `LoopSwap.Func.loops_eq_of_agrees` — functions that agree have the same forest;
* `LoopSwap.Func.loops_deadExtension` — dead code does not change the forest.
-/

import LoopSwap.Proofs.Code.Split
import LoopSwap.Proofs.Loop.Agreement
import LoopSwap.Proofs.Loop.Nesting

set_option relaxedAutoImplicit false
set_option autoImplicit false

namespace LoopSwap

namespace Func

variable {f g : Func}

/-- The forest is the same if the layout without the additional blocks is. -/
theorem loops_eq_of_agrees (hg : f.Agrees g)
    (hlayout : g.layout.filter (· ∈ f.layout) = f.layout) : g.loops = f.loops := by
  have hloops := naturalLoops_eq_of_inLoop (fun _ _ => hg.graph.inLoop_iff) hlayout
  have hsame := loops_eq_of_naturalLoops (u := id) hloops fun n hn =>
    have hn' : n ∈ naturalLoops g.graph.facts g.layout := hloops ▸ hn
    ⟨hg.preheader?_eq hn hn' rfl, hg.latch?_eq hn hn' rfl, hg.exit?_eq hn hn' rfl⟩
  exact hsame.trans (congrArg LoopForest.mk (List.map_id _))

/-! ### Dead code -/

/-- `g` is `f` with additional blocks that no block of `f` leads to.  They stand anywhere in the
layout but at its start, and contain and lead to anything. -/
structure DeadExtension (f g : Func) : Prop where
  block? : ∀ b ∈ f.layout, g.block? b = f.block? b
  inst? : ∀ b ∈ f.layout, ∀ i ∈ f.blockInsts b, g.inst? i = f.inst? i
  layout : g.layout.filter (· ∈ f.layout) = f.layout
  entry : g.entry? = f.entry?
  dead : ∀ a ∈ f.layout, ∀ b ∈ f.successors a, b ∈ g.layout → b ∈ f.layout

namespace DeadExtension

variable (h : f.DeadExtension g)

include h

theorem mem_layout {b : BlockId} (hb : b ∈ f.layout) : b ∈ g.layout := by
  rw [← h.layout] at hb
  exact List.mem_of_mem_filter hb

/-- The blocks of `f` lead where they did. -/
theorem successors {b : BlockId} (hb : b ∈ f.layout) : g.successors b = f.successors b := by
  have hinsts : g.blockInsts b = f.blockInsts b := by
    rw [blockInsts, blockInsts, h.block? b hb]
  have hexit : g.exitOp? b = f.exitOp? b := by
    refine exitOp?_congr (by rw [hinsts]) fun i hi => ?_
    rw [op?, op?, h.inst? b hb i hi]
  rw [Func.successors, Func.successors, hexit]

theorem agrees : f.Agrees g := by
  refine ⟨⟨h.entry, fun e he => ?_, fun a ha b => ?_⟩, fun a ha => h.successors ha⟩
  · have hmem : e ∈ f.layout := List.mem_of_mem_head? he
    exact iff_of_true (h.mem_layout hmem) hmem
  · constructor
    · rintro ⟨-, hb, hab⟩
      have hab' : b ∈ f.successors a := h.successors ha ▸ hab
      exact ⟨ha, h.dead a ha b hab' hb, hab'⟩
    · rintro ⟨-, hb, hab⟩
      have hab' : b ∈ g.successors a := (h.successors ha).symm ▸ hab
      exact ⟨h.mem_layout ha, h.mem_layout hb, hab'⟩

end DeadExtension

/-- **Dead code does not change the loops.**  A function and the same function with dead blocks
added to it have the same forest: the same loops with the same numbers, blocks, parents, children,
depths and connecting blocks. -/
theorem loops_deadExtension (h : f.DeadExtension g) : g.loops = f.loops :=
  loops_eq_of_agrees h.agrees h.layout

/-- Two loops in another one, with dead blocks between their blocks that lead into all three. -/
def strewn : Func where
  name := twoInside.name
  blocks := twoInside.blocks ++ #[⟨"into", [⟨6⟩]⟩, ⟨"back", [⟨7⟩, ⟨8⟩]⟩, ⟨"self", [⟨9⟩]⟩]
  insts := twoInside.insts ++ #[⟨none, .condBr (.const 0) ⟨1⟩ ⟨3⟩, ⟨6⟩⟩, ⟨none, .const 1, ⟨7⟩⟩,
    ⟨none, .condBr (.value ⟨7⟩) ⟨4⟩ ⟨6⟩, ⟨7⟩⟩, ⟨none, .condBr (.const 0) ⟨8⟩ ⟨0⟩, ⟨8⟩⟩]
  layout := [⟨0⟩, ⟨6⟩, ⟨1⟩, ⟨2⟩, ⟨7⟩, ⟨3⟩, ⟨4⟩, ⟨5⟩, ⟨8⟩]

/-- They lead to the header of a loop and to its latch, and the three loops stay as they are. -/
theorem loops_deadExtension_strewn : twoInside.DeadExtension strewn ∧
    ⟨1⟩ ∈ strewn.successors ⟨6⟩ ∧ ⟨4⟩ ∈ strewn.successors ⟨7⟩ ∧ twoInside.loops.loops.length = 3 ∧
      strewn.loops = twoInside.loops := by
  have hdead : twoInside.DeadExtension strewn :=
    ⟨by decide, by decide, by decide, by decide, by decide⟩
  exact ⟨hdead, by decide, by decide, by decide +kernel, loops_deadExtension hdead⟩

end Func

end LoopSwap
