/-
**The connecting blocks of a loop are found.**

The preheader, the latch and the exit of a loop are each the only block of a kind.  No block is
listed twice among those from which one is chosen, so a block is found exactly if it is the only one
(`NaturalLoop.preheader?_eq_some_iff` and its companions).

The record of a loop describes a region if it names a preheader, a latch and an exit
(`Func.Describes.region`).  Here is the way back: if the blocks of a loop are a region with these
three blocks, then the record names them.

Main results:

* `LoopSwap.FlowGraph.nodup_preds` — the predecessors of a node are listed once;
* `LoopSwap.NaturalLoop.preheader?_eq_some_iff`, `LoopSwap.NaturalLoop.latch?_eq_some_iff`,
  `LoopSwap.NaturalLoop.exit?_eq_some_iff` — which blocks are found;
* `LoopSwap.Func.connections_of_region` — a region around a header gives the connecting blocks of
  its loop.
-/

import LoopSwap.Proofs.Loop.Region

set_option relaxedAutoImplicit false
set_option autoImplicit false

namespace LoopSwap

/-! ### Lists with one element -/

/-- A list without repetition with just one element is found to have just one. -/
theorem sole?_eq_some_of_nodup {α : Type} {l : List α} {a : α} (hl : l.Nodup)
    (h : ∀ x, x ∈ l ↔ x = a) : sole? l = some a := by
  have hperm : l.Perm [a] := (List.perm_ext_iff_of_nodup hl (List.nodup_singleton a)).2 fun x => by
    rw [h, List.mem_singleton]
  rw [sole?_eq_some_iff, List.perm_singleton.1 hperm]

/-- In a list without repetition one finds just one element if it has no other. -/
theorem sole?_eq_some_iff_of_nodup {α : Type} {l : List α} {a : α} (hl : l.Nodup) :
    sole? l = some a ↔ ∀ x, x ∈ l ↔ x = a := by
  refine ⟨fun h x => ?_, sole?_eq_some_of_nodup hl⟩
  rw [sole?_eq_some_iff.1 h, List.mem_singleton]

/-! ### Predecessors -/

theorem nodup_edgesInto {α : Type} [DecidableEq α] {edges : List (α × α)} (h : edges.Nodup)
    (a : α) : (edgesInto edges a).Nodup := by
  refine h.filterMap fun e e' p he he' => ?_
  obtain ⟨rfl, rfl⟩ : e.2 = a ∧ e.1 = p := by simpa using he
  obtain ⟨h₂, h₁⟩ : e'.2 = e.2 ∧ e'.1 = e.1 := by simpa using he'
  exact Prod.ext h₁.symm h₂.symm

/-- The predecessors of a node are listed once, if the successors of every node are. -/
theorem FlowGraph.nodup_preds {α : Type} [DecidableEq α] {g : FlowGraph α}
    (h : ∀ a, (g.succs a).Nodup) (a : α) : (g.facts.preds a).Nodup := by
  refine nodup_edgesInto ?_ a
  rw [edges_facts, reachableEdges, List.nodup_flatMap]
  constructor
  · intro x _
    refine List.Nodup.map (fun _ _ heq => (Prod.mk.inj heq).2) ?_
    unfold next nextIn
    split
    · exact (h x).filter _
    · exact List.nodup_nil
  · refine (g.nodup_nodes.filter _).imp fun hxy e hx hy => hxy ?_
    obtain ⟨_, -, rfl⟩ := List.mem_map.1 hx
    obtain ⟨_, -, heq⟩ := List.mem_map.1 hy
    exact (congrArg Prod.fst heq).symm

namespace Func

variable {f : Func} {a b : BlockId}

theorem nodup_successors (f : Func) (a : BlockId) : (f.successors a).Nodup := by
  unfold successors
  cases f.exitOp? a with
  | none => exact List.nodup_nil
  | some op => exact op.nodup_successors

/-- A block with one edge has one successor. -/
theorem Flowing.successors_eq_singleton (hf : f.Flowing) (h : ∀ x, f.graph.Edge a x ↔ x = b) :
    f.successors a = [b] := by
  refine sole?_eq_some_iff.1 (sole?_eq_some_of_nodup (f.nodup_successors a) fun x => ?_)
  rw [← hf.edge_iff, h]

/-- A block with two edges has two successors. -/
theorem Flowing.successors_perm_pair (hf : f.Flowing) {c : BlockId} (hbc : b ≠ c)
    (h : ∀ x, f.graph.Edge a x ↔ x = b ∨ x = c) : (f.successors a).Perm [b, c] := by
  have hpair : [b, c].Nodup := by simp [hbc]
  refine (List.perm_ext_iff_of_nodup (f.nodup_successors a) hpair).2 fun x => ?_
  rw [← hf.edge_iff, h, List.mem_pair]

/-- A block to which one edge leads has one predecessor. -/
theorem Flowing.predecessors_eq_singleton (hf : f.Flowing) (h : ∀ x, f.graph.Edge x b ↔ x = a) :
    f.predecessors b = [a] := by
  refine sole?_eq_some_iff.1 (sole?_eq_some_of_nodup (hf.nodup_layout.filter _) fun x => ?_)
  rw [← h, hf.edge_iff_mem_predecessors, predecessors]

end Func

/-! ### Connecting blocks -/

namespace NaturalLoop

variable {f : Func} {n : NaturalLoop} {p t x : BlockId}

theorem preheader?_eq_some_iff : n.preheader? f f.graph.facts = some p ↔
    f.successors p = [n.header] ∧
      ∀ a, f.graph.Reachable a ∧ f.graph.Edge a n.header ∧ a ∉ n.blocks ↔ a = p := by
  have hpreds : (f.graph.facts.preds n.header).Nodup :=
    FlowGraph.nodup_preds f.nodup_successors n.header
  rw [preheader?, Option.filter_eq_some_iff, decide_eq_true_eq, and_comm,
    sole?_eq_some_iff_of_nodup (hpreds.filter _)]
  refine and_congr_right fun _ => forall_congr' fun a => ?_
  rw [List.mem_filter, FlowGraph.mem_preds_iff, decide_eq_true_eq, and_assoc]

theorem latch?_eq_some_iff : n.latch? f.graph.facts = some t ↔
    ∀ a, f.graph.Reachable a ∧ f.graph.Edge a n.header ∧ a ∈ n.blocks ↔ a = t := by
  have hpreds : (f.graph.facts.preds n.header).Nodup :=
    FlowGraph.nodup_preds f.nodup_successors n.header
  rw [latch?, sole?_eq_some_iff_of_nodup (hpreds.filter _)]
  refine forall_congr' fun a => ?_
  rw [List.mem_filter, FlowGraph.mem_preds_iff, decide_eq_true_eq, and_assoc]

theorem exit?_eq_some_iff : n.exit? f = some x ↔
    ∀ b, (∃ a ∈ n.blocks, b ∈ f.successors a) ∧ b ∉ n.blocks ↔ b = x := by
  rw [exit?, sole?_eq_some_iff_of_nodup (nodup_lastOccurrences _)]
  refine forall_congr' fun b => ?_
  rw [mem_lastOccurrences, List.mem_filter, List.mem_flatMap, decide_eq_true_eq]

end NaturalLoop

/-- If the blocks of a loop are a region, the record names its preheader, latch and exit. -/
theorem Func.connections_of_region {f : Func} {i : Nat} {l : Loop} {p t x : BlockId}
    (hf : f.Flowing) (hi : f.loops.loop? i = some l)
    (hr : Region f.graph (· ∈ l.blocks) l.header p t x) :
    l.preheader = some p ∧ l.latch = some t ∧ l.exit = some x := by
  obtain ⟨depth, c, -, rfl⟩ := Func.loop?_eq_some_iff.1 hi
  refine ⟨NaturalLoop.preheader?_eq_some_iff.2 ⟨?_, fun a => ⟨?_, ?_⟩⟩,
    NaturalLoop.latch?_eq_some_iff.2 fun a => ⟨?_, ?_⟩,
    NaturalLoop.exit?_eq_some_iff.2 fun b => ⟨?_, ?_⟩⟩
  · exact hf.successors_eq_singleton hr.preheader_edge
  · rintro ⟨hreach, hedge, ha⟩
    exact (hr.enters a _ hreach hedge ha hr.header_mem).1
  · rintro rfl
    exact ⟨hr.preheader_reachable, (hr.preheader_edge _).2 rfl, hr.preheader_not_mem⟩
  · rintro ⟨-, hedge, ha⟩
    exact hr.turns a ha hedge
  · rintro rfl
    exact ⟨hr.reachable hr.latch_mem, hr.latch_edge, hr.latch_mem⟩
  · rintro ⟨⟨a, ha, hab⟩, hb⟩
    exact hr.leaves a b ha (hf.edge_iff.2 hab) hb
  · rintro rfl
    obtain ⟨a, ha, hab⟩ := hr.exists_exit
    exact ⟨⟨a, ha, hf.edge_iff.1 hab⟩, hr.exit_not_mem⟩

end LoopSwap
