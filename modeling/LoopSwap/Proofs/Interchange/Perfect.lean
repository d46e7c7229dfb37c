/-
**How perfect a nest is that is interchanged.**

An interchange checks one edge of the outer header, one of the inner header and one of the inner
exit.  The outer header, the inner preheader, the inner exit and the outer latch are always between
the two loops then, but there can be more: blocks that a second edge of one of them leads to, and a
loop between the two, whose header is the inner preheader.  This module says exactly when there are
such blocks and such a loop.

Main definitions:

* `LoopSwap.Plan.between` — the four blocks that the outer loop should add to the inner one.

Main results:

* `LoopSwap.Planned.between_mem` — they are in the outer loop and not in the inner one;
* `LoopSwap.Planned.blocks_between_iff` — when there are no others;
* `LoopSwap.Planned.child_iff` — when there is no loop between;
* `LoopSwap.Workspace.interchange_perfect_iff` — how perfect a nest is that is interchanged.
-/

import LoopSwap.Proofs.Interchange.Materialize
import LoopSwap.Proofs.Loop.Nesting

set_option relaxedAutoImplicit false
set_option autoImplicit false

namespace LoopSwap

/-- The four blocks that the outer loop should add to the inner one. -/
def Plan.between (p : Plan) : List BlockId :=
  [p.outerHeader, p.innerPreheader, p.innerExit, p.outerLatch]

namespace Planned

variable {f : Func} {outer inner : Nat} {l m : Loop} {p : Plan}

/-! ### Blocks between -/

theorem between_mem (hf : f.Flowing) (h : Planned f outer inner l m p) :
    ∀ b ∈ p.between, b ∈ l.blocks ∧ b ∉ m.blocks := by
  have hn := h.nest hf
  simp only [Plan.between, List.forall_mem_cons]
  exact ⟨⟨hn.outer.header_mem, hn.outerHeader_not_inner⟩,
    ⟨hn.innerPreheader_mem, hn.inner.preheader_not_mem⟩,
    ⟨hn.innerExit_mem, hn.inner.exit_not_mem⟩,
    ⟨hn.outer.latch_mem, hn.outerLatch_not_inner⟩, List.forall_mem_nil _⟩

/-- Apart from the inner preheader, no block between leads into the inner loop. -/
theorem not_inner_of_edge (hf : f.Flowing) (h : Planned f outer inner l m p) {a b : BlockId}
    (ha : a ∈ [p.outerHeader, p.innerExit, p.outerLatch]) (hab : f.graph.Edge a b) :
    b ∉ m.blocks := by
  have hn := h.nest hf
  have hmem : a ∈ p.between := by
    simp only [Plan.between, List.mem_cons, List.not_mem_nil, or_false] at ha ⊢
    rcases ha with rfl | rfl | rfl <;> simp
  obtain ⟨haO, haI⟩ := h.between_mem hf a hmem
  intro hb
  have hap := (hn.inner.enters a b (hn.outer.reachable haO) hab haI hb).1
  simp only [List.mem_cons, List.not_mem_nil, or_false] at ha
  rcases ha with rfl | rfl | rfl
  · exact hn.innerPreheader_ne_outerHeader hap.symm
  · exact hn.innerPreheader_ne_innerExit hap.symm
  · exact hn.innerPreheader_ne_outerLatch hap.symm

/-- The outer loop adds four blocks to the inner one exactly if, inside the outer loop, the outer
header, the inner exit and the outer latch lead only to these. -/
theorem blocks_between_iff (hf : f.Flowing) (h : Planned f outer inner l m p) :
    (∀ b, b ∈ l.blocks ∧ b ∉ m.blocks ↔ b ∈ p.between) ↔
      ∀ a ∈ [p.outerHeader, p.innerExit, p.outerLatch], ∀ b ∈ f.successors a, b ∈ l.blocks →
        b ∈ p.between := by
  have hn := h.nest hf
  constructor
  · intro hall a ha b hab hb
    exact (hall b).1 ⟨hb, h.not_inner_of_edge hf ha (hf.edge_iff.2 hab)⟩
  · intro hclosed b
    refine ⟨fun ⟨hbO, hbI⟩ => ?_, h.between_mem hf b⟩
    -- no edge of the outer loop leads out of the inner loop and the four blocks
    refine ((hn.outer.from_header b hbO).mem_of_closed
      (S := fun x => x ∈ m.blocks ∨ x ∈ p.between) (Or.inr List.mem_cons_self)
      fun x y hx hxy hy => ?_).resolve_left hbI
    have hstep : x ∈ [p.outerHeader, p.innerExit, p.outerLatch] → y ∈ p.between := fun hx =>
      hclosed x hx y (hf.edge_iff.1 hxy) hy
    rcases hx with hx | hx
    · by_cases hyI : y ∈ m.blocks
      · exact Or.inl hyI
      · rw [hn.inner.leaves x y hx hxy hyI]
        exact Or.inr (by simp [Plan.between])
    · simp only [Plan.between, List.mem_cons, List.not_mem_nil, or_false] at hx
      rcases hx with rfl | rfl | rfl | rfl
      · exact Or.inr (hstep (by simp))
      · exact Or.inl ((hn.inner.preheader_edge y).1 hxy ▸ hn.inner.header_mem)
      · exact Or.inr (hstep (by simp))
      · exact Or.inr (hstep (by simp))

/-! ### Loops between -/

/-- The inner loop is a child of the outer one exactly if no loop starts at the inner preheader. -/
theorem child_iff (hf : f.Flowing) (h : Planned f outer inner l m p) :
    m.parent = some outer ↔
      ∀ k n, f.loops.loop? k = some n → n.header ≠ p.innerPreheader := by
  have hn := h.nest hf
  have hl := hf.nodup_layout
  have hdl := Func.describes_loop? h.outerLoop
  have houter : f.graph.InLoop p.outerHeader p.innerPreheader := by
    rw [← h.headers.1]
    exact hdl.mem_blocks.1 hn.innerPreheader_mem
  have hpreheader : p.innerPreheader ≠ p.innerHeader := fun heq =>
    hn.inner.preheader_not_mem (heq ▸ hn.inner.header_mem)
  have hedge : f.graph.Edge p.innerPreheader p.innerHeader := (hn.inner.preheader_edge _).2 rfl
  rw [Func.parent_eq_some_iff hl h.innerLoop, h.headers.2]
  constructor
  · rintro ⟨l', hl', -, -, hleast⟩ k n hk heq
    rw [h.outerLoop] at hl'
    cases hl'
    have hdn := Func.describes_loop? hk
    -- such a loop contains the inner header, which is all that its header leads to
    have hin : p.innerHeader ∈ n.blocks := by
      obtain ⟨t, ht⟩ := hdn.backEdge
      rw [hdn.mem_blocks]
      have hne : t ≠ n.header := by
        rintro rfl
        have hself := ht.edge
        rw [heq, hn.inner.preheader_edge] at hself
        exact hpreheader hself
      obtain ⟨-, v, rfl, -, huv, hv, -⟩ :=
        ht.inLoop.from_header.exists_crossing (· = n.header) rfl hne
      rw [heq, hn.inner.preheader_edge] at huv
      exact huv ▸ hv
    have hki : k ≠ inner := by
      rintro rfl
      rw [h.innerLoop] at hk
      cases hk
      exact hpreheader (heq.symm.trans h.headers.2)
    have hup := hleast k n hk hki hin
    rw [h.headers.1, hdn.mem_blocks, heq] at hup
    exact houter.not_inLoop_header hn.innerPreheader_ne_outerHeader hup
  · intro hfree
    refine ⟨l, h.outerLoop, h.within.1, hn.innerHeader_outer, fun k n hk hki hin => ?_⟩
    have hdn := Func.describes_loop? hk
    have hne : p.innerHeader ≠ n.header := by
      rw [← h.headers.2]
      exact fun heq => hki (Func.loop?_inj hl hk h.innerLoop heq.symm)
    -- backwards from the inner header, over the inner preheader, to the outer header
    rw [hdn.mem_blocks] at hin
    have hpre := hin.pred hne hn.inner.preheader_reachable hedge
    have hup := hpre.pred (fun heq => hfree k n hk heq.symm)
      (hn.outer.reachable hn.outer.header_mem) hn.header_edge
    rw [h.headers.1]
    exact hdn.mem_blocks.2 hup

end Planned

/-! ### Interchanges -/

/-- **How perfect a nest is that is interchanged.**  The inner loop of a successful interchange is
within the outer one, and the outer header, the inner preheader, the inner exit and the outer latch
are in the outer loop and not in the inner one.  There are no other such blocks exactly if, inside
the outer loop, the outer header, the inner exit and the outer latch lead only to these four; and
the outer loop is the parent of the inner one exactly if no loop starts at the inner preheader. -/
theorem Workspace.interchange_perfect_iff {w w' : Workspace} {outer inner : Nat}
    {done : Interchanged} (hf : w.func.WellFormed)
    (h : w.interchange outer inner = (w', .ok done)) :
    ∃ l m p, Planned w.func outer inner l m p ∧
      (∀ b ∈ p.between, b ∈ l.blocks ∧ b ∉ m.blocks) ∧
      ((∀ b, b ∈ l.blocks ∧ b ∉ m.blocks ↔ b ∈ p.between) ↔
        ∀ a ∈ [p.outerHeader, p.innerExit, p.outerLatch], ∀ b ∈ w.func.successors a,
          b ∈ l.blocks → b ∈ p.between) ∧
      (m.parent = some outer ↔
        ∀ k n, w.func.loops.loop? k = some n → n.header ≠ p.innerPreheader) := by
  have hflow := hf.toFlowing
  obtain ⟨l, m, p, -, -, -, -, hp, -⟩ := exists_planned hflow h
  exact ⟨l, m, p, hp, hp.between_mem hflow, hp.blocks_between_iff hflow, hp.child_iff hflow⟩

/-- A nest with a block beside the inner preheader, and with a loop between the two that starts
there. -/
def Func.looseNest : Func :=
  .ofExits [("entry", .br ⟨1⟩), ("oph", .br ⟨2⟩), ("oh", .condBr (.const 0) ⟨4⟩ ⟨3⟩),
    ("beside", .condBr (.const 0) ⟨4⟩ ⟨10⟩), ("iph", .br ⟨5⟩),
    ("ih", .condBr (.const 0) ⟨6⟩ ⟨8⟩), ("be", .br ⟨7⟩), ("il", .br ⟨5⟩),
    ("ie", .condBr (.const 0) ⟨4⟩ ⟨9⟩), ("ol", .br ⟨2⟩), ("oe", .br ⟨11⟩), ("done", .ret none)]

/-- Interchanging the outermost and the innermost loop of that nest succeeds, although the one is
not the parent of the other and there are more than four blocks between them. -/
theorem Workspace.interchange_looseNest_not_perfect :
    Func.looseNest.WellFormed ∧ ∃ w' done l m p,
      (⟨Func.looseNest, .zero⟩ : Workspace).interchange 0 2 = (w', .ok done) ∧
      Planned Func.looseNest 0 2 l m p ∧ m.parent ≠ some 0 ∧
      ¬ ∀ b, b ∈ l.blocks ∧ b ∉ m.blocks ↔ b ∈ p.between := by
  have hf : Func.looseNest.WellFormed := by decide +kernel
  have hdone : ((⟨Func.looseNest, .zero⟩ : Workspace).interchange 0 2).2 =
      .ok ⟨0, 2, [], 8, 6⟩ := by decide +kernel
  have hrun : (⟨Func.looseNest, .zero⟩ : Workspace).interchange 0 2 =
      (_, .ok ⟨0, 2, [], 8, 6⟩) := Prod.ext rfl hdone
  obtain ⟨l, m, p, hp, -, hblocks, hchild⟩ := Workspace.interchange_perfect_iff hf hrun
  have hplan : Func.looseNest.loops.plan Func.looseNest 0 2 =
      .ok ⟨⟨1⟩, ⟨2⟩, ⟨9⟩, ⟨10⟩, ⟨4⟩, ⟨5⟩, ⟨7⟩, ⟨8⟩, ⟨6⟩, ⟨6⟩, some ⟨0⟩, some ⟨11⟩⟩ := by
    decide +kernel
  obtain rfl := Except.ok.inj (hplan.symm.trans hp.plan_eq)
  refine ⟨hf, _, _, l, m, _, hrun, hp, ?_, ?_⟩
  · have hbetween : (Func.looseNest.loops.loop? 1).map (·.header) = some ⟨4⟩ := by
      decide +kernel
    obtain ⟨n, hn, hheader⟩ := Option.map_eq_some_iff.1 hbetween
    exact fun h => hchild.1 h 1 n hn hheader
  · have hloop : (Func.looseNest.loops.loop? 0).map (·.blocks) =
        some [⟨2⟩, ⟨3⟩, ⟨4⟩, ⟨5⟩, ⟨6⟩, ⟨7⟩, ⟨8⟩, ⟨9⟩] := by decide +kernel
    rw [hp.outerLoop, Option.map_some, Option.some.injEq] at hloop
    have hbeside : (⟨3⟩ : BlockId) ∈ Func.looseNest.successors ⟨2⟩ := by decide +kernel
    intro h
    have hmem := hblocks.1 h ⟨2⟩ (by decide) ⟨3⟩ hbeside (by rw [hloop]; decide)
    exact absurd hmem (by decide)

end LoopSwap
