/-
**Which blocks of a plan can be the same.**

A plan names a block for each of nine roles.  The place of a block decides most of what it can be:
the outer preheader and the outer exit are outside the outer loop, the outer header, the inner
preheader, the outer latch and the inner exit are between the two loops, and the rest is in the
inner loop.  Within each of the three places the edges of the nest keep the roles apart, with one
exception.  If the inner loop is left for the outer latch itself, the inner exit is the outer latch,
and the edge from the one to the other that a plan asks for is an edge of the latch to itself.

Main definitions:

* `LoopSwap.Plan.connecting` — the preheaders, headers, latches and exits;
* `LoopSwap.Plan.roles` — these and the start of the inner body;
* `LoopSwap.Plan.settled` — the roles without the inner exit, place by place.

Main results:

* `LoopSwap.Nest.nodup_settled` — without the inner exit, the roles are different blocks;
* `LoopSwap.Nest.eq_outerLatch_of_mem_settled` — the inner exit can only be the outer latch;
* `LoopSwap.Nest.innerExit_eq_outerLatch_iff` — when it is;
* `LoopSwap.LoopForest.plan_roles_nodup_iff` — which blocks of a plan are different.
-/

import LoopSwap.Interchange.Basic
import LoopSwap.Proofs.Interchange.Plan

set_option relaxedAutoImplicit false
set_option autoImplicit false

namespace LoopSwap

/-! ### The roles -/

namespace Plan

/-- The blocks that connect the two loops with each other and with what is around them. -/
def connecting (p : Plan) : List BlockId :=
  [p.outerPreheader, p.outerHeader, p.outerLatch, p.outerExit, p.innerPreheader, p.innerHeader,
    p.innerLatch, p.innerExit]

/-- The connecting blocks and the start of the inner body. -/
def roles (p : Plan) : List BlockId := p.connecting ++ [p.bodyEntry]

/-- The roles without the inner exit: those outside the outer loop, with `q` as the outer preheader,
those between the two loops, and those in the inner loop. -/
def settled (p : Plan) (q : BlockId) : List BlockId :=
  [q, p.outerExit] ++
    ([p.outerHeader, p.innerPreheader, p.outerLatch] ++
      [p.innerHeader, p.innerLatch, p.bodyEntry])

theorem roles_perm (p : Plan) : p.roles.Perm (p.innerExit :: p.settled p.outerPreheader) := by
  rw [List.perm_iff_count]
  intro b
  simp only [roles, connecting, settled, List.count_append, List.count_cons, List.count_nil]
  omega

end Plan

/-! ### The places of the roles -/

namespace Nest

variable {g : FlowGraph BlockId} {O I : BlockId → Prop} {p : Plan} {q b : BlockId}

theorem not_outer_of_mem (h : Nest g O I q p) : ∀ b ∈ [q, p.outerExit], ¬ O b := by
  intro b hb
  rcases List.mem_pair.1 hb with rfl | rfl
  · exact h.outer.preheader_not_mem
  · exact h.outer.exit_not_mem

theorem between_of_mem (h : Nest g O I q p) :
    ∀ b ∈ [p.outerHeader, p.innerPreheader, p.outerLatch], O b ∧ ¬ I b := by
  intro b hb
  simp only [List.mem_cons, List.not_mem_nil, or_false] at hb
  rcases hb with rfl | rfl | rfl
  · exact ⟨h.outer.header_mem, h.outerHeader_not_inner⟩
  · exact ⟨h.innerPreheader_mem, h.inner.preheader_not_mem⟩
  · exact ⟨h.outer.latch_mem, h.outerLatch_not_inner⟩

theorem inner_of_mem (h : Nest g O I q p) :
    ∀ b ∈ [p.innerHeader, p.innerLatch, p.bodyEntry], I b := by
  intro b hb
  simp only [List.mem_cons, List.not_mem_nil, or_false] at hb
  rcases hb with rfl | rfl | rfl
  · exact h.inner.header_mem
  · exact h.inner.latch_mem
  · exact h.bodyEntry_inner

/-- Without the inner exit, the roles are different blocks. -/
theorem nodup_settled (h : Nest g O I q p) : (p.settled q).Nodup := by
  have hout : [q, p.outerExit].Nodup := by
    simpa using h.outerExit_ne_outerPreheader.symm
  have hbetween : [p.outerHeader, p.innerPreheader, p.outerLatch].Nodup := by
    simpa using ⟨⟨h.innerPreheader_ne_outerHeader.symm, h.outerLatch_ne_outerHeader.symm⟩,
      h.innerPreheader_ne_outerLatch⟩
  have hinner : [p.innerHeader, p.innerLatch, p.bodyEntry].Nodup := by
    simpa using ⟨⟨h.innerLatch_ne_innerHeader.symm, h.bodyEntry_ne.symm⟩,
      h.bodyEntry_ne_innerLatch.symm⟩
  refine List.nodup_append.2 ⟨hout, List.nodup_append.2 ⟨hbetween, hinner, ?_⟩, ?_⟩
  · rintro a ha b hb rfl
    exact (h.between_of_mem a ha).2 (h.inner_of_mem a hb)
  · rintro a ha b hb rfl
    refine h.not_outer_of_mem a ha ?_
    rcases List.mem_append.1 hb with hb | hb
    · exact (h.between_of_mem a hb).1
    · exact h.subset a (h.inner_of_mem a hb)

/-- Of the other roles, the inner exit can only be the outer latch. -/
theorem eq_outerLatch_of_mem_settled (h : Nest g O I q p) (hmem : p.innerExit ∈ p.settled q) :
    p.innerExit = p.outerLatch := by
  rcases List.mem_append.1 hmem with hmem | hmem
  · exact absurd h.innerExit_mem (h.not_outer_of_mem _ hmem)
  · rcases List.mem_append.1 hmem with hmem | hmem
    · simp only [List.mem_cons, List.not_mem_nil, or_false] at hmem
      rcases hmem with heq | heq | heq
      · exact absurd heq h.innerExit_ne_outerHeader
      · exact absurd heq.symm h.innerPreheader_ne_innerExit
      · exact heq
    · exact absurd (h.inner_of_mem _ hmem) h.inner.exit_not_mem

/-- The inner exit is the outer latch if a block of the inner loop leads to that. -/
theorem innerExit_eq_outerLatch_iff (h : Nest g O I q p) :
    p.innerExit = p.outerLatch ↔ ∃ b, I b ∧ g.Edge b p.outerLatch := by
  constructor
  · intro heq
    rw [← heq]
    exact h.inner.exists_exit
  · rintro ⟨b, hb, hedge⟩
    exact (h.inner.leaves b p.outerLatch hb hedge h.outerLatch_not_inner).symm

/-- The end of the inner body is no connecting block. -/
theorem bodyEnd_not_mem_connecting (h : Nest g O I p.outerPreheader p) :
    p.bodyEnd ∉ p.connecting := by
  have hI := h.bodyEnd_inner
  intro hmem
  have hplaces : p.bodyEnd = p.innerExit ∨
      p.bodyEnd ∈ [p.outerPreheader, p.outerExit] ∨
      p.bodyEnd ∈ [p.outerHeader, p.innerPreheader, p.outerLatch] ∨
      p.bodyEnd = p.innerHeader ∨ p.bodyEnd = p.innerLatch := by
    simp only [Plan.connecting, List.mem_cons, List.not_mem_nil, or_false] at hmem ⊢
    tauto
  rcases hplaces with heq | hout | hbetween | heq | heq
  · exact h.ne_innerExit_of_inner hI heq
  · exact h.not_outer_of_mem _ hout (h.subset _ hI)
  · exact (h.between_of_mem _ hbetween).2 hI
  · exact h.bodyEnd_ne heq
  · exact h.bodyEnd_ne_innerLatch heq

end Nest

/-! ### Plans -/

theorem Operation.mem_targets_of_continuation? {op : Operation} {t : BlockId}
    (h : op.continuation? = some t) : t ∈ op.targets := by
  cases op with
  | br target =>
      cases h
      exact List.mem_singleton_self _
  | _ => cases h

/-- The block that the outer exit goes on to is outside the outer loop. -/
theorem Planned.continuation_not_mem {f : Func} {outer inner : Nat} {l m : Loop} {p : Plan}
    (hf : f.Flowing) (h : Planned f outer inner l m p) : ∀ c ∈ p.continuation, c ∉ l.blocks := by
  intro c hc
  obtain ⟨op, hop, hcont⟩ := h.exitOp
  have htarget : c ∈ op.targets := Operation.mem_targets_of_continuation? (hcont.symm.trans hc)
  have hedge : f.graph.Edge p.outerExit c :=
    hf.edge_iff.2 (Func.mem_successors_iff.2 ⟨op, hop, htarget⟩)
  exact (h.nest hf).outerExit_edge hedge

/-- **Which blocks of a plan are different.**  Of the nine roles of a plan, only the inner exit and
the outer latch can be the same block, and they are if a block of the inner loop leads to the outer
latch.  The end of the inner body is no connecting block, and neither the outer exit nor the block
that it goes on to is in the outer loop. -/
theorem LoopForest.plan_roles_nodup_iff {f : Func} {outer inner : Nat} {p : Plan}
    (hf : f.WellFormed) (h : f.loops.plan f outer inner = .ok p) :
    ∃ l m, f.loops.loop? outer = some l ∧ f.loops.loop? inner = some m ∧
      (p.roles.erase p.innerExit).Nodup ∧
      (p.roles.Nodup ↔ p.innerExit ≠ p.outerLatch) ∧
      (p.innerExit = p.outerLatch ↔ ∃ b ∈ m.blocks, p.outerLatch ∈ f.successors b) ∧
      p.bodyEnd ∉ p.connecting ∧
      p.outerExit ∉ l.blocks ∧ ∀ c ∈ p.continuation, c ∉ l.blocks := by
  have hflow := hf.toFlowing
  obtain ⟨l, m, hp⟩ := plan_eq_ok_iff.1 h
  have hn := hp.nest hflow
  have hperm := p.roles_perm
  refine ⟨l, m, hp.outerLoop, hp.innerLoop, ?_, ?_, ?_, hn.bodyEnd_not_mem_connecting,
    hn.outer.exit_not_mem, hp.continuation_not_mem hflow⟩
  · have herase := hperm.erase p.innerExit
    rw [List.erase_cons_head] at herase
    exact herase.nodup_iff.2 hn.nodup_settled
  · rw [hperm.nodup_iff, List.nodup_cons, and_iff_left hn.nodup_settled]
    refine not_congr ⟨hn.eq_outerLatch_of_mem_settled, fun heq => ?_⟩
    rw [heq]
    simp [Plan.settled]
  · rw [hn.innerExit_eq_outerLatch_iff]
    simp only [hflow.edge_iff]

/-- A nest whose inner loop is left for the outer latch, which is a loop of its own. -/
def Func.latchedNest : Func :=
  .ofExits [("entry", .br ⟨1⟩), ("oph", .br ⟨2⟩), ("oh", .condBr (.const 0) ⟨3⟩ ⟨8⟩),
    ("iph", .br ⟨4⟩), ("ih", .condBr (.const 0) ⟨5⟩ ⟨7⟩), ("be", .br ⟨6⟩), ("il", .br ⟨4⟩),
    ("ol", .condBr (.const 0) ⟨7⟩ ⟨2⟩), ("oe", .br ⟨9⟩), ("done", .ret none)]

/-- Interchanging the two loops of that nest succeeds, although its plan has two roles for one
block. -/
theorem LoopForest.plan_roles_latchedNest :
    Func.latchedNest.WellFormed ∧
      ((⟨Func.latchedNest, .zero⟩ : Workspace).interchange 0 1).2 = .ok ⟨0, 1, [], 7, 6⟩ ∧
      ∃ p, Func.latchedNest.loops.plan Func.latchedNest 0 1 = .ok p ∧ ¬ p.roles.Nodup := by
  have hf : Func.latchedNest.WellFormed := by decide +kernel
  have hdone : ((⟨Func.latchedNest, .zero⟩ : Workspace).interchange 0 1).2 =
      .ok ⟨0, 1, [], 7, 6⟩ := by decide +kernel
  have hplan : Func.latchedNest.loops.plan Func.latchedNest 0 1 =
      .ok ⟨⟨1⟩, ⟨2⟩, ⟨7⟩, ⟨8⟩, ⟨3⟩, ⟨4⟩, ⟨6⟩, ⟨7⟩, ⟨5⟩, ⟨5⟩, some ⟨0⟩, some ⟨9⟩⟩ := by
    decide +kernel
  obtain ⟨l, m, -, -, -, hroles, -⟩ := LoopForest.plan_roles_nodup_iff hf hplan
  exact ⟨hf, hdone, _, hplan, fun hnodup => hroles.1 hnodup rfl⟩

end LoopSwap
