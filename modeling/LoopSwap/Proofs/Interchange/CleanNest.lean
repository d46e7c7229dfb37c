/-
**Interchanging a clean nest of a function.**

What makes a nest clean is said here of the function: which loops there are, what their connecting
blocks lead to and where they are entered from.  Such a nest can always be interchanged, whatever
the inner body does and whatever is around the nest, and the blocks that have to be split do not
matter: afterwards, the edges are those after the splits with the two loops swapped.

Main definitions:

* `LoopSwap.Func.CleanNest` — a clean nest of a function.

Main results:

* `LoopSwap.Func.CleanNest.exists_planned` — a clean nest has a plan;
* `LoopSwap.Workspace.interchange_mirrors` — what an interchange makes of it.
-/

import LoopSwap.Proofs.Interchange.Mirror

set_option relaxedAutoImplicit false
set_option autoImplicit false

namespace LoopSwap

/-- The loops `l` and `m`, with the numbers `outer` and `inner`, are a clean nest with the corners
`k`, and `entry` is the first block of the inner body.  That the outer loop adds only four blocks to
the inner one is a consequence (`LoopSwap.Func.CleanNest.mem_blocks_iff`). -/
structure Func.CleanNest (f : Func) (outer inner : Nat) (l m : Loop) (k : Corners)
    (entry : BlockId) : Prop where
  outerLoop : f.loops.loop? outer = some l
  innerLoop : f.loops.loop? inner = some m
  child : m.parent = some outer
  outerConnections : l.header = k.outerHeader ∧ l.preheader = some k.outerPreheader ∧
    l.latch = some k.outerLatch ∧ l.exit = some k.outerExit
  innerConnections : m.header = k.innerHeader ∧ m.preheader = some k.innerPreheader ∧
    m.latch = some k.innerLatch ∧ m.exit = some k.innerExit
  outerHeader : (f.successors k.outerHeader).Perm [k.innerPreheader, k.outerExit]
  innerHeader : (f.successors k.innerHeader).Perm [entry, k.innerExit]
  innerExit : f.successors k.innerExit = [k.outerLatch]
  outerLatch : f.successors k.outerLatch = [k.outerHeader]
  innerLatch : f.successors k.innerLatch = [k.innerHeader]
  toInnerPreheader : f.predecessors k.innerPreheader = [k.outerHeader]
  toInnerExit : f.predecessors k.innerExit = [k.innerHeader]
  toOuterLatch : f.predecessors k.outerLatch = [k.innerExit]
  toOuterExit : f.predecessors k.outerExit = [k.outerHeader]
  toInnerLatch : ∃ a, f.predecessors k.innerLatch = [a] ∧ a ≠ k.innerHeader
  toOuterPreheader : f.entry? = some k.outerPreheader ∨
    ∃ a, f.predecessors k.outerPreheader = [a]
  bodyEntry : f.next? k.innerHeader = some entry

namespace Func.CleanNest

variable {f : Func} {outer inner : Nat} {l m : Loop} {k : Corners} {entry : BlockId}

theorem innerRegion (hf : f.Flowing) (h : f.CleanNest outer inner l m k entry) :
    Region f.graph (· ∈ m.blocks) k.innerHeader k.innerPreheader k.innerLatch k.innerExit := by
  obtain ⟨hheader, hpre, hlatch, hexit⟩ := h.innerConnections
  have hregion := (Func.describes_loop? h.innerLoop).region hf hpre hlatch hexit
  rw [hheader] at hregion
  exact hregion

theorem outerRegion (hf : f.Flowing) (h : f.CleanNest outer inner l m k entry) :
    Region f.graph (· ∈ l.blocks) k.outerHeader k.outerPreheader k.outerLatch k.outerExit := by
  obtain ⟨hheader, hpre, hlatch, hexit⟩ := h.outerConnections
  have hregion := (Func.describes_loop? h.outerLoop).region hf hpre hlatch hexit
  rw [hheader] at hregion
  exact hregion

/-- The inner loop is within the outer one. -/
theorem within (h : f.CleanNest outer inner l m k entry) :
    outer ≠ inner ∧ f.loops.isWithin inner outer = true := by
  obtain ⟨n, hn, hnest⟩ := Func.exists_parent h.innerLoop h.child
  constructor
  · rintro rfl
    rw [h.innerLoop] at hn
    cases hn
    exact Nat.lt_irrefl _ hnest.size_lt
  · unfold LoopForest.isWithin
    simp [h.innerLoop, h.child]

theorem innerLatch_ne_innerHeader (hf : f.Flowing) (h : f.CleanNest outer inner l m k entry) :
    k.innerLatch ≠ k.innerHeader := by
  intro heq
  obtain ⟨a, ha, hne⟩ := h.toInnerLatch
  have hedge := (h.innerRegion hf).latch_edge
  rw [hf.edge_iff_mem_predecessors, ← heq, ha, List.mem_singleton] at hedge
  exact hne (hedge.symm.trans heq)

/-- The block after the inner header is in the inner loop. -/
theorem entry_mem (hf : f.Flowing) (h : f.CleanNest outer inner l m k entry) :
    entry ∈ m.blocks := by
  have hregion := h.innerRegion hf
  -- the inner latch is reached from the header by a first step inside the loop
  obtain ⟨-, v, rfl, -, hedge, hv, -⟩ := (hregion.from_header _ hregion.latch_mem).exists_crossing
    (· = k.innerHeader) rfl (h.innerLatch_ne_innerHeader hf)
  rw [hf.edge_iff, h.innerHeader.mem_iff] at hedge
  simp only [List.mem_cons, List.not_mem_nil, or_false] at hedge
  rcases hedge with rfl | rfl
  · exact hv
  · exact absurd hv hregion.exit_not_mem

/-- A clean nest of a function is clean in the graph, with any plan that names its corners. -/
theorem clean (hf : f.Flowing) (h : f.CleanNest outer inner l m k entry) {p : Plan}
    (hk : ∀ q c, (p.relinking q c).corners = { k with outerPreheader := q })
    (hentry : p.bodyEntry = entry) : Clean f.graph p := by
  have hsucc : ∀ {a c}, f.successors a = [c] → ∀ b, f.graph.Edge a b ↔ b = c := by
    intro a c hac b
    rw [hf.edge_iff, hac, List.mem_singleton]
  have hchoice : ∀ {a c d}, (f.successors a).Perm [c, d] →
      ∀ b, f.graph.Edge a b ↔ b = c ∨ b = d := by
    intro a c d hacd b
    rw [hf.edge_iff, hacd.mem_iff, List.mem_pair]
  have hpred : ∀ {a c}, f.predecessors c = [a] → ∀ b, f.graph.Edge b c ↔ b = a := by
    intro a c hac b
    rw [hf.edge_iff_mem_predecessors, hac, List.mem_singleton]
  have hcorners := hk k.outerPreheader k.outerPreheader
  obtain ⟨oh, ih, oph, iph, ol, il, oe, ie⟩ := k
  simp only [Relinking.corners, Plan.relinking, Corners.mk.injEq] at hcorners
  obtain ⟨rfl, rfl, -, rfl, rfl, rfl, rfl, rfl⟩ := hcorners
  subst hentry
  exact ⟨hchoice h.outerHeader, hchoice h.innerHeader, hsucc h.innerExit, hsucc h.outerLatch,
    hsucc h.innerLatch, hpred h.toInnerPreheader, hpred h.toInnerExit, hpred h.toOuterLatch,
    hpred h.toOuterExit⟩

/-- A clean nest has a plan. -/
theorem exists_planned (hf : f.Flowing) (h : f.CleanNest outer inner l m k entry) :
    ∃ p, Planned f outer inner l m p ∧ p.bodyEntry = entry ∧
      ∀ q c, (p.relinking q c).corners = { k with outerPreheader := q } := by
  obtain ⟨bodyEnd, hend, hne⟩ := h.toInnerLatch
  obtain ⟨hoh, hoph, hol, hoe⟩ := h.outerConnections
  obtain ⟨hih, hiph, hil, hie⟩ := h.innerConnections
  have hexit := (h.outerRegion hf).exit_reachable.listed
  obtain ⟨op, hop⟩ := Option.isSome_iff_exists.1 (hf.exitOp _ hexit)
  have hpred : ∃ pred, f.entry? = some k.outerPreheader ∧ pred = none ∨
      f.entry? ≠ some k.outerPreheader ∧
        ∃ a, l.preheaderPredecessor? f = some a ∧ pred = some a := by
    by_cases hfirst : f.entry? = some k.outerPreheader
    · exact ⟨none, Or.inl ⟨hfirst, rfl⟩⟩
    · obtain ⟨a, ha⟩ := h.toOuterPreheader.resolve_left hfirst
      refine ⟨some a, Or.inr ⟨hfirst, a, ?_, rfl⟩⟩
      rw [Loop.preheaderPredecessor?, hoph, Option.bind_some]
      exact Func.uniquePredecessor?_eq_some_iff.2 ha
  obtain ⟨pred, hpred⟩ := hpred
  refine ⟨{ outerPreheader := k.outerPreheader, outerHeader := k.outerHeader
            outerLatch := k.outerLatch, outerExit := k.outerExit
            innerPreheader := k.innerPreheader, innerHeader := k.innerHeader
            innerLatch := k.innerLatch, innerExit := k.innerExit
            bodyEntry := entry, bodyEnd := bodyEnd
            preheaderPred := pred, continuation := op.continuation? },
    ?_, rfl, fun _ _ => rfl⟩
  refine ⟨h.outerLoop, h.innerLoop, h.within, ⟨hoh, hih⟩, ⟨hoph, hol, hoe⟩, ⟨hiph, hil, hie⟩,
    ?_, ⟨?_, ?_⟩, hpred, ?_, ?_, ?_, op, hop, rfl⟩
  · rw [Loop.bodyEntry?, hih, h.bodyEntry, Option.filter_eq_some_iff]
    exact ⟨rfl, decide_eq_true (h.entry_mem hf)⟩
  · rw [Loop.latchPredecessor?, hil, Option.bind_some]
    exact Func.uniquePredecessor?_eq_some_iff.2 hend
  · rw [hih]
    exact hne
  · exact h.outerHeader.mem_iff.2 List.mem_cons_self
  · exact h.innerHeader.mem_iff.2 List.mem_cons_self
  · show k.outerLatch ∈ f.successors k.innerExit
    rw [h.innerExit]
    exact List.mem_cons_self

/-- The outer loop adds four blocks to the inner one. -/
theorem mem_blocks_iff (hf : f.Flowing) (h : f.CleanNest outer inner l m k entry) {b : BlockId} :
    b ∈ l.blocks ↔ b ∈ m.blocks ∨
      b ∈ [k.outerHeader, k.innerPreheader, k.innerExit, k.outerLatch] := by
  obtain ⟨p, hp, hentry, hcorners⟩ := h.exists_planned hf
  have hk := hcorners k.outerPreheader k.outerPreheader
  rw [(h.clean hf hcorners hentry).outer_iff (hp.nest hf)]
  obtain ⟨oh, ih, oph, iph, ol, il, oe, ie⟩ := k
  simp only [Relinking.corners, Plan.relinking, Corners.mk.injEq] at hk
  obtain ⟨rfl, rfl, -, rfl, rfl, rfl, rfl, rfl⟩ := hk
  exact Iff.rfl

end Func.CleanNest

/-! ### The interchange -/

/-- Interchanging a clean nest succeeds, and it swaps the two loops.  If `s` is the workspace after
the splits and `r` what is relinked then, the edges of the result are the image of the edges of `s`
under the swap, with the outer preheader that the splits have left. -/
theorem Workspace.interchange_mirrors {w : Workspace} {outer inner : Nat} {l m : Loop}
    {k : Corners} {entry : BlockId} (hf : w.func.WellFormed)
    (hr : ∀ b ∈ w.func.layout, w.func.graph.Reachable b)
    (hk : w.func.CleanNest outer inner l m k entry) :
    ∃ p s r w' done,
      w.func.loops.plan w.func outer inner = .ok p ∧
      w.findLoops.2.materialize w.func.loops p outer = (s, .ok (r, done.materialized)) ∧
      w.interchange outer inner = (w', .ok done) ∧
      (∀ b, b ∈ s.func.layout ↔ b ∈ done.materialized ∨ b ∈ w.func.layout) ∧
      (∀ b, b ∈ w'.func.layout ↔ b ∈ s.func.layout) ∧
      ({ k with outerPreheader := r.preheader } : Corners).list.Nodup ∧
      ∀ a b, w'.func.graph.Edge (({ k with outerPreheader := r.preheader } : Corners).mirror a)
          (({ k with outerPreheader := r.preheader } : Corners).mirror b) ↔
        s.func.graph.Edge a b := by
  have hflow := hf.toFlowing
  obtain ⟨p, hp, hentry, hcorners⟩ := hk.exists_planned hflow
  have hclean := hk.clean hflow hcorners hentry
  obtain ⟨f₁, q, f₂, c, stats, h₁, h₂, hmat, w', done, heq, hfunc, hmade⟩ :=
    Workspace.interchange_eq hflow hp
  have hnest := hp.nest hflow
  have hnest₁ := hp.nest_splitEntry hflow h₁
  have hexchange := hp.exchange hflow h₁ h₂
  obtain ⟨hflow₂, -, -⟩ := hp.splitExit hflow h₁ h₂
  have hrewired := hexchange.rewired hflow₂
  rw [← hfunc] at hrewired
  have hlayout : ∀ b, b ∈ f₂.layout ↔ b ∈ p.made q c ∨ b ∈ w.func.layout := fun b =>
    hp.mem_layout_split_iff hflow h₁ h₂
  -- the splits keep the nest clean and everything reachable
  have hclean₁ := hclean.opened hnest (hp.openedEntry hflow h₁) hnest.outer.preheader_not_mem
  have hclean₂ := hclean₁.opened hnest₁ (hp.openedExit hflow h₁ h₂) hnest₁.outer.exit_not_mem
  have hr₂ : ∀ b ∈ f₂.layout, f₂.graph.Reachable b := by
    intro b hb
    rw [hp.reachable_split_iff hflow h₁ h₂]
    exact ((hlayout b).1 hb).symm.imp_left (hr b)
  have hnodup := Clean.nodup hclean₂ hexchange
  have hswap := Corners.swapsCorners_mirror hnodup
  have hedge := fun a b => Clean.mirrored (a := a) (b := b) hclean₂ hexchange hswap hr₂ hrewired
  rw [hcorners] at hnodup hedge
  rw [← hmade] at hmat
  refine ⟨p, ⟨f₂, stats⟩, p.relinking q c, w', done, hp.plan_eq, hmat, heq,
    ?_, fun b => hrewired.listed b, hnodup, hedge⟩
  rw [hmade]
  exact hlayout

/-- A clean nest around a body of one block.  Control enters at the outer preheader and ends in the
outer exit, so that both have to be split. -/
def Func.smallNest : Func :=
  .ofExits [("entry", .br ⟨1⟩), ("outer", .condBr (.const 0) ⟨2⟩ ⟨8⟩), ("before", .br ⟨3⟩),
    ("inner", .condBr (.const 0) ⟨4⟩ ⟨6⟩), ("body", .br ⟨5⟩), ("next", .br ⟨3⟩), ("after", .br ⟨7⟩),
    ("again", .br ⟨1⟩), ("exit", .ret none)]

/-- The corners of the small nest. -/
def Corners.ofSmallNest : Corners where
  outerHeader := ⟨1⟩
  innerHeader := ⟨3⟩
  outerPreheader := ⟨0⟩
  innerPreheader := ⟨2⟩
  outerLatch := ⟨7⟩
  innerLatch := ⟨5⟩
  outerExit := ⟨8⟩
  innerExit := ⟨6⟩

/-- The small nest is clean, and its interchange swaps the two loops. -/
theorem Workspace.interchange_mirrors_smallNest :
    Func.smallNest.WellFormed ∧
      (∀ b ∈ Func.smallNest.layout, Func.smallNest.graph.Reachable b) ∧
      ∃ p s r w' done,
        Func.smallNest.loops.plan Func.smallNest 0 1 = .ok p ∧
        (⟨Func.smallNest, .zero⟩ : Workspace).findLoops.2.materialize Func.smallNest.loops p 0 =
          (s, .ok (r, done.materialized)) ∧
        (⟨Func.smallNest, .zero⟩ : Workspace).interchange 0 1 = (w', .ok done) ∧
        (∀ b, b ∈ s.func.layout ↔ b ∈ done.materialized ∨ b ∈ Func.smallNest.layout) ∧
        (∀ b, b ∈ w'.func.layout ↔ b ∈ s.func.layout) ∧
        ({ Corners.ofSmallNest with outerPreheader := r.preheader } : Corners).list.Nodup ∧
        ∀ a b, w'.func.graph.Edge
            (({ Corners.ofSmallNest with outerPreheader := r.preheader } : Corners).mirror a)
            (({ Corners.ofSmallNest with outerPreheader := r.preheader } : Corners).mirror b) ↔
          s.func.graph.Edge a b := by
  have hf : Func.smallNest.WellFormed := by decide +kernel
  have hr : ∀ b ∈ Func.smallNest.layout, Func.smallNest.graph.Reachable b := by
    have horder : ∀ b ∈ Func.smallNest.layout, b ∈ Func.smallNest.graph.order := by
      decide +kernel
    exact fun b hb => (FlowGraph.mem_order _).1 (horder b hb)
  have hk : Func.smallNest.CleanNest 0 1
      ⟨⟨1⟩, [⟨1⟩, ⟨2⟩, ⟨3⟩, ⟨4⟩, ⟨5⟩, ⟨6⟩, ⟨7⟩], none, [1], 1, some ⟨0⟩, some ⟨7⟩, some ⟨8⟩⟩
      ⟨⟨3⟩, [⟨3⟩, ⟨4⟩, ⟨5⟩], some 0, [], 2, some ⟨2⟩, some ⟨5⟩, some ⟨6⟩⟩
      Corners.ofSmallNest ⟨4⟩ := by
    refine ⟨?_, ?_, rfl, ⟨rfl, rfl, rfl, rfl⟩, ⟨rfl, rfl, rfl, rfl⟩, ?_, ?_, ?_, ?_, ?_, ?_, ?_, ?_,
      ?_, ⟨⟨4⟩, ?_, ?_⟩, Or.inl ?_, ?_⟩ <;> decide +kernel
  exact ⟨hf, hr, Workspace.interchange_mirrors (w := ⟨Func.smallNest, .zero⟩) hf hr hk⟩

end LoopSwap
