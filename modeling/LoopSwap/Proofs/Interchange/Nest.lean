/-
**Two nested loops as an interchange finds them.**

An interchange checks three edges and that the connecting blocks are unique.  This module says what
that means for the graph (`Nest`) and draws the conclusions that decide which of the named blocks
can be the same: the inner preheader and the inner exit are blocks of the outer loop between the two
headers, the inner latch is entered from inside the inner body, and of the eight connecting blocks
only the inner exit and the outer latch may coincide.

A split of the outer preheader or of the outer exit, which are outside, keeps a nest.

Main definitions:

* `LoopSwap.Nest` — two nested regions with the edges that an interchange checks.

Main results:

* `LoopSwap.Nest.not_edge_outerPreheader` — no block of the outer loop leads to its preheader;
* `LoopSwap.Nest.innerPreheader_mem`, `LoopSwap.Nest.innerExit_mem`,
  `LoopSwap.Nest.bodyEnd_inner` — where the connecting blocks are;
* `LoopSwap.Nest.cut` — a nest after a split.
-/

import LoopSwap.Interchange.Plan
import LoopSwap.Proofs.Loop.Region

set_option relaxedAutoImplicit false
set_option autoImplicit false

namespace LoopSwap

/-- Two nested regions, `O` around `I`, with the edges that make them perfectly nested.  The outer
preheader is `q`, all other blocks are those of a plan.  Nothing leads to the entry, and at most one
block leads to the outer preheader. -/
structure Nest (g : FlowGraph BlockId) (O I : BlockId → Prop) (q : BlockId) (p : Plan) :
    Prop where
  outer : Region g O p.outerHeader q p.outerLatch p.outerExit
  inner : Region g I p.innerHeader p.innerPreheader p.innerLatch p.innerExit
  subset : ∀ b, I b → O b
  outerHeader_not_inner : ¬ I p.outerHeader
  header_edge : g.Edge p.outerHeader p.innerPreheader
  body_edge : g.Edge p.innerHeader p.bodyEntry
  exit_edge : g.Edge p.innerExit p.outerLatch
  bodyEntry_inner : I p.bodyEntry
  bodyEntry_ne : p.bodyEntry ≠ p.innerHeader
  bodyEnd_iff : ∀ a, g.Edge a p.innerLatch ↔ a = p.bodyEnd
  bodyEnd_ne : p.bodyEnd ≠ p.innerHeader
  approach : ∀ a b, g.Edge a q → g.Edge b q → a = b
  entry : ∃ e, g.entry = some e ∧ e ∈ g.listed ∧ ∀ a, ¬ g.Edge a e

namespace Nest

variable {g : FlowGraph BlockId} {O I : BlockId → Prop} {p : Plan} {q a b : BlockId}

/-! ### The way in -/

/-- The outer preheader is the entry or is reached around the outer loop. -/
theorem exists_approach (h : Nest g O I q p) :
    g.entry = some q ∨
      ∃ e u, g.entry = some e ∧ e ∈ g.listed ∧
        ReachVia g.Edge (fun y => ¬ O y ∧ y ≠ q) e u ∧
        g.Edge u q ∧ ¬ O u ∧ u ≠ q ∧ g.Reachable u := by
  obtain ⟨e, he, hl, hfree⟩ := h.entry
  rcases h.outer.exists_approach he hfree with rfl | ⟨u, hu⟩
  · exact Or.inl he
  · exact Or.inr ⟨e, u, he, hl, hu⟩

/-- No block of the outer loop leads to its preheader. -/
theorem not_edge_outerPreheader (h : Nest g O I q p) (ha : O a) :
    ¬ g.Edge a q := by
  intro hedge
  rcases h.exists_approach with hentry | ⟨-, u, -, -, -, hu, huO, -⟩
  · obtain ⟨e, he, -, hfree⟩ := h.entry
    obtain rfl : q = e := Option.some.inj (hentry.symm.trans he)
    exact hfree a hedge
  · exact huO (h.approach a u hedge hu ▸ ha)

theorem outerExit_ne_outerPreheader (h : Nest g O I q p) : p.outerExit ≠ q := by
  intro heq
  obtain ⟨a, ha, hax⟩ := h.outer.exists_exit
  exact h.not_edge_outerPreheader ha (heq ▸ hax)

/-- A reachable block outside that leads into the outer loop is the preheader. -/
theorem eq_outerPreheader (h : Nest g O I q p) (ha : g.Reachable a) (haO : ¬ O a)
    (hab : g.Edge a b) (hb : O b) : a = q :=
  (h.outer.enters a b ha hab haO hb).1

/-- What the outer exit leads to is outside the outer loop. -/
theorem outerExit_edge (h : Nest g O I q p) (hab : g.Edge p.outerExit b) : ¬ O b := by
  intro hb
  exact h.outerExit_ne_outerPreheader
    (h.eq_outerPreheader h.outer.exit_reachable h.outer.exit_not_mem hab hb)

/-! ### The blocks between the two headers -/

theorem innerHeader_outer (h : Nest g O I q p) : O p.innerHeader := h.subset _ h.inner.header_mem

theorem innerLatch_outer (h : Nest g O I q p) : O p.innerLatch := h.subset _ h.inner.latch_mem

theorem ne_outerHeader_of_inner (h : Nest g O I q p) (ha : I a) : a ≠ p.outerHeader := by
  rintro rfl
  exact h.outerHeader_not_inner ha

theorem innerPreheader_mem (h : Nest g O I q p) : O p.innerPreheader := by
  by_contra hno
  have hedge := (h.inner.preheader_edge p.innerHeader).2 rfl
  have hheader := (h.outer.enters _ _ h.inner.preheader_reachable hedge hno
    h.innerHeader_outer).2
  exact h.ne_outerHeader_of_inner h.inner.header_mem hheader

theorem innerPreheader_ne_outerHeader (h : Nest g O I q p) :
    p.innerPreheader ≠ p.outerHeader := by
  intro heq
  have hedge := h.header_edge
  rw [← heq, h.inner.preheader_edge] at hedge
  exact h.inner.preheader_not_mem (hedge ▸ h.inner.header_mem)

/-- The inner loop is left for a block of the outer one. -/
theorem innerExit_mem (h : Nest g O I q p) : O p.innerExit := by
  by_contra hno
  obtain ⟨a, ha, hax⟩ := h.inner.exists_exit
  have hpre := h.eq_outerPreheader h.inner.exit_reachable hno h.exit_edge h.outer.latch_mem
  exact h.not_edge_outerPreheader (h.subset a ha) (hpre ▸ hax)

theorem innerExit_ne_outerHeader (h : Nest g O I q p) : p.innerExit ≠ p.outerHeader := by
  intro heq
  -- a block of the inner loop that leads to the outer header is the outer latch
  obtain ⟨a, ha, hax⟩ := h.inner.exists_exit
  have hlatch := h.outer.turns a (h.subset a ha) (heq ▸ hax)
  have hpre := (h.inner.enters _ _ h.inner.exit_reachable h.exit_edge h.inner.exit_not_mem
    (hlatch ▸ ha)).1
  exact h.innerPreheader_ne_outerHeader (hpre ▸ heq)

theorem outerLatch_ne_outerHeader (h : Nest g O I q p) : p.outerLatch ≠ p.outerHeader := by
  intro heq
  have hexit := h.outer.turns _ h.innerExit_mem (heq ▸ h.exit_edge)
  exact h.innerExit_ne_outerHeader (hexit.trans heq)

theorem outerLatch_not_inner (h : Nest g O I q p) : ¬ I p.outerLatch := by
  intro hmem
  have hexit := h.inner.leaves _ _ hmem h.outer.latch_edge h.outerHeader_not_inner
  exact h.innerExit_ne_outerHeader hexit.symm

theorem innerPreheader_ne_innerExit (h : Nest g O I q p) : p.innerPreheader ≠ p.innerExit := by
  intro heq
  have hedge := h.exit_edge
  rw [← heq, h.inner.preheader_edge] at hedge
  exact h.outerLatch_not_inner (hedge ▸ h.inner.header_mem)

theorem innerPreheader_ne_outerLatch (h : Nest g O I q p) : p.innerPreheader ≠ p.outerLatch := by
  intro heq
  have hedge := h.outer.latch_edge
  rw [← heq, h.inner.preheader_edge] at hedge
  exact h.ne_outerHeader_of_inner h.inner.header_mem hedge.symm

/-! ### The inner body -/

theorem innerLatch_ne_innerHeader (h : Nest g O I q p) : p.innerLatch ≠ p.innerHeader := by
  intro heq
  have hedge := h.inner.latch_edge
  rw [← heq, h.bodyEnd_iff] at hedge
  exact h.bodyEnd_ne (hedge.symm.trans heq)

theorem bodyEnd_edge (h : Nest g O I q p) : g.Edge p.bodyEnd p.innerLatch :=
  (h.bodyEnd_iff _).2 rfl

theorem bodyEnd_reachable (h : Nest g O I q p) : g.Reachable p.bodyEnd := by
  obtain ⟨e, he, -, hfree⟩ := h.entry
  rcases (h.inner.reachable h.inner.latch_mem).eq_entry_or_pred with hentry | ⟨a, ha, hax⟩
  · obtain rfl : p.innerLatch = e := Option.some.inj (hentry.symm.trans he)
    exact absurd h.bodyEnd_edge (hfree _)
  · exact (h.bodyEnd_iff a).1 hax ▸ ha

/-- The inner latch is entered from inside the inner loop. -/
theorem bodyEnd_inner (h : Nest g O I q p) : I p.bodyEnd := by
  by_contra hno
  have hheader := (h.inner.enters _ _ h.bodyEnd_reachable h.bodyEnd_edge hno
    h.inner.latch_mem).2
  exact h.innerLatch_ne_innerHeader hheader

theorem bodyEnd_ne_innerLatch (h : Nest g O I q p) : p.bodyEnd ≠ p.innerLatch := by
  intro heq
  -- otherwise the latch would only be entered from itself
  have hwalk := h.inner.from_header _ h.inner.latch_mem
  have hne := hwalk.mem_of_closed (S := (· ≠ p.innerLatch)) h.innerLatch_ne_innerHeader.symm
    fun x y hx hxy _ hy => hx (((h.bodyEnd_iff x).1 (hy ▸ hxy)).trans heq)
  exact hne rfl

theorem bodyEntry_ne_innerLatch (h : Nest g O I q p) : p.bodyEntry ≠ p.innerLatch := by
  intro heq
  exact h.bodyEnd_ne ((h.bodyEnd_iff _).1 (heq ▸ h.body_edge)).symm

theorem ne_innerExit_of_inner (h : Nest g O I q p) (ha : I a) : a ≠ p.innerExit := by
  rintro rfl
  exact h.inner.exit_not_mem ha

theorem ne_of_outer_of_not_outer (ha : O a) (hb : ¬ O b) : a ≠ b := by
  rintro rfl
  exact hb ha

/-! ### Splits -/

/-- A nest stays a nest if a block outside is split.  The second part of an outer preheader that
is split is the new outer preheader. -/
theorem cut {g' : FlowGraph BlockId} {c n : BlockId} (h : Nest g O I q p) (hc : Cut g g' c n)
    (hcO : ¬ O c) :
    Nest g' O I (if q = c then n else q) p := by
  have hcI : ¬ I c := fun hmem => hcO (h.subset c hmem)
  have hedge : ∀ a b, O a → (g'.Edge a b ↔ g.Edge a b) := fun a b ha =>
    hc.edge_of_ne (fun hac => hcO (hac ▸ ha)) (hc.ne (h.outer.reachable ha).listed)
  have hpre : p.innerPreheader ≠ c := ne_of_outer_of_not_outer h.innerPreheader_mem hcO
  have hinner := h.inner.cut hc hcI
  rw [if_neg hpre] at hinner
  refine ⟨h.outer.cut hc hcO, hinner, h.subset, h.outerHeader_not_inner, ?_, ?_, ?_,
    h.bodyEntry_inner, h.bodyEntry_ne, ?_, h.bodyEnd_ne, ?_, ?_⟩
  · exact (hedge _ _ h.outer.header_mem).2 h.header_edge
  · exact (hedge _ _ h.innerHeader_outer).2 h.body_edge
  · exact (hedge _ _ h.innerExit_mem).2 h.exit_edge
  · intro a
    constructor
    · intro ha
      have hlatch := (h.inner.reachable h.inner.latch_mem).listed
      rcases (hc.edge_to_old hlatch).1 ha with ⟨-, hcl⟩ | ⟨-, hal⟩
      · exact absurd h.bodyEnd_inner ((h.bodyEnd_iff c).1 hcl ▸ hcI)
      · exact (h.bodyEnd_iff a).1 hal
    · rintro rfl
      exact (hedge _ _ (h.subset _ h.bodyEnd_inner)).2 h.bodyEnd_edge
  · exact hc.sole_pred h.outer.preheader_reachable.listed h.approach
  · obtain ⟨e, he, hl, hfree⟩ := h.entry
    refine ⟨e, hc.entry.trans he, (hc.listed e).2 (Or.inr hl), fun a ha => ?_⟩
    rcases (hc.edge_to_old hl).1 ha with ⟨-, hce⟩ | ⟨-, hae⟩
    · exact hfree c hce
    · exact hfree a hae

end Nest

end LoopSwap
