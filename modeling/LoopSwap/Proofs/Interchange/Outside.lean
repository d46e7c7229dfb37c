/-
**The blocks outside an interchanged nest.**

After an interchange there are three ways from outside into the nest: the old way in leads to the
inner preheader, the outer exit leads to the inner latch, and the outer preheader, which is behind
the inner header now, leads to the outer header.  Where a walk from outside enters the nest thus
says where it comes from, and up to there it was a walk before the interchange.

Main definitions:

* `LoopSwap.FlowGraph.Around` — what is reached around a set of nodes.

Main results:

* `LoopSwap.Exchange.dominates_iff_around`, `LoopSwap.Exchange.via_outerExit_iff` — dominance and
  the loop of the outer exit, told by walks around the nest;
* `LoopSwap.Exchange.enter_cases`, `LoopSwap.Exchange.exists_entry` — the ways into the nest after
  an interchange;
* `LoopSwap.Exchange.outside_walk`, `LoopSwap.Exchange.outside_walk_kept` — walks outside the nest.
-/

import LoopSwap.Proofs.Interchange.Reach

set_option relaxedAutoImplicit false
set_option autoImplicit false

namespace LoopSwap

/-- The node is reached from the entry without entering `O`. -/
def FlowGraph.Around {α : Type} (g : FlowGraph α) (O : α → Prop) (a : α) : Prop :=
  ∃ e, g.entry = some e ∧ e ∈ g.listed ∧ ReachVia g.Edge (fun y => ¬ O y) e a

namespace Exchange

variable {g g' : FlowGraph BlockId} {O I : BlockId → Prop} {r : Relinking}
  {a b t x y : BlockId} {P : BlockId → Prop}

variable (h : Exchange g O I r)

include h

/-! ### Around the nest, before -/

theorem entry_outside {e : BlockId} (he : g.entry = some e) : ¬ O e ∧ e ≠ r.preheader := by
  obtain ⟨q, hq⟩ := h.exists_pred
  refine ⟨h.nest.outer.entry_not_mem fun a ha => h.ne_entry ha he, ?_⟩
  rintro rfl
  exact h.ne_entry hq he

theorem ne_outerHeader_of_outside (hx : ¬ O x) : x ≠ r.plan.outerHeader :=
  (Nest.ne_of_outer_of_not_outer h.nest.outer.header_mem hx).symm

theorem ne_innerHeader_of_outside (hx : ¬ O x) : x ≠ r.plan.innerHeader :=
  (Nest.ne_of_outer_of_not_outer h.nest.innerHeader_outer hx).symm

/-- The outer header dominates what is not reached around the nest. -/
theorem dominates_iff_around : g.Dominates r.plan.outerHeader x ↔ ¬ g.Around O x := by
  have hoh := h.nest.outer.header_mem
  constructor
  · rintro hdom ⟨e, he, hl, hwalk⟩
    rcases FlowGraph.dominates_iff.1 hdom e he hl with rfl | hno
    · exact (h.entry_outside he).1 hoh
    · exact hno (hwalk.mono fun y hy => h.ne_outerHeader_of_outside hy)
  · intro hno
    refine FlowGraph.dominates_iff.2 fun e he hl => Or.inr fun hwalk => hno ⟨e, he, hl, ?_⟩
    -- a walk that never enters the outer header never enters the nest
    refine (hwalk.mem_of_closed
      (S := fun y => g.Reachable y ∧ ¬ O y ∧ ReachVia g.Edge (fun z => ¬ O z) e y)
      ⟨.entry he hl, (h.entry_outside he).1, .refl e⟩ fun y z hy hyz hz => ?_).2.2
    have hzO : ¬ O z := fun hzO => hz (h.nest.outer.enters y z hy.1 hyz hy.2.1 hzO).2
    exact ⟨hy.1.next hyz, hzO, hy.2.2.tail hyz hzO⟩

theorem around_preheaderPred : g.Around O r.preheaderPred := by
  obtain ⟨e, he, hl, -, hwalk⟩ := h.exists_approach
  exact ⟨e, he, hl, hwalk.mono fun y hy => hy.1⟩

theorem preheaderPred_ne_of_dominates (hdom : g.Dominates r.plan.outerHeader r.plan.outerExit) :
    r.preheaderPred ≠ r.plan.outerExit := fun heq =>
  h.dominates_iff_around.1 hdom (heq ▸ h.around_preheaderPred)

/-- A walk outside the nest does not pass the outer preheader on its way. -/
theorem avoids_preheader (hP : ∀ y, P y → ¬ O y) (hb : b ≠ r.preheader)
    (hab : ReachVia g.Edge P a b) :
    ReachVia g.Edge (fun y => P y ∧ y ≠ r.preheader) a b := by
  induction hab using Relation.ReflTransGen.head_induction_on with
  | refl => exact .refl b
  | @head x y hxy hyb ih =>
      refine .head hxy.1 ⟨hxy.2, ?_⟩ ih
      rintro rfl
      rcases Relation.ReflTransGen.cases_head hyb with heq | ⟨z, hz, -⟩
      · exact hb heq.symm
      · have hzh := (h.nest.outer.preheader_edge z).1 hz.1
        exact hP z hz.2 (hzh ▸ h.nest.outer.header_mem)

/-- What is dominated by the outer header and leads to the outer exit around the nest is in the
loop of the outer exit, and nothing else is. -/
theorem via_outerExit_iff (hdom : g.Dominates r.plan.outerHeader r.plan.outerExit)
    (hreach : g.Reachable x) (hx : ¬ O x) :
    ReachVia g.Edge (fun y => ¬ O y) x r.plan.outerExit ↔
      x = r.plan.outerExit ∨ g.InLoop r.plan.outerExit x := by
  have hno := h.dominates_iff_around.1 hdom
  constructor
  · -- the outer exit dominates all that leads back to it, as the nest is left to it only
    have hdominates : ∀ y, ReachVia g.Edge (fun z => ¬ O z) y r.plan.outerExit → ¬ O y →
        g.Dominates r.plan.outerExit y := by
      intro y hy hyO
      refine FlowGraph.dominates_iff.2 fun e he hl => Or.inr fun hwalk => ?_
      rcases hwalk.first_meet O with hall | ⟨u, v, -, -, -, hv, hvy⟩
      · exact hno ⟨e, he, hl, (hall.mono fun z hz => hz.2).trans hy⟩
      · obtain ⟨s, t, hs, ht, hst, hte, -, -⟩ := hvy.exists_crossing O hv hyO
        exact hte (h.nest.outer.leaves s t hs hst ht)
    intro hwalk
    induction hwalk using Relation.ReflTransGen.head_induction_on with
    | refl => exact Or.inl rfl
    | @head y z hyz hze ih =>
        refine Or.inr ?_
        have hdomy := hdominates y (.head hyz.1 hyz.2 hze) hx
        by_cases hz : z = r.plan.outerExit
        · exact FlowGraph.BackEdge.inLoop ⟨hreach, hz ▸ hyz.1, hdomy⟩
        · exact ((ih (hreach.next hyz.1) hyz.2).resolve_left hz).pred hz hreach hyz.1
  · rintro (rfl | hloop)
    · exact .refl _
    · refine hloop.to_header.mono fun y hy hyO => ?_
      -- the nest is reached around the outer exit, so the exit dominates no part of it
      obtain ⟨e, he, hl, -, hpre⟩ := h.exists_approach
      have hne : ∀ z, O z → z ≠ r.plan.outerExit := fun z hz =>
        Nest.ne_of_outer_of_not_outer hz h.outerExit_not_outer
      have hpp := h.preheaderPred_ne_of_dominates hdom
      have hwalk : ReachVia g.Edge (· ≠ r.plan.outerExit) e r.preheaderPred := by
        rcases hpre.first_meet (· = r.plan.outerExit) with hall | ⟨u, v, hu, huv, hv, rfl, -⟩
        · exact hall.mono fun z hz => hz.2
        · exact absurd ⟨e, he, hl, (hu.mono fun z hz => hz.1.1).tail huv hv.1⟩ hno
      have hheader : ReachVia g.Edge (· ≠ r.plan.outerExit) e y :=
        ((hwalk.tail (h.pred_edge hpp) h.nest.outerExit_ne_outerPreheader.symm).tail
          ((h.nest.outer.preheader_edge _).2 rfl) (hne _ h.nest.outer.header_mem)).trans
          ((h.nest.outer.from_header y hyO).mono hne)
      rcases FlowGraph.dominates_iff.1 hy.dominates e he hl with rfl | hno'
      · exact hno ⟨_, he, hl, .refl _⟩
      · exact hno' hheader

/-! ### The edges afterwards -/

section

variable (hw : Rewired g g' r.effective)

include hw

omit h hw in
/-- The change of the way in takes effect unless the outer exit is split and the way in starts in
it. -/
theorem entry_effective
    (hr : r.preheaderPred = r.plan.outerExit → r.continuation = r.preheader) :
    (r.preheaderPred, r.preheader, r.plan.innerPreheader) ∈ r.effective := by
  by_cases hpp : r.preheaderPred = r.plan.outerExit
  · rw [Relinking.effective_of_shared hpp (hr hpp)]
    exact List.mem_cons_self
  · rw [Relinking.effective_of_ne hpp]
    exact List.mem_cons_self

omit h hw in
/-- The only edge of the outer exit is changed. -/
theorem exists_exit_effective : ∃ new, (r.plan.outerExit, r.continuation, new) ∈ r.effective := by
  by_cases hr : r.preheaderPred = r.plan.outerExit → r.continuation ≠ r.preheader
  · exact ⟨_, exit_effective hr⟩
  · obtain ⟨hpp, hc⟩ := Classical.not_imp.1 hr
    have hentry := entry_effective (r := r) fun _ => not_not.1 hc
    rw [hpp, ← not_not.1 hc] at hentry
    exact ⟨_, hentry⟩

/-- What is reached afterwards from a reachable block was reachable before. -/
theorem reachable_edge (ha : g.Reachable a) (hab : g'.Edge a b) : g.Reachable b := by
  rcases (hw.edge a b).1 hab with ⟨old, hmem⟩ | ⟨hold, -⟩
  · exact h.new_reachable _ (mem_edges_of_effective hmem)
  · exact ha.next hold

theorem reachable_before (ha : g'.Reachable a) : g.Reachable a :=
  hw.reachable_of_new (fun e he => h.new_reachable e (mem_edges_of_effective he)) ha

/-- A block of the nest dominates what is not reached around it. -/
theorem dominates_iff_not_via (ht : O t) : g'.Dominates t a ↔
    ∀ e, g.entry = some e → e ∈ g.listed → ¬ ReachVia g'.Edge (· ≠ t) e a := by
  rw [FlowGraph.dominates_iff, hw.entry]
  refine forall₂_congr fun e he => ?_
  have hne : e ≠ t := fun heq => (h.entry_outside he).1 (heq ▸ ht)
  rw [hw.listed, or_iff_right hne]

/-- An edge outside the nest is one that was there before, and neither that of the outer exit nor
the old way in. -/
theorem outside_edge (ha : ¬ O a) (hb : ¬ O b) (hab : g'.Edge a b) :
    g.Edge a b ∧ a ≠ r.plan.outerExit ∧ (a = r.preheaderPred → b ≠ r.preheader) := by
  rcases (hw.edge a b).1 hab with ⟨old, hmem⟩ | ⟨hold, hkept⟩
  · have hmem' := mem_edges_of_effective hmem
    simp only [Relinking.edges, List.mem_cons, List.not_mem_nil, or_false, Prod.mk.injEq] at hmem'
    rcases hmem' with ⟨-, -, rfl⟩ | ⟨rfl, -, -⟩ | ⟨rfl, -, -⟩ | ⟨rfl, -, -⟩ | ⟨-, -, rfl⟩ |
      ⟨rfl, -, -⟩
    · exact absurd h.nest.innerPreheader_mem hb
    · exact absurd h.nest.outer.header_mem ha
    · exact absurd h.nest.innerHeader_outer ha
    · exact absurd h.nest.innerExit_mem ha
    · exact absurd h.nest.innerLatch_outer hb
    · exact absurd (h.nest.subset _ h.nest.bodyEnd_inner) ha
  · have hne : a ≠ r.plan.outerExit := by
      rintro rfl
      obtain ⟨new, hnew⟩ := exists_exit_effective (r := r)
      exact hkept new ((h.exit_iff b).1 hold ▸ hnew)
    refine ⟨hold, hne, ?_⟩
    rintro rfl rfl
    exact hkept _ (entry_effective fun hpp => absurd hpp hne)

/-- The other edges outside the nest are kept. -/
theorem outside_kept (ha : ¬ O a) (hne : a ≠ r.plan.outerExit) (hb : b ≠ r.preheader)
    (hab : g.Edge a b) : g'.Edge a b := by
  refine kept hw hab fun e he hea heb => ?_
  rcases h.outer_source he (hea ▸ ha) with ⟨-, hold⟩ | ⟨hsource, -⟩
  · exact hb (heb.symm.trans hold)
  · exact hne (hea.symm.trans hsource)

/-- **The ways into the nest** afterwards. -/
theorem enter_cases (hreach : g.Reachable a) (ha : ¬ O a) (hb : O b) (hab : g'.Edge a b) :
    a = r.plan.outerExit ∧ b = r.plan.innerLatch ∨
      a = r.preheaderPred ∧ b = r.plan.innerPreheader ∨
      a = r.preheader ∧ b = r.plan.outerHeader := by
  rcases (hw.edge a b).1 hab with ⟨old, hmem⟩ | ⟨hold, -⟩
  · have hmem' := mem_edges_of_effective hmem
    simp only [Relinking.edges, List.mem_cons, List.not_mem_nil, or_false, Prod.mk.injEq] at hmem'
    rcases hmem' with ⟨hsource, -, hnew⟩ | ⟨rfl, -, -⟩ | ⟨rfl, -, -⟩ | ⟨rfl, -, -⟩ |
      ⟨hsource, -, hnew⟩ | ⟨rfl, -, -⟩
    · exact Or.inr (Or.inl ⟨hsource, hnew⟩)
    · exact absurd h.nest.outer.header_mem ha
    · exact absurd h.nest.innerHeader_outer ha
    · exact absurd h.nest.innerExit_mem ha
    · exact Or.inl ⟨hsource, hnew⟩
    · exact absurd (h.nest.subset _ h.nest.bodyEnd_inner) ha
  · exact Or.inr (Or.inr (h.nest.outer.enters a b hreach hold ha hb))

/-- From outside, only the continuation leads to the outer preheader, and only if the way in starts
in the outer exit. -/
theorem to_preheader (ha : ¬ O a) (hab : g'.Edge a r.preheader) :
    r.preheaderPred = r.plan.outerExit ∧ a = r.continuation := by
  obtain ⟨hold, hne, hpred⟩ := h.outside_edge hw ha h.preheader_not_outer hab
  by_cases hpp : r.preheaderPred = r.plan.outerExit
  · refine ⟨hpp, ?_⟩
    by_cases hc : r.continuation = r.preheader
    · exact absurd (h.nest.approach _ _ hold ((h.exit_iff _).2 hc.symm)) hne
    · exact h.nest.approach _ _ hold (h.stale hpp hc).1
  · exact absurd rfl (hpred (h.nest.approach _ _ hold (h.pred_edge hpp)))

/-- The inner preheader leads to the inner header only. -/
theorem innerPreheader_edge_iff : g'.Edge r.plan.innerPreheader b ↔ b = r.plan.innerHeader := by
  refine ⟨fun hab => ?_, fun hb => hb ▸ h.innerPreheader_edge hw⟩
  rcases (hw.edge _ b).1 hab with ⟨old, hmem⟩ | ⟨hold, -⟩
  · have hmem' := mem_edges_of_effective hmem
    have hI := h.nest.inner.preheader_not_mem
    have hO := h.nest.innerPreheader_mem
    simp only [Relinking.edges, List.mem_cons, List.not_mem_nil, or_false, Prod.mk.injEq] at hmem'
    rcases hmem' with ⟨hs, -, -⟩ | ⟨hs, -, -⟩ | ⟨hs, -, -⟩ | ⟨hs, -, -⟩ | ⟨hs, -, -⟩ | ⟨hs, -, -⟩
    · exact absurd (hs ▸ hO) h.preheaderPred_not_outer
    · exact absurd hs h.nest.innerPreheader_ne_outerHeader
    · exact absurd (hs ▸ h.nest.inner.header_mem) hI
    · exact absurd hs h.nest.innerPreheader_ne_innerExit
    · exact absurd (hs ▸ hO) h.outerExit_not_outer
    · exact absurd (hs ▸ h.nest.bodyEnd_inner) hI
  · exact (h.nest.inner.preheader_edge b).1 hold

/-- Around the inner header, the inner preheader leads nowhere. -/
theorem eq_of_via_innerPreheader
    (hwalk : ReachVia g'.Edge (· ≠ r.plan.innerHeader) r.plan.innerPreheader b) :
    b = r.plan.innerPreheader := by
  rcases Relation.ReflTransGen.cases_head hwalk with heq | ⟨v, hv, -⟩
  · exact heq.symm
  · exact absurd ((h.innerPreheader_edge_iff hw).1 hv.1) hv.2

/-- Only the outer exit leads to the inner latch. -/
theorem to_innerLatch (hab : g'.Edge a r.plan.innerLatch) :
    a = r.plan.outerExit ∧
      (r.plan.outerExit, r.continuation, r.plan.innerLatch) ∈ r.effective := by
  have hI := h.nest.inner.latch_mem
  have hO := h.nest.innerLatch_outer
  rcases (hw.edge a _).1 hab with ⟨old, hmem⟩ | ⟨hold, hkept⟩
  · have hmem' := mem_edges_of_effective hmem
    simp only [Relinking.edges, List.mem_cons, List.not_mem_nil, or_false, Prod.mk.injEq] at hmem'
    rcases hmem' with ⟨-, -, heq⟩ | ⟨-, -, heq⟩ | ⟨-, -, heq⟩ | ⟨-, -, heq⟩ | ⟨rfl, rfl, -⟩ |
      ⟨-, -, heq⟩
    · exact absurd (heq ▸ hI) h.nest.inner.preheader_not_mem
    · exact absurd heq.symm h.nest.bodyEntry_ne_innerLatch
    · exact absurd (heq ▸ hO) h.preheader_not_outer
    · exact absurd (heq ▸ hO) h.continuation_not_outer
    · exact ⟨rfl, hmem⟩
    · exact absurd (heq ▸ hI) h.nest.outerLatch_not_inner
  · rw [(h.nest.bodyEnd_iff a).1 hold] at hkept
    exact absurd (inside_effective r).2.2.2 (hkept _)

/-- Only the inner preheader and the inner latch lead to the inner header. -/
theorem to_innerHeader (hreach : g.Reachable a) (hab : g'.Edge a r.plan.innerHeader) :
    a = r.plan.innerPreheader ∨ a = r.plan.innerLatch := by
  have hI := h.nest.inner.header_mem
  have hO := h.nest.innerHeader_outer
  rcases (hw.edge a _).1 hab with ⟨old, hmem⟩ | ⟨hold, -⟩
  · have hmem' := mem_edges_of_effective hmem
    simp only [Relinking.edges, List.mem_cons, List.not_mem_nil, or_false, Prod.mk.injEq] at hmem'
    rcases hmem' with ⟨-, -, heq⟩ | ⟨-, -, heq⟩ | ⟨-, -, heq⟩ | ⟨-, -, heq⟩ | ⟨-, -, heq⟩ |
      ⟨-, -, heq⟩
    · exact absurd (heq ▸ hI) h.nest.inner.preheader_not_mem
    · exact absurd heq.symm h.nest.bodyEntry_ne
    · exact absurd (heq ▸ hO) h.preheader_not_outer
    · exact absurd (heq ▸ hO) h.continuation_not_outer
    · exact absurd heq.symm h.nest.innerLatch_ne_innerHeader
    · exact absurd (heq ▸ hI) h.nest.outerLatch_not_inner
  · by_cases ha : I a
    · exact Or.inr (h.nest.inner.turns a ha hold)
    · exact Or.inl (h.nest.inner.enters a _ hreach hold ha hI).1

theorem backEdge_innerHeader_cases (ht : g'.BackEdge t r.plan.innerHeader) :
    t = r.plan.innerPreheader ∨ t = r.plan.innerLatch :=
  h.to_innerHeader hw (h.reachable_before hw ht.reachable) ht.edge

/-- Only the outer preheader and the outer latch lead to the outer header. -/
theorem to_outerHeader (hreach : g.Reachable a) (hab : g'.Edge a r.plan.outerHeader) :
    a = r.preheader ∨ a = r.plan.outerLatch := by
  have hO := h.nest.outer.header_mem
  rcases (hw.edge a _).1 hab with ⟨old, hmem⟩ | ⟨hold, -⟩
  · have hmem' := mem_edges_of_effective hmem
    simp only [Relinking.edges, List.mem_cons, List.not_mem_nil, or_false, Prod.mk.injEq] at hmem'
    rcases hmem' with ⟨-, -, heq⟩ | ⟨-, -, heq⟩ | ⟨-, -, heq⟩ | ⟨-, -, heq⟩ | ⟨-, -, heq⟩ |
      ⟨-, -, heq⟩
    · exact absurd heq.symm h.nest.innerPreheader_ne_outerHeader
    · exact absurd (heq ▸ h.nest.bodyEntry_inner) h.nest.outerHeader_not_inner
    · exact absurd (heq ▸ hO) h.preheader_not_outer
    · exact absurd (heq ▸ hO) h.continuation_not_outer
    · exact absurd (heq ▸ h.nest.inner.latch_mem) h.nest.outerHeader_not_inner
    · exact absurd heq.symm h.nest.outerLatch_ne_outerHeader
  · by_cases ha : O a
    · exact Or.inr (h.nest.outer.turns a ha hold)
    · exact Or.inl (h.nest.outer.enters a _ hreach hold ha hO).1

/-! ### Walks outside the nest -/

/-- A walk outside the nest afterwards was there before. -/
theorem outside_walk (hx : ¬ O x) (hwalk : ReachVia g'.Edge (fun z => P z ∧ ¬ O z) x y) :
    ReachVia g.Edge (fun z => P z ∧ ¬ O z) x y := by
  refine (hwalk.mem_of_closed
    (S := fun z => ¬ O z ∧ ReachVia g.Edge (fun z => P z ∧ ¬ O z) x z)
    ⟨hx, .refl x⟩ fun u v hu huv hv => ⟨hv.2, ?_⟩).2
  exact hu.2.tail (h.outside_edge hw hu.1 hv.2 huv).1 hv

/-- A walk outside the nest that does not come to the outer preheader is kept up to the first visit
of the outer exit. -/
theorem outside_walk_kept (hx : ¬ O x) (hxe : x ≠ r.plan.outerExit)
    (hwalk : ReachVia g.Edge
      (fun z => (¬ O z ∧ z ≠ r.preheader) ∧ z ≠ r.plan.outerExit) x y) :
    ReachVia g'.Edge (fun z => ¬ O z ∧ z ≠ r.plan.outerExit) x y := by
  refine (hwalk.mem_of_closed
    (S := fun z => (¬ O z ∧ z ≠ r.plan.outerExit) ∧
      ReachVia g'.Edge (fun z => ¬ O z ∧ z ≠ r.plan.outerExit) x z)
    ⟨⟨hx, hxe⟩, .refl x⟩ fun u v hu huv hv => ?_).2
  exact ⟨⟨hv.1.1, hv.2⟩,
    hu.2.tail (h.outside_kept hw hu.1.1 hu.1.2 hv.1.2 huv) ⟨hv.1.1, hv.2⟩⟩

/-- What leads to the outer exit around the nest still does. -/
theorem outside_walk_to_exit (hx : ¬ O x)
    (hwalk : ReachVia g.Edge (fun z => ¬ O z) x r.plan.outerExit) :
    ReachVia g'.Edge (fun z => ¬ O z) x r.plan.outerExit := by
  by_cases hxe : x = r.plan.outerExit
  · exact hxe ▸ .refl _
  · have hne := h.nest.outerExit_ne_outerPreheader
    rcases (h.avoids_preheader (fun _ hy => hy) hne hwalk).first_meet (· = r.plan.outerExit) with
      hall | ⟨u, v, hu, huv, hv, rfl, -⟩
    · rcases hall.eq_or_end with heq | ⟨-, hno⟩
      · exact absurd heq.symm hxe
      · exact absurd rfl hno
    · have hue : ¬ O u ∧ u ≠ r.plan.outerExit := by
        rcases hu.eq_or_end with rfl | hu
        · exact ⟨hx, hxe⟩
        · exact ⟨hu.1.1, hu.2⟩
      have hstart := h.outside_walk_kept hw hx hxe hu
      exact (hstart.mono fun z hz => hz.1).tail
        (h.outside_kept hw hue.1 hue.2 hv.2 huv) hv.1

/-- A walk from outside into the nest enters it for the first time over one of the ways in. -/
theorem exists_entry (hreach : g.Reachable x) (hx : ¬ O x) (ht : O t)
    (hwalk : ReachVia g'.Edge P x t) :
    ∃ u v, ReachVia g'.Edge (fun z => P z ∧ ¬ O z) x u ∧ g'.Edge u v ∧ P v ∧
      ReachVia g'.Edge P v t ∧
      (u = r.plan.outerExit ∧ v = r.plan.innerLatch ∨
        u = r.preheaderPred ∧ v = r.plan.innerPreheader ∨
        u = r.preheader ∧ v = r.plan.outerHeader) := by
  rcases hwalk.first_meet O with hall | ⟨u, v, hu, huv, hPv, hv, hvt⟩
  · rcases hall.eq_or_end with rfl | hend
    · exact absurd ht hx
    · exact absurd ht hend.2
  · have hreachu : g.Reachable u ∧ ¬ O u :=
      hu.mem_of_closed (S := fun z => g.Reachable z ∧ ¬ O z) ⟨hreach, hx⟩
        fun y z hy hyz hz => ⟨h.reachable_edge hw hy.1 hyz, hz.2⟩
    exact ⟨u, v, hu, huv, hPv, hvt, h.enter_cases hw hreachu.1 hreachu.2 hv huv⟩

end

end Exchange

end LoopSwap
