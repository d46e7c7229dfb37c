/-
**What can still be reached after an interchange.**

The inner latch loses its only predecessor and is entered from the outer exit instead, and the
inner preheader is entered from the block before the outer preheader.  So an interchange can only
keep everything reachable if the outer exit is reached without the inner latch: from the entry, or
from the outer latch, to which the inner body now leads.  The argument goes from block to block
along the edges that are kept; where it needs a whole loop, it follows a walk of the inner loop from
its header.

One case is apart.  If the outer preheader is entered from the outer exit, then either two changes
compete for one edge, and the inner latch is lost, or the outer exit has been split, the first
change finds nothing, and the inner preheader is lost unless another block leads to it.

Main results:

* `LoopSwap.Exchange.reachable_of_outerExit` — everything around the two loops is reached if the
  outer exit is;
* `LoopSwap.Exchange.reachable_iff` — when everything can still be reached;
* `LoopSwap.Workspace.interchange_keeps_reachable_iff` — the same for functions.
-/

import LoopSwap.Proofs.Interchange.Materialize

set_option relaxedAutoImplicit false
set_option autoImplicit false

namespace LoopSwap

/-- The block `b` is reached without the inner latch: from the entry, or from the outer latch. -/
def Plan.Apart (p : Plan) (g : FlowGraph BlockId) (b : BlockId) : Prop :=
  ∃ a, (g.entry = some a ∨ a = p.outerLatch) ∧ ReachVia g.Edge (· ≠ p.innerLatch) a b

theorem Plan.Apart.step {p : Plan} {g : FlowGraph BlockId} {a b : BlockId} (h : p.Apart g a)
    (hab : g.Edge a b) (hb : b ≠ p.innerLatch) : p.Apart g b := by
  obtain ⟨s, hs, hwalk⟩ := h
  exact ⟨s, hs, hwalk.tail hab hb⟩

theorem Plan.Apart.via {p : Plan} {g : FlowGraph BlockId} {a b : BlockId} (h : p.Apart g a)
    (hab : ReachVia g.Edge (· ≠ p.innerLatch) a b) : p.Apart g b := by
  obtain ⟨s, hs, hwalk⟩ := h
  exact ⟨s, hs, hwalk.trans hab⟩

namespace Exchange

variable {g g' : FlowGraph BlockId} {O I : BlockId → Prop} {r : Relinking} {a b : BlockId}

variable (h : Exchange g O I r)

include h

/-! ### Edges that are kept -/

section

variable (hw : Rewired g g' r.effective)

include hw

/-- The inner latch still leads to the inner header. -/
theorem innerLatch_edge : g'.Edge r.plan.innerLatch r.plan.innerHeader := by
  refine kept hw h.nest.inner.latch_edge fun e he hea heb => ?_
  rcases h.inner_source he (hea ▸ h.nest.inner.latch_mem) with ⟨hsource, -⟩ | ⟨hsource, -⟩
  · exact h.nest.innerLatch_ne_innerHeader (hea.symm.trans hsource)
  · exact h.nest.bodyEnd_ne_innerLatch (hsource.symm.trans hea)

/-- The outer preheader still leads to the outer header. -/
theorem preheader_edge : g'.Edge r.preheader r.plan.outerHeader := by
  have hedge : g.Edge r.preheader r.plan.outerHeader := (h.nest.outer.preheader_edge _).2 rfl
  refine kept hw hedge fun e he hea heb => ?_
  rcases h.outer_source he (hea ▸ h.preheader_not_outer) with ⟨-, hold⟩ | ⟨-, hold⟩
  · exact h.preheader_not_outer (hold ▸ heb ▸ h.nest.outer.header_mem)
  · exact h.continuation_not_outer (hold ▸ heb ▸ h.nest.outer.header_mem)

/-- The inner preheader still leads to the inner header. -/
theorem innerPreheader_edge : g'.Edge r.plan.innerPreheader r.plan.innerHeader := by
  have hedge : g.Edge r.plan.innerPreheader r.plan.innerHeader :=
    (h.nest.inner.preheader_edge _).2 rfl
  refine kept hw hedge fun e he hea heb => ?_
  have hI := h.nest.inner.header_mem
  simp only [Relinking.edges, List.mem_cons, List.not_mem_nil, or_false] at he
  rcases he with rfl | rfl | rfl | rfl | rfl | rfl <;> dsimp only at hea heb
  · exact h.preheaderPred_not_outer (hea ▸ h.nest.innerPreheader_mem)
  · exact h.nest.innerPreheader_ne_outerHeader hea.symm
  · exact h.nest.bodyEntry_ne heb
  · exact h.nest.innerPreheader_ne_innerExit hea.symm
  · exact h.outerExit_not_outer (hea ▸ h.nest.innerPreheader_mem)
  · exact h.nest.innerLatch_ne_innerHeader heb

/-! ### From the inner header -/

variable (hih : g'.Reachable r.plan.innerHeader)

include hih

omit h in
theorem preheader_reachable : g'.Reachable r.preheader :=
  hih.next (hw.changed (inside_effective r).2.1)

theorem outerHeader_reachable : g'.Reachable r.plan.outerHeader :=
  (preheader_reachable hw hih).next (h.preheader_edge hw)

theorem bodyEntry_reachable : g'.Reachable r.plan.bodyEntry :=
  (h.outerHeader_reachable hw hih).next (hw.changed (inside_effective r).1)

/-- A step inside the inner loop, before the end of its body. -/
theorem inner_step (ha : g'.Reachable a) (haI : I a) (hab : g.Edge a b)
    (hend : a = r.plan.bodyEnd → b = r.plan.innerLatch → g'.Reachable b) : g'.Reachable b := by
  refine hw.step ha hab fun e he hea heb => ?_
  rcases h.inner_source (mem_edges_of_effective he) (hea ▸ haI) with ⟨-, hold⟩ | ⟨hsource, hold⟩
  · rw [← heb, hold]
    exact h.bodyEntry_reachable hw hih
  · exact hend (hea.symm.trans hsource) (heb.symm.trans hold)

theorem bodyEnd_reachable : g'.Reachable r.plan.bodyEnd := by
  have hI := h.nest.inner.header_mem
  -- walk from the header to the first visit of the end of the body
  rcases (h.nest.inner.from_header _ h.nest.bodyEnd_inner).first_meet (· = r.plan.bodyEnd) with
    hall | ⟨u, v, hu, huv, -, hv, -⟩
  · rcases hall.eq_or_end with hbe | ⟨-, hno⟩
    · exact absurd hbe h.nest.bodyEnd_ne
    · exact absurd rfl hno
  · have hstep : g'.Reachable u ∧ I u ∧ u ≠ r.plan.bodyEnd := by
      refine hu.mem_of_closed (S := fun x => g'.Reachable x ∧ I x ∧ x ≠ r.plan.bodyEnd)
        ⟨hih, hI, h.nest.bodyEnd_ne.symm⟩ fun x y hx hxy hy => ⟨?_, hy.1, hy.2⟩
      exact h.inner_step hw hih hx.1 hx.2.1 hxy fun hxe => absurd hxe hx.2.2
    rw [hv] at huv
    exact h.inner_step hw hih hstep.1 hstep.2.1 huv fun hue => absurd hue hstep.2.2

theorem outerLatch_reachable : g'.Reachable r.plan.outerLatch :=
  (h.bodyEnd_reachable hw hih).next (hw.changed (inside_effective r).2.2.2)

/-- With the inner latch, the whole inner loop is reached. -/
theorem inner_reachable (hil : g'.Reachable r.plan.innerLatch) (ha : I a) : g'.Reachable a := by
  have hwalk := h.nest.inner.from_header a ha
  refine (hwalk.mem_of_closed (S := fun x => g'.Reachable x ∧ I x)
    ⟨hih, h.nest.inner.header_mem⟩ fun x y hx hxy hy => ⟨?_, hy⟩).1
  exact h.inner_step hw hih hx.1 hx.2 hxy fun _ hyl => hyl ▸ hil

theorem innerExit_reachable (hil : g'.Reachable r.plan.innerLatch) :
    g'.Reachable r.plan.innerExit := by
  obtain ⟨x, hx, hedge⟩ := h.nest.inner.exists_exit
  refine h.inner_step hw hih (h.inner_reachable hw hih hil hx) hx hedge fun _ hlatch => ?_
  exact absurd h.nest.inner.latch_mem (hlatch ▸ h.nest.inner.exit_not_mem)

theorem continuation_reachable (hil : g'.Reachable r.plan.innerLatch) :
    g'.Reachable r.continuation :=
  (h.innerExit_reachable hw hih hil).next (hw.changed (inside_effective r).2.2.1)

end

/-! ### From the outer exit -/

section

variable (hw : Rewired g g' r.effective)

include hw

/-- Outside the outer loop, a step that does not go to the outer preheader is kept unless it starts
in the outer exit. -/
theorem outer_step (ha : g'.Reachable a) (haO : ¬ O a) (hab : g.Edge a b) (hb : b ≠ r.preheader)
    (hexit : a = r.plan.outerExit → b = r.continuation → g'.Reachable b) : g'.Reachable b := by
  refine hw.step ha hab fun e he hea heb => ?_
  rcases h.outer_source (mem_edges_of_effective he) (hea ▸ haO) with ⟨-, hold⟩ | ⟨hsource, hold⟩
  · exact absurd (heb.symm.trans hold) hb
  · exact hexit (hea.symm.trans hsource) (heb.symm.trans hold)

/-- The way to the outer preheader is kept up to its end or up to the outer exit. -/
theorem preheaderPred_or_outerExit_reachable :
    g'.Reachable r.preheaderPred ∨ g'.Reachable r.plan.outerExit := by
  obtain ⟨e, he, hl, heO, hwalk⟩ := h.exists_approach
  by_contra hno
  obtain ⟨hpp, hoe⟩ := not_or.1 hno
  refine hpp (hwalk.mem_of_closed (S := fun x => g'.Reachable x ∧ ¬ O x)
    ⟨hw.entry_reachable he hl, heO⟩ fun x y hx hxy hy => ⟨?_, hy.1⟩).1
  exact h.outer_step hw hx.1 hx.2 hxy hy.2 fun hxe _ => absurd (hxe ▸ hx.1) hoe

theorem preheaderPred_reachable (hc : g'.Reachable r.continuation) :
    g'.Reachable r.preheaderPred := by
  obtain ⟨e, he, hl, heO, hwalk⟩ := h.exists_approach
  refine (hwalk.mem_of_closed (S := fun x => g'.Reachable x ∧ ¬ O x)
    ⟨hw.entry_reachable he hl, heO⟩ fun x y hx hxy hy => ⟨?_, hy.1⟩).1
  exact h.outer_step hw hx.1 hx.2 hxy hy.2 fun _ hyc => hyc ▸ hc

variable (hr : r.preheaderPred = r.plan.outerExit → r.continuation ≠ r.preheader)
  (hoe : g'.Reachable r.plan.outerExit)

include hr hoe

/-- Everything around the two loops is reached if the outer exit is: every old target but the inner
preheader. -/
theorem reachable_of_outerExit :
    ∀ e ∈ r.edges, e.2.1 = r.plan.innerPreheader ∨ g'.Reachable e.2.1 := by
  have hil : g'.Reachable r.plan.innerLatch := hoe.next (hw.changed (exit_effective hr))
  have hih : g'.Reachable r.plan.innerHeader := hil.next (h.innerLatch_edge hw)
  simp only [Relinking.edges, List.forall_mem_cons]
  exact ⟨Or.inr (preheader_reachable hw hih), Or.inl trivial, Or.inr (h.bodyEntry_reachable hw hih),
    Or.inr (h.outerLatch_reachable hw hih), Or.inr (h.continuation_reachable hw hih hil),
    Or.inr hil, List.forall_mem_nil _⟩

/-- If the inner preheader is reached too, then so is everything. -/
theorem keeps_of_outerExit (hiph : g'.Reachable r.plan.innerPreheader) :
    ∀ b, g.Reachable b → g'.Reachable b := by
  intro b hb
  refine hw.reachable_of_old (fun e he => ?_) hb
  rcases h.reachable_of_outerExit hw hr hoe e (mem_edges_of_effective he) with hpre | hreach
  · rw [hpre]
    exact hiph
  · exact hreach

/-- Unless the first change is lost, the inner preheader is reached if the outer exit is. -/
theorem innerPreheader_reachable_of_ne (hpp : r.preheaderPred ≠ r.plan.outerExit) :
    g'.Reachable r.plan.innerPreheader := by
  have hil : g'.Reachable r.plan.innerLatch := hoe.next (hw.changed (exit_effective hr))
  have hih : g'.Reachable r.plan.innerHeader := hil.next (h.innerLatch_edge hw)
  have hfirst : (r.preheaderPred, r.preheader, r.plan.innerPreheader) ∈ r.effective := by
    rw [Relinking.effective_of_ne hpp]
    exact List.mem_cons_self
  exact (h.preheaderPred_reachable hw (h.continuation_reachable hw hih hil)).next
    (hw.changed hfirst)

end

/-! ### When everything can still be reached -/

/-- The outer exit is reached without the inner latch from the outer header or from the inner
exit. -/
theorem outerExit_via :
    ReachVia g.Edge (· ≠ r.plan.innerLatch) r.plan.outerHeader r.plan.outerExit ∨
      ReachVia g.Edge (· ≠ r.plan.innerLatch) r.plan.innerExit r.plan.outerExit := by
  have hne : ∀ x, ¬ I x → x ≠ r.plan.innerLatch := by
    rintro x hx rfl
    exact hx h.nest.inner.latch_mem
  have hexit : ¬ I r.plan.outerExit := fun hmem => h.outerExit_not_outer (h.nest.subset _ hmem)
  obtain ⟨x, hx, hxe⟩ := h.nest.outer.exists_exit
  have hxI : ¬ I x := by
    intro hmem
    have heq := h.nest.inner.leaves x _ hmem hxe hexit
    exact h.outerExit_not_outer (heq ▸ h.nest.innerExit_mem)
  rcases (h.nest.outer.from_header x hx).first_meet I with hall | ⟨u, v, -, -, -, hv, hvx⟩
  · exact Or.inl ((hall.mono fun y hy => hne y hy.2).tail hxe (hne _ hexit))
  · -- the walk enters the inner loop, so it leaves it for the last time to the inner exit
    obtain ⟨s, t, hs, ht, hst, -, -, htx⟩ := hvx.exists_crossing I hv hxI
    obtain rfl := h.nest.inner.leaves s t hs hst ht
    exact Or.inr ((htx.mono fun y hy => hne y hy.2).tail hxe (hne _ hexit))

/-- The way to the outer header does not need the inner latch. -/
theorem apart_preheader (hexit : ¬ r.plan.Apart g r.plan.outerExit) :
    r.plan.Apart g r.preheader ∧ r.plan.Apart g r.plan.outerHeader := by
  obtain ⟨e, he, -, -, hwalk⟩ := h.exists_approach
  have hlatch := h.nest.innerLatch_outer
  have hpred : r.plan.Apart g r.preheaderPred :=
    ⟨e, Or.inl he, hwalk.mono fun y hy => (Nest.ne_of_outer_of_not_outer hlatch hy.1).symm⟩
  have hpp : r.preheaderPred ≠ r.plan.outerExit := fun heq => hexit (heq ▸ hpred)
  have hpre : r.plan.Apart g r.preheader := hpred.step (h.pred_edge hpp)
    (Nest.ne_of_outer_of_not_outer hlatch h.preheader_not_outer).symm
  have hedge : g.Edge r.preheader r.plan.outerHeader := (h.nest.outer.preheader_edge _).2 rfl
  exact ⟨hpre, hpre.step hedge (h.nest.ne_outerHeader_of_inner h.nest.inner.latch_mem).symm⟩

variable (hw : Rewired g g' r.effective)

include hw

/-- If the outer exit is reached without the inner latch before, then it is reached afterwards. -/
theorem outerExit_reachable (hexit : r.plan.Apart g r.plan.outerExit) :
    g'.Reachable r.plan.outerExit := by
  rcases h.preheaderPred_or_outerExit_reachable hw with hpp | hoe
  · by_contra hno
    have hne : r.preheaderPred ≠ r.plan.outerExit := fun heq => hno (heq ▸ hpp)
    have hfirst : (r.preheaderPred, r.preheader, r.plan.innerPreheader) ∈ r.effective := by
      rw [Relinking.effective_of_ne hne]
      exact List.mem_cons_self
    have hiph : g'.Reachable r.plan.innerPreheader := hpp.next (hw.changed hfirst)
    have hih : g'.Reachable r.plan.innerHeader := hiph.next (h.innerPreheader_edge hw)
    obtain ⟨a, ha, hwalk⟩ := hexit
    have hstart : g'.Reachable a := by
      rcases ha with ha | rfl
      · obtain ⟨e, he, hl, -⟩ := h.nest.entry
        obtain rfl : a = e := Option.some.inj (ha.symm.trans he)
        exact hw.entry_reachable ha hl
      · exact h.outerLatch_reachable hw hih
    -- of the old targets on the way, only the one after the outer exit is in question
    refine hno (hwalk.mem_of_closed hstart fun x y hx hxy hy => hw.step hx hxy ?_)
    intro e he hea heb
    have he' := mem_edges_of_effective he
    simp only [Relinking.edges, List.mem_cons, List.not_mem_nil, or_false] at he'
    rcases he' with rfl | rfl | rfl | rfl | rfl | rfl <;> dsimp only at hea heb <;> subst heb
    · exact preheader_reachable hw hih
    · exact hiph
    · exact h.bodyEntry_reachable hw hih
    · exact h.outerLatch_reachable hw hih
    · exact absurd (hea ▸ hx) hno
    · exact absurd rfl hy
  · exact hoe

/-- If the outer exit is reached afterwards, then it was reached without the inner latch before. -/
theorem apart_of_reachable (hoe : g'.Reachable r.plan.outerExit) :
    r.plan.Apart g r.plan.outerExit := by
  by_contra hno
  obtain ⟨hpre, hoh⟩ := h.apart_preheader hno
  have hil := h.nest.inner.latch_mem
  have hiph : r.plan.Apart g r.plan.innerPreheader := hoh.step h.nest.header_edge fun heq =>
    h.nest.inner.preheader_not_mem (heq ▸ hil)
  have hih : r.plan.Apart g r.plan.innerHeader :=
    hiph.step ((h.nest.inner.preheader_edge _).2 rfl) h.nest.innerLatch_ne_innerHeader.symm
  have hie : ¬ r.plan.Apart g r.plan.innerExit := by
    intro hie
    rcases h.outerExit_via with hvia | hvia
    · exact hno (hoh.via hvia)
    · exact hno (hie.via hvia)
  -- what is reached afterwards is reached without the inner latch before
  obtain ⟨e, he, -, hwalk⟩ := FlowGraph.Reachable.iff_reachVia.1 hoe
  have hstart : r.plan.Apart g e := ⟨e, Or.inl (hw.entry.symm.trans he), .refl e⟩
  refine hno (hwalk.mem_of_closed (S := r.plan.Apart g) hstart fun x y hx hxy _ => ?_)
  rcases (hw.edge x y).1 hxy with ⟨old, hmem⟩ | ⟨hold, hkept⟩
  · have hmem' := mem_edges_of_effective hmem
    simp only [Relinking.edges, List.mem_cons, List.not_mem_nil, or_false, Prod.mk.injEq] at hmem'
    rcases hmem' with ⟨rfl, -, rfl⟩ | ⟨rfl, -, rfl⟩ | ⟨rfl, -, rfl⟩ | ⟨rfl, -, rfl⟩ |
      ⟨rfl, -, rfl⟩ | ⟨rfl, -, rfl⟩
    · exact hiph
    · exact hih.step h.nest.body_edge h.nest.bodyEntry_ne_innerLatch
    · exact hpre
    · exact absurd hx hie
    · exact absurd hx hno
    · exact ⟨r.plan.outerLatch, Or.inr rfl, .refl _⟩
  · refine hx.step hold fun hyl => ?_
    have hxe := (h.nest.bodyEnd_iff x).1 (hyl ▸ hold)
    rw [hxe, hyl] at hkept
    exact hkept _ (inside_effective r).2.2.2

/-- A block that something led to is reached over an edge. -/
theorem exists_pred_of_reachable {c : BlockId} (hb : g'.Reachable b) (hcb : g.Edge c b) :
    ∃ a, g'.Reachable a ∧ g'.Edge a b := by
  rcases hb.eq_entry_or_pred with hentry | hpred
  · exact absurd (hw.entry.symm.trans hentry) (h.ne_entry hcb)
  · exact hpred

/-- If two changes compete for the edge of the outer exit, the inner latch is lost. -/
theorem innerLatch_lost (hpp : r.preheaderPred = r.plan.outerExit)
    (hc : r.continuation = r.preheader) : ¬ g'.Reachable r.plan.innerLatch := by
  intro hil
  obtain ⟨a, -, ha⟩ := h.exists_pred_of_reachable hw hil h.nest.bodyEnd_edge
  have hI := h.nest.inner.latch_mem
  have hO := h.nest.innerLatch_outer
  rcases (hw.edge a _).1 ha with ⟨old, hmem⟩ | ⟨hold, hkept⟩
  · rw [Relinking.effective_of_shared hpp hc] at hmem
    simp only [Relinking.edges, List.take_succ_cons, List.take_zero, List.drop_succ_cons,
      List.drop_zero, List.cons_append, List.nil_append, List.mem_cons, List.not_mem_nil, or_false,
      Prod.mk.injEq] at hmem
    rcases hmem with ⟨-, -, heq⟩ | ⟨-, -, heq⟩ | ⟨-, -, heq⟩ | ⟨-, -, heq⟩ | ⟨-, -, heq⟩
    · exact h.nest.inner.preheader_not_mem (heq ▸ hI)
    · exact h.nest.bodyEntry_ne_innerLatch heq.symm
    · exact h.preheader_not_outer (heq ▸ hO)
    · exact h.continuation_not_outer (heq ▸ hO)
    · exact h.nest.outerLatch_not_inner (heq ▸ hI)
  · rw [(h.nest.bodyEnd_iff a).1 hold] at hkept
    exact hkept _ (inside_effective r).2.2.2

/-- If the first change is lost, the inner preheader keeps only its other predecessors. -/
theorem innerPreheader_pred (hpp : r.preheaderPred = r.plan.outerExit)
    (hc : r.continuation ≠ r.preheader) (hiph : g'.Reachable r.plan.innerPreheader) :
    ∃ a, g.Reachable a ∧ a ≠ r.plan.outerHeader ∧ g.Edge a r.plan.innerPreheader := by
  obtain ⟨a, ha, hedge⟩ := h.exists_pred_of_reachable hw hiph h.nest.header_edge
  have hI := h.nest.inner.preheader_not_mem
  have hO := h.nest.innerPreheader_mem
  rcases (hw.edge a _).1 hedge with ⟨old, hmem⟩ | ⟨hold, hkept⟩
  · rw [Relinking.effective_of_stale hpp hc] at hmem
    simp only [Relinking.edges, List.tail_cons, List.mem_cons, List.not_mem_nil, or_false,
      Prod.mk.injEq] at hmem
    rcases hmem with ⟨-, -, heq⟩ | ⟨-, -, heq⟩ | ⟨-, -, heq⟩ | ⟨-, -, heq⟩ | ⟨-, -, heq⟩
    · exact absurd h.nest.bodyEntry_inner (heq ▸ hI)
    · exact absurd (heq ▸ hO) h.preheader_not_outer
    · exact absurd (heq ▸ hO) h.continuation_not_outer
    · exact absurd h.nest.inner.latch_mem (heq ▸ hI)
    · exact absurd heq h.nest.innerPreheader_ne_outerLatch
  · have hreach : g.Reachable a := hw.reachable_of_new
      (fun e he => h.new_reachable e (mem_edges_of_effective he)) ha
    refine ⟨a, hreach, fun hah => ?_, hold⟩
    rw [hah] at hkept
    exact hkept _ (inside_effective r).1

/-- If another block leads to the inner preheader, it is reached whenever the outer exit is. -/
theorem innerPreheader_reachable_of_pred
    (hr : r.preheaderPred = r.plan.outerExit → r.continuation ≠ r.preheader)
    (hoe : g'.Reachable r.plan.outerExit) (ha : g.Reachable a) (hne : a ≠ r.plan.outerHeader)
    (hedge : g.Edge a r.plan.innerPreheader) : g'.Reachable r.plan.innerPreheader := by
  have hold := h.reachable_of_outerExit hw hr hoe
  have hil : g'.Reachable r.plan.innerLatch := hoe.next (hw.changed (exit_effective hr))
  have hih : g'.Reachable r.plan.innerHeader := hil.next (h.innerLatch_edge hw)
  -- everything but the inner preheader is reached in any case
  have hreach : g'.Reachable a ∨ a = r.plan.innerPreheader := by
    obtain ⟨e, he, hl, hwalk⟩ := FlowGraph.Reachable.iff_reachVia.1 ha
    refine hwalk.mem_of_closed (S := fun x => g'.Reachable x ∨ x = r.plan.innerPreheader)
      (Or.inl (hw.entry_reachable he hl)) fun x y hx hxy _ => ?_
    by_cases hy : y = r.plan.innerPreheader
    · exact Or.inr hy
    · refine Or.inl ?_
      rcases hx with hx | rfl
      · refine hw.step hx hxy fun e he _ hey => ?_
        rcases hold e (mem_edges_of_effective he) with hpre | hreach
        · exact absurd (hey.symm.trans hpre) hy
        · exact hey ▸ hreach
      · rw [(h.nest.inner.preheader_edge y).1 hxy]
        exact hih
  have haI : a ≠ r.plan.innerPreheader := by
    rintro rfl
    have heq := (h.nest.inner.preheader_edge _).1 hedge
    exact h.nest.inner.preheader_not_mem (heq ▸ h.nest.inner.header_mem)
  refine (hreach.resolve_right haI).next (kept hw hedge fun e he hea heb => ?_)
  have hI := h.nest.inner.preheader_not_mem
  have hO := h.nest.innerPreheader_mem
  simp only [Relinking.edges, List.mem_cons, List.not_mem_nil, or_false] at he
  rcases he with rfl | rfl | rfl | rfl | rfl | rfl <;> dsimp only at hea heb
  · exact h.preheader_not_outer (heb ▸ hO)
  · exact hne hea.symm
  · exact hI (heb ▸ h.nest.bodyEntry_inner)
  · exact h.nest.innerPreheader_ne_outerLatch heb.symm
  · exact h.continuation_not_outer (heb ▸ hO)
  · exact hI (heb ▸ h.nest.inner.latch_mem)

/-- **When everything can still be reached.** -/
theorem reachable_iff : (∀ b, g.Reachable b → g'.Reachable b) ↔
    r.plan.Apart g r.plan.outerExit ∧
      (r.preheaderPred = r.plan.outerExit → r.continuation ≠ r.preheader ∧
        ∃ a, g.Reachable a ∧ a ≠ r.plan.outerHeader ∧ g.Edge a r.plan.innerPreheader) := by
  constructor
  · intro hkeep
    refine ⟨h.apart_of_reachable hw (hkeep _ h.nest.outer.exit_reachable), fun hpp => ?_⟩
    have hil := hkeep _ (h.nest.inner.reachable h.nest.inner.latch_mem)
    have hc : r.continuation ≠ r.preheader := fun hc => h.innerLatch_lost hw hpp hc hil
    exact ⟨hc, h.innerPreheader_pred hw hpp hc (hkeep _ h.nest.inner.preheader_reachable)⟩
  · rintro ⟨hexit, hstale⟩
    have hoe := h.outerExit_reachable hw hexit
    have hr := fun hpp => (hstale hpp).1
    refine h.keeps_of_outerExit hw hr hoe ?_
    by_cases hpp : r.preheaderPred = r.plan.outerExit
    · obtain ⟨-, a, ha, hne, hedge⟩ := hstale hpp
      exact h.innerPreheader_reachable_of_pred hw hr hoe ha hne hedge
    · exact h.innerPreheader_reachable_of_ne hw hr hoe hpp

end Exchange

/-! ### Before the splits -/

/-- What it takes that an interchange keeps everything reachable.  The outer exit is reached without
the inner latch, and if the outer preheader is entered from the outer exit, then the exit does not
end in an unconditional branch and the inner preheader has another predecessor than the outer
header. -/
def Plan.KeepsReach (p : Plan) (f : Func) : Prop :=
  p.Apart f.graph p.outerExit ∧
    (p.preheaderPred = some p.outerExit → p.continuation = none ∧
      ∃ a, f.graph.Reachable a ∧ a ≠ p.outerHeader ∧ f.graph.Edge a p.innerPreheader)

namespace Planned

variable {f f₁ f₂ : Func} {outer inner : Nat} {l m : Loop} {p : Plan} {q c : BlockId}
  (hf : f.Flowing) (h : Planned f outer inner l m p)
  (h₁ : f.splitEntry? p.outerPreheader = some (f₁, q))
  (h₂ : f₁.splitExit? p.outerExit = some (f₂, c))

include hf h h₁ h₂

/-- The splits do not change whether the outer exit is reached without the inner latch. -/
theorem apart_split_iff : p.Apart f₂.graph p.outerExit ↔ p.Apart f.graph p.outerExit := by
  have hentry := h.openedEntry hf h₁
  have hexit := h.openedExit hf h₁ h₂
  have hnest := h.nest hf
  have hnest₁ := h.nest_splitEntry hf h₁
  have hexch := h.exchange hf h₁ h₂
  have hq : q ≠ p.innerLatch :=
    (Nest.ne_of_outer_of_not_outer hnest.innerLatch_outer hexch.preheader_not_outer).symm
  have hc : c ≠ p.innerLatch :=
    (Nest.ne_of_outer_of_not_outer hnest.innerLatch_outer hexch.continuation_not_outer).symm
  have hwalk : ∀ a, a ∈ f.layout →
      (ReachVia f₂.graph.Edge (· ≠ p.innerLatch) a p.outerExit ↔
        ReachVia f.graph.Edge (· ≠ p.innerLatch) a p.outerExit) := by
    intro a ha
    rw [hexit.reachVia_iff hc (hentry.listed_iff.2 (Or.inr ha)) hnest₁.outer.exit_reachable.listed,
      hentry.reachVia_iff hq ha hnest.outer.exit_reachable.listed]
  have hstart : ∀ a, (f₂.graph.entry = some a ∨ a = p.outerLatch ↔
      f.graph.entry = some a ∨ a = p.outerLatch) := fun a => by
    rw [hexit.entry, hentry.entry]
  have hlisted : ∀ a, (f.graph.entry = some a ∨ a = p.outerLatch) → a ∈ f.layout := by
    rintro a (ha | rfl)
    · exact List.mem_of_head? ha
    · exact (hnest.outer.reachable hnest.outer.latch_mem).listed
  constructor
  · rintro ⟨a, ha, hae⟩
    have ha' := (hstart a).1 ha
    exact ⟨a, ha', (hwalk a (hlisted a ha')).1 hae⟩
  · rintro ⟨a, ha, hae⟩
    exact ⟨a, (hstart a).2 ha, (hwalk a (hlisted a ha)).2 hae⟩

omit h₁ h₂ in
/-- The first change starts in the outer exit if that is where the outer preheader is entered. -/
theorem preheaderPred_eq_iff :
    (p.relinking q c).preheaderPred = p.outerExit ↔ p.preheaderPred = some p.outerExit := by
  have hne := (h.nest hf).outerExit_ne_outerPreheader
  cases hpred : p.preheaderPred with
  | none => simp [Plan.relinking, hpred, hne.symm]
  | some a => simp [Plan.relinking, hpred]

/-- The first change is lost, and does not compete with another, if the outer exit is split. -/
theorem continuation_ne_iff (hpp : p.preheaderPred = some p.outerExit) :
    c ≠ q ↔ p.continuation = none := by
  obtain ⟨-, -, ⟨rfl, rfl, -⟩ | ⟨-, hnone⟩⟩ := h.splitEntry hf h₁
  · obtain ⟨-, hexit, ⟨rfl, hsome⟩ | ⟨hcut, hnone⟩⟩ := h.splitExit hf h₁ h₂
    · have hedge : f₂.graph.Edge p.outerExit p.outerPreheader := by
        rcases h.preheaderPred_cases hf with ⟨-, hnone⟩ | ⟨-, a, ha, hiff⟩
        · rw [hpp] at hnone
          cases hnone
        · rw [hpp] at ha
          cases ha
          exact (hiff _).2 rfl
      simp [hsome, ((hexit _).1 hedge).symm]
    · have hne := hcut.ne (h.nest hf).outer.preheader_reachable.listed
      simp [hnone, hne.symm]
  · rw [hpp] at hnone
    cases hnone

/-- The other predecessors of the inner preheader are the same before and after. -/
theorem exists_pred_split_iff (hpp : p.preheaderPred = some p.outerExit) :
    (∃ a, f₂.graph.Reachable a ∧ a ≠ p.outerHeader ∧ f₂.graph.Edge a p.innerPreheader) ↔
      ∃ a, f.graph.Reachable a ∧ a ≠ p.outerHeader ∧ f.graph.Edge a p.innerPreheader := by
  have hnest := h.nest hf
  have hmem := hnest.innerPreheader_mem
  have hopen := h.openedExit hf h₁ h₂
  obtain ⟨-, -, ⟨rfl, rfl, -⟩ | ⟨-, hnone⟩⟩ := h.splitEntry hf h₁
  · -- neither part of the outer exit leads into the outer loop
    have hedge : ∀ a, f₂.graph.Edge a p.innerPreheader ↔ f₁.graph.Edge a p.innerPreheader := by
      intro a
      have hno : ¬ f₁.graph.Edge p.outerExit p.innerPreheader := fun hx =>
        hnest.outerExit_edge hx hmem
      rcases hopen with ⟨heq, -⟩ | ⟨hcut, -⟩
      · rw [heq]
      · rw [hcut.edge_to_old hnest.inner.preheader_reachable.listed]
        constructor
        · rintro (⟨-, hx⟩ | ⟨-, hx⟩)
          · exact absurd hx hno
          · exact hx
        · intro hx
          exact Or.inr ⟨fun hae => hno (hae ▸ hx), hx⟩
    simp only [hedge, hopen.reachable_iff hnest.outer.exit_reachable]
    constructor
    · rintro ⟨a, ha | ha, hne, hedge⟩
      · rcases hopen with ⟨-, hmade⟩ | ⟨hcut, hmade⟩
        · rw [hmade] at ha
          cases ha
        · rw [hmade, List.mem_singleton] at ha
          exact absurd (ha ▸ hedge.1) hcut.not_mem
      · exact ⟨a, ha, hne, hedge⟩
    · rintro ⟨a, ha, hne, hedge⟩
      exact ⟨a, Or.inr ha, hne, hedge⟩
  · rw [hpp] at hnone
    cases hnone

end Planned

/-- **When an interchange keeps everything reachable.**  A successful interchange of a well-formed
function leaves every block that was reachable, and every block it has split off, reachable, exactly
if the plan says so. -/
theorem Workspace.interchange_keeps_reachable_iff {w w' : Workspace} {outer inner : Nat}
    {done : Interchanged} (hf : w.func.WellFormed)
    (h : w.interchange outer inner = (w', .ok done)) :
    ∃ p, w.func.loops.plan w.func outer inner = .ok p ∧
      ((∀ b, w.func.graph.Reachable b ∨ b ∈ done.materialized → w'.func.graph.Reachable b) ↔
        p.KeepsReach w.func) := by
  have hflow := hf.toFlowing
  obtain ⟨l, m, p, f₁, q, f₂, c, hp, h₁, h₂, hfunc, hmade⟩ := exists_planned hflow h
  obtain ⟨hflow₂, -, -⟩ := hp.splitExit hflow h₁ h₂
  have hexch := hp.exchange hflow h₁ h₂
  have hkeep := hexch.reachable_iff (hexch.rewired hflow₂)
  refine ⟨p, hp.plan_eq, ?_⟩
  rw [hfunc, hmade, forall_congr' fun b => by rw [← hp.reachable_split_iff hflow h₁ h₂], hkeep]
  refine and_congr (hp.apart_split_iff hflow h₁ h₂) ?_
  rw [show (p.relinking q c).plan = p from rfl, hp.preheaderPred_eq_iff hflow]
  constructor
  · intro hstale hpp
    obtain ⟨hc, hpred⟩ := hstale hpp
    exact ⟨(hp.continuation_ne_iff hflow h₁ h₂ hpp).1 hc,
      (hp.exists_pred_split_iff hflow h₁ h₂ hpp).1 hpred⟩
  · intro hstale hpp
    obtain ⟨hc, hpred⟩ := hstale hpp
    exact ⟨(hp.continuation_ne_iff hflow h₁ h₂ hpp).2 hc,
      (hp.exists_pred_split_iff hflow h₁ h₂ hpp).2 hpred⟩

/-- A nest that is the whole body of a loop: the header of that loop leads to the outer preheader
and is the outer exit. -/
def Func.loopedNest : Func :=
  .ofExits [("entry", .br ⟨1⟩), ("w", .condBr (.const 0) ⟨2⟩ ⟨10⟩), ("oph", .br ⟨3⟩),
    ("oh", .condBr (.const 0) ⟨4⟩ ⟨1⟩), ("iph", .br ⟨5⟩), ("ih", .condBr (.const 0) ⟨6⟩ ⟨8⟩),
    ("be", .br ⟨7⟩), ("il", .br ⟨5⟩), ("ie", .br ⟨9⟩), ("ol", .br ⟨3⟩), ("done", .ret none)]

/-- Interchanging that nest succeeds and does not keep everything reachable. -/
theorem Workspace.interchange_loopedNest_loses_block :
    Func.loopedNest.WellFormed ∧
      ∃ w' done, (⟨Func.loopedNest, .zero⟩ : Workspace).interchange 1 2 = (w', .ok done) ∧
        ¬ ∀ b, Func.loopedNest.graph.Reachable b ∨ b ∈ done.materialized →
          w'.func.graph.Reachable b := by
  have hf : Func.loopedNest.WellFormed := by decide +kernel
  have hplan : Func.loopedNest.loops.plan Func.loopedNest 1 2 =
      .ok ⟨⟨2⟩, ⟨3⟩, ⟨9⟩, ⟨1⟩, ⟨4⟩, ⟨5⟩, ⟨7⟩, ⟨8⟩, ⟨6⟩, ⟨6⟩, some ⟨1⟩, none⟩ := by decide +kernel
  have hdone : ((⟨Func.loopedNest, .zero⟩ : Workspace).interchange 1 2).2 =
      .ok ⟨1, 2, [⟨11⟩], 10, 5⟩ := by decide +kernel
  have hrun : (⟨Func.loopedNest, .zero⟩ : Workspace).interchange 1 2 =
      (_, .ok ⟨1, 2, [⟨11⟩], 10, 5⟩) := Prod.ext rfl hdone
  refine ⟨hf, _, _, hrun, ?_⟩
  obtain ⟨p, hp, hkeeps⟩ := Workspace.interchange_keeps_reachable_iff hf hrun
  rw [hkeeps]
  obtain rfl := Except.ok.inj (hplan.symm.trans hp)
  -- the inner preheader is entered from the outer header only
  intro hreach
  obtain ⟨-, a, -, hne, hedge⟩ := hreach.2 rfl
  have hpred : Func.loopedNest.predecessors ⟨4⟩ = [⟨3⟩] := by decide +kernel
  rw [hf.edge_iff_mem_predecessors, hpred, List.mem_singleton] at hedge
  exact hne hedge

end LoopSwap
