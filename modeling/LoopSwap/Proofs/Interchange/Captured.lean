/-
**The blocks that an interchange takes into the loops.**

Whether a block outside gets into a loop of the nest depends on what the outer exit is for the nest.

If the outer exit is only reached through the nest, its edge to the inner latch closes the loop of
the inner header, and this loop takes in the outer exit and all that leads back to it.  If it is
also reached around the nest, the inner latch is reached around the inner header and closes nothing.
Then at most the edge of the inner preheader closes a loop.  It takes in what gets to the outer
preheader around the outer exit.

The loop of the outer header, which is inside now, takes in nothing more: a block outside that leads
to the outer latch around the outer header comes over the outer exit and the inner latch.

Main results:

* `LoopSwap.Exchange.backEdge_innerLatch_iff` — when the inner latch closes a loop;
* `LoopSwap.Exchange.inLoop_innerHeader_iff` — the blocks outside that get into the loop of the
  inner header;
* `LoopSwap.Exchange.inLoop_innerHeader` — the loop of the outer header gets no others.
-/

import LoopSwap.Proofs.Interchange.Outside

set_option relaxedAutoImplicit false
set_option autoImplicit false

namespace LoopSwap

namespace Exchange

variable {g g' : FlowGraph BlockId} {O I : BlockId → Prop} {r : Relinking}
  {a b t x y : BlockId} {P : BlockId → Prop}

variable (h : Exchange g O I r) (hw : Rewired g g' r.effective)

include h hw

/-! ### The way over the outer preheader -/

/-- A walk outside the nest that comes to the outer preheader comes over the continuation. -/
theorem outside_walk_preheader (hx : ¬ O x) (hne : x ≠ r.preheader)
    (hwalk : ReachVia g'.Edge (fun z => P z ∧ ¬ O z) x r.preheader) :
    r.preheaderPred = r.plan.outerExit ∧
      ReachVia g'.Edge (fun z => P z ∧ ¬ O z) x r.continuation := by
  rcases Relation.ReflTransGen.cases_tail hwalk with heq | ⟨a, ha, hedge⟩
  · exact absurd heq.symm hne
  · have haO : ¬ O a := by
      rcases ReachVia.eq_or_end ha with rfl | hend
      · exact hx
      · exact hend.2
    obtain ⟨hpp, rfl⟩ := h.to_preheader hw haO hedge.1
    exact ⟨hpp, ha⟩

/-- From the entry, the nest is not entered over the outer preheader first. -/
theorem entry_not_preheader {e : BlockId} (he : g.entry = some e) :
    ¬ ReachVia g'.Edge (fun z => P z ∧ ¬ O z) e r.preheader := by
  intro hwalk
  obtain ⟨heO, hne⟩ := h.entry_outside he
  obtain ⟨hpp, hcont⟩ := h.outside_walk_preheader hw heO hne hwalk
  rcases Relation.ReflTransGen.cases_tail hcont with heq | ⟨a, ha, hedge⟩
  · exact h.ne_entry ((h.exit_iff _).2 heq.symm) he
  · -- outside the nest, only the outer exit led to the continuation
    have haO : ¬ O a := by
      rcases ReachVia.eq_or_end ha with rfl | hend
      · exact heO
      · exact hend.2
    obtain ⟨hold, hae, -⟩ := h.outside_edge hw haO h.continuation_not_outer hedge.1
    by_cases hc : r.continuation = r.preheader
    · exact hae (h.nest.approach _ _ (hc ▸ hold) ((h.exit_iff _).2 hc.symm))
    · exact hae ((h.stale hpp hc).2 a hold)

/-- From the entry, the nest is entered over the outer exit or over the old way in first. -/
theorem exists_first_entry {e : BlockId} (he : g.entry = some e) (hl : e ∈ g.listed) (ht : O t)
    (hwalk : ReachVia g'.Edge P e t) :
    ∃ u v, ReachVia g'.Edge (fun z => P z ∧ ¬ O z) e u ∧ g'.Edge u v ∧ P v ∧
      ReachVia g'.Edge P v t ∧
      (u = r.plan.outerExit ∧ v = r.plan.innerLatch ∨
        u = r.preheaderPred ∧ v = r.plan.innerPreheader) := by
  obtain ⟨u, v, hu, huv, hv, hvt, hexit | hway | ⟨rfl, -⟩⟩ :=
    h.exists_entry hw (.entry he hl) (h.entry_outside he).1 ht hwalk
  · exact ⟨u, v, hu, huv, hv, hvt, Or.inl hexit⟩
  · exact ⟨u, v, hu, huv, hv, hvt, Or.inr hway⟩
  · exact absurd hu (h.entry_not_preheader hw he)

/-! ### The inner latch -/

/-- If the outer exit is not reached around the nest, the inner header dominates the inner latch. -/
theorem dominates_innerLatch (hno : ∀ e, g.entry = some e → e ∈ g.listed →
    ¬ ReachVia g'.Edge (fun z => ¬ O z) e r.plan.outerExit) :
    g'.Dominates r.plan.innerHeader r.plan.innerLatch := by
  refine (h.dominates_iff_not_via hw h.nest.innerHeader_outer).2 fun e he hl hwalk => ?_
  obtain ⟨u, v, hu, -, -, hv, ⟨rfl, -⟩ | ⟨-, rfl⟩⟩ :=
    h.exists_first_entry hw he hl h.nest.innerLatch_outer hwalk
  · exact hno e he hl (hu.mono fun z hz => hz.2)
  · have heq := h.eq_of_via_innerPreheader hw hv
    exact h.nest.inner.preheader_not_mem (heq ▸ h.nest.inner.latch_mem)

/-- When the inner latch closes a loop: when the outer exit is reached through the nest only, and
without the inner latch. -/
theorem backEdge_innerLatch_iff : g'.BackEdge r.plan.innerLatch r.plan.innerHeader ↔
    g.Dominates r.plan.outerHeader r.plan.outerExit ∧ r.plan.Apart g r.plan.outerExit := by
  constructor
  · intro hback
    rcases hback.reachable.eq_entry_or_pred with hentry | ⟨a, ha, hedge⟩
    · exact absurd (hw.entry.symm.trans hentry) (h.ne_entry h.nest.bodyEnd_edge)
    · obtain ⟨rfl, -⟩ := h.to_innerLatch hw hedge
      refine ⟨h.dominates_iff_around.2 ?_, h.apart_of_reachable hw ha⟩
      rintro ⟨e, he, hl, hwalk⟩
      refine (h.dominates_iff_not_via hw h.nest.innerHeader_outer).1 hback.dominates e he hl ?_
      have hexit := h.outside_walk_to_exit hw (h.entry_outside he).1 hwalk
      exact (hexit.mono fun z hz => h.ne_innerHeader_of_outside hz).tail hedge
        h.nest.innerLatch_ne_innerHeader
  · rintro ⟨hdom, hapart⟩
    have hpp := h.preheaderPred_ne_of_dominates hdom
    have hedge : g'.Edge r.plan.outerExit r.plan.innerLatch :=
      hw.changed (exit_effective fun heq => absurd heq hpp)
    refine ⟨(h.outerExit_reachable hw hapart).next hedge, h.innerLatch_edge hw,
      h.dominates_innerLatch hw fun e he hl hwalk => h.dominates_iff_around.1 hdom ?_⟩
    have hall : ReachVia g'.Edge (fun z => True ∧ ¬ O z) e r.plan.outerExit :=
      hwalk.mono fun z hz => ⟨trivial, hz⟩
    exact ⟨e, he, hl, (h.outside_walk hw (h.entry_outside he).1 hall).mono fun z hz => hz.2⟩

/-- If the outer exit is reached through the nest only, a block outside leads to the inner latch
around the inner header exactly if it led to the outer exit around the nest. -/
theorem via_innerLatch_iff (hdom : g.Dominates r.plan.outerHeader r.plan.outerExit)
    (hreach : g.Reachable x) (hx : ¬ O x) (hne : x ≠ r.preheader) :
    ReachVia g'.Edge (· ≠ r.plan.innerHeader) x r.plan.innerLatch ↔
      ReachVia g.Edge (fun y => ¬ O y) x r.plan.outerExit := by
  have hpp := h.preheaderPred_ne_of_dominates hdom
  constructor
  · intro hwalk
    obtain ⟨u, v, hu, -, -, hv, hway⟩ := h.exists_entry hw hreach hx h.nest.innerLatch_outer hwalk
    rcases hway with ⟨rfl, -⟩ | ⟨-, rfl⟩ | ⟨rfl, -⟩
    · exact (h.outside_walk hw hx hu).mono fun z hz => hz.2
    · have heq := h.eq_of_via_innerPreheader hw hv
      exact absurd (heq ▸ h.nest.inner.latch_mem) h.nest.inner.preheader_not_mem
    · exact absurd (h.outside_walk_preheader hw hx hne hu).1 hpp
  · intro hwalk
    have hexit := h.outside_walk_to_exit hw hx hwalk
    exact (hexit.mono fun z hz => h.ne_innerHeader_of_outside hz).tail
      (hw.changed (exit_effective fun heq => absurd heq hpp)) h.nest.innerLatch_ne_innerHeader

/-! ### The inner preheader -/

omit hw in
theorem innerPreheader_ne_innerHeader : r.plan.innerPreheader ≠ r.plan.innerHeader := fun heq =>
  h.nest.inner.preheader_not_mem (heq ▸ h.nest.inner.header_mem)

/-- What led to the outer preheader around the nest and the outer exit leads to the inner preheader
around the inner header, unless the way in starts in the outer exit. -/
theorem via_innerPreheader_of_ne (hpp : r.preheaderPred ≠ r.plan.outerExit) (hx : ¬ O x)
    (hne : x ≠ r.preheader) (hxe : x ≠ r.plan.outerExit)
    (hwalk : ReachVia g.Edge (fun y => ¬ O y ∧ y ≠ r.plan.outerExit) x r.preheader) :
    ReachVia g'.Edge (· ≠ r.plan.innerHeader) x r.plan.innerPreheader := by
  rcases Relation.ReflTransGen.cases_tail hwalk with heq | ⟨a, ha, hedge⟩
  · exact absurd heq.symm hne
  · obtain rfl : a = r.preheaderPred := h.nest.approach _ _ hedge.1 (h.pred_edge hpp)
    have hself : r.preheaderPred ≠ r.preheader := fun heq =>
      h.preheader_not_outer ((h.nest.outer.preheader_edge _).1 (heq ▸ h.pred_edge hpp) ▸
        h.nest.outer.header_mem)
    have hpath : ReachVia g.Edge
        (fun y => (¬ O y ∧ y ≠ r.preheader) ∧ y ≠ r.plan.outerExit) x r.preheaderPred :=
      (h.avoids_preheader (fun y hy => hy.1) hself ha).mono
        fun y hy => ⟨⟨hy.1.1, hy.2⟩, hy.1.2⟩
    have hkept := h.outside_walk_kept hw hx hxe hpath
    exact (hkept.mono fun z hz => h.ne_innerHeader_of_outside hz.1).tail
      (hw.changed (entry_effective fun heq => absurd heq hpp)) h.innerPreheader_ne_innerHeader

/-- If the inner preheader closes a loop, the outer exit is reached around the nest and does not
lead to the inner preheader around the inner header. -/
theorem outerExit_of_backEdge (hback : g'.BackEdge r.plan.innerPreheader r.plan.innerHeader) :
    g.Around O r.plan.outerExit ∧
      ¬ ReachVia g'.Edge (· ≠ r.plan.innerHeader) r.plan.outerExit r.plan.innerPreheader := by
  have hno := (h.dominates_iff_not_via hw h.nest.innerHeader_outer).1 hback.dominates
  have haround : g.Around O r.plan.outerExit := by
    obtain ⟨e, he, hl, -, hpre⟩ := h.exists_approach
    by_cases hpp : r.preheaderPred = r.plan.outerExit
    · exact hpp ▸ h.around_preheaderPred
    · rcases hpre.first_meet (· = r.plan.outerExit) with hall | ⟨u, v, hu, huv, hv, rfl, -⟩
      · -- the way in does not pass the outer exit, so it leads to the inner preheader
        have hexit : e ≠ r.plan.outerExit := by
          rintro rfl
          obtain ⟨z, -, hz⟩ := h.nest.outer.exists_exit
          exact h.ne_entry hz he
        have hway : ReachVia g.Edge (fun y => ¬ O y ∧ y ≠ r.plan.outerExit) e r.preheader :=
          (hall.mono fun z hz => ⟨hz.1.1, hz.2⟩).tail (h.pred_edge hpp)
            ⟨h.preheader_not_outer, h.nest.outerExit_ne_outerPreheader.symm⟩
        obtain ⟨heO, hne⟩ := h.entry_outside he
        exact absurd (h.via_innerPreheader_of_ne hw hpp heO hne hexit hway) (hno e he hl)
      · exact ⟨e, he, hl, (hu.mono fun z hz => hz.1.1).tail huv hv.1⟩
  refine ⟨haround, fun hcon => ?_⟩
  obtain ⟨e, he, hl, hwalk⟩ := haround
  have hexit := h.outside_walk_to_exit hw (h.entry_outside he).1 hwalk
  exact hno e he hl ((hexit.mono fun z hz => h.ne_innerHeader_of_outside hz).trans hcon)

/-- If the inner preheader closes a loop, no two changes compete for the edge of the outer exit. -/
theorem continuation_ne_of_backEdge
    (hback : g'.BackEdge r.plan.innerPreheader r.plan.innerHeader)
    (hpp : r.preheaderPred = r.plan.outerExit) : r.continuation ≠ r.preheader := by
  intro hc
  have hedge : g'.Edge r.preheaderPred r.plan.innerPreheader :=
    hw.changed (entry_effective fun _ => hc)
  refine (h.outerExit_of_backEdge hw hback).2 (.single (hpp ▸ hedge) fun heq => ?_)
  exact h.nest.inner.preheader_not_mem (heq ▸ h.nest.inner.header_mem)

/-- If the inner preheader closes a loop, the inner latch does not. -/
theorem not_backEdge_innerLatch
    (hback : g'.BackEdge r.plan.innerPreheader r.plan.innerHeader) :
    ¬ g'.BackEdge r.plan.innerLatch r.plan.innerHeader := fun hcon =>
  h.dominates_iff_around.1 ((h.backEdge_innerLatch_iff hw).1 hcon).1
    (h.outerExit_of_backEdge hw hback).1

/-- If the inner preheader closes a loop, the outer header is in it exactly if it leads to the inner
preheader around the inner header. -/
theorem inLoop_outerHeader_iff
    (hback : g'.BackEdge r.plan.innerPreheader r.plan.innerHeader) :
    g'.InLoop r.plan.innerHeader r.plan.outerHeader ↔
      ReachVia g'.Edge (· ≠ r.plan.innerHeader) r.plan.outerHeader r.plan.innerPreheader := by
  have hne := (h.nest.ne_outerHeader_of_inner h.nest.inner.header_mem).symm
  constructor
  · rintro ⟨t, ht, heq | ⟨-, -, hwalk⟩⟩
    · exact absurd heq hne
    · rcases h.backEdge_innerHeader_cases hw ht with rfl | rfl
      · exact hwalk
      · exact absurd ht (h.not_backEdge_innerLatch hw hback)
  · intro hwalk
    exact ⟨_, hback, Or.inr
      ⟨hne, h.outerHeader_reachable hw (hback.reachable.next hback.edge), hwalk⟩⟩

/-- If the way in starts in what was split off the outer exit, that part still leads to the outer
preheader. -/
theorem continuation_edge (hpp : r.preheaderPred = r.plan.outerExit)
    (hc : r.continuation ≠ r.preheader) : g'.Edge r.continuation r.preheader := by
  have hstale := (h.stale hpp hc).1
  have hne : r.continuation ≠ r.plan.outerExit := fun heq =>
    hc ((h.exit_iff _).1 (heq ▸ hstale)).symm
  refine kept hw hstale fun e he hea heb => ?_
  rcases h.outer_source he (hea ▸ h.continuation_not_outer) with ⟨hs, -⟩ | ⟨hs, -⟩
  · exact hne (hea.symm.trans (hs.trans hpp))
  · exact hne (hea.symm.trans hs)

/-- If the inner preheader closes a loop, a block outside that leads to it around the inner header
led to the outer preheader around the nest and the outer exit.  If the way in starts in what was
split off the outer exit, the way goes on over the outer header. -/
theorem of_via_innerPreheader
    (hback : g'.BackEdge r.plan.innerPreheader r.plan.innerHeader)
    (hreach : g.Reachable x) (hx : ¬ O x) (hne : x ≠ r.preheader)
    (hwalk : ReachVia g'.Edge (· ≠ r.plan.innerHeader) x r.plan.innerPreheader) :
    x ≠ r.plan.outerExit ∧
      ReachVia g.Edge (fun y => ¬ O y ∧ y ≠ r.plan.outerExit) x r.preheader ∧
      (r.preheaderPred = r.plan.outerExit →
        g'.InLoop r.plan.innerHeader r.plan.outerHeader) := by
  have hexit := (h.outerExit_of_backEdge hw hback).2
  have hpre : ¬ O r.preheader ∧ r.preheader ≠ r.plan.outerExit :=
    ⟨h.preheader_not_outer, h.nest.outerExit_ne_outerPreheader.symm⟩
  have hxe : x ≠ r.plan.outerExit := by
    rintro rfl
    exact hexit hwalk
  -- the way does not pass the outer exit
  have hfree : ReachVia g'.Edge (fun y => y ≠ r.plan.innerHeader ∧ y ≠ r.plan.outerExit) x
      r.plan.innerPreheader := by
    rcases hwalk.first_meet (· = r.plan.outerExit) with hall | ⟨u, v, -, -, -, rfl, hv⟩
    · exact hall
    · exact absurd hv hexit
  have hold : ∀ {c}, ReachVia g'.Edge
      (fun z => (z ≠ r.plan.innerHeader ∧ z ≠ r.plan.outerExit) ∧ ¬ O z) x c →
      ReachVia g.Edge (fun y => ¬ O y ∧ y ≠ r.plan.outerExit) x c := fun hc =>
    (h.outside_walk hw hx hc).mono fun z hz => ⟨hz.2, hz.1.2⟩
  obtain ⟨u, v, hu, -, -, hv, hway⟩ := h.exists_entry hw hreach hx h.nest.innerPreheader_mem hfree
  have hue : u ≠ r.plan.outerExit := by
    rcases hu.eq_or_end with rfl | hend
    · exact hxe
    · exact hend.1.2
  refine ⟨hxe, ?_⟩
  rcases hway with ⟨rfl, -⟩ | ⟨rfl, -⟩ | ⟨rfl, rfl⟩
  · exact absurd rfl hue
  · exact ⟨(hold hu).tail (h.pred_edge hue) hpre, fun hpp => absurd hpp hue⟩
  · obtain ⟨hpp, hcont⟩ := h.outside_walk_preheader hw hx hne hu
    have hstale := (h.stale hpp (h.continuation_ne_of_backEdge hw hback hpp)).1
    exact ⟨(hold hcont).tail hstale hpre,
      fun _ => (h.inLoop_outerHeader_iff hw hback).2 (hv.mono fun z hz => hz.1)⟩

/-- If the inner preheader closes a loop with the outer header in it, and the way in starts in what
was split off the outer exit, then that part leads to the inner preheader around the inner
header. -/
theorem via_innerPreheader_of_stale
    (hback : g'.BackEdge r.plan.innerPreheader r.plan.innerHeader)
    (hpp : r.preheaderPred = r.plan.outerExit) (hne : x ≠ r.preheader)
    (hxe : x ≠ r.plan.outerExit)
    (hwalk : ReachVia g.Edge (fun y => ¬ O y ∧ y ≠ r.plan.outerExit) x r.preheader)
    (hloop : g'.InLoop r.plan.innerHeader r.plan.outerHeader) :
    ReachVia g'.Edge (· ≠ r.plan.innerHeader) x r.plan.innerPreheader := by
  have hc := h.continuation_ne_of_backEdge hw hback hpp
  obtain ⟨hstale, honly⟩ := h.stale hpp hc
  rcases Relation.ReflTransGen.cases_tail hwalk with heq | ⟨a, ha, hedge⟩
  · exact absurd heq.symm hne
  obtain rfl : a = r.continuation := h.nest.approach _ _ hedge.1 hstale
  -- only the outer exit leads to the continuation, so the walk starts there
  have hxc : x = r.continuation := by
    rcases Relation.ReflTransGen.cases_tail ha with heq | ⟨z, hz, hzc⟩
    · exact heq.symm
    · obtain rfl := honly z hzc.1
      rcases ReachVia.eq_or_end hz with heq | hend
      · exact absurd heq.symm hxe
      · exact absurd rfl hend.2
  rw [hxc]
  exact .head (h.continuation_edge hw hpp hc) (h.ne_innerHeader_of_outside h.preheader_not_outer)
    (.head (h.preheader_edge hw) (h.nest.ne_outerHeader_of_inner h.nest.inner.header_mem).symm
      ((h.inLoop_outerHeader_iff hw hback).1 hloop))

/-! ### The blocks in the loops -/

/-- If an edge closes a loop of the inner header, everything can still be reached. -/
theorem reachable_of_inLoop (hloop : g'.InLoop r.plan.innerHeader a) (hx : g.Reachable x) :
    g'.Reachable x := by
  obtain ⟨t, ht, -⟩ := hloop
  rcases h.backEdge_innerHeader_cases hw ht with rfl | rfl
  · obtain ⟨e, he, hl, hwalk⟩ := (h.outerExit_of_backEdge hw ht).1
    have hexit : g'.Reachable r.plan.outerExit := (hw.entry_reachable he hl).via
      (h.outside_walk_to_exit hw (h.entry_outside he).1 hwalk)
    exact h.keeps_of_outerExit hw (h.continuation_ne_of_backEdge hw ht) hexit ht.reachable x hx
  · obtain ⟨hdom, hapart⟩ := (h.backEdge_innerLatch_iff hw).1 ht
    exact (h.reachable_iff hw).2
      ⟨hapart, fun hpp => absurd hpp (h.preheaderPred_ne_of_dominates hdom)⟩ x hx

/-- **The blocks outside that get into the loop of the inner header.** -/
theorem inLoop_innerHeader_iff (hx : ¬ O x) (hne : x ≠ r.preheader) :
    g'.InLoop r.plan.innerHeader x ↔
      g.Dominates r.plan.outerHeader r.plan.outerExit ∧ r.plan.Apart g r.plan.outerExit ∧
          (x = r.plan.outerExit ∨ g.InLoop r.plan.outerExit x) ∨
        g'.BackEdge r.plan.innerPreheader r.plan.innerHeader ∧ g.Reachable x ∧
          x ≠ r.plan.outerExit ∧
          ReachVia g.Edge (fun y => ¬ O y ∧ y ≠ r.plan.outerExit) x r.preheader ∧
          (r.preheaderPred = r.plan.outerExit →
            g'.InLoop r.plan.innerHeader r.plan.outerHeader) := by
  have hxih := h.ne_innerHeader_of_outside hx
  constructor
  · rintro ⟨t, ht, heq | ⟨-, hreach, hwalk⟩⟩
    · exact absurd heq hxih
    · have hold := h.reachable_before hw hreach
      rcases h.backEdge_innerHeader_cases hw ht with rfl | rfl
      · exact Or.inr ⟨ht, hold, h.of_via_innerPreheader hw ht hold hx hne hwalk⟩
      · obtain ⟨hdom, hapart⟩ := (h.backEdge_innerLatch_iff hw).1 ht
        exact Or.inl ⟨hdom, hapart, (h.via_outerExit_iff hdom hold hx).1
          ((h.via_innerLatch_iff hw hdom hold hx hne).1 hwalk)⟩
  · rintro (⟨hdom, hapart, hloop⟩ | ⟨ht, hold, hxe, hwalk, hstale⟩)
    · have ht := (h.backEdge_innerLatch_iff hw).2 ⟨hdom, hapart⟩
      have hold : g.Reachable x := by
        rcases hloop with rfl | hloop
        · exact h.nest.outer.exit_reachable
        · exact hloop.reachable
      exact ⟨_, ht, Or.inr ⟨hxih, h.reachable_of_inLoop hw ht.inLoop hold,
        (h.via_innerLatch_iff hw hdom hold hx hne).2 ((h.via_outerExit_iff hdom hold hx).2 hloop)⟩⟩
    · refine ⟨_, ht, Or.inr ⟨hxih, h.reachable_of_inLoop hw ht.inLoop hold, ?_⟩⟩
      by_cases hpp : r.preheaderPred = r.plan.outerExit
      · exact h.via_innerPreheader_of_stale hw ht hpp hne hxe hwalk (hstale hpp)
      · exact h.via_innerPreheader_of_ne hw hpp hx hne hxe hwalk

/-! ### The loop of the outer header -/

/-- If the outer header is reached, the inner header is reached around it. -/
theorem via_innerHeader (hoh : g'.Reachable r.plan.outerHeader) : ∃ e, g.entry = some e ∧
    e ∈ g.listed ∧ ReachVia g'.Edge (· ≠ r.plan.outerHeader) e r.plan.innerHeader := by
  obtain ⟨e, he, hl, hwalk⟩ := FlowGraph.Reachable.iff_reachVia.1 hoh
  rw [hw.entry] at he
  have hl' := (hw.listed e).1 hl
  have hne := h.nest.ne_outerHeader_of_inner h.nest.inner.header_mem
  refine ⟨e, he, hl', ?_⟩
  obtain ⟨u, v, hu, huv, -, -, hway⟩ :=
    h.exists_first_entry hw he hl' h.nest.outer.header_mem hwalk
  have hout := hu.mono fun z hz => h.ne_outerHeader_of_outside hz.2
  rcases hway with ⟨rfl, rfl⟩ | ⟨rfl, rfl⟩
  · exact (hout.tail huv (h.nest.ne_outerHeader_of_inner h.nest.inner.latch_mem)).tail
      (h.innerLatch_edge hw) hne
  · exact (hout.tail huv h.nest.innerPreheader_ne_outerHeader).tail (h.innerPreheader_edge hw) hne

/-- Only the outer latch closes a loop of the outer header, and not over the inner header. -/
theorem backEdge_outerHeader (ht : g'.BackEdge t r.plan.outerHeader) : t = r.plan.outerLatch ∧
    ∀ a, ReachVia g'.Edge (· ≠ r.plan.outerHeader) a r.plan.outerLatch →
      ReachVia g'.Edge (fun z => z ≠ r.plan.outerHeader ∧ z ≠ r.plan.innerHeader) a
        r.plan.outerLatch := by
  obtain ⟨e, he, hl, hih⟩ := h.via_innerHeader hw (ht.reachable.next ht.edge)
  have hno := (h.dominates_iff_not_via hw h.nest.outer.header_mem).1 ht.dominates e he hl
  rcases h.to_outerHeader hw (h.reachable_before hw ht.reachable) ht.edge with rfl | rfl
  · exact absurd (hih.tail (hw.changed (inside_effective r).2.1)
      (h.ne_outerHeader_of_outside h.preheader_not_outer)) hno
  · refine ⟨rfl, fun a ha => ?_⟩
    rcases ha.first_meet (· = r.plan.innerHeader) with hall | ⟨u, v, -, -, -, rfl, hv⟩
    · exact hall
    · exact absurd (hih.trans hv) hno

/-- A block outside that gets into the loop of the outer header is in that of the inner header. -/
theorem inLoop_innerHeader (hx : ¬ O x) (hloop : g'.InLoop r.plan.outerHeader x) :
    g'.InLoop r.plan.innerHeader x := by
  obtain ⟨t, ht, rfl | ⟨-, hreach, hwalk⟩⟩ := hloop
  · exact absurd h.nest.outer.header_mem hx
  obtain ⟨rfl, hfree⟩ := h.backEdge_outerHeader hw ht
  obtain ⟨u, v, hu, huv, hPv, hv, hway⟩ := h.exists_entry hw (h.reachable_before hw hreach) hx
    h.nest.outer.latch_mem (hfree x hwalk)
  rcases hway with ⟨rfl, rfl⟩ | ⟨-, rfl⟩ | ⟨-, rfl⟩
  · -- if the outer exit were reached around the nest, so would be the outer latch
    have hdom : g'.Dominates r.plan.innerHeader r.plan.innerLatch := by
      refine h.dominates_innerLatch hw fun e he hl hexit => ?_
      refine (h.dominates_iff_not_via hw h.nest.outer.header_mem).1 ht.dominates e he hl ?_
      exact ((hexit.mono fun z hz => h.ne_outerHeader_of_outside hz).tail huv hPv.1).trans
        (hv.mono fun z hz => hz.1)
    exact ⟨_, ⟨(hreach.via hu).next huv, h.innerLatch_edge hw, hdom⟩,
      Or.inr ⟨h.ne_innerHeader_of_outside hx, hreach,
        (hu.mono fun z hz => hz.1.2).tail huv h.nest.innerLatch_ne_innerHeader⟩⟩
  · have heq := h.eq_of_via_innerPreheader hw (hv.mono fun z hz => hz.2)
    exact absurd heq.symm h.nest.innerPreheader_ne_outerLatch
  · exact absurd rfl hPv.1

end Exchange

end LoopSwap
