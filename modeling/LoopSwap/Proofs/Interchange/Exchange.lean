/-
**The six changes of an interchange.**

After the splits, the outer exit has one successor, the continuation, and the changes of an
interchange are meant to find six edges.  Five of them are always there.  The first one, into the
outer preheader, is looked up before the splits, and it is not what it was if it starts in the outer
exit: either the outer exit was split and the edge now starts in the part that was split off, or the
edge is the one that the outer exit goes on with, and then two changes compete for it.  In both
cases one change has no effect.

Main definitions:

* `LoopSwap.Exchange` — the nest after the splits, with the edges the changes are about;
* `LoopSwap.Relinking.effective` — the changes that take effect.

Main results:

* `LoopSwap.Exchange.rewired` — the edges after an interchange.
-/

import LoopSwap.Proofs.Interchange.Relink

set_option relaxedAutoImplicit false
set_option autoImplicit false

namespace LoopSwap

/-- The nest that is relinked.  The outer exit goes on with the continuation; the block from which
the outer preheader is entered is the one that was found, unless that was the outer exit and the
exit has been split. -/
structure Exchange (g : FlowGraph BlockId) (O I : BlockId → Prop) (r : Relinking) : Prop where
  nest : Nest g O I r.preheader r.plan
  exit_iff : ∀ b, g.Edge r.plan.outerExit b ↔ b = r.continuation
  pred_edge : r.preheaderPred ≠ r.plan.outerExit → g.Edge r.preheaderPred r.preheader
  stale : r.preheaderPred = r.plan.outerExit → r.continuation ≠ r.preheader →
    g.Edge r.continuation r.preheader ∧ ∀ a, g.Edge a r.continuation → a = r.plan.outerExit

namespace Relinking

/-- The changes that take effect. -/
def effective (r : Relinking) : List (BlockId × BlockId × BlockId) :=
  if r.preheaderPred = r.plan.outerExit then
    if r.continuation = r.preheader then r.edges.take 4 ++ r.edges.drop 5 else r.edges.tail
  else r.edges

variable {r : Relinking}

theorem effective_of_ne (h : r.preheaderPred ≠ r.plan.outerExit) : r.effective = r.edges :=
  if_neg h

theorem effective_of_stale (h : r.preheaderPred = r.plan.outerExit)
    (hc : r.continuation ≠ r.preheader) : r.effective = r.edges.tail := by
  rw [effective, if_pos h, if_neg hc]

theorem effective_of_shared (h : r.preheaderPred = r.plan.outerExit)
    (hc : r.continuation = r.preheader) :
    r.effective = r.edges.take 4 ++ r.edges.drop 5 := by
  rw [effective, if_pos h, if_pos hc]

end Relinking

namespace Exchange

variable {g : FlowGraph BlockId} {O I : BlockId → Prop} {r : Relinking}

/-! ### Where the blocks are -/

theorem outerExit_not_outer (h : Exchange g O I r) : ¬ O r.plan.outerExit :=
  h.nest.outer.exit_not_mem

theorem preheader_not_outer (h : Exchange g O I r) : ¬ O r.preheader :=
  h.nest.outer.preheader_not_mem

theorem continuation_not_outer (h : Exchange g O I r) : ¬ O r.continuation :=
  h.nest.outerExit_edge ((h.exit_iff _).2 rfl)

theorem preheaderPred_not_outer (h : Exchange g O I r) : ¬ O r.preheaderPred := by
  by_cases hpp : r.preheaderPred = r.plan.outerExit
  · rw [hpp]
    exact h.outerExit_not_outer
  · intro hmem
    exact h.nest.not_edge_outerPreheader hmem (h.pred_edge hpp)

/-- Some block leads to the outer preheader. -/
theorem exists_pred (h : Exchange g O I r) : ∃ a, g.Edge a r.preheader := by
  by_cases hpp : r.preheaderPred = r.plan.outerExit
  · by_cases hc : r.continuation = r.preheader
    · exact ⟨_, (h.exit_iff _).2 hc.symm⟩
    · exact ⟨_, (h.stale hpp hc).1⟩
  · exact ⟨_, h.pred_edge hpp⟩

/-- Nothing leads to the entry. -/
theorem ne_entry (h : Exchange g O I r) {a b : BlockId} (hab : g.Edge a b) :
    g.entry ≠ some b := by
  obtain ⟨e, he, -, hfree⟩ := h.nest.entry
  intro heb
  rw [he] at heb
  exact hfree a (Option.some.inj heb ▸ hab)

/-- The block before the outer preheader is reached around the outer loop. -/
theorem exists_approach (h : Exchange g O I r) :
    ∃ e, g.entry = some e ∧ e ∈ g.listed ∧ ¬ O e ∧
      ReachVia g.Edge (fun y => ¬ O y ∧ y ≠ r.preheader) e r.preheaderPred := by
  obtain ⟨q, hq⟩ := h.exists_pred
  rcases h.nest.exists_approach with hentry | ⟨e, u, he, hl, hwalk, hu, -⟩
  · exact absurd hentry (h.ne_entry hq)
  · have heO : ¬ O e := h.nest.outer.entry_not_mem fun a ha => h.ne_entry ha he
    refine ⟨e, he, hl, heO, ?_⟩
    by_cases hpp : r.preheaderPred = r.plan.outerExit
    · by_cases hc : r.continuation = r.preheader
      · rw [hpp, h.nest.approach r.plan.outerExit u ((h.exit_iff _).2 hc.symm) hu]
        exact hwalk
      · -- the last step before the preheader is that from the outer exit
        obtain ⟨hedge, honly⟩ := h.stale hpp hc
        obtain rfl := h.nest.approach _ _ hedge hu
        cases hwalk with
        | refl => exact absurd he (h.ne_entry ((h.exit_iff _).2 rfl))
        | @tail y _ hy hyu =>
            rw [hpp, ← honly y hyu.1]
            exact hy
    · rw [h.nest.approach _ u (h.pred_edge hpp) hu]
      exact hwalk

/-- Nothing that an interchange moves is the entry. -/
theorem movers_ne_entry (h : Exchange g O I r) : ∀ b ∈ r.movers, g.entry ≠ some b := by
  obtain ⟨q, hq⟩ := h.exists_pred
  obtain ⟨x, -, hx⟩ := h.nest.outer.exists_exit
  obtain ⟨y, -, hy⟩ := h.nest.inner.exists_exit
  simp only [Relinking.movers, List.forall_mem_cons]
  exact ⟨h.ne_entry h.nest.inner.latch_edge, h.ne_entry h.nest.outer.latch_edge,
    h.ne_entry h.nest.body_edge, h.ne_entry h.nest.header_edge, h.ne_entry hq, h.ne_entry hy,
    h.ne_entry h.nest.bodyEnd_edge, h.ne_entry hx, h.ne_entry h.nest.exit_edge,
    List.forall_mem_nil _⟩

/-- The new targets of the changes can be reached. -/
theorem new_reachable (h : Exchange g O I r) : ∀ e ∈ r.edges, g.Reachable e.2.2 := by
  have hI : ∀ a, I a → g.Reachable a := fun a ha => h.nest.inner.reachable ha
  have hO : ∀ a, O a → g.Reachable a := fun a ha => h.nest.outer.reachable ha
  simp only [Relinking.edges, List.forall_mem_cons]
  exact ⟨h.nest.inner.preheader_reachable, hI _ h.nest.bodyEntry_inner,
    h.nest.outer.preheader_reachable,
    h.nest.outer.exit_reachable.next ((h.exit_iff _).2 rfl), hI _ h.nest.inner.latch_mem,
    hO _ h.nest.outer.latch_mem, List.forall_mem_nil _⟩

/-! ### The changes find their edges -/

/-- The sources of the changes but the first are different blocks. -/
theorem nodup_sources_tail (h : Exchange g O I r) : (r.edges.tail.map (·.1)).Nodup := by
  have hoh := h.nest.outer.header_mem
  have hih := h.nest.inner.header_mem
  have hend := h.nest.bodyEnd_inner
  have hie := h.nest.innerExit_mem
  have hout := h.outerExit_not_outer
  have hout_ne : ∀ a, O a → a ≠ r.plan.outerExit := fun a ha =>
    Nest.ne_of_outer_of_not_outer ha hout
  simp only [Relinking.edges, List.tail_cons, List.map_cons, List.map_nil, List.nodup_cons,
    List.mem_cons, List.not_mem_nil, or_false, not_or]
  exact ⟨⟨(h.nest.ne_outerHeader_of_inner hih).symm, h.nest.innerExit_ne_outerHeader.symm,
      hout_ne _ hoh, (h.nest.ne_outerHeader_of_inner hend).symm⟩,
    ⟨h.nest.ne_innerExit_of_inner hih, hout_ne _ h.nest.innerHeader_outer, h.nest.bodyEnd_ne.symm⟩,
    ⟨hout_ne _ hie, (h.nest.ne_innerExit_of_inner hend).symm⟩,
    (hout_ne _ (h.nest.subset _ hend)).symm, not_false, List.nodup_nil⟩

/-- The changes but the first find their edges. -/
theorem edge_tail (h : Exchange g O I r) : ∀ e ∈ r.edges.tail, g.Edge e.1 e.2.1 := by
  simp only [Relinking.edges, List.tail_cons, List.forall_mem_cons]
  exact ⟨h.nest.header_edge, h.nest.body_edge, h.nest.exit_edge, (h.exit_iff _).2 rfl,
    h.nest.bodyEnd_edge, List.forall_mem_nil _⟩

/-- The block before the outer preheader is not the source of another change, the one of the outer
exit apart. -/
theorem preheaderPred_not_source (h : Exchange g O I r)
    (hpp : r.preheaderPred ≠ r.plan.outerExit) : ∀ e ∈ r.edges.tail, e.1 ≠ r.preheaderPred := by
  have hne : ∀ a, O a → a ≠ r.preheaderPred := fun a ha =>
    Nest.ne_of_outer_of_not_outer ha h.preheaderPred_not_outer
  simp only [Relinking.edges, List.tail_cons, List.forall_mem_cons]
  exact ⟨hne _ h.nest.outer.header_mem, hne _ h.nest.innerHeader_outer,
    hne _ h.nest.innerExit_mem, hpp.symm, hne _ (h.nest.subset _ h.nest.bodyEnd_inner),
    List.forall_mem_nil _⟩

/-- The changes that take effect have different sources and find their edges. -/
theorem effective_spec (h : Exchange g O I r) :
    (r.effective.map (·.1)).Nodup ∧ ∀ e ∈ r.effective, g.Edge e.1 e.2.1 := by
  have hnodup := h.nodup_sources_tail
  have hedge := h.edge_tail
  by_cases hpp : r.preheaderPred = r.plan.outerExit
  · by_cases hc : r.continuation = r.preheader
    · rw [Relinking.effective_of_shared hpp hc]
      -- the first change takes the place of that of the outer exit
      have hfirst : g.Edge r.preheaderPred r.preheader := by
        rw [hpp]
        exact (h.exit_iff _).2 hc.symm
      have hsources : ((r.edges.take 4 ++ r.edges.drop 5).map (·.1)).Perm
          (r.edges.tail.map (·.1)) := by
        show (r.preheaderPred :: ([_, _, _] ++ [_])).Perm ([_, _, _] ++ r.plan.outerExit :: [_])
        rw [hpp]
        exact List.perm_middle.symm
      refine ⟨hsources.nodup_iff.2 hnodup, List.forall_mem_cons.2 ⟨hfirst, fun e he => ?_⟩⟩
      refine hedge e ?_
      rcases List.mem_append.1 he with he | he
      · exact List.mem_of_mem_take he
      · exact List.mem_of_mem_drop he
    · rw [Relinking.effective_of_stale hpp hc]
      exact ⟨hnodup, hedge⟩
  · rw [Relinking.effective_of_ne hpp]
    refine ⟨List.nodup_cons.2 ⟨?_, hnodup⟩, List.forall_mem_cons.2 ⟨h.pred_edge hpp, hedge⟩⟩
    intro hmem
    obtain ⟨e, he, hea⟩ := List.mem_map.1 hmem
    exact h.preheaderPred_not_source hpp e he hea

/-- The other changes have no effect. -/
theorem redirect_effective (h : Exchange g O I r) {a t : BlockId} (hat : g.Edge a t) :
    redirect r.edges a t = redirect r.effective a t := by
  by_cases hpp : r.preheaderPred = r.plan.outerExit
  · by_cases hc : r.continuation = r.preheader
    · have heq : r.edges = r.edges.take 4 ++
          ((r.plan.outerExit, r.continuation, r.plan.innerLatch) :: r.edges.drop 5) := rfl
      rw [Relinking.effective_of_shared hpp hc, heq, redirect_append, redirect_append]
      -- after the first change the outer exit leads to the inner preheader
      have hno : ¬ (r.plan.outerExit = a ∧ redirect (r.edges.take 4) a t = r.continuation) := by
        rintro ⟨rfl, hcont⟩
        have hmem : (r.plan.outerExit, r.preheader, r.plan.innerPreheader) ∈ r.edges.take 4 := by
          rw [← hpp]
          exact List.mem_cons_self
        have hnodup := h.effective_spec.1
        rw [Relinking.effective_of_shared hpp hc, List.map_append] at hnodup
        rw [redirect_of_mem (List.nodup_append.1 hnodup).1 hmem,
          if_pos (((h.exit_iff t).1 hat).trans hc)] at hcont
        exact h.continuation_not_outer (hcont ▸ h.nest.innerPreheader_mem)
      show redirect (r.edges.drop 5) a (if _ then _ else redirect (r.edges.take 4) a t) = _
      rw [if_neg hno]
      rfl
    · rw [Relinking.effective_of_stale hpp hc]
      have hno : ¬ (r.preheaderPred = a ∧ t = r.preheader) := by
        rintro ⟨rfl, rfl⟩
        rw [hpp, h.exit_iff] at hat
        exact hc hat.symm
      show redirect r.edges.tail a (if _ then _ else t) = _
      rw [if_neg hno]
  · rw [Relinking.effective_of_ne hpp]

/-- The edges after an interchange. -/
theorem rewired {f : Func} (hf : f.Flowing) (h : Exchange f.graph O I r) :
    Rewired f.graph (r.apply f).graph r.effective := by
  have hne := h.movers_ne_entry
  have hnew : ∀ e ∈ r.edges, e.2.2 ∈ f.layout := fun e he => (h.new_reachable e he).listed
  obtain ⟨hnodup, hedge⟩ := h.effective_spec
  refine ⟨Relinking.entry?_apply hf hne, fun a => Relinking.mem_layout_apply hf hne,
    fun a b => ?_⟩
  rw [Relinking.edge_apply hf hne hnew, ← exists_redirect_iff hnodup hedge]
  constructor
  · rintro ⟨t, hat, htb⟩
    exact ⟨t, hat, h.redirect_effective hat ▸ htb⟩
  · rintro ⟨t, hat, htb⟩
    exact ⟨t, hat, (h.redirect_effective hat).trans htb⟩

/-! ### Which changes there are -/

theorem mem_edges_of_effective {e : BlockId × BlockId × BlockId} (he : e ∈ r.effective) :
    e ∈ r.edges := by
  unfold Relinking.effective at he
  split at he
  · split at he
    · rcases List.mem_append.1 he with he | he
      · exact List.mem_of_mem_take he
      · exact List.mem_of_mem_drop he
    · exact List.mem_of_mem_tail he
  · exact he

/-- The changes inside the nest always take effect. -/
theorem inside_effective (r : Relinking) :
    (r.plan.outerHeader, r.plan.innerPreheader, r.plan.bodyEntry) ∈ r.effective ∧
      (r.plan.innerHeader, r.plan.bodyEntry, r.preheader) ∈ r.effective ∧
      (r.plan.innerExit, r.plan.outerLatch, r.continuation) ∈ r.effective ∧
      (r.plan.bodyEnd, r.plan.innerLatch, r.plan.outerLatch) ∈ r.effective := by
  unfold Relinking.effective
  split
  · split <;> simp [Relinking.edges]
  · simp [Relinking.edges]

/-- The change of the outer exit takes effect unless the first change competes with it. -/
theorem exit_effective (hr : r.preheaderPred = r.plan.outerExit → r.continuation ≠ r.preheader) :
    (r.plan.outerExit, r.continuation, r.plan.innerLatch) ∈ r.effective := by
  unfold Relinking.effective
  split
  · next hpp => simp [Relinking.edges, hr hpp]
  · simp [Relinking.edges]

/-- An edge that no change is about is kept. -/
theorem kept {g' : FlowGraph BlockId} {a b : BlockId} (hw : Rewired g g' r.effective)
    (hab : g.Edge a b) (hno : ∀ e ∈ r.edges, e.1 = a → e.2.1 ≠ b) : g'.Edge a b :=
  hw.kept hab fun e he => hno e (mem_edges_of_effective he)

/-- A change inside the inner loop is that of its header or that of the end of its body. -/
theorem inner_source (h : Exchange g O I r) {e : BlockId × BlockId × BlockId} (he : e ∈ r.edges)
    (hI : I e.1) : e.1 = r.plan.innerHeader ∧ e.2.1 = r.plan.bodyEntry ∨
      e.1 = r.plan.bodyEnd ∧ e.2.1 = r.plan.innerLatch := by
  have hout : ∀ c, ¬ O c → ¬ I c := fun c hc hI => hc (h.nest.subset c hI)
  simp only [Relinking.edges, List.mem_cons, List.not_mem_nil, or_false] at he
  rcases he with rfl | rfl | rfl | rfl | rfl | rfl
  · exact absurd hI (hout _ h.preheaderPred_not_outer)
  · exact absurd hI h.nest.outerHeader_not_inner
  · exact Or.inl ⟨rfl, rfl⟩
  · exact absurd hI h.nest.inner.exit_not_mem
  · exact absurd hI (hout _ h.outerExit_not_outer)
  · exact Or.inr ⟨rfl, rfl⟩

/-- A change outside the outer loop is that of the way in or that of the way out. -/
theorem outer_source (h : Exchange g O I r) {e : BlockId × BlockId × BlockId} (he : e ∈ r.edges)
    (hO : ¬ O e.1) : e.1 = r.preheaderPred ∧ e.2.1 = r.preheader ∨
      e.1 = r.plan.outerExit ∧ e.2.1 = r.continuation := by
  simp only [Relinking.edges, List.mem_cons, List.not_mem_nil, or_false] at he
  rcases he with rfl | rfl | rfl | rfl | rfl | rfl
  · exact Or.inl ⟨rfl, rfl⟩
  · exact absurd h.nest.outer.header_mem hO
  · exact absurd h.nest.innerHeader_outer hO
  · exact absurd h.nest.innerExit_mem hO
  · exact Or.inr ⟨rfl, rfl⟩
  · exact absurd (h.nest.subset _ h.nest.bodyEnd_inner) hO

end Exchange

end LoopSwap
