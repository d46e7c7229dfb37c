/-
**Interchanging twice.**

After the interchange of a clean nest the loops with the two numbers are a clean nest again, turned
inside out.  The plan for them names the corners of the one loop for the other, and so the second
interchange changes the six edges of the first one the other way round.  Only the splits are in the
way of this.  The outer preheader of the turned nest is never the entry, but its outer exit, which
is the old inner exit, is split unless it ends in an unconditional branch.  If it does, nothing is
split, and the second interchange restores every instruction as it was after the first splits.

Main results:

* `LoopSwap.Planned.sameNesting_split`, `LoopSwap.Planned.mem_blocks_iff_split` — the splits keep
  the loops;
* `LoopSwap.Func.CleanNest.exists_planned_back` — the plan for the way back;
* `LoopSwap.Workspace.interchange_interchange` — what two interchanges make of a clean nest.
-/

import LoopSwap.Proofs.Interchange.Rediscover
import LoopSwap.Proofs.Interchange.Undo

set_option relaxedAutoImplicit false
set_option autoImplicit false

namespace LoopSwap

/-! ### The first splits -/

namespace Planned

variable {f f₁ f₂ : Func} {outer inner : Nat} {l m : Loop} {p : Plan} {q c : BlockId}
  (hf : f.Flowing) (hp : Planned f outer inner l m p)
  (h₁ : f.splitEntry? p.outerPreheader = some (f₁, q))
  (h₂ : f₁.splitExit? p.outerExit = some (f₂, c))

include hf hp h₁ h₂

/-- The loops keep their numbers. -/
theorem sameNesting_split : f.SameNesting f₂ id := by
  obtain ⟨hf₁, -⟩ := hp.splitEntry hf h₁
  exact ((Func.parted_splitEntry? hf h₁).sameNesting hf).trans
    ((Func.parted_splitExit? hf₁ h₂).sameNesting hf₁)

/-- The two loops keep their blocks. -/
theorem mem_blocks_iff_split : (∀ b, b ∈ l.blocks ↔ f₂.graph.InLoop p.outerHeader b) ∧
    ∀ b, b ∈ m.blocks ↔ f₂.graph.InLoop p.innerHeader b := by
  obtain ⟨hf₁, -⟩ := hp.splitEntry hf h₁
  have hnest := hp.nest hf
  have hnest₁ := hp.nest_splitEntry hf h₁
  have hkeep : ∀ {h : BlockId} {n : Loop}, f.Describes n → n.header = h → h ∈ f.layout →
      h ∈ f₁.layout → (∀ b ∈ n.blocks, b ∈ l.blocks) →
      ∀ b, b ∈ n.blocks ↔ f₂.graph.InLoop h b := by
    rintro h n hn rfl hlist hlist₁ hsub b
    have hout : ∀ x, x ∉ l.blocks → ¬ f.graph.InLoop n.header x := fun x hx hin =>
      hx (hsub x (hn.mem_blocks.2 hin))
    have hkept : ∀ x, f₁.graph.InLoop n.header x ↔ f.graph.InLoop n.header x := fun x =>
      (Func.parted_splitEntry? hf h₁).inLoop_iff hf hlist (hout _ hnest.outer.preheader_not_mem)
    rw [(Func.parted_splitExit? hf₁ h₂).inLoop_iff hf₁ hlist₁, hkept, hn.mem_blocks]
    rw [hkept]
    exact hout _ hnest.outer.exit_not_mem
  constructor
  · exact hkeep (Func.describes_loop? hp.outerLoop) hp.headers.1
      (hnest.outer.reachable hnest.outer.header_mem).listed
      (hnest₁.outer.reachable hnest.outer.header_mem).listed fun _ hb => hb
  · exact hkeep (Func.describes_loop? hp.innerLoop) hp.headers.2
      (hnest.outer.reachable hnest.innerHeader_outer).listed
      (hnest₁.outer.reachable hnest.innerHeader_outer).listed hnest.subset

/-- The inner body still follows the inner header. -/
theorem next?_split : f₂.next? p.innerHeader = some p.bodyEntry := by
  obtain ⟨hf₁, -⟩ := hp.splitEntry hf h₁
  have hnest := hp.nest hf
  have hne : ∀ x, x ∉ l.blocks → p.innerHeader ≠ x := fun x hx =>
    Nest.ne_of_outer_of_not_outer (O := (· ∈ l.blocks)) hnest.innerHeader_outer hx
  have hnext := (Func.parted_splitEntry? hf h₁).next?_eq_some hf
    (hne _ hnest.outer.preheader_not_mem) hp.bodyEntry_next.1
  exact (Func.parted_splitExit? hf₁ h₂).next?_eq_some hf₁ (hne _ hnest.outer.exit_not_mem) hnext

/-- The inner exit ends as before. -/
theorem exitOp?_innerExit_split : f₂.exitOp? p.innerExit = f.exitOp? p.innerExit := by
  obtain ⟨hf₁, -⟩ := hp.splitEntry hf h₁
  have hnest := hp.nest hf
  have hnest₁ := hp.nest_splitEntry hf h₁
  have hne : ∀ x, x ∉ l.blocks → p.innerExit ≠ x := fun x hx =>
    Nest.ne_of_outer_of_not_outer (O := (· ∈ l.blocks)) hnest.innerExit_mem hx
  rw [(Func.parted_splitExit? hf₁ h₂).exitOp?_eq hf₁ hnest₁.inner.exit_reachable.listed
      (hne _ hnest.outer.exit_not_mem),
    (Func.parted_splitEntry? hf h₁).exitOp?_eq hf hnest.inner.exit_reachable.listed
      (hne _ hnest.outer.preheader_not_mem)]

/-- A clean nest stays clean. -/
theorem clean_split (hc : Clean f.graph p) : Clean f₂.graph p := by
  have hnest := hp.nest hf
  have hnest₁ := hp.nest_splitEntry hf h₁
  exact (hc.opened hnest (hp.openedEntry hf h₁) hnest.outer.preheader_not_mem).opened hnest₁
    (hp.openedExit hf h₁ h₂) hnest₁.outer.exit_not_mem

/-- If everything could be reached, then so can everything after the splits. -/
theorem all_reachable_split (hr : ∀ b ∈ f.layout, f.graph.Reachable b) :
    ∀ b ∈ f₂.layout, f₂.graph.Reachable b := by
  intro b hb
  rw [hp.reachable_split_iff hf h₁ h₂]
  exact ((hp.mem_layout_split_iff hf h₁ h₂).1 hb).symm.imp_left (hr b)

end Planned

/-! ### The way back -/

theorem Operation.continuation?_mapTargets (u : BlockId → BlockId) (op : Operation) :
    (op.mapTargets u).continuation? = op.continuation?.map u := by
  cases op <;> rfl

theorem Operation.continuation?_eq_some_iff {op : Operation} {t : BlockId} :
    op.continuation? = some t ↔ op = .br t := by
  cases op <;> simp [continuation?]

namespace Clean

variable {O I : BlockId → Prop} {r : Relinking} {f : Func}
  (hf : f.Flowing) (hc : Clean f.graph r.plan) (h : Exchange f.graph O I r)

include hf hc h

/-- The edges that relinking adds. -/
theorem edge_of_mem_added {a b : BlockId} (hmem : (a, b) ∈ r.added) :
    (Func.graph (r.apply f)).Edge a b := by
  obtain ⟨old, hold⟩ := Relinking.mem_added.1 hmem
  rw [← hc.effective h] at hold
  exact (h.rewired hf).changed hold

/-- A plan for the turned nest changes the edges back. -/
theorem edges_back {outer inner : Nat} {l m : Loop} {p : Plan}
    (hp : Planned (r.apply f) outer inner l m p) (hentry : p.bodyEntry = r.plan.bodyEntry)
    (hpre : p.outerPreheader = r.plan.innerPreheader)
    (hk : ∀ q c, (p.relinking q c).corners = { r.corners.turned with outerPreheader := q }) :
    p.preheaderPred = some r.preheaderPred ∧
      (p.relinking r.plan.innerPreheader r.continuation).edges.Perm (r.edges.map changeBack) := by
  have hg := h.flowing_apply hf
  have hcorners := hk r.plan.innerPreheader r.continuation
  simp only [Relinking.corners, Corners.turned, Plan.relinking, Corners.mk.injEq] at hcorners
  obtain ⟨hoh, hih, -, hiph, hol, hil, hoe, hie⟩ := hcorners
  have hpp : p.preheaderPred = some r.preheaderPred := by
    have hedge : (Func.graph (r.apply f)).Edge r.preheaderPred p.outerPreheader := by
      rw [hpre]
      exact hc.edge_of_mem_added hf h List.mem_cons_self
    rcases hp.preheaderPred_cases hg with ⟨hfirst, -⟩ | ⟨-, a, ha, honly⟩
    · exact absurd hfirst (hg.entry_ne hedge)
    · rw [ha, (honly _).1 hedge]
  have hend : r.plan.bodyEnd = p.bodyEnd := by
    refine ((hp.nest hg).bodyEnd_iff _).1 ?_
    rw [hil]
    exact hc.edge_of_mem_added hf h (by simp [Relinking.added, Relinking.edges])
  refine ⟨hpp, ?_⟩
  have hedges : (p.relinking r.plan.innerPreheader r.continuation).edges =
      [(r.preheaderPred, r.plan.innerPreheader, r.preheader),
       (r.plan.innerHeader, r.preheader, r.plan.bodyEntry),
       (r.plan.outerHeader, r.plan.bodyEntry, r.plan.innerPreheader),
       (r.plan.outerExit, r.plan.innerLatch, r.continuation),
       (r.plan.innerExit, r.continuation, r.plan.outerLatch),
       (r.plan.bodyEnd, r.plan.outerLatch, r.plan.innerLatch)] := by
    simp only [Relinking.edges, Plan.relinking, hpp, Option.getD_some, hoh, hih, hiph, hol, hil,
      hoe, hie, hentry, ← hend]
  rw [hedges]
  -- the second and the third change have traded places, and so have the next two
  exact .cons _ ((List.Perm.swap _ _ _).trans (.cons _ (.cons _ (.swap _ _ _))))

/-- The turned nest goes on with what the nest goes on with, if its outer exit ends in an
unconditional branch. -/
theorem continuation_back {outer inner : Nat} {l m : Loop} {p : Plan}
    (hp : Planned (r.apply f) outer inner l m p) (hexit : p.outerExit = r.plan.innerExit) :
    p.continuation = if f.exitOp? r.plan.innerExit = some (.br r.plan.outerLatch) then
      some r.continuation else none := by
  obtain ⟨op, hop, hcont⟩ := hp.exitOp
  rw [hexit, Relinking.exitOp?_apply hf.toIntact (h.reordered hf)] at hop
  obtain ⟨old, hold, rfl⟩ := Option.map_eq_some_iff.1 hop
  rw [hcont, Operation.continuation?_mapTargets, hold]
  cases hbr : old.continuation? with
  | none =>
      rw [if_neg, Option.map_none]
      intro heq
      rw [Operation.continuation?_eq_some_iff.2 (Option.some.inj heq)] at hbr
      cases hbr
  | some t =>
      rw [Operation.continuation?_eq_some_iff] at hbr
      have hedge : f.graph.Edge r.plan.innerExit t := by
        rw [hf.edge_iff, Func.successors, hold, hbr]
        exact List.mem_singleton_self t
      obtain rfl := (hc.innerExit t).1 hedge
      have hnodup := h.effective_spec.1
      rw [hc.effective h] at hnodup
      have hmem : (r.plan.innerExit, r.plan.outerLatch, r.continuation) ∈ r.edges := by
        simp [Relinking.edges]
      rw [if_pos (congrArg some hbr), Option.map_some, redirect_of_mem hnodup hmem, if_pos rfl]

end Clean

/-- The loops with the numbers of a clean nest have a plan after the interchange, which changes the
edges back. -/
theorem Func.CleanNest.exists_planned_back {f f₁ f₂ : Func} {outer inner : Nat} {l m : Loop}
    {k : Corners} {entry : BlockId} {p : Plan} {q c : BlockId} (hf : f.Flowing)
    (hr : ∀ b ∈ f.layout, f.graph.Reachable b) (hk : f.CleanNest outer inner l m k entry)
    (hp : Planned f outer inner l m p) (hentry : p.bodyEntry = entry)
    (hcorners : ∀ q c, (p.relinking q c).corners = { k with outerPreheader := q })
    (h₁ : f.splitEntry? p.outerPreheader = some (f₁, q))
    (h₂ : f₁.splitExit? p.outerExit = some (f₂, c)) :
    ∃ l' m' p', Planned ((p.relinking q c).apply f₂) outer inner l' m' p' ∧
      p'.outerPreheader = p.innerPreheader ∧
      p'.continuation =
        (if f.exitOp? p.innerExit = some (.br p.outerLatch) then some c else none) ∧
      p'.preheaderPred = some (p.relinking q c).preheaderPred ∧
      (p'.relinking p.innerPreheader c).edges.Perm ((p.relinking q c).edges.map changeBack) := by
  obtain ⟨hf₂, -, -⟩ := hp.splitExit hf h₁ h₂
  have h := hp.exchange hf h₁ h₂
  have hc := hp.clean_split hf h₁ h₂ (hk.clean hf hcorners hentry)
  have hr₂ := hp.all_reachable_split hf h₁ h₂ hr
  have hg := h.flowing_apply hf₂
  have hπ := Corners.swapsCorners_mirror (Clean.nodup (r := p.relinking q c) hc h)
  have hnext := hp.next?_split hf h₁ h₂
  obtain ⟨hO, hI⟩ := hp.mem_blocks_iff_split hf h₁ h₂
  -- the numbers of the loops are kept by the splits, and by relinking under the swapped names
  have hsame := (hp.sameNesting_split hf h₁ h₂).trans
    (Clean.sameNesting (r := p.relinking q c) hf₂ hc h hπ hr₂ hnext)
  obtain ⟨l', hl', hlh⟩ := hsame.exists_loop? hf.nodup_layout hg.nodup_layout hk.outerLoop
  obtain ⟨m', hm', hmh⟩ := hsame.exists_loop? hf.nodup_layout hg.nodup_layout hk.innerLoop
  have hparent := hsame.parent hf.nodup_layout hg.nodup_layout hk.innerLoop hm' hk.child
  rw [hp.headers.1] at hlh
  rw [hp.headers.2] at hmh
  have hnest := Clean.cleanNest (r := p.relinking q c) hf₂ hc h hπ hr₂ hnext hO hI hl' hm'
    (hlh.trans hπ.outerHeader) (hmh.trans hπ.innerHeader) hparent
  obtain ⟨p', hp', hentry', hcorners'⟩ := hnest.exists_planned hg
  have hpre : p'.outerPreheader = p.innerPreheader :=
    Option.some.inj (hp'.outerConnections.1.symm.trans hnest.outerConnections.2.1)
  have hexit : p'.outerExit = p.innerExit :=
    Option.some.inj (hp'.outerConnections.2.2.symm.trans hnest.outerConnections.2.2.2)
  have hcont := Clean.continuation_back (r := p.relinking q c) hf₂ hc h hp' hexit
  rw [Plan.relinking, hp.exitOp?_innerExit_split hf h₁ h₂] at hcont
  exact ⟨l', m', p', hp', hpre, hcont,
    Clean.edges_back (r := p.relinking q c) hf₂ hc h hp' hentry' hpre hcorners'⟩

/-! ### Both interchanges -/

namespace Workspace

/-- An interchange whose outer preheader is not the entry splits nothing exactly if the outer exit
ends in an unconditional branch, and then relinks the function as it is. -/
theorem interchange_of_preheaderPred {w : Workspace} {outer inner : Nat} {l m : Loop} {p : Plan}
    {a : BlockId} (hf : w.func.Flowing) (hp : Planned w.func outer inner l m p)
    (hpred : p.preheaderPred = some a) :
    ∃ w' done, w.interchange outer inner = (w', .ok done) ∧
      (done.materialized = [] ↔ ∃ c, p.continuation = some c) ∧
      ∀ c, p.continuation = some c →
        w'.func = (p.relinking p.outerPreheader c).apply w.func ∧
          w.func.Reordered ((p.relinking p.outerPreheader c).reorder w.func) := by
  obtain ⟨f₁, q, f₂, c, stats, h₁, h₂, -, w', done, heq, hfunc, hmade⟩ := interchange_eq hf hp
  obtain ⟨-, -, ⟨rfl, rfl, -⟩ | ⟨-, hnone⟩⟩ := hp.splitEntry hf h₁
  · refine ⟨w', done, heq, ?_, fun c' hc' => ?_⟩
    · rw [hmade, Plan.made, hpred, if_neg (Option.some_ne_none a), List.nil_append]
      cases hcont : p.continuation <;> simp
    · obtain ⟨-, -, ⟨rfl, hcont⟩ | ⟨-, hcont⟩⟩ := hp.splitExit hf h₁ h₂
      · obtain rfl : c = c' := Option.some.inj (hcont.symm.trans hc')
        exact ⟨hfunc, (hp.exchange hf h₁ h₂).reordered hf⟩
      · rw [hc'] at hcont
        cases hcont
  · rw [hpred] at hnone
    cases hnone

/-- Interchanging the loops of a clean nest twice succeeds.  The second interchange splits nothing
exactly if the inner exit ends in an unconditional branch.  Then it restores the function as it was
after the first splits, up to the order of the blocks: if `s` is the workspace after these splits,
every instruction of the result is that of `s`. -/
theorem interchange_interchange {w : Workspace} {outer inner : Nat} {l m : Loop} {k : Corners}
    {entry : BlockId} (hf : w.func.WellFormed)
    (hr : ∀ b ∈ w.func.layout, w.func.graph.Reachable b)
    (hk : w.func.CleanNest outer inner l m k entry) :
    ∃ p s r w₁ done₁ w₂ done₂,
      w.func.loops.plan w.func outer inner = .ok p ∧
      w.findLoops.2.materialize w.func.loops p outer = (s, .ok (r, done₁.materialized)) ∧
      w.interchange outer inner = (w₁, .ok done₁) ∧
      w₁.interchange outer inner = (w₂, .ok done₂) ∧
      (done₂.materialized = [] ↔ w.func.exitOp? k.innerExit = some (.br k.outerLatch)) ∧
      (done₂.materialized = [] → s.func.Reordered w₂.func) := by
  have hflow := hf.toFlowing
  obtain ⟨p, hp, hentry, hcorners⟩ := hk.exists_planned hflow
  obtain ⟨f₁, q, f₂, c, stats, h₁, h₂, hmat, w₁, done₁, heq₁, hfunc₁, hmade₁⟩ :=
    interchange_eq hflow hp
  obtain ⟨hflow₂, -, -⟩ := hp.splitExit hflow h₁ h₂
  have hexchange := hp.exchange hflow h₁ h₂
  have hclean := hp.clean_split hflow h₁ h₂ (hk.clean hflow hcorners hentry)
  have hflow₁ := hexchange.flowing_apply hflow₂
  obtain ⟨l', m', p', hp', hpre', hcont', hpred', hedges⟩ :=
    hk.exists_planned_back hflow hr hp hentry hcorners h₁ h₂
  rw [← hfunc₁] at hp' hflow₁
  obtain ⟨w₂, done₂, heq₂, hmade₂, hfunc₂⟩ := interchange_of_preheaderPred hflow₁ hp' hpred'
  have hexit : p.innerExit = k.innerExit ∧ p.outerLatch = k.outerLatch := by
    have hk' := hcorners q c
    exact ⟨congrArg Corners.innerExit hk', congrArg Corners.outerLatch hk'⟩
  rw [hexit.1, hexit.2] at hcont'
  rw [← hmade₁] at hmat
  refine ⟨p, ⟨f₂, stats⟩, p.relinking q c, w₁, done₁, w₂, done₂, hp.plan_eq, hmat, heq₁, heq₂,
    ?_, fun hnone => ?_⟩
  · rw [hmade₂, hcont']
    split
    · next hbr => exact iff_of_true ⟨c, rfl⟩ hbr
    · next hbr => exact iff_of_false (fun ⟨_, hsome⟩ => nomatch hsome) hbr
  · obtain ⟨c', hc'⟩ := hmade₂.1 hnone
    obtain ⟨hfunc, horder⟩ := hfunc₂ c' hc'
    -- the turned nest goes on with the block that the nest goes on with
    obtain rfl : c = c' := by
      rw [hcont'] at hc'
      split at hc'
      · exact Option.some.inj hc'
      · cases hc'
    rw [hfunc]
    rw [hfunc₁, hpre'] at horder ⊢
    exact Clean.reordered_undone (r := p.relinking q c) hflow₂ hclean hexchange horder hedges

end Workspace

/-- A clean nest whose inner exit ends as given. -/
def Func.plainNest (last : Operation) : Func :=
  .ofExits [("entry", .br ⟨1⟩), ("oph", .br ⟨2⟩), ("oh", .condBr (.const 0) ⟨3⟩ ⟨9⟩),
    ("iph", .br ⟨4⟩), ("ih", .condBr (.const 0) ⟨5⟩ ⟨7⟩), ("be", .br ⟨6⟩), ("il", .br ⟨4⟩),
    ("ie", last), ("ol", .br ⟨2⟩), ("oe", .br ⟨10⟩), ("done", .ret none)]

/-- The corners of the plain nest. -/
def Corners.ofPlainNest : Corners where
  outerHeader := ⟨2⟩
  innerHeader := ⟨4⟩
  outerPreheader := ⟨1⟩
  innerPreheader := ⟨3⟩
  outerLatch := ⟨8⟩
  innerLatch := ⟨6⟩
  outerExit := ⟨9⟩
  innerExit := ⟨7⟩

/-- The plain nest is clean if its inner exit leads to the outer latch, with one target or two. -/
theorem Func.cleanNest_plainNest {last : Operation}
    (h : last = .br ⟨8⟩ ∨ last = .condBr (.const 0) ⟨8⟩ ⟨8⟩) :
    (plainNest last).WellFormed ∧
      (∀ b ∈ (plainNest last).layout, (plainNest last).graph.Reachable b) ∧
      (plainNest last).CleanNest 0 1
        ⟨⟨2⟩, [⟨2⟩, ⟨3⟩, ⟨4⟩, ⟨5⟩, ⟨6⟩, ⟨7⟩, ⟨8⟩], none, [1], 1, some ⟨1⟩, some ⟨8⟩, some ⟨9⟩⟩
        ⟨⟨4⟩, [⟨4⟩, ⟨5⟩, ⟨6⟩], some 0, [], 2, some ⟨3⟩, some ⟨6⟩, some ⟨7⟩⟩
        Corners.ofPlainNest ⟨5⟩ := by
  have hreach : ∀ {f : Func}, (∀ b ∈ f.layout, b ∈ f.graph.order) →
      ∀ b ∈ f.layout, f.graph.Reachable b := fun horder b hb =>
    (FlowGraph.mem_order _).1 (horder b hb)
  rcases h with rfl | rfl <;>
  · refine ⟨by decide +kernel, hreach (by decide +kernel), ?_⟩
    refine ⟨?_, ?_, rfl, ⟨rfl, rfl, rfl, rfl⟩, ⟨rfl, rfl, rfl, rfl⟩, ?_, ?_, ?_, ?_, ?_, ?_, ?_, ?_,
      ?_, ⟨⟨5⟩, ?_, ?_⟩, Or.inr ⟨⟨0⟩, ?_⟩, ?_⟩ <;> decide +kernel

namespace Workspace

/-- With an unconditional branch at the inner exit, two interchanges restore the plain nest. -/
theorem interchange_interchange_plainNest :
    ∃ p s r w₁ done₁ w₂ done₂,
      (Func.plainNest (.br ⟨8⟩)).loops.plan (Func.plainNest (.br ⟨8⟩)) 0 1 = .ok p ∧
      (⟨Func.plainNest (.br ⟨8⟩), .zero⟩ : Workspace).findLoops.2.materialize
        (Func.plainNest (.br ⟨8⟩)).loops p 0 = (s, .ok (r, done₁.materialized)) ∧
      (⟨Func.plainNest (.br ⟨8⟩), .zero⟩ : Workspace).interchange 0 1 = (w₁, .ok done₁) ∧
      w₁.interchange 0 1 = (w₂, .ok done₂) ∧ done₂.materialized = [] ∧
      s.func.Reordered w₂.func := by
  obtain ⟨hf, hr, hk⟩ := Func.cleanNest_plainNest (Or.inl rfl)
  obtain ⟨p, s, r, w₁, done₁, w₂, done₂, hplan, hmat, h₁, h₂, hnone, hback⟩ :=
    interchange_interchange (w := ⟨Func.plainNest (.br ⟨8⟩), .zero⟩) hf hr hk
  have hmade := hnone.2 (by decide +kernel)
  exact ⟨p, s, r, w₁, done₁, w₂, done₂, hplan, hmat, h₁, h₂, hmade, hback hmade⟩

/-- If the inner exit leads to the outer latch by both targets of a conditional branch, the nest is
as clean, and the first interchange splits nothing, but the second one splits the inner exit. -/
theorem interchange_plainNest_splits_exit :
    ∃ l m, (Func.plainNest (.condBr (.const 0) ⟨8⟩ ⟨8⟩)).WellFormed ∧
      (∀ b ∈ (Func.plainNest (.condBr (.const 0) ⟨8⟩ ⟨8⟩)).layout,
        (Func.plainNest (.condBr (.const 0) ⟨8⟩ ⟨8⟩)).graph.Reachable b) ∧
      (Func.plainNest (.condBr (.const 0) ⟨8⟩ ⟨8⟩)).CleanNest 0 1 l m Corners.ofPlainNest ⟨5⟩ ∧
      ∃ w₁ done₁ w₂ done₂,
        (⟨Func.plainNest (.condBr (.const 0) ⟨8⟩ ⟨8⟩), .zero⟩ : Workspace).interchange 0 1 =
          (w₁, .ok done₁) ∧
        w₁.interchange 0 1 = (w₂, .ok done₂) ∧ done₁.materialized = [] ∧
        done₂.materialized = [⟨11⟩] := by
  obtain ⟨hf, hr, hk⟩ := Func.cleanNest_plainNest (Or.inr rfl)
  have hone : ((⟨Func.plainNest (.condBr (.const 0) ⟨8⟩ ⟨8⟩), .zero⟩ : Workspace).interchange
      0 1).2 = .ok ⟨0, 1, [], 8, 6⟩ := by decide +kernel
  have htwo : ((⟨Func.plainNest (.condBr (.const 0) ⟨8⟩ ⟨8⟩), .zero⟩ : Workspace).interchange
      0 1).1.interchange 0 1 = (_, .ok ⟨0, 1, [⟨11⟩], 8, 6⟩) := Prod.ext rfl (by decide +kernel)
  exact ⟨_, _, hf, hr, hk, _, _, _, _, Prod.ext rfl hone, htwo, rfl, rfl⟩

end Workspace

end LoopSwap
