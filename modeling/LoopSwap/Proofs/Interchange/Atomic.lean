/-
**All or nothing.**

An interchange first looks for everything that it needs, and changes the function only afterwards.
Once there is a plan, every step that could be refused succeeds, so an error is always one that was
found before anything was split or moved, and the function is as it was.

That no id is opened that names nothing, and no place of the layout is used that is not there, is
said by doing the interchange once more with checked access (`Checked.interchange`).  Two kinds of
failure are kept apart there: a refusal is an error as before, and a failed access gives no result
at all.  In a well-formed function there is always a result, and it is that of the interchange.

Main definitions:

* `LoopSwap.Checked.loops`, `LoopSwap.Checked.plan`, `LoopSwap.Checked.materialize`,
  `LoopSwap.Checked.relink` — the parts of an interchange, with checked access;
* `LoopSwap.Checked.interchange` — the interchange.

Main results:

* `LoopSwap.Checked.loops_unique` — the loops depend on nothing but what is read of the function;
* `LoopSwap.Checked.plan_eq`, `LoopSwap.Checked.materialize_eq`, `LoopSwap.Checked.relink_eq` — no
  part makes a bad access;
* `LoopSwap.Workspace.interchange_atomic` — an error changes nothing but the count of loops, it is
  found before the first change, and no access is out of range.
-/

import LoopSwap.Proofs.Code.Checked
import LoopSwap.Proofs.Interchange.Mirror
import LoopSwap.Proofs.Interchange.Steps
import LoopSwap.Proofs.Loop.DeadCode

set_option relaxedAutoImplicit false
set_option autoImplicit false

namespace LoopSwap

namespace Checked

/-! ### Loops -/

/-- The blocks that the record of a loop has a label written for. -/
def named (l : Loop) : List BlockId :=
  l.header :: [l.preheader, l.latch, l.exit].filterMap id

/-- The loops of a function.  The successors of every block of the layout are read for them, and
the labels of the blocks that a record is written with. -/
def loops (f : Func) : Option LoopForest := do
  let _ ← outgoing f
  let _ ← (f.loops.loops.flatMap named).mapM f.blockName?
  return f.loops

section

variable {f : Func} {b : BlockId} {l : Loop}

theorem header_listed (hl : f.Describes l) : l.header ∈ f.layout := by
  obtain ⟨t, ht⟩ := hl.backEdge
  exact ht.edge.2.1

/-- The exit of a loop is the target of a branch, so it is a block of the layout. -/
theorem exit_listed (hf : f.Flowing) (hl : f.Describes l) (hx : l.exit = some b) :
    b ∈ f.layout := by
  obtain ⟨⟨a, -, hab⟩, -⟩ := (hl.exit b hx b).2 rfl
  exact (hf.edge_iff.2 hab).2.1

theorem named_listed (hf : f.Flowing) (hl : f.Describes l) : ∀ b ∈ named l, b ∈ f.layout := by
  intro b hb
  rw [named, List.mem_cons, List.mem_filterMap] at hb
  rcases hb with rfl | ⟨o, ho, hob⟩
  · exact header_listed hl
  · simp only [List.mem_cons, List.not_mem_nil, or_false] at ho
    rcases ho with rfl | rfl | rfl
    · exact (((hl.preheader b hob).2 b).2 rfl).1.listed
    · exact ((hl.latch b hob b).2 rfl).2.1
    · exact exit_listed hf hl hob

theorem loops_eq (hf : f.Flowing) : loops f = some f.loops := by
  have hnamed : ∀ b ∈ f.loops.loops.flatMap named, b ∈ f.layout := by
    intro b hb
    obtain ⟨l, hl, hbl⟩ := List.mem_flatMap.1 hb
    obtain ⟨i, hi⟩ := List.mem_iff_getElem?.1 hl
    exact named_listed hf (Func.describes_loop? hi) b hbl
  obtain ⟨labels, hlabels⟩ := exists_labels hf.toIntact hnamed
  rw [loops, outgoing_eq hf.toIntact, hlabels]
  rfl

end

/-- Functions of which the same is read have the same loops. -/
theorem loops_unique {f g : Func} (hf : f.Intact) (hg : g.Intact) (h : outgoing g = outgoing f) :
    g.loops = f.loops := by
  rw [outgoing_eq hf, outgoing_eq hg, Option.some_inj] at h
  have hlayout : g.layout = f.layout := by
    have hfst := congrArg (List.map Prod.fst) h
    rw [List.map_map, List.map_map] at hfst
    exact (List.map_id _).symm.trans (hfst.trans (List.map_id _))
  have hsucc : ∀ b ∈ f.layout, g.successors b = f.successors b := by
    rw [hlayout, List.map_inj_left] at h
    exact fun b hb => (Prod.mk.inj (h b hb)).2
  refine Func.loops_eq_of_agrees ⟨⟨?_, fun e _ => ?_, fun a ha b => ?_⟩, hsucc⟩ ?_
  · exact congrArg List.head? hlayout
  · exact iff_of_eq (congrArg (e ∈ ·) hlayout)
  · rw [Func.graph_edge, Func.graph_edge, hlayout, hsucc a ha]
  · rw [hlayout]
    exact List.filter_eq_self.2 fun b hb => decide_eq_true hb

/-! ### Refusals -/

/-- The outcome of a computation in which every access succeeds. -/
def granted {α : Type} (x : Except LoopError α) : ExceptT LoopError Option α := ExceptT.mk (some x)

section

variable {α β : Type} {x : Except LoopError α} {g : α → Except LoopError β}
  {k : α → ExceptT LoopError Option β}

/-- A sequence of two computations without a failed access is one. -/
theorem granted_bind (h : ∀ a, x = .ok a → k a = granted (g a)) :
    granted x >>= k = granted (x >>= g) := by
  cases x with
  | error e => rfl
  | ok a => exact h a rfl

theorem read_bind {o : Option α} {a : α} (ho : o = some a) :
    (liftM o >>= k : ExceptT LoopError Option β) = k a := by
  subst ho
  rfl

theorem refusal_bind (h : ∀ a, x = .ok a → k a = granted (g a)) :
    (liftM x >>= k : ExceptT LoopError Option β) = granted (x >>= g) :=
  granted_bind h

end

/-! ### Plans -/

/-- What the terminator of a block does, which has to end in one. -/
def exit (f : Func) (b : BlockId) : ExceptT LoopError Option Operation := do
  let found ← exitOp f b
  match found with
  | some op => return op
  | none => do
    let name ← f.blockName? b
    throw (.malformedTerminator name)

/-- Whether `source`, which has to end in a branch, branches to `target`. -/
def leadsTo (f : Func) (source target : BlockId) : ExceptT LoopError Option Bool := do
  let op ← exit f source
  if op.isBranch then return decide (target ∈ op.targets)
  else do
    let name ← f.blockName? source
    throw (.malformedTerminator name)

/-- Refuses two loops that lack an edge of perfect nesting. -/
def checkEdge (f : Func) (source target : BlockId) (error : LoopError) :
    ExceptT LoopError Option Unit := do
  if ← leadsTo f source target then return () else throw error

/-- The plan for interchanging two loops, which have to be perfectly nested. -/
def plan (n : LoopForest) (f : Func) (outer inner : Nat) : ExceptT LoopError Option Plan := do
  let outerLoop ← require outer .loop (n.loop? outer)
  let innerLoop ← require inner .loop (n.loop? inner)
  if outer = inner ∨ n.isWithin inner outer = false then
    throw (.notNested outer inner)
  else
    let (outerPreheader, outerLatch, outerExit) ← outerLoop.connections outer
    let (innerPreheader, innerLatch, innerExit) ← innerLoop.connections inner
    let bodyEntry ← require inner .bodyEntry (innerLoop.bodyEntry? f)
    let latchPred ← uniquePredecessor f innerLoop.latch
    let bodyEnd ← require inner .latchPredecessor
      (latchPred.filter fun b => b ≠ innerLoop.header)
    let preheaderPred ←
      if f.entry? = some outerPreheader then pure none
      else do
        let found ← uniquePredecessor f outerLoop.preheader
        let pred ← require outer .preheaderPredecessor found
        pure (some pred)
    checkEdge f outerLoop.header innerPreheader
      (.notPerfectlyNested outer inner .headerToPreheader)
    checkEdge f innerLoop.header bodyEntry (.notPerfectlyNested outer inner .headerToBody)
    checkEdge f innerExit outerLatch (.notPerfectlyNested outer inner .exitToLatch)
    let exitOp ← exit f outerExit
    return {
      outerPreheader, outerHeader := outerLoop.header, outerLatch, outerExit
      innerPreheader, innerHeader := innerLoop.header, innerLatch, innerExit
      bodyEntry, bodyEnd, preheaderPred, continuation := exitOp.continuation? }

section

variable {f : Func} {a b : BlockId}

theorem exit_eq (hf : f.Intact) (hb : b ∈ f.layout) : exit f b = granted (f.exitOp b) := by
  obtain ⟨block, hblock⟩ := Option.isSome_iff_exists.1 (hf.block?_isSome hb)
  unfold exit
  rw [read_bind (exitOp_eq hf hb), Func.exitOp, hblock]
  cases f.exitOp? b with
  | some op => rfl
  | none =>
      have hname : f.blockName? b = some block.name := by rw [Func.blockName?, hblock]; rfl
      dsimp only
      rw [read_bind hname]
      rfl

theorem leadsTo_eq (hf : f.Intact) (ha : a ∈ f.layout) :
    leadsTo f a b = granted (LoopSwap.leadsTo f a b) := by
  unfold leadsTo LoopSwap.leadsTo
  rw [exit_eq hf ha]
  refine granted_bind fun op _ => ?_
  split
  · rfl
  · obtain ⟨name, hname⟩ := Option.isSome_iff_exists.1 (blockName?_isSome hf ha)
    rw [read_bind hname, hname]
    rfl

theorem checkEdge_eq (hf : f.Intact) (ha : a ∈ f.layout) (e : LoopError) :
    checkEdge f a b e = granted (LoopSwap.checkEdge f a b e) := by
  unfold checkEdge LoopSwap.checkEdge
  rw [leadsTo_eq hf ha]
  refine granted_bind fun found _ => ?_
  cases found <;> rfl

end

/-- Whatever is opened for a plan is a block of the layout. -/
theorem plan_eq {f : Func} (hf : f.Flowing) (outer inner : Nat) :
    plan f.loops f outer inner = granted (f.loops.plan f outer inner) := by
  have hintact := hf.toIntact
  unfold plan LoopForest.plan
  refine refusal_bind fun l hl => refusal_bind fun m hm => ?_
  rw [require_eq_ok_iff] at hl hm
  split
  · rfl
  · refine refusal_bind fun c hc => refusal_bind fun d hd => refusal_bind fun be _ => ?_
    rw [connections_eq_ok_iff] at hc hd
    replace hl := Func.describes_loop? hl
    replace hm := Func.describes_loop? hm
    obtain ⟨outerPreheader, outerLatch, outerExit⟩ := c
    obtain ⟨innerPreheader, innerLatch, innerExit⟩ := d
    rw [read_bind (uniquePredecessor_eq hintact m.latch)]
    refine refusal_bind fun bend _ => ?_
    -- the checks that are left do not depend on how the preheader is reached
    have hrest : ∀ pred : Option BlockId, (do
        checkEdge f l.header innerPreheader (.notPerfectlyNested outer inner .headerToPreheader)
        checkEdge f m.header be (.notPerfectlyNested outer inner .headerToBody)
        checkEdge f innerExit outerLatch (.notPerfectlyNested outer inner .exitToLatch)
        let op ← exit f outerExit
        pure (Plan.mk outerPreheader l.header outerLatch outerExit innerPreheader m.header
          innerLatch innerExit be bend pred op.continuation?)) = granted (do
        LoopSwap.checkEdge f l.header innerPreheader
          (.notPerfectlyNested outer inner .headerToPreheader)
        LoopSwap.checkEdge f m.header be (.notPerfectlyNested outer inner .headerToBody)
        LoopSwap.checkEdge f innerExit outerLatch (.notPerfectlyNested outer inner .exitToLatch)
        let op ← f.exitOp outerExit
        pure (Plan.mk outerPreheader l.header outerLatch outerExit innerPreheader m.header
          innerLatch innerExit be bend pred op.continuation?)) := by
      intro pred
      rw [checkEdge_eq hintact (header_listed hl), checkEdge_eq hintact (header_listed hm),
        checkEdge_eq hintact (exit_listed hf hm hd.2.2),
        exit_eq hintact (exit_listed hf hl hc.2.2)]
      exact granted_bind fun _ _ => granted_bind fun _ _ => granted_bind fun _ _ =>
        granted_bind fun _ _ => rfl
    dsimp only
    split
    · exact hrest none
    · rw [read_bind (uniquePredecessor_eq hintact l.preheader)]
      exact refusal_bind fun pred _ => hrest (some pred)

/-! ### Splits -/

/-- The preheader of loop `i`, which is split off the entry if it was the entry. -/
def isolatePreheader (n : LoopForest) (w : Workspace) (i : Nat) :
    ExceptT LoopError Option (BlockId × LoopForest × Workspace) := do
  let l ← require i .loop (n.loop? i)
  let preheader ← require i .preheader l.preheader
  if some preheader ≠ w.func.entry? then
    return (preheader, n, w)
  else do
    let block ← w.func.block? preheader
    let (f, part) ← split w.func preheader (block.insts.length - 1)
    return (part, n.replacePreheader preheader part, ⟨f, w.stats.addMaterialized⟩)

/-- Splits what has to be split for a plan. -/
def materialize (w : Workspace) (n : LoopForest) (plan : Plan) (outer : Nat) :
    Option (Workspace × Except LoopError (Relinking × List BlockId)) := do
  let first ←
    match plan.preheaderPred with
    | some pred => some (Except.ok (w, plan.outerPreheader, pred, []))
    | none =>
      (isolatePreheader n w outer).run.map fun isolated =>
        isolated.map fun (part, _, w₁) => (w₁, part, plan.outerPreheader, [part])
  match first with
  | .error e => return (w, .error e)
  | .ok (w₁, preheader, pred, made) =>
    match plan.continuation with
    | some continuation => return (w₁, .ok (⟨plan, preheader, pred, continuation⟩, made))
    | none => do
      let (f, part) ← split w₁.func plan.outerExit 0
      return (⟨f, w₁.stats.addMaterialized⟩, .ok (⟨plan, preheader, pred, part⟩, made ++ [part]))

/-- The entry can be opened and split. -/
theorem isolatePreheader_eq (n : LoopForest) {w : Workspace} (hf : w.func.Intact) (i : Nat) :
    isolatePreheader n w i = granted (n.isolatePreheader w i) := by
  unfold isolatePreheader LoopForest.isolatePreheader
  refine refusal_bind fun l _ => refusal_bind fun p _ => ?_
  split
  · rfl
  · next he =>
      have hp : p ∈ w.func.layout := List.mem_of_head? (not_not.1 he).symm
      obtain ⟨block, hblock⟩ := Option.isSome_iff_exists.1 (hf.block?_isSome hp)
      obtain ⟨r, hr⟩ := hf.exists_split? hp (block.insts.length - 1)
      have hinsts : w.func.blockInsts p = block.insts := by rw [Func.blockInsts, hblock]; rfl
      rw [read_bind hblock, read_bind ((split_eq hf hp _).trans hr), hinsts, hr]
      rfl

/-- With a plan, the splits open blocks of the layout. -/
theorem materialize_eq {w : Workspace} {outer inner : Nat} {l m : Loop} {p : Plan}
    (hf : w.func.Flowing) (h : Planned w.func outer inner l m p) :
    materialize w w.func.loops p outer = some (w.materialize w.func.loops p outer) := by
  have hexit : p.outerExit ∈ w.func.layout := (h.nest hf).outer.exit_reachable.listed
  have hsplit : ∀ {w₁ : Workspace}, w₁.func.Intact → p.outerExit ∈ w₁.func.layout →
      ∃ r, split w₁.func p.outerExit 0 = some r ∧ w₁.func.split? p.outerExit 0 = some r := by
    intro w₁ hf₁ hx
    obtain ⟨r, hr⟩ := hf₁.exists_split? hx 0
    exact ⟨r, (split_eq hf₁ hx 0).trans hr, hr⟩
  unfold materialize Workspace.materialize
  rw [isolatePreheader_eq _ hf.toIntact]
  cases p.preheaderPred with
  | some pred =>
      cases p.continuation with
      | some c => rfl
      | none =>
          obtain ⟨r, hchecked, htotal⟩ := hsplit hf.toIntact hexit
          simp only [Option.bind_eq_bind, Option.bind_some, hchecked, htotal]
          rfl
  | none =>
      cases hr : w.func.loops.isolatePreheader w outer with
      | error e => rfl
      | ok isolated =>
          obtain ⟨q, n', w₁⟩ := isolated
          have hkept : w₁.func.Intact ∧ p.outerExit ∈ w₁.func.layout := by
            obtain ⟨-, x, -, -, ⟨-, -, -, rfl⟩ | ⟨-, f, hentry, -, rfl⟩⟩ :=
              Workspace.isolatePreheader_cases hr
            · exact ⟨hf.toIntact, hexit⟩
            · exact ⟨hf.toIntact.split? hentry, (Func.mem_layout_split? hentry).2 (Or.inr hexit)⟩
          cases p.continuation with
          | some c => rfl
          | none =>
              obtain ⟨r, hchecked, htotal⟩ := hsplit hkept.1 hkept.2
              simp only [granted, ExceptT.run_mk, Option.map_some, Option.bind_eq_bind,
                Option.bind_some, Except.map, hchecked, htotal]
              rfl

/-! ### Relinking -/

/-- The new order. -/
def reorder (r : Relinking) (f : Func) : Option Func := do
  let p := r.plan
  let f ← moveBefore f p.innerHeader p.outerHeader
  let f ← moveBefore f p.outerHeader p.bodyEntry
  let f ← moveBefore f p.innerPreheader p.innerHeader
  let f ← moveBefore f r.preheader p.outerHeader
  let f ←
    match f.next? p.outerExit with
    | some next => moveBefore f p.innerExit next
    | none => moveToEnd f p.innerExit
  let f ← moveBefore f p.innerLatch p.innerExit
  let f ← moveBefore f p.outerExit p.innerLatch
  moveBefore f p.outerLatch p.outerExit

/-- Moves the blocks and changes the edges. -/
def relink (w : Workspace) (r : Relinking) (made : List BlockId) (outer inner : Nat) :
    Option (Workspace × Interchanged) := do
  let moved ← reorder r w.func
  let (f, retargeted) ← retargetAll moved r.edges
  return (⟨f, w.stats.addInterchange⟩,
    { outer := outer
      inner := inner
      materialized := made
      moved := movedBlocks w.func.layout moved.layout
      retargeted := retargeted })

theorem reorder_eq (r : Relinking) (f : Func) : reorder r f = some (r.reorder f) := by
  unfold reorder Relinking.reorder
  simp only [moveBefore_eq, moveToEnd_eq, Option.bind_eq_bind, Option.bind_some]
  -- the fifth move goes by what stands after the outer exit
  generalize Func.next? _ r.plan.outerExit = next
  cases next with
  | some b => rfl
  | none => rfl

/-- The edges that are changed lead between blocks of the layout. -/
theorem edges_listed {f : Func} {O I : BlockId → Prop} {r : Relinking}
    (h : Exchange f.graph O I r) : ∀ e ∈ r.edges, ∀ x ∈ [e.1, e.2.1, e.2.2], x ∈ f.layout := by
  have hn := h.nest
  have hcorners := h.corners_listed
  have hinner : ∀ b, I b → b ∈ f.layout := fun b hb => (hn.inner.reachable hb).listed
  have hbe := hinner _ hn.bodyEntry_inner
  have hbend := hinner _ hn.bodyEnd_inner
  have hc : r.continuation ∈ f.layout := ((h.exit_iff _).2 rfl).2.1
  simp only [Corners.list, Relinking.corners, List.forall_mem_cons] at hcorners
  obtain ⟨hoh, hih, hq, hiph, hol, hil, hoe, hie, -⟩ := hcorners
  have hpred : r.preheaderPred ∈ f.layout := by
    by_cases heq : r.preheaderPred = r.plan.outerExit
    · exact heq ▸ hoe
    · exact (h.pred_edge heq).1
  have htriple : ∀ {a b c : BlockId}, a ∈ f.layout → b ∈ f.layout → c ∈ f.layout →
      ∀ x ∈ [a, b, c], x ∈ f.layout := fun ha hb hc =>
    List.forall_mem_cons.2 ⟨ha, List.forall_mem_cons.2 ⟨hb, List.forall_mem_singleton.2 hc⟩⟩
  simp only [Relinking.edges]
  refine List.forall_mem_cons.2 ⟨htriple hpred hq hiph, List.forall_mem_cons.2
    ⟨htriple hoh hiph hbe, List.forall_mem_cons.2 ⟨htriple hih hbe hq, List.forall_mem_cons.2
      ⟨htriple hie hol hc, List.forall_mem_cons.2 ⟨htriple hoe hc hil,
        List.forall_mem_singleton.2 (htriple hbend hil hol)⟩⟩⟩⟩⟩

theorem relink_eq {w : Workspace} {O I : BlockId → Prop} {r : Relinking} (hf : w.func.Flowing)
    (h : Exchange w.func.graph O I r) (made : List BlockId) (outer inner : Nat) :
    relink w r made outer inner = some (w.relink r made outer inner) := by
  have horder := h.reordered hf
  have hlisted : ∀ e ∈ r.edges, ∀ x ∈ [e.1, e.2.1, e.2.2], x ∈ (r.reorder w.func).layout :=
    fun e he x hx => horder.mem_layout.2 (edges_listed h e he x hx)
  unfold relink Workspace.relink
  rw [reorder_eq, Option.bind_eq_bind, Option.bind_some,
    retargetAll_eq _ (hf.toIntact.reordered horder) hlisted]
  rfl

/-! ### Interchanges -/

/-- Interchanges two loops, given by their places in the preorder. -/
def interchange (w : Workspace) (outer inner : Nat) :
    Option (Workspace × Except LoopError Interchanged) := do
  let n ← loops w.func
  let w₁ : Workspace := { w with stats := w.stats.addLoops n.loops.length }
  match ← (plan n w₁.func outer inner).run with
  | .error e => return (w₁, .error e)
  | .ok found => do
    let _ ← [found.outerHeader, found.innerHeader].mapM w₁.func.blockName?
    match ← materialize w₁ n found outer with
    | (w₂, .error e) => return (w₂, .error e)
    | (w₂, .ok (r, made)) => do
      let _ ← made.mapM w₂.func.blockName?
      let (w₃, summary) ← relink w₂ r made outer inner
      return (w₃, .ok summary)

theorem interchange_eq {w : Workspace} (hf : w.func.Flowing) (outer inner : Nat) :
    interchange w outer inner = some (w.interchange outer inner) := by
  unfold interchange Workspace.interchange
  rw [loops_eq hf, Option.bind_eq_bind, Option.bind_some]
  dsimp only [Workspace.findLoops]
  rw [plan_eq hf]
  cases hplan : w.func.loops.plan w.func outer inner with
  | error e => rfl
  | ok p =>
      obtain ⟨l, m, hp⟩ := plan_eq_ok_iff.1 hplan
      have hheaders : ∀ b ∈ [p.outerHeader, p.innerHeader], b ∈ w.func.layout := by
        rw [← hp.headers.1, ← hp.headers.2]
        exact List.forall_mem_cons.2 ⟨header_listed (Func.describes_loop? hp.outerLoop),
          List.forall_mem_singleton.2 (header_listed (Func.describes_loop? hp.innerLoop))⟩
      obtain ⟨headers, hread⟩ := exists_labels hf.toIntact hheaders
      -- the splits succeed, and what is split off is in the layout afterwards
      have hsplits := materialize_eq (w := w.findLoops.2) hf hp
      obtain ⟨f₁, q, f₂, c, stats, h₁, h₂, hmat⟩ :=
        Workspace.materialize_eq (w := w.findLoops.2) hf hp
      obtain ⟨hf₂, -⟩ := hp.splitExit hf h₁ h₂
      obtain ⟨made, hmade⟩ := exists_labels hf₂.toIntact fun b hb =>
        (hp.mem_layout_split_iff hf h₁ h₂).2 (Or.inl hb)
      have hrelink := relink_eq (w := ⟨f₂, stats⟩) hf₂ (hp.exchange hf h₁ h₂) (p.made q c)
        outer inner
      rw [hmat] at hsplits
      simp only [Workspace.findLoops] at hmat hsplits
      simp only [granted, ExceptT.run_mk, Option.bind_eq_bind, Option.bind_some, hread, hsplits,
        hmat, hmade, hrelink]
      rfl

end Checked

/-! ### All or nothing -/

namespace Workspace

variable {w : Workspace}

/-- An interchange is refused with the errors of the plan, and in the same cases. -/
theorem interchange_eq_error_iff (hf : w.func.Flowing) {outer inner : Nat} {e : LoopError} :
    (w.interchange outer inner).2 = .error e ↔ w.func.loops.plan w.func outer inner = .error e := by
  cases hplan : w.func.loops.plan w.func outer inner with
  | error e' => rw [interchange_of_refused hplan, Except.error.injEq, Except.error.injEq]
  | ok p =>
      obtain ⟨l, m, hp⟩ := plan_eq_ok_iff.1 hplan
      obtain ⟨f₁, q, f₂, c, stats, -, -, -, heq⟩ := interchange_of_planned hf hp
      rw [heq]
      exact iff_of_false (fun h => nomatch h) (fun h => nomatch h)

/-- **An interchange is all or nothing.**  If it is refused, the function is as it was, and the
statistics differ by the loops that were found.  The errors are those of the plan, which is made
before anything is split or moved; with a plan, the splits and all that follows succeed.  Nothing
that is opened on the way is missing, and no place is out of range. -/
theorem interchange_atomic (hf : w.func.WellFormed) (outer inner : Nat) :
    (∀ e, (w.interchange outer inner).2 = .error e →
      (w.interchange outer inner).1.func = w.func ∧
      (w.interchange outer inner).1.stats =
        { w.stats with loops := w.stats.loops + w.func.loops.loops.length }) ∧
    (∀ e, (w.interchange outer inner).2 = .error e ↔
      w.func.loops.plan w.func outer inner = .error e) ∧
    (∀ p, w.func.loops.plan w.func outer inner = .ok p →
      ∃ w' r made, w.findLoops.2.materialize w.func.loops p outer = (w', .ok (r, made)) ∧
        w.interchange outer inner =
          ((w'.relink r made outer inner).1, .ok (w'.relink r made outer inner).2)) ∧
    Checked.interchange w outer inner = some (w.interchange outer inner) := by
  have hflow := hf.toFlowing
  refine ⟨fun e he => ?_, fun e => interchange_eq_error_iff hflow, fun p hplan => ?_,
    Checked.interchange_eq hflow outer inner⟩
  · rw [interchange_of_refused ((interchange_eq_error_iff hflow).1 he)]
    exact ⟨rfl, rfl⟩
  · obtain ⟨l, m, hp⟩ := plan_eq_ok_iff.1 hplan
    obtain ⟨f₁, q, f₂, c, stats, -, -, hmat, heq⟩ := interchange_of_planned hflow hp
    exact ⟨_, _, _, hmat, heq⟩

/-- The counted nest: the wrong way round it is refused and stays as it is, and the right way round
it is interchanged, with every access in range. -/
theorem interchange_atomic_counted :
    counted.WellFormed ∧
    (interchange ⟨counted, .zero⟩ 1 0).2 = .error (.notNested 1 0) ∧
    (interchange ⟨counted, .zero⟩ 1 0).1.func = counted ∧
    (interchange ⟨counted, .zero⟩ 1 0).1.stats = { Stats.zero with loops := 2 } ∧
    ∃ w' done, interchange ⟨counted, .zero⟩ 0 1 = (w', .ok done) ∧
      Checked.interchange ⟨counted, .zero⟩ 0 1 = some (w', .ok done) := by
  have hf : counted.WellFormed := by decide
  have hrefused : (interchange ⟨counted, .zero⟩ 1 0).2 = .error (.notNested 1 0) := by
    decide +kernel
  have hloops : counted.loops.loops.length = 2 := by decide +kernel
  obtain ⟨hsame, -⟩ := interchange_atomic (w := ⟨counted, .zero⟩) hf 1 0
  obtain ⟨hfunc, hstats⟩ := hsame _ hrefused
  obtain ⟨-, -, hplanned, hchecked⟩ := interchange_atomic (w := ⟨counted, .zero⟩) hf 0 1
  rw [hloops] at hstats
  have hplan : counted.loops.plan counted 0 1 = .ok
      ⟨⟨0⟩, ⟨1⟩, ⟨7⟩, ⟨8⟩, ⟨2⟩, ⟨3⟩, ⟨5⟩, ⟨6⟩, ⟨4⟩, ⟨4⟩, none, none⟩ := by decide +kernel
  obtain ⟨w₁, r, made, -, heq⟩ := hplanned _ hplan
  rw [heq] at hchecked
  exact ⟨hf, hrefused, hfunc, hstats, _, _, heq, hchecked⟩

end Workspace

end LoopSwap
