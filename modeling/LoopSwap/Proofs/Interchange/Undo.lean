/-
**Relinking taken back.**

Six edges that are sent elsewhere can be sent back, as long as no block led to a new target of its
own before: a branch with both would lead there twice and come back twice.  In a clean nest this
does not happen.  So a second relinking that changes the same edges the other way round restores
every instruction, terminators included, and what is left of the two is another order of the blocks.

Main definitions:

* `LoopSwap.changeBack` — a change of an edge the other way round;
* `LoopSwap.Func.retargetInst` — an instruction, with other targets if it ends its block.

Main results:

* `LoopSwap.redirect_redirect` — where an edge leads after changes there and back;
* `LoopSwap.Func.inst?_retargetAll` — the instructions after a list of retargetings;
* `LoopSwap.Clean.reordered_undone` — relinking a clean nest and back keeps all but the order.
-/

import LoopSwap.Proofs.Interchange.Mirror
import LoopSwap.Proofs.Interchange.Steps

set_option relaxedAutoImplicit false
set_option autoImplicit false

namespace LoopSwap

/-! ### Changes there and back -/

/-- The change of an edge the other way round. -/
def changeBack (e : BlockId × BlockId × BlockId) : BlockId × BlockId × BlockId :=
  (e.1, e.2.2, e.2.1)

/-- An edge that is no new one comes back. -/
theorem redirect_redirect {es es' : List (BlockId × BlockId × BlockId)} {a t : BlockId}
    (hnodup : (es.map (·.1)).Nodup) (hback : es'.Perm (es.map changeBack))
    (hnew : ∀ old, (a, old, t) ∉ es) : redirect es' a (redirect es a t) = t := by
  by_cases hsource : ∀ e ∈ es, e.1 ≠ a
  · have hsource' : ∀ e ∈ es', e.1 ≠ a := by
      intro e he
      obtain ⟨e, he', rfl⟩ := List.mem_map.1 (hback.mem_iff.1 he)
      exact hsource e he'
    rw [redirect_of_ne hsource, redirect_of_ne hsource']
  · simp only [not_forall, not_not] at hsource
    obtain ⟨⟨source, old, new⟩, hmem, hsa⟩ := hsource
    obtain rfl : source = a := hsa
    have hmem' : (source, new, old) ∈ es' := hback.mem_iff.2 (List.mem_map.2 ⟨_, hmem, rfl⟩)
    have hnodup' : (es'.map (·.1)).Nodup := by
      rw [(hback.map _).nodup_iff, List.map_map]
      exact hnodup
    rw [redirect_of_mem hnodup hmem, redirect_of_mem hnodup' hmem']
    by_cases hold : t = old
    · rw [if_pos hold, if_pos rfl, hold]
    · have hne : t ≠ new := fun heq => hnew old (heq ▸ hmem)
      rw [if_neg hold, if_neg hne]

/-! ### Instructions -/

theorem Operation.mapTargets_congr {u v : BlockId → BlockId} {op : Operation}
    (h : ∀ t ∈ op.targets, u t = v t) : op.mapTargets u = op.mapTargets v := by
  cases op with
  | br target => exact congrArg br (h _ List.mem_cons_self)
  | condBr cond t e =>
      have ht := h t List.mem_cons_self
      have he := h e (List.mem_cons_of_mem _ List.mem_cons_self)
      rw [mapTargets, mapTargets, ht, he]
  | _ => rfl

namespace Func

variable {f g : Func} {i : InstId} {inst : Inst}

/-- The instruction `inst` of id `i`, which gets the targets that `u` gives for its block if it ends
its block. -/
def retargetInst (f : Func) (u : BlockId → BlockId → BlockId) (i : InstId) (inst : Inst) : Inst :=
  if f.terminator? inst.block = some i then { inst with op := inst.op.mapTargets (u inst.block) }
  else inst

/-- The block of an instruction is the one it ends. -/
theorem Intact.block_eq (hf : f.Intact) {b : BlockId} (hi : f.inst? i = some inst)
    (ht : f.terminator? b = some i) : inst.block = b := by
  have hmem := mem_blockInsts_of_terminator? ht
  have howner := hf.owner b (hf.mem_layout_of_mem_blockInsts hmem) i hmem
  rw [hi] at howner
  exact Option.some.inj howner

/-- The instructions after a list of retargetings. -/
theorem inst?_retargetAll (es : List (BlockId × BlockId × BlockId)) (i : InstId) :
    ∀ {f : Func}, f.Intact →
      (f.retargetAll es).1.inst? i = (f.inst? i).map (f.retargetInst (redirect es) i) := by
  induction es with
  | nil =>
      intro f _
      show f.inst? i = _
      cases f.inst? i with
      | none => rfl
      | some inst =>
          have hsame : f.retargetInst (redirect []) i inst = inst := by
            unfold retargetInst
            split
            · exact congrArg (fun op => { inst with op := op }) inst.op.mapTargets_id
            · rfl
          rw [Option.map_some, hsame]
  | cons e es ih =>
      intro f hf
      obtain ⟨source, old, new⟩ := e
      show ((f.retarget source old new).1.retargetAll es).1.inst? i = _
      rw [ih (hf.retarget source old new), inst?_retarget]
      cases hi : f.inst? i with
      | none => split <;> rfl
      | some inst =>
          unfold retargetInst
          by_cases hsource : f.terminator? source = some i
          · -- the instruction ends the source
            obtain rfl := hf.block_eq hi hsource
            simp only [if_pos hsource, Option.map_some, terminator?_retarget,
              Operation.mapTargets_mapTargets, redirect, true_and]
          · simp only [if_neg hsource, Option.map_some, terminator?_retarget]
            split
            · next hblock =>
                have hne : source ≠ inst.block := fun heq => hsource (heq ▸ hblock)
                simp only [redirect, hne, false_and, if_false]
            · rfl

theorem terminator?_retargetAll (es : List (BlockId × BlockId × BlockId)) (b : BlockId) :
    ∀ f : Func, (f.retargetAll es).1.terminator? b = f.terminator? b := by
  induction es with
  | nil => exact fun f => rfl
  | cons e es ih =>
      intro f
      obtain ⟨source, old, new⟩ := e
      exact (ih _).trans (f.terminator?_retarget source old new b)

end Func

/-! ### Relinking -/

namespace Relinking

variable {f : Func} {r r' : Relinking}

theorem terminator?_apply (h : f.Reordered (r.reorder f)) (b : BlockId) :
    Func.terminator? (r.apply f) b = f.terminator? b := by
  unfold apply
  rw [Func.terminator?_retargetAll, h.terminator?]

/-- The instructions after relinking. -/
theorem inst?_apply (hf : f.Intact) (h : f.Reordered (r.reorder f)) (i : InstId) :
    Func.inst? (r.apply f) i = (f.inst? i).map (f.retargetInst (redirect r.edges) i) := by
  have hinst : (r.reorder f).inst? i = f.inst? i := by rw [Func.inst?, Func.inst?, h.insts]
  have hchange : (r.reorder f).retargetInst = f.retargetInst := by
    funext u i inst
    rw [Func.retargetInst, Func.retargetInst, h.terminator?]
  unfold apply
  rw [Func.inst?_retargetAll _ _ (hf.reordered h), hinst, hchange]

/-- If a second relinking brings every edge back, it restores the instructions. -/
theorem insts_undone (hf : f.Flowing) (h : f.Reordered (r.reorder f))
    (hg : Func.Intact (r.apply f)) (h' : (r.apply f).Reordered (r'.reorder (r.apply f)))
    (hback : ∀ a t, f.graph.Edge a t → redirect r'.edges a (redirect r.edges a t) = t) :
    Func.insts (r'.apply (r.apply f)) = f.insts := by
  refine Array.ext_getElem? fun k => ?_
  show Func.inst? (r'.apply (r.apply f)) ⟨k⟩ = f.inst? ⟨k⟩
  rw [inst?_apply hg h', inst?_apply hf.toIntact h, Option.map_map]
  cases hi : f.inst? ⟨k⟩ with
  | none => rfl
  | some inst =>
      refine congrArg some ?_
      rw [Function.comp_apply, Func.retargetInst, Func.retargetInst]
      by_cases ht : f.terminator? inst.block = some ⟨k⟩
      · rw [if_pos ht, terminator?_apply h, if_pos ht, Operation.mapTargets_mapTargets]
        have hop : f.exitOp? inst.block = some inst.op := by
          rw [Func.exitOp?, ht, Option.bind_some, Func.op?, hi]
          rfl
        have hsame : ∀ t ∈ inst.op.targets,
            redirect r'.edges inst.block (redirect r.edges inst.block t) = t := fun t ht =>
          hback _ _ (hf.edge_iff.2 (Func.mem_successors_iff.2 ⟨_, hop, ht⟩))
        exact congrArg (fun op => { inst with op := op })
          ((Operation.mapTargets_congr hsame).trans inst.op.mapTargets_id)
      · rw [if_neg ht, terminator?_apply h, if_neg ht]

/-- A second relinking that brings every edge back only leaves another order. -/
theorem reordered_undone (hf : f.Flowing) (h : f.Reordered (r.reorder f))
    (hg : Func.Intact (r.apply f)) (h' : (r.apply f).Reordered (r'.reorder (r.apply f)))
    (hback : ∀ a t, f.graph.Edge a t → redirect r'.edges a (redirect r.edges a t) = t) :
    f.Reordered (r'.apply (r.apply f)) := by
  have hkept : ∀ {r : Relinking} {f : Func}, f.Reordered (r.reorder f) →
      Func.entry? (r.apply f) = f.entry? ∧ (Func.layout (r.apply f)).Perm f.layout := by
    intro r f h
    have hlayout := r.layout_apply f
    exact ⟨(congrArg List.head? hlayout).trans h.entry, hlayout ▸ h.layout⟩
  exact ⟨(blocks_apply h').trans (blocks_apply h), insts_undone hf h hg h' hback,
    (hkept h').2.trans (hkept h).2, (hkept h').1.trans (hkept h).1⟩

end Relinking

/-! ### Clean nests -/

namespace Clean

variable {O I : BlockId → Prop} {r r' : Relinking}

/-- No edge of a clean nest is one that relinking adds. -/
theorem not_edge_of_mem_added {g : FlowGraph BlockId} {a b : BlockId} (hc : Clean g r.plan)
    (h : Exchange g O I r) (hmem : (a, b) ∈ r.added) : ¬ g.Edge a b := by
  obtain ⟨hpp, hbe, hbend, hcont⟩ := hc.ends h
  have hq : r.plan.innerExit ≠ r.preheader :=
    Nest.ne_of_outer_of_not_outer h.nest.innerExit_mem h.preheader_not_outer
  simp only [Corners.list, Relinking.corners, List.mem_cons, List.not_mem_nil, or_false,
    not_or] at hpp hbe hbend hcont
  simp only [Relinking.added, Relinking.edges, List.map_cons, List.map_nil, List.mem_cons,
    Prod.mk.injEq, List.not_mem_nil, or_false] at hmem
  rcases hmem with ⟨rfl, rfl⟩ | ⟨rfl, rfl⟩ | ⟨rfl, rfl⟩ | ⟨rfl, rfl⟩ | ⟨rfl, rfl⟩ | ⟨rfl, rfl⟩
  · simp [hc.toInnerPreheader, hpp]
  · simp [hc.outerHeader, hbe]
  · simp [hc.innerHeader, hq.symm, Ne.symm hbe.2.2.1]
  · simp [hc.innerExit, hcont]
  · simp [h.exit_iff, Ne.symm hcont.2.2.2.2.2.1]
  · simp [hc.toOuterLatch, hbend]

/-- Relinking a clean nest and then changing the same edges the other way round keeps all but the
order of the blocks. -/
theorem reordered_undone {f : Func} (hf : f.Flowing) (hc : Clean f.graph r.plan)
    (h : Exchange f.graph O I r) (h' : (r.apply f).Reordered (r'.reorder (r.apply f)))
    (hback : r'.edges.Perm (r.edges.map changeBack)) : f.Reordered (r'.apply (r.apply f)) := by
  have hnodup := h.effective_spec.1
  rw [hc.effective h] at hnodup
  refine Relinking.reordered_undone hf (h.reordered hf) (h.flowing_apply hf).toIntact h'
    fun a t hat => redirect_redirect hnodup hback fun old hmem => ?_
  exact hc.not_edge_of_mem_added h (Relinking.mem_added.2 ⟨old, hmem⟩) hat

end Clean

end LoopSwap
