/-
**What edits keep of a function.**

The edits that relink a function lose no instruction.  Each one stays in the program with its result
and what it does, but for the targets of branches; the order of the program may be another one, and
the only instructions that are new are branches without a result.

Main definitions:

* `LoopSwap.Func.Extended` — what such edits keep.

Main results:

* `LoopSwap.Func.Extended.split?`, `LoopSwap.Func.Extended.reordered`,
  `LoopSwap.Func.Extended.retargetAll` — the edits keep it;
* `LoopSwap.Workspace.extended_interchange`, `LoopSwap.Workspace.extended_run` — so do interchanges
  and runs.
-/

import LoopSwap.Proofs.Interchange.Steps

set_option relaxedAutoImplicit false
set_option autoImplicit false

namespace LoopSwap

namespace Func

/-- The instructions of `f` are all in `g`, with their results and perhaps with other targets, and
what `g` has besides are branches. -/
structure Extended (f g : Func) : Prop where
  resultName? : ∀ i, g.resultName? i = f.resultName? i
  op : ∀ i, ∀ op ∈ f.op? i, ∃ h : BlockId → BlockId, g.op? i = some (op.mapTargets h)
  instIds : ∃ made, g.instIds.Perm (made ++ f.instIds) ∧ ∀ i ∈ made, ∃ t, g.op? i = some (.br t)

variable {f f' g k : Func} {b n q : BlockId} {i : InstId} {op : Operation} {cut : Nat}

namespace Extended

theorem refl (f : Func) : f.Extended f :=
  ⟨fun _ => rfl, fun _ op hop => ⟨_, hop.trans (congrArg some op.mapTargets_id.symm)⟩,
    [], .refl _, fun _ hi => nomatch hi⟩

theorem trans (h : f.Extended g) (h' : g.Extended k) : f.Extended k := by
  obtain ⟨made, hperm, hbr⟩ := h.instIds
  obtain ⟨made', hperm', hbr'⟩ := h'.instIds
  refine ⟨fun i => (h'.resultName? i).trans (h.resultName? i), fun i op hop => ?_,
    made' ++ made, ?_, fun i hi => ?_⟩
  · obtain ⟨u, hu⟩ := h.op i op hop
    obtain ⟨v, hv⟩ := h'.op i _ hu
    exact ⟨_, hv.trans (congrArg some (op.mapTargets_mapTargets u v))⟩
  · rw [List.append_assoc]
    exact hperm'.trans (hperm.append_left made')
  · rcases List.mem_append.1 hi with hi | hi
    · exact hbr' i hi
    · obtain ⟨t, ht⟩ := hbr i hi
      obtain ⟨v, hv⟩ := h'.op i _ ht
      exact ⟨v t, hv⟩

/-! ### The edits -/

/-- A split adds one branch. -/
theorem split? (hf : f.Intact) (h : f.split? b cut = some (f', n)) : f.Extended f' := by
  refine ⟨resultName?_split? h, fun i op hop => ?_, [⟨f.insts.size⟩], hf.instIds_split? h,
    fun i hi => ?_⟩
  · have hlt : i.index < f.insts.size := by
      by_contra hge
      rw [op?, inst?_eq_none_iff.2 (Nat.not_lt.1 hge)] at hop
      cases hop
    exact ⟨fun t => t, (op?_split? h hlt).trans (hop.trans (congrArg some op.mapTargets_id.symm))⟩
  · rw [List.mem_singleton.1 hi]
    exact ⟨n, op?_split?_branch h⟩

theorem parted (hf : f.Flowing) (h : f.Parted f' q) : f.Extended f' := by
  rcases h with rfl | ⟨k, n, -, h⟩
  · exact .refl _
  · exact split? hf.toIntact h

/-- Moves add nothing. -/
theorem reordered (h : f.Reordered f') : f.Extended f' := by
  refine ⟨fun i => ?_, fun i op hop => ⟨fun t => t, ?_⟩, [], ?_, fun _ hi => nomatch hi⟩
  · rw [Func.resultName?, Func.resultName?, inst?, inst?, h.insts]
  · exact (h.op? i).trans (hop.trans (congrArg some op.mapTargets_id.symm))
  · rw [Func.instIds, Func.instIds, List.nil_append, funext h.blockInsts]
    exact h.layout.flatMap_right _

theorem retarget (f : Func) (b old new : BlockId) : f.Extended (f.retarget b old new).1 := by
  refine ⟨resultName?_retarget f b old new, fun i op hop => ?_, [], ?_, fun _ hi => nomatch hi⟩
  · rw [op?_retarget]
    split
    · exact ⟨_, congrArg (Option.map _) hop⟩
    · exact ⟨_, hop.trans (congrArg some op.mapTargets_id.symm)⟩
  · rw [Func.instIds, Func.instIds, layout_retarget, funext (blockInsts_retarget f b old new)]
    exact .refl _

/-- New targets add nothing. -/
theorem retargetAll (edges : List (BlockId × BlockId × BlockId)) :
    ∀ f : Func, f.Extended (f.retargetAll edges).1 := by
  induction edges with
  | nil => exact refl
  | cons e es ih =>
      intro f
      exact (retarget f e.1 e.2.1 e.2.2).trans (ih _)

/-- Relinking adds nothing. -/
theorem apply {r : Relinking} (h : f.Reordered (r.reorder f)) : f.Extended (r.apply f) := by
  unfold Relinking.apply
  exact (reordered h).trans (retargetAll _ _)

end Extended

end Func

/-! ### Steps -/

namespace Workspace

variable {w w' : Workspace}

/-- An interchange, successful or not, keeps all instructions. -/
theorem extended_interchange (hf : w.func.Flowing) (outer inner : Nat) :
    w.func.Extended (w.interchange outer inner).1.func := by
  rcases func_interchange_cases hf outer inner with
    hsame | ⟨l, m, p, f₁, q, f₂, c, hp, h₁, h₂, happly⟩
  · rw [hsame]
    exact .refl _
  · obtain ⟨hf₁, -, -⟩ := hp.splitEntry hf h₁
    obtain ⟨hf₂, -, -⟩ := hp.splitExit hf h₁ h₂
    have horder := (hp.exchange hf h₁ h₂).reordered hf₂
    rw [happly]
    exact ((Func.Extended.parted hf (Func.parted_splitEntry? hf h₁)).trans
      (.parted hf₁ (Func.parted_splitExit? hf₁ h₂))).trans (.apply horder)

theorem extended_step (hf : w.func.Flowing) (s : Step) : w.func.Extended (w.step s).func := by
  cases s with
  | interchange outer inner => exact extended_interchange hf outer inner
  | isolatePreheader loop =>
      rw [step]
      split
      · next s n' w' h =>
          obtain ⟨q, hq⟩ := splitEntry?_of_isolatePreheader h
          exact .parted hf (Func.parted_splitEntry? hf hq)
      · exact .refl _

/-- A run keeps all instructions. -/
theorem extended_run (steps : List Step) : ∀ {w : Workspace}, w.func.Legible →
    w.func.Extended (w.run steps).func := by
  induction steps with
  | nil => exact fun _ => .refl _
  | cons s steps ih =>
      intro w hw
      exact (extended_step hw.toFlowing s).trans (ih (legible_step hw s).1)

end Workspace

end LoopSwap
