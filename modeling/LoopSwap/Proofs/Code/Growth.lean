/-
**What edits add to a function.**

The edits that relink a function put its blocks in another order, send branches to other targets
and cut blocks in two, which adds a branch and a label.  They change neither the name of the
function nor a result, and no operand.  So a legible function stays legible as long as it stays
well-formed and its new labels are names.

Main definitions:

* `LoopSwap.Func.Grown` — what such edits keep.

Main results:

* `LoopSwap.Func.Grown.split?`, `LoopSwap.Func.Grown.reordered`, `LoopSwap.Func.Grown.retargetAll`
  — the edits keep it;
* `LoopSwap.Func.Legible.of_grown` — legible functions grow into legible functions;
* `LoopSwap.Func.Legible.split?` — a split that cuts something off keeps a function legible.
-/

import LoopSwap.Proofs.Code.Legible
import LoopSwap.Proofs.Code.Names
import LoopSwap.Proofs.Code.Retarget

set_option relaxedAutoImplicit false
set_option autoImplicit false

namespace LoopSwap

namespace Func

/-- The function `g` has the name and the results of `f`, and an instruction of `g` is a branch or
is one of `f` with other targets. -/
structure Grown (f g : Func) : Prop where
  name : g.name = f.name
  resultName? : ∀ i, g.resultName? i = f.resultName? i
  op : ∀ i, ∀ op ∈ g.op? i,
    (∃ t, op = .br t) ∨ ∃ old ∈ f.op? i, ∃ h : BlockId → BlockId, op = old.mapTargets h

variable {f f' g k : Func} {a b n : BlockId} {i : InstId} {cut : Nat}

namespace Grown

theorem refl (f : Func) : f.Grown f :=
  ⟨rfl, fun _ => rfl, fun _ op hop => Or.inr ⟨op, hop, _, op.mapTargets_id.symm⟩⟩

theorem trans (h : f.Grown g) (h' : g.Grown k) : f.Grown k := by
  refine ⟨h'.name.trans h.name, fun i => (h'.resultName? i).trans (h.resultName? i), ?_⟩
  intro i op hop
  rcases h'.op i op hop with hbr | ⟨mid, hmid, v, rfl⟩
  · exact Or.inl hbr
  · rcases h.op i mid hmid with ⟨t, rfl⟩ | ⟨old, hold, u, rfl⟩
    · exact Or.inl ⟨v t, rfl⟩
    · exact Or.inr ⟨old, hold, _, old.mapTargets_mapTargets u v⟩

end Grown

/-! ### Splits -/

theorem inst?_eq_none_iff : f.inst? i = none ↔ f.insts.size ≤ i.index :=
  Array.getElem?_eq_none_iff

/-- Past the branch of a split there is nothing. -/
theorem inst?_split?_eq_none (h : f.split? b cut = some (f', n)) (hi : f.insts.size < i.index) :
    f'.inst? i = none := by
  obtain ⟨block, -, -, -, hinsts, -⟩ := exists_of_split? h
  rw [inst?_eq_none_iff, hinsts, Array.size_push, Array.size_mapIdx]
  exact hi

/-- A split adds a branch without a result. -/
theorem resultName?_split? (h : f.split? b cut = some (f', n)) (i : InstId) :
    f'.resultName? i = f.resultName? i := by
  rw [Func.resultName?, Func.resultName?]
  rcases Nat.lt_trichotomy i.index f.insts.size with hlt | heq | hgt
  · rw [inst?_split? h hlt]
    cases f.inst? i with
    | none => rfl
    | some inst =>
        rw [Option.map_some, Option.bind_some, Option.bind_some]
        split <;> rfl
  · have hi : i = ⟨f.insts.size⟩ := congrArg InstId.mk heq
    have hnone : f.inst? ⟨f.insts.size⟩ = none := inst?_eq_none_iff.2 (Nat.le_refl _)
    rw [hi, inst?_split?_branch h, hnone]
    rfl
  · rw [inst?_split?_eq_none h hgt, inst?_eq_none_iff.2 (Nat.le_of_lt hgt)]

theorem name_split? (h : f.split? b cut = some (f', n)) : f'.name = f.name := by
  obtain ⟨block, hblock, heq⟩ := Option.map_eq_some_iff.1 h
  cases heq
  rfl

theorem Grown.split? (h : f.split? b cut = some (f', n)) : f.Grown f' := by
  refine ⟨name_split? h, resultName?_split? h, fun i op hop => ?_⟩
  rcases Nat.lt_trichotomy i.index f.insts.size with hlt | heq | hgt
  · rw [op?_split? h hlt] at hop
    exact (Grown.refl f).op i op hop
  · have hi : i = ⟨f.insts.size⟩ := congrArg InstId.mk heq
    rw [hi, op?_split?_branch h] at hop
    exact Or.inl ⟨n, (Option.some.inj hop).symm⟩
  · rw [op?, inst?_split?_eq_none h hgt] at hop
    cases hop

/-! ### Moves and new targets -/

theorem Grown.reordered (h : f.Reordered f') (hname : f'.name = f.name) : f.Grown f' := by
  have hinst : ∀ i, f'.inst? i = f.inst? i := fun i => by rw [inst?, inst?, h.insts]
  refine ⟨hname, fun i => ?_, fun i op hop => ?_⟩
  · rw [Func.resultName?, Func.resultName?, hinst]
  · rw [h.op?] at hop
    exact (Grown.refl f).op i op hop

@[simp] theorem name_moveBefore (f : Func) (b anchor : BlockId) :
    (f.moveBefore b anchor).name = f.name := by
  unfold moveBefore
  split <;> rfl

@[simp] theorem name_moveToEnd (f : Func) (b : BlockId) : (f.moveToEnd b).name = f.name := by
  unfold moveToEnd
  split <;> rfl

theorem name_retarget (f : Func) (b old new : BlockId) :
    (f.retarget b old new).1.name = f.name := by
  unfold retarget
  split <;> rfl

theorem resultName?_retarget (f : Func) (b old new : BlockId) (i : InstId) :
    (f.retarget b old new).1.resultName? i = f.resultName? i := by
  rw [resultName?, resultName?, inst?_retarget]
  split
  · cases f.inst? i <;> rfl
  · rfl

/-- An instruction after a retargeting is one before, perhaps with other targets. -/
theorem exists_of_op?_retarget {op : Operation} {b old new : BlockId}
    (h : (f.retarget b old new).1.op? i = some op) :
    ∃ old ∈ f.op? i, ∃ u : BlockId → BlockId, op = old.mapTargets u := by
  rw [op?_retarget] at h
  split at h
  · obtain ⟨x, hx, rfl⟩ := Option.map_eq_some_iff.1 h
    exact ⟨x, hx, _, rfl⟩
  · exact ⟨op, h, _, op.mapTargets_id.symm⟩

theorem Grown.retarget (f : Func) (b old new : BlockId) : f.Grown (f.retarget b old new).1 :=
  ⟨name_retarget f b old new, resultName?_retarget f b old new, fun _ _ hop =>
    Or.inr (exists_of_op?_retarget hop)⟩

theorem Grown.retargetAll (edges : List (BlockId × BlockId × BlockId)) :
    ∀ f : Func, f.Grown (f.retargetAll edges).1 := by
  induction edges with
  | nil => exact Grown.refl
  | cons e es ih =>
      intro f
      obtain ⟨source, old, new⟩ := e
      exact (Grown.retarget f source old new).trans (ih _)

/-- Retargetings leave the blocks alone. -/
theorem blocks_retargetAll (edges : List (BlockId × BlockId × BlockId)) :
    ∀ f : Func, (f.retargetAll edges).1.blocks = f.blocks := by
  induction edges with
  | nil => exact fun _ => rfl
  | cons e es ih =>
      intro f
      obtain ⟨source, old, new⟩ := e
      exact (ih _).trans (f.blocks_retarget source old new)

/-- An instruction after retargetings is one before, perhaps with other targets. -/
theorem exists_of_op?_retargetAll {op : Operation} (edges : List (BlockId × BlockId × BlockId)) :
    ∀ {f : Func}, (f.retargetAll edges).1.op? i = some op →
      ∃ old ∈ f.op? i, ∃ u : BlockId → BlockId, op = old.mapTargets u := by
  induction edges with
  | nil => exact fun h => ⟨op, h, _, op.mapTargets_id.symm⟩
  | cons e es ih =>
      intro f h
      obtain ⟨source, old, new⟩ := e
      obtain ⟨mid, hmid, u, rfl⟩ := ih h
      obtain ⟨first, hfirst, v, rfl⟩ := exists_of_op?_retarget hmid
      exact ⟨first, hfirst, _, first.mapTargets_mapTargets v u⟩

/-! ### Legible functions -/

namespace Legible

/-- A legible function grows into a legible function, if that is well-formed and its labels are
names. -/
theorem of_grown (hf : f.Legible) (hg : g.WellFormed) (hfg : f.Grown g)
    (hlabels : ∀ b ∈ g.layout, ∀ n ∈ g.blockName? b, IsName n) : g.Legible := by
  refine ⟨hg, hfg.name ▸ hf.name_word, hlabels, fun i n hn => ?_, fun i j n hi hj => ?_,
    fun i op hop => ?_, fun i op hop j hj => ?_⟩
  · rw [hfg.resultName?] at hn
    exact hf.result_name i n hn
  · rw [hfg.resultName?] at hi hj
    exact hf.result_inj i j n hi hj
  · rcases hfg.op i op hop with ⟨t, rfl⟩ | ⟨old, hold, u, rfl⟩
    · exact Operation.legal_br t
    · exact (hf.op_legal i old hold).mapTargets u
  · rw [hfg.resultName?]
    rcases hfg.op i op hop with ⟨t, rfl⟩ | ⟨old, hold, u, rfl⟩
    · cases hj
    · rw [Operation.operands_mapTargets] at hj
      exact hf.value_named i old hold j hj

/-- The label of a part that is split off is a name. -/
theorem isName_freshSplitName {base : String} (f : Func) (h : IsName base) :
    IsName (f.freshSplitName base) := by
  obtain ⟨number, heq, hdigits⟩ := f.exists_freshSplitName_eq base
  have hsuffix : ".split".toList.all isNameChar = true := by decide
  rw [heq]
  have hbase := h.append (List.all_eq_true.1 hsuffix)
  exact hbase.append fun c hc => isNameChar_of_isDigit (hdigits c hc)

/-- A split that cuts something off keeps a function legible. -/
theorem split? (hf : f.Legible) (h : f.split? b cut = some (f', n))
    (hcut : cut < (f.blockInsts b).length) : f'.Legible := by
  refine hf.of_grown (hf.toWellFormed.split? h hcut) (Grown.split? h) fun a ha label hlabel => ?_
  by_cases han : a = n
  · obtain ⟨base, hbase, hnew⟩ := blockName?_split?_new h
    rw [han, hnew] at hlabel
    cases hlabel
    exact isName_freshSplitName f (hf.label_name b (hf.split?_mem h) base hbase)
  · rw [blockName?_split?_of_ne h han] at hlabel
    exact hf.label_name a (((mem_layout_split? h).1 ha).resolve_left han) label hlabel

end Legible

end Func

end LoopSwap
