/-
**Cutting a block in two, by edges.**

A block that is cut before one of its instructions goes on to a new block, and the new block ends
as the old one did.  Every other block ends as before, so an edge of the new function is the one
between the two parts or an edge of the old function, which starts in the second part if it started
in the block that was cut.

Main definitions:

* `LoopSwap.Func.Parted` — a function from one of whose blocks a part may have been split off.

Main results:

* `LoopSwap.Func.exists_of_split?` — what a split makes;
* `LoopSwap.Func.Intact.split?`, `LoopSwap.Func.Flowing.split?` — a split keeps a function intact,
  and flowing if a part of the block is cut off;
* `LoopSwap.Func.Flowing.edge_split?` — the edges after a split.
-/

import LoopSwap.Proofs.Code.WellFormed

set_option relaxedAutoImplicit false
set_option autoImplicit false

namespace LoopSwap

theorem mem_insertAfter {α : Type} [DecidableEq α] {a anchor x : α} {l : List α} :
    x ∈ insertAfter a anchor l ↔ x = a ∨ x ∈ l := by
  rw [(insertAfter_perm a anchor l).mem_iff, List.mem_cons]

theorem head?_insertAfter {α : Type} [DecidableEq α] {a anchor : α} {l : List α} (hl : l ≠ []) :
    (insertAfter a anchor l).head? = l.head? := by
  cases l with
  | nil => exact absurd rfl hl
  | cons x l =>
      rw [insertAfter]
      split <;> rfl

/-- Putting the end of a list first and a new element last loses nothing. -/
theorem perm_drop_take_concat {α : Type} (l : List α) (cut : Nat) (x : α) :
    (l.drop cut ++ (l.take cut ++ [x])).Perm (x :: l) := by
  refine List.perm_append_comm.trans ?_
  rw [List.append_assoc, List.singleton_append]
  refine List.perm_middle.trans ?_
  rw [List.take_append_drop]

/-- The end of a list has its last element in common with the list. -/
theorem mem_dropLast_of_mem_drop {α : Type} {l : List α} {cut : Nat} {x : α}
    (hx : x ∈ (l.drop cut).dropLast) : x ∈ l.dropLast := by
  have hne : l.drop cut ≠ [] := by
    intro hnil
    rw [hnil] at hx
    cases hx
  rw [← List.take_append_drop cut l, List.dropLast_append_of_ne_nil hne]
  exact List.mem_append_right _ hx

namespace Func

variable {f f' : Func} {a b n t : BlockId} {i : InstId} {cut : Nat}

/-! ### The two parts -/

/-- What a split makes: a block whose instructions from `cut` on go to a new block, and a branch
between the two. -/
theorem exists_of_split? (h : f.split? b cut = some (f', n)) :
    ∃ block, f.block? b = some block ∧ n = ⟨f.blocks.size⟩ ∧
      f'.blocks = (f.blocks.setIfInBounds b.index
        { block with insts := block.insts.take cut ++ [⟨f.insts.size⟩] }).push
          ⟨f.freshSplitName block.name, block.insts.drop cut⟩ ∧
      f'.insts = (f.insts.mapIdx fun k inst =>
        if ⟨k⟩ ∈ block.insts.drop cut then { inst with block := n } else inst).push
          ⟨none, .br n, b⟩ ∧
      f'.layout = insertAfter n b f.layout := by
  obtain ⟨block, hblock, heq⟩ := Option.map_eq_some_iff.1 h
  cases heq
  exact ⟨block, hblock, rfl, rfl, rfl, rfl⟩

theorem split?_new (h : f.split? b cut = some (f', n)) : n = ⟨f.blocks.size⟩ := by
  obtain ⟨block, -, hn, -⟩ := exists_of_split? h
  exact hn

theorem layout_split? (h : f.split? b cut = some (f', n)) :
    f'.layout = insertAfter n b f.layout := by
  obtain ⟨block, -, -, -, -, hlayout⟩ := exists_of_split? h
  exact hlayout

theorem mem_layout_split? (h : f.split? b cut = some (f', n)) :
    a ∈ f'.layout ↔ a = n ∨ a ∈ f.layout := by
  rw [layout_split? h, mem_insertAfter]

/-- A split keeps the entry. -/
theorem entry?_split? (h : f.split? b cut = some (f', n)) (hl : f.layout ≠ []) :
    f'.entry? = f.entry? := by
  show f'.layout.head? = f.layout.head?
  rw [layout_split? h, head?_insertAfter hl]

theorem blockInsts_split?_self (h : f.split? b cut = some (f', n)) :
    f'.blockInsts b = (f.blockInsts b).take cut ++ [⟨f.insts.size⟩] := by
  obtain ⟨block, hblock, -, hblocks, -⟩ := exists_of_split? h
  obtain ⟨hlt, -⟩ := Array.getElem?_eq_some_iff.1 hblock
  have hb : f'.block? b =
      some { block with insts := block.insts.take cut ++ [⟨f.insts.size⟩] } := by
    rw [block?, hblocks, Array.getElem?_push, Array.size_setIfInBounds, if_neg (Nat.ne_of_lt hlt),
      Array.getElem?_setIfInBounds, if_pos rfl, if_pos hlt]
  rw [blockInsts, hb, blockInsts, hblock]
  rfl

theorem blockInsts_split?_new (h : f.split? b cut = some (f', n)) :
    f'.blockInsts n = (f.blockInsts b).drop cut := by
  obtain ⟨block, hblock, rfl, hblocks, -⟩ := exists_of_split? h
  have hn : f'.block? ⟨f.blocks.size⟩ =
      some ⟨f.freshSplitName block.name, block.insts.drop cut⟩ := by
    rw [block?, hblocks, Array.getElem?_push, Array.size_setIfInBounds, if_pos rfl]
  rw [blockInsts, hn, blockInsts, hblock]
  rfl

theorem block?_split?_of_ne (h : f.split? b cut = some (f', n)) (hab : a ≠ b) (han : a ≠ n) :
    f'.block? a = f.block? a := by
  obtain ⟨block, -, rfl, hblocks, -⟩ := exists_of_split? h
  have hindex : ∀ c : BlockId, a ≠ c → c.index ≠ a.index := by
    rintro ⟨k⟩ hc rfl
    exact hc rfl
  rw [block?, block?, hblocks, Array.getElem?_push, Array.size_setIfInBounds,
    if_neg (Ne.symm (hindex _ han)), Array.getElem?_setIfInBounds, if_neg (hindex b hab)]

theorem blockInsts_split?_of_ne (h : f.split? b cut = some (f', n)) (hab : a ≠ b) (han : a ≠ n) :
    f'.blockInsts a = f.blockInsts a := by
  rw [blockInsts, blockInsts, block?_split?_of_ne h hab han]

/-- The arena of blocks grows by the part that is split off. -/
theorem blockIds_split? (h : f.split? b cut = some (f', n)) : f'.blockIds = f.blockIds ++ [n] := by
  obtain ⟨block, -, rfl, hblocks, -⟩ := exists_of_split? h
  rw [blockIds, hblocks, Array.size_push, Array.size_setIfInBounds, List.range_succ,
    List.map_append]
  rfl

/-- The arena of instructions grows by the branch between the two parts. -/
theorem arenaInsts_split? (h : f.split? b cut = some (f', n)) :
    f'.arenaInsts = f.arenaInsts ++ [⟨f.insts.size⟩] := by
  obtain ⟨block, -, -, -, hinsts, -⟩ := exists_of_split? h
  rw [arenaInsts, hinsts, Array.size_push, Array.size_mapIdx, List.range_succ, List.map_append]
  rfl

/-- The instructions that were there, in the block they are in after the split. -/
theorem inst?_split? (h : f.split? b cut = some (f', n)) (hi : i.index < f.insts.size) :
    f'.inst? i = (f.inst? i).map fun inst =>
      if i ∈ (f.blockInsts b).drop cut then { inst with block := n } else inst := by
  obtain ⟨block, hblock, -, -, hinsts, -⟩ := exists_of_split? h
  rw [inst?, hinsts, Array.getElem?_push, Array.size_mapIdx, if_neg (Nat.ne_of_lt hi),
    Array.getElem?_mapIdx, blockInsts, hblock]
  rfl

/-- The branch between the two parts. -/
theorem inst?_split?_branch (h : f.split? b cut = some (f', n)) :
    f'.inst? ⟨f.insts.size⟩ = some ⟨none, .br n, b⟩ := by
  obtain ⟨block, -, -, -, hinsts, -⟩ := exists_of_split? h
  rw [inst?, hinsts, Array.getElem?_push, Array.size_mapIdx, if_pos rfl]

theorem op?_split? (h : f.split? b cut = some (f', n)) (hi : i.index < f.insts.size) :
    f'.op? i = f.op? i := by
  rw [op?, op?, inst?_split? h hi, Option.map_map]
  congr 1
  funext inst
  simp only [Function.comp_apply]
  split <;> rfl

theorem op?_split?_branch (h : f.split? b cut = some (f', n)) :
    f'.op? ⟨f.insts.size⟩ = some (.br n) := by
  rw [op?, inst?_split?_branch h]
  rfl

/-! ### Intact functions stay intact -/

namespace Intact

theorem lt_of_mem_blockInsts (hf : f.Intact) (hi : i ∈ f.blockInsts b) :
    i.index < f.insts.size :=
  hf.mem_instIds.1 (List.mem_flatMap.2 ⟨b, hf.mem_layout_of_mem_blockInsts hi, hi⟩)

/-- The part that is split off is new. -/
theorem split?_not_mem (hf : f.Intact) (h : f.split? b cut = some (f', n)) : n ∉ f.layout := by
  rw [hf.mem_layout, split?_new h]
  exact Nat.lt_irrefl _

theorem split?_ne (hf : f.Intact) (h : f.split? b cut = some (f', n)) (ha : a ∈ f.layout) :
    a ≠ n := by
  rintro rfl
  exact hf.split?_not_mem h ha

theorem split?_mem (hf : f.Intact) (h : f.split? b cut = some (f', n)) : b ∈ f.layout := by
  obtain ⟨block, hblock, -⟩ := exists_of_split? h
  obtain ⟨hlt, -⟩ := Array.getElem?_eq_some_iff.1 hblock
  exact hf.mem_layout.2 hlt

/-- The instructions after a split are those before it and the branch between the two parts. -/
theorem instIds_split? (hf : f.Intact) (h : f.split? b cut = some (f', n)) :
    f'.instIds.Perm (⟨f.insts.size⟩ :: f.instIds) := by
  have hb := hf.split?_mem h
  have hrest : ∀ l : List BlockId, b ∉ l → n ∉ l →
      l.flatMap f'.blockInsts = l.flatMap f.blockInsts := by
    intro l hbl hnl
    refine List.flatMap_congr fun a ha => ?_
    exact blockInsts_split?_of_ne h (fun hab => hbl (hab ▸ ha)) (fun han => hnl (han ▸ ha))
  -- bring the block that is cut to the front, with the part that is cut off behind it
  have hold := List.perm_cons_erase hb
  have hnb : b ∉ f.layout.erase b := fun hmem => (hf.nodup_layout.mem_erase_iff.1 hmem).1 rfl
  have hnn : n ∉ f.layout.erase b := fun hmem => hf.split?_not_mem h (List.mem_of_mem_erase hmem)
  have hnew : f'.layout.Perm (n :: b :: f.layout.erase b) := by
    rw [layout_split? h]
    exact (insertAfter_perm n b f.layout).trans (hold.cons n)
  refine (hnew.flatMap_right _).trans ?_
  rw [List.flatMap_cons, List.flatMap_cons, blockInsts_split?_new h, blockInsts_split?_self h,
    hrest _ hnb hnn]
  have hparts := perm_drop_take_concat (f.blockInsts b) cut ⟨f.insts.size⟩
  rw [← List.append_assoc]
  exact (hparts.append_right _).trans ((hold.flatMap_right _).symm.cons _)

/-- Every split keeps a function intact. -/
theorem split? (hf : f.Intact) (h : f.split? b cut = some (f', n)) : f'.Intact := by
  refine ⟨?_, ?_, fun a ha i hi => ?_⟩
  · rw [layout_split? h, blockIds_split? h]
    refine (insertAfter_perm _ b _).trans ?_
    exact (hf.layout_perm.cons _).trans (List.perm_append_singleton _ _).symm
  · rw [arenaInsts_split? h]
    refine (hf.instIds_split? h).trans ?_
    exact (hf.insts_perm.cons _).trans (List.perm_append_singleton _ _).symm
  · have hlt : ∀ c j, j ∈ f.blockInsts c → j.index < f.insts.size :=
      fun c j hj => hf.lt_of_mem_blockInsts hj
    by_cases han : a = n
    · subst han
      rw [blockInsts_split?_new h] at hi
      have hib := List.mem_of_mem_drop hi
      obtain ⟨inst, hinst, -⟩ := Option.map_eq_some_iff.1 (hf.owner b (hf.split?_mem h) i hib)
      rw [inst?_split? h (hlt b i hib), hinst, Option.map_some, Option.map_some, if_pos hi]
    · have ha' : a ∈ f.layout := ((mem_layout_split? h).1 ha).resolve_left han
      have hold : ∀ j ∈ f.blockInsts a, j ∉ (f.blockInsts b).drop cut →
          (f'.inst? j).map (·.block) = some a := by
        intro j hj hdrop
        rw [inst?_split? h (hlt a j hj), Option.map_map, ← hf.owner a ha' j hj]
        congr 1
        funext inst
        rw [Function.comp_apply, if_neg hdrop]
      by_cases hab : a = b
      · subst hab
        rw [blockInsts_split?_self h] at hi
        rcases List.mem_append.1 hi with hi | hi
        · refine hold i (List.mem_of_mem_take hi) fun hdrop => ?_
          have hnodup := hf.nodup_blockInsts a
          rw [← List.take_append_drop cut (f.blockInsts a)] at hnodup
          exact List.disjoint_of_nodup_append hnodup hi hdrop
        · rw [List.mem_singleton.1 hi, inst?_split?_branch h]
          rfl
      · rw [blockInsts_split?_of_ne h hab han] at hi
        exact hold i hi fun hdrop => hab (hf.blockInsts_inj hi (List.mem_of_mem_drop hdrop))

end Intact

/-! ### How blocks end -/

theorem exitOp?_split?_self (h : f.split? b cut = some (f', n)) : f'.exitOp? b = some (.br n) := by
  have hop := op?_split?_branch h
  have hterm : f'.terminator? b = some ⟨f.insts.size⟩ := by
    rw [terminator?, blockInsts_split?_self h, List.getLast?_concat, Option.filter_some, hop]
    rfl
  rw [exitOp?, hterm, Option.bind_some, hop]

/-- Blocks with the same last instruction end in the same way. -/
theorem exitOp?_congr (hlast : (f'.blockInsts a).getLast? = (f.blockInsts b).getLast?)
    (hop : ∀ i ∈ f.blockInsts b, f'.op? i = f.op? i) : f'.exitOp? a = f.exitOp? b := by
  rw [exitOp?, exitOp?, terminator?, terminator?, hlast]
  cases hl : (f.blockInsts b).getLast? with
  | none => rfl
  | some i =>
      have hi := hop i (List.mem_of_getLast? hl)
      rw [Option.filter_some, Option.filter_some, hi]
      split
      · exact hi
      · rfl

theorem exitOp?_split?_of_ne (hf : f.Intact) (h : f.split? b cut = some (f', n)) (hab : a ≠ b)
    (han : a ≠ n) : f'.exitOp? a = f.exitOp? a := by
  refine exitOp?_congr ?_ fun i hi => op?_split? h (hf.lt_of_mem_blockInsts hi)
  rw [blockInsts_split?_of_ne h hab han]

/-- The part that is split off ends as the block did. -/
theorem exitOp?_split?_new (hf : f.Intact) (h : f.split? b cut = some (f', n))
    (hcut : cut < (f.blockInsts b).length) : f'.exitOp? n = f.exitOp? b := by
  refine exitOp?_congr ?_ fun i hi => op?_split? h (hf.lt_of_mem_blockInsts hi)
  rw [blockInsts_split?_new h, List.getLast?_drop, if_neg (Nat.not_le_of_lt hcut)]

/-! ### Flowing functions stay flowing -/

namespace Flowing

variable (hf : f.Flowing) (h : f.split? b cut = some (f', n))
  (hcut : cut < (f.blockInsts b).length)

include hf h in
theorem entry?_split? : f'.entry? = f.entry? :=
  Func.entry?_split? h (List.ne_nil_of_mem (hf.split?_mem h))

include h in
theorem successors_split?_self : f'.successors b = [n] := by
  rw [successors, exitOp?_split?_self h]
  rfl

include hf h in
theorem successors_split?_of_ne (hab : a ≠ b) (han : a ≠ n) :
    f'.successors a = f.successors a := by
  rw [successors, exitOp?_split?_of_ne hf.toIntact h hab han]
  rfl

include hf h hcut

theorem successors_split?_new : f'.successors n = f.successors b := by
  rw [successors, exitOp?_split?_new hf.toIntact h hcut]
  rfl

/-- A split that cuts something off keeps a function flowing. -/
theorem split? : f'.Flowing := by
  have hb := hf.split?_mem h
  have hentry := hf.entry?_split? h
  have hne := hf.split?_ne h hb
  -- a block of the new function is the new part, the old part, or as it was
  have hcases : ∀ a ∈ f'.layout, a = n ∨ a = b ∨ a ∈ f.layout ∧ a ≠ b ∧ a ≠ n := by
    intro a ha
    by_cases han : a = n
    · exact Or.inl han
    · by_cases hab : a = b
      · exact Or.inr (Or.inl hab)
      · exact Or.inr (Or.inr ⟨((mem_layout_split? h).1 ha).resolve_left han, hab, han⟩)
  have htarget : ∀ a ∈ f.layout, ∀ t ∈ f.successors a, t ∈ f'.layout ∧ f'.entry? ≠ some t := by
    intro a ha t ht
    rw [mem_layout_split? h, hentry]
    exact ⟨Or.inr (hf.target a ha t ht).1, (hf.target a ha t ht).2⟩
  refine ⟨hf.toIntact.split? h, fun a ha => ?_, fun a ha i hi => ?_, fun a ha t ht => ?_⟩
  · rcases hcases a ha with rfl | rfl | ⟨ha, hab, han⟩
    · rw [exitOp?_split?_new hf.toIntact h hcut]
      exact hf.exitOp b hb
    · rw [exitOp?_split?_self h]
      rfl
    · rw [exitOp?_split?_of_ne hf.toIntact h hab han]
      exact hf.exitOp a ha
  · have hold : ∀ c ∈ f.layout, i ∈ (f.blockInsts c).dropLast →
        ∀ op ∈ f'.op? i, op.isTerminator = false := by
      intro c hc hic op hop
      rw [op?_split? h (hf.lt_of_mem_blockInsts (List.dropLast_subset _ hic))] at hop
      exact hf.inner c hc i hic op hop
    rcases hcases a ha with rfl | rfl | ⟨ha, hab, han⟩
    · rw [blockInsts_split?_new h] at hi
      exact hold b hb (mem_dropLast_of_mem_drop hi)
    · rw [blockInsts_split?_self h, List.dropLast_concat] at hi
      refine hold a hb ?_
      rw [List.dropLast_eq_take]
      exact List.take_subset_take_left _ (Nat.le_sub_one_of_lt hcut) hi
    · rw [blockInsts_split?_of_ne h hab han] at hi
      exact hold a ha hi
  · rcases hcases a ha with rfl | rfl | ⟨ha, hab, han⟩
    · rw [hf.successors_split?_new h hcut] at ht
      exact htarget b hb t ht
    · rw [successors_split?_self h, List.mem_singleton] at ht
      rw [ht, mem_layout_split? h, hentry]
      refine ⟨Or.inl rfl, fun he => hf.split?_not_mem h ?_⟩
      exact List.mem_of_head? he
    · rw [hf.successors_split?_of_ne h hab han] at ht
      exact htarget a ha t ht

/-- The edges after a split. -/
theorem edge_split? : f'.graph.Edge a t ↔
    a = b ∧ t = n ∨ a = n ∧ f.graph.Edge b t ∨ a ≠ b ∧ f.graph.Edge a t := by
  have hne := hf.split?_ne h (hf.split?_mem h)
  rw [(hf.split? h hcut).edge_iff, hf.edge_iff, hf.edge_iff]
  by_cases hab : a = b
  · subst hab
    rw [successors_split?_self h, List.mem_singleton]
    simp [hne]
  · by_cases han : a = n
    · subst han
      rw [hf.successors_split?_new h hcut]
      have hnew : t ∉ f.successors a := fun ht =>
        hf.split?_not_mem h (hf.mem_layout_of_mem_successors ht)
      simp [hab, hnew]
    · rw [hf.successors_split?_of_ne h hab han]
      simp [hab, han]

end Flowing

/-- `f'` is `f`, from whose block `b` a part may have been split off. -/
def Parted (f f' : Func) (b : BlockId) : Prop :=
  f' = f ∨ ∃ k n, k < (f.blockInsts b).length ∧ f.split? b k = some (f', n)

end Func

end LoopSwap
