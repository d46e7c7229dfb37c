/-
**What reading guarantees.**

A program that is read from a text needs no further checks.  Names are told apart by kind and place:
no two functions of the program have the same one, and within a function no two blocks and no two
results.  The ids are the places in the text, so the layout counts up and an instruction is found in
the one block that it names.  Every block ends in its only terminator, and every reference, forward
or backward, leads to something that is there.

Main results:

* `LoopSwap.Func.Intact.mem_blockInsts_iff` — an instruction is in the block that it names only;
* `LoopSwap.Func.Flowing.exists_blockInsts_eq` — a block is its terminator after instructions that
  are no terminators;
* `LoopSwap.Program.read_sound` — what holds of everything that is read.
-/

import LoopSwap.Proofs.Code.RoundTrip

set_option relaxedAutoImplicit false
set_option autoImplicit false

namespace LoopSwap

namespace Func

variable {f : Func} {a b : BlockId} {i : InstId} {inst : Inst}

/-! ### Blocks and their instructions -/

/-- The blocks of a function with its ids in order count up. -/
theorem layout_of_renumbered_eq (hf : f.Intact) (h : f.renumbered = f) :
    f.layout = (List.range f.blocks.size).map BlockId.mk := by
  have hlength : f.layout.length = f.blocks.size := by
    rw [hf.layout_perm.length_eq, blockIds, List.length_map, List.length_range]
  have hlayout : (List.range f.layout.length).map BlockId.mk = f.layout := congrArg layout h
  rw [← hlength]
  exact hlayout.symm

/-- An instruction is in the block that it names and in no other. -/
theorem Intact.mem_blockInsts_iff (hf : f.Intact) (hi : f.inst? i = some inst) :
    i ∈ f.blockInsts b ↔ b = inst.block := by
  have howner : ∀ {c}, i ∈ f.blockInsts c → c = inst.block := by
    intro c hc
    have hown := hf.owner c (hf.mem_layout_of_mem_blockInsts hc) i hc
    rw [hi, Option.map_some] at hown
    exact (Option.some.inj hown).symm
  constructor
  · exact howner
  · rintro rfl
    obtain ⟨c, -, hc⟩ := List.mem_flatMap.1 (hf.mem_instIds_of_inst? hi)
    exact howner hc ▸ hc

/-- A block is its terminator after instructions that are no terminators. -/
theorem Flowing.exists_blockInsts_eq (hf : f.Flowing) (hb : b ∈ f.layout) :
    ∃ front last, f.blockInsts b = front ++ [last] ∧
      (∃ op, f.op? last = some op ∧ op.isTerminator = true) ∧
      ∀ i ∈ front, ∃ op, f.op? i = some op ∧ op.isTerminator = false := by
  have hne := hf.blockInsts_ne_nil hb
  have hsplit := List.dropLast_append_getLast hne
  refine ⟨_, _, hsplit.symm, ?_, fun i hi => ?_⟩
  · obtain ⟨op, hop⟩ := Option.isSome_iff_exists.1 (hf.exitOp b hb)
    obtain ⟨t, ht, hop⟩ := Option.bind_eq_some_iff.1 hop
    rw [terminator?, Option.filter_eq_some_iff, List.getLast?_eq_some_getLast hne] at ht
    rw [Option.some.inj ht.1]
    refine ⟨op, hop, ?_⟩
    rw [hop, Option.any_some] at ht
    exact ht.2
  · obtain ⟨inst, hinst⟩ := hf.exists_inst? (List.dropLast_subset _ hi)
    have hop := op?_of_inst? hinst
    exact ⟨inst.op, hop, hf.inner b hb i hi _ hop⟩

/-- The label of a block tells which one it is. -/
theorem WellFormed.blockName?_inj (hf : f.WellFormed) {n : String} (ha : f.blockName? a = some n)
    (hb : f.blockName? b = some n) : a = b := by
  have hmem : ∀ {c}, f.blockName? c = some n → c ∈ f.layout := by
    intro c hc
    obtain ⟨block, hblock, -⟩ := Option.map_eq_some_iff.1 hc
    exact hf.mem_layout.2 (block?_isSome_iff.1 (Option.isSome_of_eq_some hblock))
  exact List.inj_on_of_nodup_map hf.names (hmem ha) (hmem hb) (ha.trans hb.symm)

end Func

/-! ### Programs -/

namespace Program

/-- **What is read is in order.**  No two functions of a program that is read have the same name.
In each of them, no two blocks and no two results have the same name; the layout counts the blocks
up; every instruction is in exactly one block, once, and that is the block it names; a block is a
terminator after instructions that are none; every target is a block other than the first one; and
every value that is taken is the result of an instruction and has a name. -/
theorem read_sound {text : String} {p : Program} (h : read text = .ok p) :
    (p.functions.map (·.name)).Nodup ∧ ∀ f ∈ p.functions,
      (∀ a b n, f.blockName? a = some n → f.blockName? b = some n → a = b) ∧
      (∀ i j n, f.resultName? i = some n → f.resultName? j = some n → i = j) ∧
      f.layout = (List.range f.blocks.size).map BlockId.mk ∧
      (∀ i inst, f.inst? i = some inst → ∀ b, i ∈ f.blockInsts b ↔ b = inst.block) ∧
      (∀ b ∈ f.layout, (f.blockInsts b).Nodup ∧ ∃ front last, f.blockInsts b = front ++ [last] ∧
        (∃ op, f.op? last = some op ∧ op.isTerminator = true) ∧
        ∀ i ∈ front, ∃ op, f.op? i = some op ∧ op.isTerminator = false) ∧
      ∀ i op, f.op? i = some op →
        (∀ t ∈ op.targets, t ∈ f.layout ∧ f.entry? ≠ some t) ∧
        ∀ j, .value j ∈ op.operands →
          ∃ inst n, f.inst? j = some inst ∧ inst.name = some n := by
  refine ⟨names_of_read h, fun f hmem => ?_⟩
  have hf := legible_of_read h f hmem
  refine ⟨fun a b n ha hb => hf.blockName?_inj ha hb, hf.result_inj,
    Func.layout_of_renumbered_eq hf.toIntact (renumbered_of_read h f hmem),
    fun i inst hi b => hf.mem_blockInsts_iff hi,
    fun b hb => ⟨hf.nodup_blockInsts b, hf.exists_blockInsts_eq hb⟩, fun i op hop => ⟨?_, ?_⟩⟩
  · obtain ⟨inst, hinst, -⟩ := Option.map_eq_some_iff.1 hop
    obtain ⟨b, hb, hi⟩ := List.mem_flatMap.1 (hf.mem_instIds_of_inst? hinst)
    exact hf.targets_of_op? hb hi hop
  · intro j hj
    obtain ⟨n, hn⟩ := Option.isSome_iff_exists.1 (hf.value_named i op hop j hj)
    obtain ⟨inst, hinst, hname⟩ := Option.bind_eq_some_iff.1 hn
    exact ⟨inst, n, hinst, hname⟩

/-- In the mixed text, the value that the first branch takes is defined in a later block. -/
theorem read_sound_mixed : read mixedText = .ok mixedProgram ∧
    ∀ f ∈ mixedProgram.functions, f.layout = (List.range f.blocks.size).map BlockId.mk ∧
      ∀ i op, f.op? i = some op → ∀ j, .value j ∈ op.operands →
        ∃ inst n, f.inst? j = some inst ∧ inst.name = some n := by
  have hread : read mixedText = .ok mixedProgram := by decide +kernel
  refine ⟨hread, fun f hf => ?_⟩
  obtain ⟨-, -, hlayout, -, -, hop⟩ := (read_sound hread).2 f hf
  exact ⟨hlayout, fun i op h => (hop i op h).2⟩

end Program

end LoopSwap
