/-
**The draft that a function is written as.**

A function is written by writing names in the place of its ids.  What stands on paper then is a
draft, and the text of the function is the text of this draft.  If the function is legible, then so
is its draft.

Main definitions:

* `LoopSwap.Func.draft` — the function with names in the place of ids.

Main results:

* `LoopSwap.Func.print_eq` — the text of a function is that of its draft;
* `LoopSwap.Func.Flowing.targets_of_op?` — only the terminators of blocks have targets;
* `LoopSwap.Func.Legible.draft` — the draft of a legible function is legible.
-/

import LoopSwap.Proofs.Code.Legible

set_option relaxedAutoImplicit false
set_option autoImplicit false

namespace LoopSwap

namespace Func

variable {f : Func} {b : BlockId} {i : InstId} {op : Operation} {inst : Inst}

/-! ### Names in the place of ids -/

/-- The label of a block as it is written. -/
def label (f : Func) (b : BlockId) : String := (f.blockName? b).getD "?"

/-- An operand with its name. -/
def draftOperand (f : Func) : Operand → DraftOperand
  | .value i => .value ((f.resultName? i).getD "?")
  | .const v => .const v
  | .location name => .location name

/-- A target with its label. -/
def draftTarget (f : Func) (b : BlockId) : DraftOperand := .block (f.label b)

/-- What stands after the opcode of an operation. -/
def draftArguments (f : Func) : Operation → List DraftOperand
  | .const v => [.const v]
  | .br target => [f.draftTarget target]
  | .condBr cond onTrue onFalse =>
    [f.draftOperand cond, f.draftTarget onTrue, f.draftTarget onFalse]
  | op => op.operands.map f.draftOperand

/-- An instruction as it is written, in line `line`. -/
def draftInst (f : Func) (line : Nat) (inst : Inst) : DraftInst :=
  ⟨line, inst.name, inst.op.opcode, f.draftArguments inst.op⟩

/-- The records of the instructions of a block. -/
def records (f : Func) (b : BlockId) : List Inst := (f.blockInsts b).filterMap f.inst?

/-- A block as it is written. -/
def draftBlock (f : Func) (b : BlockId) : DraftBlock :=
  ⟨f.label b, (f.records b).map (f.draftInst 0)⟩

/-- The function with names in the place of ids. -/
def draft (f : Func) : DraftFunc := ⟨f.name, f.layout.map f.draftBlock⟩

/-! ### The text -/

theorem operandCode_eq (f : Func) (o : Operand) : f.operandCode o = (f.draftOperand o).code := by
  cases o <;> rfl

theorem operandsCode_eq (f : Func) (os : List Operand) :
    f.operandsCode os = DraftOperand.listCode (os.map f.draftOperand) := by
  fun_induction operandsCode f os with
  | case1 => rfl
  | case2 o => rw [operandCode_eq]; rfl
  | case3 o os hne ih =>
      cases os with
      | nil => exact absurd rfl hne
      | cons o' os =>
          rw [ih, operandCode_eq]
          rfl

theorem targetCode_eq (f : Func) (b : BlockId) : f.targetCode b = (f.draftTarget b).code := rfl

theorem opCode_eq (f : Func) (op : Operation) :
    f.opCode op = op.opcode ++ DraftOperand.listCode (f.draftArguments op) := by
  have hcomma : ", " = "," ++ " " := by decide
  cases op with
  | const v =>
      have hsign : "const " = "const" ++ " " := by decide
      rw [opCode, hsign, String.append_assoc]
      rfl
  | br target =>
      have hsign : "br " = "br" ++ " " := by decide
      rw [opCode, hsign, String.append_assoc]
      rfl
  | condBr cond onTrue onFalse =>
      have hsign : "condbr " = "condbr" ++ " " := by decide
      simp only [opCode, Operation.opcode, draftArguments, DraftOperand.listCode, operandCode_eq,
        targetCode_eq, hsign, hcomma, String.append_assoc]
  | _ =>
      simp only [opCode, operandsCode_eq]
      rfl

theorem instLine_eq (f : Func) (line : Nat) (inst : Inst) :
    f.instLine inst = (f.draftInst line inst).code := by
  rw [instLine, opCode_eq, DraftInst.code, ← String.append_assoc]
  rfl

theorem blockLines_eq (f : Func) (b : BlockId) : f.blockLines b = (f.draftBlock b).code := by
  rw [blockLines, funext fun inst => f.instLine_eq 0 inst, DraftBlock.code, draftBlock,
    List.map_map]
  rfl

/-- The text of a function is that of its draft. -/
theorem print_eq (f : Func) : f.print = f.draft.code := by
  rw [print, funext fun b => f.blockLines_eq b, DraftFunc.code, draft, List.map_map]
  rfl

/-! ### Targets -/

/-- Only the terminators of blocks have targets. -/
theorem Flowing.targets_of_op? (hf : f.Flowing) (hb : b ∈ f.layout) (hi : i ∈ f.blockInsts b)
    (hop : f.op? i = some op) : ∀ t ∈ op.targets, t ∈ f.layout ∧ f.entry? ≠ some t := by
  intro t ht
  have hends : op.isTerminator = true := by
    cases op <;> first | rfl | cases ht
  -- an instruction before the last one is no terminator, so this is the last one
  have hne := hf.blockInsts_ne_nil hb
  have hlast : (f.blockInsts b).getLast? = some i := by
    rw [← List.dropLast_append_getLast hne, List.mem_append, List.mem_singleton] at hi
    rcases hi with hi | hi
    · rw [hf.inner b hb i hi op hop] at hends
      cases hends
    · rw [hi, List.getLast?_eq_some_getLast hne]
  have hterm : f.terminator? b = some i := by
    rw [terminator?, hlast, Option.filter_some, hop, Option.any_some, if_pos hends]
  refine hf.target b hb t (mem_successors_iff.2 ⟨op, ?_, ht⟩)
  rw [exitOp?, hterm, Option.bind_some, hop]

/-! ### Legible functions -/

theorem op?_of_inst? (h : f.inst? i = some inst) : f.op? i = some inst.op := by
  rw [op?, h]
  rfl

namespace Intact

/-- The label of a block is its name. -/
theorem blockName?_eq (hf : f.Intact) (hb : b ∈ f.layout) : f.blockName? b = some (f.label b) := by
  obtain ⟨block, hblock⟩ := Option.isSome_iff_exists.1 (hf.block?_isSome hb)
  rw [label, blockName?, hblock]
  rfl

/-- The instructions of a block have records. -/
theorem exists_inst? (hf : f.Intact) (hi : i ∈ f.blockInsts b) : ∃ inst, f.inst? i = some inst := by
  have howner := hf.owner b (hf.mem_layout_of_mem_blockInsts hi) i hi
  obtain ⟨inst, hinst, -⟩ := Option.map_eq_some_iff.1 howner
  exact ⟨inst, hinst⟩

/-- An instruction that has a record is in a block. -/
theorem mem_instIds_of_inst? (hf : f.Intact) (h : f.inst? i = some inst) : i ∈ f.instIds := by
  obtain ⟨hi, -⟩ := Array.getElem?_eq_some_iff.1 h
  exact hf.mem_instIds.2 hi

end Intact

namespace Legible

/-- A value that an instruction takes is the result of an instruction and has a name. -/
theorem exists_value (hf : f.Legible) {j : InstId} (hop : f.op? i = some op)
    (hj : .value j ∈ op.operands) : ∃ inst n, f.inst? j = some inst ∧ f.resultName? j = some n := by
  obtain ⟨n, hn⟩ := Option.isSome_iff_exists.1 (hf.value_named i op hop j hj)
  obtain ⟨inst, hinst, -⟩ := Option.bind_eq_some_iff.1 hn
  exact ⟨inst, n, hinst, hn⟩

/-- The operands of an instruction are legible. -/
theorem draftOperand (hf : f.Legible) (hop : f.op? i = some op) :
    ∀ o ∈ op.operands, (f.draftOperand o).Legible := by
  intro o ho
  cases o with
  | value j =>
      obtain ⟨-, n, -, hn⟩ := hf.exists_value hop ho
      show IsName ((f.resultName? j).getD "?")
      rw [hn]
      exact hf.result_name j n hn
  | const v => exact trivial
  | location n => exact (hf.op_legal i op hop).location n ho

/-- The targets of an instruction are legible. -/
theorem draftTarget (hf : f.Legible) (hb : b ∈ f.layout) : (f.draftTarget b).Legible :=
  hf.label_name b hb _ (hf.blockName?_eq hb)

theorem draftArguments (hf : f.Legible) (hb : b ∈ f.layout) (hi : i ∈ f.blockInsts b)
    (hop : f.op? i = some op) : ∀ o ∈ f.draftArguments op, o.Legible := by
  have hoperand := hf.draftOperand hop
  have htarget : ∀ t ∈ op.targets, (f.draftTarget t).Legible := fun t ht =>
    hf.draftTarget (hf.targets_of_op? hb hi hop t ht).1
  cases op with
  | const v => exact List.forall_mem_singleton.2 trivial
  | br target => exact List.forall_mem_singleton.2 (htarget target List.mem_cons_self)
  | condBr cond onTrue onFalse =>
      simp only [Operation.operands, Operation.targets, List.forall_mem_cons] at hoperand htarget
      simp only [Func.draftArguments, List.forall_mem_cons]
      exact ⟨hoperand.1, htarget.1, htarget.2.1, List.forall_mem_nil _⟩
  | _ => exact List.forall_mem_map.2 hoperand

/-- The draft of a legible function is legible. -/
theorem draft (hf : f.Legible) : f.draft.Legible := by
  refine ⟨hf.name_word, List.forall_mem_map.2 fun b hb => ⟨hf.draftTarget hb, ?_⟩⟩
  refine List.forall_mem_map.2 fun inst hinst => ?_
  obtain ⟨i, hi, hinst⟩ := List.mem_filterMap.1 hinst
  have hop := op?_of_inst? hinst
  refine ⟨fun n hn => ?_, (hf.op_legal i inst.op hop).opcode, hf.draftArguments hb hi hop⟩
  refine hf.result_name i n ?_
  rw [resultName?, hinst]
  exact hn

end Legible

end Func

end LoopSwap
