/-
**Functions numbered anew.**

Reading gives blocks and instructions their numbers in the order of the text.  So what is read from
the text of a function is the function with the place of each block in the layout, and of each
instruction in program order, for its id.  A function whose ids are in order already is not changed.

Main definitions:

* `LoopSwap.Func.blockPlace`, `LoopSwap.Func.instPlace` — the new ids;
* `LoopSwap.Func.renumbered` — the function with the new ids.

Main results:

* `LoopSwap.Func.Intact.renumbered_eq_ofBlocks` — numbering anew is numbering in order;
* `LoopSwap.Func.Legible.renumbered_eq_self` — ids that are in order are kept;
* `LoopSwap.Func.Legible.resolve_draft` — the draft of a function resolves to the function with the
  new ids.
-/

import LoopSwap.Proofs.Code.Written

set_option relaxedAutoImplicit false
set_option autoImplicit false

namespace LoopSwap

/-! ### New ids -/

namespace Operation

/-- The operation with every operand `o` replaced by `g o`. -/
def mapOperands (g : Operand → Operand) : Operation → Operation
  | gep base indices => gep (g base) (indices.map g)
  | load addr => load (g addr)
  | store value addr => store (g value) (g addr)
  | cast op value => cast op (g value)
  | binary op lhs rhs => binary op (g lhs) (g rhs)
  | const value => const value
  | br target => br target
  | condBr cond onTrue onFalse => condBr (g cond) onTrue onFalse
  | ret value => ret (value.map g)
  | other opcode operands => other opcode (operands.map g)

@[simp] theorem targets_mapOperands (g : Operand → Operand) (op : Operation) :
    (op.mapOperands g).targets = op.targets := by
  cases op <;> rfl

/-- An operation is not changed if its operands and targets are not. -/
theorem map_eq_self {g : Operand → Operand} {h : BlockId → BlockId} {op : Operation}
    (hg : ∀ o ∈ op.operands, g o = o) (hh : ∀ t ∈ op.targets, h t = t) :
    (op.mapOperands g).mapTargets h = op := by
  have hlist : ∀ os : List Operand, (∀ o ∈ os, g o = o) → os.map g = os := by
    intro os hos
    rw [List.map_congr_left hos, List.map_id']
  cases op with
  | gep base indices =>
      rw [operands, List.forall_mem_cons] at hg
      show gep (g base) (indices.map g) = gep base indices
      rw [hg.1, hlist indices hg.2]
  | ret value =>
      cases value with
      | none => rfl
      | some o => simp_all [mapOperands, mapTargets, operands]
  | other opcode os =>
      show other opcode (os.map g) = other opcode os
      rw [hlist os hg]
  | _ => simp_all [mapOperands, mapTargets, operands, targets]

end Operation

namespace Func

/-- The place of a block in the layout, as an id. -/
def blockPlace (f : Func) (b : BlockId) : BlockId := ⟨f.layout.idxOf b⟩

/-- The place of an instruction in program order, as an id. -/
def instPlace (f : Func) (i : InstId) : InstId := ⟨f.instIds.idxOf i⟩

/-- An operand with the new id of the value. -/
def renumberOperand (f : Func) : Operand → Operand
  | .value i => .value (f.instPlace i)
  | .const v => .const v
  | .location name => .location name

/-- An operation with the new ids of its values and targets. -/
def renumberOp (f : Func) (op : Operation) : Operation :=
  (op.mapOperands f.renumberOperand).mapTargets f.blockPlace

/-- The function with its blocks in layout order and its instructions in program order. -/
def renumbered (f : Func) : Func where
  name := f.name
  blocks := ((f.layout.filterMap f.block?).map fun block =>
    { block with insts := block.insts.map f.instPlace }).toArray
  insts := ((f.instIds.filterMap f.inst?).map fun inst =>
    ⟨inst.name, f.renumberOp inst.op, f.blockPlace inst.block⟩).toArray
  layout := (List.range f.layout.length).map BlockId.mk

end Func

/-! ### Places in lists -/

theorem map_idxOf_append {α : Type} [DecidableEq α] (mid rest : List α) : ∀ pre : List α,
    (pre ++ (mid ++ rest)).Nodup →
      mid.map (fun a => (pre ++ (mid ++ rest)).idxOf a) = List.range' pre.length mid.length := by
  induction mid with
  | nil => intro pre _; rfl
  | cons a mid ih =>
      intro pre hnodup
      have hshift : pre ++ (a :: mid ++ rest) = (pre ++ [a]) ++ (mid ++ rest) := by simp
      have hnew : a ∉ pre := fun hmem =>
        (List.nodup_append.1 hnodup).2.2 a hmem a (by simp) rfl
      have hplace : (pre ++ (a :: mid ++ rest)).idxOf a = pre.length := by
        rw [List.idxOf_append_of_notMem hnew, List.cons_append, List.idxOf_cons_self, Nat.add_zero]
      have hrest := ih (pre ++ [a]) (hshift ▸ hnodup)
      rw [List.length_append, List.length_singleton] at hrest
      rw [List.map_cons, hplace, List.length_cons, List.range'_succ, hshift, hrest]

theorem map_idxOf_self {α : Type} [DecidableEq α] {l : List α} (h : l.Nodup) :
    l.map (fun a => l.idxOf a) = List.range l.length := by
  have hplace := map_idxOf_append l [] []
  rw [List.append_nil, List.nil_append, List.length_nil, ← List.range_eq_range'] at hplace
  exact hplace h

/-- The place of a name is that of what has the name, if nothing else has it. -/
theorem idxOf?_map {α β : Type} [DecidableEq α] [BEq β] [LawfulBEq β] {g : α → β} {a : α}
    {l : List α} (ha : a ∈ l) (hinj : ∀ x ∈ l, g x = g a → x = a) :
    (l.map g).idxOf? (g a) = some (l.idxOf a) := by
  induction l with
  | nil => cases ha
  | cons x l ih =>
      rw [List.map_cons, List.idxOf?_cons, List.idxOf_cons]
      by_cases hx : x = a
      · simp [hx]
      · have hname : g x ≠ g a := fun h => hx (hinj x List.mem_cons_self h)
        have hmem : a ∈ l := (List.mem_cons.1 ha).resolve_left (Ne.symm hx)
        have hxa : (x == a) = false := beq_eq_false_iff_ne.2 hx
        rw [ih hmem fun y hy => hinj y (List.mem_cons_of_mem _ hy), hxa]
        simp [hname]

theorem map_eq_map_some_filterMap {α β : Type} {g : α → Option β} {l : List α}
    (h : ∀ a ∈ l, ∃ b, g a = some b) : l.map g = (l.filterMap g).map some := by
  induction l with
  | nil => rfl
  | cons a l ih =>
      obtain ⟨b, hb⟩ := h a List.mem_cons_self
      rw [List.map_cons, List.filterMap_cons_some hb, List.map_cons, hb,
        ih fun x hx => h x (List.mem_cons_of_mem _ hx)]

namespace Func

variable {f : Func} {b : BlockId} {i : InstId} {op : Operation} {inst : Inst}

/-! ### Numbering in order -/

/-- A block with the new ids, as a block to be numbered. -/
def body (f : Func) (b : BlockId) : String × List (Option String × Operation) :=
  (f.label b, (f.records b).map fun inst => (inst.name, f.renumberOp inst.op))

namespace Intact

theorem map_inst?_eq (hf : f.Intact) (b : BlockId) :
    (f.blockInsts b).map f.inst? = (f.records b).map some :=
  map_eq_map_some_filterMap fun _ hi => hf.exists_inst? hi

theorem length_records (hf : f.Intact) (b : BlockId) :
    (f.records b).length = (f.blockInsts b).length := by
  have h := congrArg List.length (hf.map_inst?_eq b)
  rw [List.length_map, List.length_map] at h
  exact h.symm

theorem nodup_instIds (hf : f.Intact) : f.instIds.Nodup :=
  hf.insts_perm.nodup_iff.2 f.nodup_arenaInsts

/-- The blocks of a function, numbered in layout order. -/
theorem numberBlocks_bodies (hf : f.Intact) (later : List BlockId) : ∀ earlier : List BlockId,
    f.layout = earlier ++ later →
      numberBlocks (earlier.flatMap f.blockInsts).length (later.map f.body) =
        (later.filterMap f.block?).map fun block =>
          { block with insts := block.insts.map f.instPlace } := by
  induction later with
  | nil => intro earlier _; rfl
  | cons b later ih =>
      intro earlier hlayout
      have hb : b ∈ f.layout := by
        rw [hlayout]
        exact List.mem_append_right _ List.mem_cons_self
      obtain ⟨block, hblock⟩ := Option.isSome_iff_exists.1 (hf.block?_isSome hb)
      have hinsts : f.blockInsts b = block.insts := by rw [blockInsts, hblock]; rfl
      have hids : f.instIds = earlier.flatMap f.blockInsts ++
          (block.insts ++ later.flatMap f.blockInsts) := by
        rw [instIds, hlayout, List.flatMap_append, List.flatMap_cons, hinsts]
      have hplaces : block.insts.map f.instPlace =
          (List.range' (earlier.flatMap f.blockInsts).length block.insts.length).map InstId.mk := by
        have hnodup := hf.nodup_instIds
        rw [hids] at hnodup
        rw [← map_idxOf_append _ _ _ hnodup, ← hids, List.map_map]
        rfl
      have hrest := ih (earlier ++ [b]) (by rw [hlayout]; simp)
      rw [List.flatMap_append, List.length_append, List.flatMap_singleton, hinsts] at hrest
      have hlabel : f.label b = block.name := by
        rw [label, blockName?, hblock]
        rfl
      have hlength : (f.body b).2.length = block.insts.length := by
        rw [body, List.length_map, hf.length_records, hinsts]
      rw [List.filterMap_cons_some hblock, List.map_cons, List.map_cons, numberBlocks, hlength,
        hrest, hplaces]
      rw [body, hlabel]

/-- The instructions of a function, numbered in program order. -/
theorem numberInsts_bodies (hf : f.Intact) (later : List BlockId) : ∀ earlier : List BlockId,
    f.layout = earlier ++ later →
      numberInsts earlier.length (later.map f.body) =
        ((later.flatMap f.blockInsts).filterMap f.inst?).map fun inst =>
          ⟨inst.name, f.renumberOp inst.op, f.blockPlace inst.block⟩ := by
  induction later with
  | nil => intro earlier _; rfl
  | cons b later ih =>
      intro earlier hlayout
      have hrest := ih (earlier ++ [b]) (by rw [hlayout]; simp)
      have hplace : f.blockPlace b = ⟨earlier.length⟩ := by
        have hnodup := hf.nodup_layout
        rw [hlayout] at hnodup
        have hnew : b ∉ earlier := fun hmem =>
          (List.nodup_append.1 hnodup).2.2 b hmem b List.mem_cons_self rfl
        rw [blockPlace, hlayout, List.idxOf_append_of_notMem hnew, List.idxOf_cons_self,
          Nat.add_zero]
      -- the instructions of the block know it
      have howner : ∀ inst ∈ f.records b, inst.block = b := by
        intro inst hinst
        obtain ⟨i, hi, hinst⟩ := List.mem_filterMap.1 hinst
        have hblock := hf.owner b (hf.mem_layout_of_mem_blockInsts hi) i hi
        rw [hinst] at hblock
        exact Option.some.inj hblock
      rw [List.length_append, List.length_singleton] at hrest
      rw [List.map_cons, List.flatMap_cons, List.filterMap_append, List.map_append, ← hrest]
      show ((f.records b).map _).map _ ++ _ = (f.records b).map _ ++ _
      congr 1
      rw [List.map_map]
      refine List.map_congr_left fun inst hinst => ?_
      rw [howner inst hinst, hplace]
      rfl

/-- Numbering anew is numbering in order. -/
theorem renumbered_eq_ofBlocks (hf : f.Intact) :
    f.renumbered = ofBlocks f.name (f.layout.map f.body) := by
  have hblocks := hf.numberBlocks_bodies f.layout [] rfl
  have hinsts := hf.numberInsts_bodies f.layout [] rfl
  rw [List.flatMap_nil, List.length_nil] at hblocks
  rw [List.length_nil] at hinsts
  rw [ofBlocks, hblocks, hinsts, List.length_map]
  rfl

end Intact

/-! ### Ids that are in order -/

theorem filterMap_getElem?_range {α : Type} (l : List α) :
    (List.range l.length).filterMap (fun k => l[k]?) = l := by
  have h := congrArg (List.filterMap id) (map_getElem?_range l)
  rwa [List.filterMap_map, List.filterMap_map, Function.id_comp, Function.id_comp,
    List.filterMap_some] at h

theorem filterMap_block?_blockIds (f : Func) : f.blockIds.filterMap f.block? = f.blocks.toList := by
  have h := filterMap_getElem?_range f.blocks.toList
  rw [Array.length_toList] at h
  rw [blockIds, List.filterMap_map]
  simp only [Array.getElem?_toList] at h
  exact h

theorem filterMap_inst?_arenaInsts (f : Func) :
    f.arenaInsts.filterMap f.inst? = f.insts.toList := by
  have h := filterMap_getElem?_range f.insts.toList
  rw [Array.length_toList] at h
  rw [arenaInsts, List.filterMap_map]
  simp only [Array.getElem?_toList] at h
  exact h

namespace Legible

/-- Blocks that are in order keep their ids. -/
theorem blockPlace_eq_self (hf : f.Legible) (h : f.layout = f.blockIds) (hb : b ∈ f.layout) :
    f.blockPlace b = b := by
  have hplaces : f.layout.map f.blockPlace = (List.range f.layout.length).map BlockId.mk := by
    rw [← map_idxOf_self hf.nodup_layout, List.map_map]
    rfl
  have hself : f.layout.map f.blockPlace = f.layout.map id := by
    rw [hplaces, List.map_id, h, blockIds, List.length_map, List.length_range]
  exact List.map_inj_left.1 hself b hb

/-- Instructions that are in order keep their ids. -/
theorem instPlace_eq_self (hf : f.Legible) (h : f.instIds = f.arenaInsts) (hi : i ∈ f.instIds) :
    f.instPlace i = i := by
  have hplaces : f.instIds.map f.instPlace = (List.range f.instIds.length).map InstId.mk := by
    rw [← map_idxOf_self hf.nodup_instIds, List.map_map]
    rfl
  have hself : f.instIds.map f.instPlace = f.instIds.map id := by
    rw [hplaces, List.map_id, h, arenaInsts, List.length_map, List.length_range]
  exact List.map_inj_left.1 hself i hi

theorem renumberOp_eq_self (hf : f.Legible) (hblocks : f.layout = f.blockIds)
    (hinsts : f.instIds = f.arenaInsts) (hb : b ∈ f.layout) (hi : i ∈ f.blockInsts b)
    (hop : f.op? i = some op) : f.renumberOp op = op := by
  refine Operation.map_eq_self (fun o ho => ?_) fun t ht => ?_
  · cases o with
    | value j =>
        obtain ⟨inst, -, hinst, -⟩ := hf.exists_value hop ho
        have hj := hf.mem_instIds_of_inst? hinst
        exact congrArg Operand.value (hf.instPlace_eq_self hinsts hj)
    | _ => rfl
  · exact hf.blockPlace_eq_self hblocks (hf.targets_of_op? hb hi hop t ht).1

/-- Ids that are in order are kept. -/
theorem renumbered_eq_self (hf : f.Legible) (hblocks : f.layout = f.blockIds)
    (hinsts : f.instIds = f.arenaInsts) : f.renumbered = f := by
  have hblock : ∀ block ∈ f.layout.filterMap f.block?,
      ({ block with insts := block.insts.map f.instPlace } : Block) = block := by
    intro block hmem
    obtain ⟨b, hb, hblock⟩ := List.mem_filterMap.1 hmem
    have hids : f.blockInsts b = block.insts := by rw [blockInsts, hblock]; rfl
    have hself : block.insts.map f.instPlace = block.insts.map id := by
      refine List.map_congr_left fun i hi => hf.instPlace_eq_self hinsts ?_
      rw [← hids] at hi
      exact List.mem_flatMap.2 ⟨b, hb, hi⟩
    rw [hself, List.map_id]
  have hinst : ∀ inst ∈ f.instIds.filterMap f.inst?,
      (⟨inst.name, f.renumberOp inst.op, f.blockPlace inst.block⟩ : Inst) = inst := by
    intro inst hmem
    obtain ⟨i, hi, hinst⟩ := List.mem_filterMap.1 hmem
    obtain ⟨b, hb, hi⟩ := List.mem_flatMap.1 hi
    have howner := hf.owner b hb i hi
    have hop := op?_of_inst? hinst
    rw [hinst, Option.map_some, Option.some_inj] at howner
    rw [hf.renumberOp_eq_self hblocks hinsts hb hi hop, howner, hf.blockPlace_eq_self hblocks hb,
      ← howner]
  rw [renumbered, List.map_congr_left hblock, List.map_congr_left hinst, List.map_id',
    List.map_id', hinsts, filterMap_inst?_arenaInsts, hblocks, filterMap_block?_blockIds,
    blockIds, List.length_map, List.length_range]
  show (⟨f.name, f.blocks.toList.toArray, f.insts.toList.toArray, f.blockIds⟩ : Func) = f
  rw [← hblocks]

end Legible

/-! ### The draft, resolved -/

/-- The names of a function by their new ids. -/
def scope (f : Func) : Scope := ⟨f.name, f.layout.map f.label, f.instIds.map f.resultName?⟩

namespace Legible

theorem block?_scope (hf : f.Legible) (hb : b ∈ f.layout) :
    f.scope.block? (f.label b) = some (f.blockPlace b) := by
  have hinj : ∀ a ∈ f.layout, f.label a = f.label b → a = b := by
    intro a ha h
    refine List.inj_on_of_nodup_map hf.names ha hb ?_
    rw [hf.blockName?_eq ha, hf.blockName?_eq hb, h]
  rw [Scope.block?, scope, idxOf?_map hb hinj]
  rfl

theorem value?_scope (hf : f.Legible) {n : String} (hi : i ∈ f.instIds)
    (hn : f.resultName? i = some n) : f.scope.value? n = some (f.instPlace i) := by
  have hinj : ∀ j ∈ f.instIds, f.resultName? j = f.resultName? i → j = i := by
    intro j _ h
    exact hf.result_inj j i n (h.trans hn) hn
  have hplace := idxOf?_map hi hinj
  rw [hn] at hplace
  show Option.map InstId.mk ((f.instIds.map f.resultName?).idxOf? (some n)) = _
  rw [hplace]
  rfl

end Legible

/-- The operation of an instruction of the draft, if the scope knows its operands and targets. -/
theorem resolveOp_draftInst {s : Scope} {line : Nat} (hlegal : inst.op.Legal)
    (hoperand : ∀ o ∈ inst.op.operands,
      s.resolveOperand line (f.draftOperand o) = .ok (f.renumberOperand o))
    (htarget : ∀ t ∈ inst.op.targets,
      s.resolveTarget line (f.draftTarget t) = .ok (f.blockPlace t)) :
    s.resolveOp (f.draftInst line inst) = .ok (f.renumberOp inst.op) := by
  obtain ⟨name, op, block⟩ := inst
  have hkind := hlegal.kind
  unfold Scope.resolveOp
  dsimp only [draftInst] at hlegal hoperand htarget hkind ⊢
  rw [hkind]
  cases op with
  | gep base indices =>
      rw [Operation.operands, List.forall_mem_cons] at hoperand
      have hindices : s.resolveOperands line (indices.map f.draftOperand) =
          .ok (indices.map f.renumberOperand) := by
        rw [Scope.resolveOperands_eq_ok_iff, List.forall₂_map_left_iff, List.forall₂_map_right_iff,
          List.forall₂_same]
        exact hoperand.2
      cases indices with
      | nil => exact absurd rfl (hlegal.indices base)
      | cons index indices =>
          show (s.resolveOperand line (f.draftOperand base) >>= _) = _
          rw [hoperand.1, ok_bind]
          show (s.resolveOperands line ((index :: indices).map f.draftOperand) >>= _) = _
          rw [hindices]
          rfl
  | load addr =>
      show (s.resolveOperand line (f.draftOperand addr) >>= _) = _
      rw [hoperand addr List.mem_cons_self]
      rfl
  | store value addr =>
      simp only [Operation.operands, List.forall_mem_cons] at hoperand
      show (s.resolveOperand line (f.draftOperand value) >>= fun x =>
        s.resolveOperand line (f.draftOperand addr) >>= _) = _
      rw [hoperand.1, ok_bind, hoperand.2.1]
      rfl
  | cast op value =>
      show (s.resolveOperand line (f.draftOperand value) >>= _) = _
      rw [hoperand value List.mem_cons_self]
      rfl
  | binary op lhs rhs =>
      simp only [Operation.operands, List.forall_mem_cons] at hoperand
      show (s.resolveOperand line (f.draftOperand lhs) >>= fun x =>
        s.resolveOperand line (f.draftOperand rhs) >>= _) = _
      rw [hoperand.1, ok_bind, hoperand.2.1]
      rfl
  | const value => rfl
  | br target =>
      show (s.resolveTarget line (f.draftTarget target) >>= _) = _
      rw [htarget target List.mem_cons_self]
      rfl
  | condBr cond onTrue onFalse =>
      simp only [Operation.targets, List.forall_mem_cons] at htarget
      show (s.resolveOperand line (f.draftOperand cond) >>= fun x =>
        s.resolveTarget line (f.draftTarget onTrue) >>= fun y =>
          s.resolveTarget line (f.draftTarget onFalse) >>= _) = _
      rw [hoperand cond List.mem_cons_self, ok_bind, htarget.1, ok_bind, htarget.2.1]
      rfl
  | ret value =>
      cases value with
      | none => rfl
      | some o =>
          show (s.resolveOperand line (f.draftOperand o) >>= _) = _
          rw [hoperand o List.mem_cons_self]
          rfl
  | other opcode os =>
      have hos : s.resolveOperands line (os.map f.draftOperand) =
          .ok (os.map f.renumberOperand) := by
        rw [Scope.resolveOperands_eq_ok_iff, List.forall₂_map_left_iff, List.forall₂_map_right_iff,
          List.forall₂_same]
        exact hoperand
      show (s.resolveOperands line (os.map f.draftOperand) >>= _) = _
      rw [hos]
      rfl

/-! ### The draft of a function -/

namespace Intact

theorem map_name_records (hf : f.Intact) (b : BlockId) :
    (f.records b).map (·.name) = (f.blockInsts b).map f.resultName? := by
  have h := congrArg (List.map fun inst? : Option Inst => inst?.bind (·.name)) (hf.map_inst?_eq b)
  rw [List.map_map, List.map_map] at h
  exact h.symm

/-- The result names of the draft are those of the function. -/
theorem map_name_draft (hf : f.Intact) (line : Nat) :
    ((f.draft.placed line).blocks.flatMap (·.insts)).map (·.name) =
      f.instIds.map f.resultName? := by
  have hnames := map_flatMap_placeBlocks (g := (·.name)) (fun _ _ => rfl) f.draft.blocks (line + 1)
  refine hnames.trans ?_
  rw [draft, List.flatMap_map, List.map_flatMap, instIds, List.map_flatMap]
  refine List.flatMap_congr fun b _ => ?_
  rw [← hf.map_name_records b, draftBlock, List.map_map]
  rfl

theorem scope_draft (hf : f.Intact) (line : Nat) : (f.draft.placed line).scope = f.scope := by
  have hblocks : (f.draft.placed line).scope.blocks = f.layout.map f.label := by
    refine (map_name_placeBlocks f.draft.blocks (line + 1)).trans ?_
    rw [draft, List.map_map]
    rfl
  have hvalues : (f.draft.placed line).scope.values = f.instIds.map f.resultName? := by
    rw [DraftFunc.values_scope, hf.map_name_draft]
  rw [scope, ← hblocks, ← hvalues]
  rfl

end Intact

namespace Legible

/-- The result names of the draft are different. -/
theorem nodup_valueNames (hf : f.Legible) (line : Nat) :
    (valueNames ((f.draft.placed line).blocks.flatMap (·.insts))).Nodup := by
  have hnames : valueNames ((f.draft.placed line).blocks.flatMap (·.insts)) =
      f.instIds.filterMap f.resultName? := by
    have h := congrArg (List.filterMap id) (hf.map_name_draft line)
    rwa [List.filterMap_map, List.filterMap_map, Function.id_comp, Function.id_comp] at h
  rw [hnames]
  exact hf.nodup_instIds.filterMap fun i j n hi hj => hf.result_inj i j n hi hj

/-- An instruction of the draft resolves to the instruction with the new ids. -/
theorem resolves_draftInst (hf : f.Legible) {line : Nat} (hb : b ∈ f.layout)
    (hi : i ∈ f.blockInsts b) (hinst : f.inst? i = some inst) :
    f.scope.Resolves (f.draftInst line inst) (inst.name, f.renumberOp inst.op) := by
  have hop := op?_of_inst? hinst
  have htargets := hf.targets_of_op? hb hi hop
  refine ⟨rfl, resolveOp_draftInst (hf.op_legal i _ hop) (fun o ho => ?_) fun t ht => ?_, ?_⟩
  · cases o with
    | value j =>
        obtain ⟨inst', n, hinst', hn⟩ := hf.exists_value hop ho
        have hplace := hf.value?_scope (hf.mem_instIds_of_inst? hinst') hn
        rw [Func.draftOperand, hn, Option.getD_some, Scope.resolveOperand, hplace]
        rfl
    | const v => rfl
    | location n => rfl
  · rw [Func.draftTarget, Scope.resolveTarget, hf.block?_scope (htargets t ht).1]
  · -- the new id of a target is not that of the entry
    intro hzero
    rw [renumberOp, Operation.targets_mapTargets, Operation.targets_mapOperands] at hzero
    obtain ⟨t, ht, hplace⟩ := List.mem_map.1 hzero
    obtain ⟨hmem, hentry⟩ := htargets t ht
    have hidx : f.layout.idxOf t = 0 := congrArg BlockId.index hplace
    have hfirst : f.layout[f.layout.idxOf t]? = some t := by
      rw [List.getElem?_eq_getElem (List.idxOf_lt_length_of_mem hmem), List.getElem_idxOf]
    rw [hidx, ← List.head?_eq_getElem?] at hfirst
    exact hentry hfirst

/-- The instructions of a block of the draft, in lines one below the other. -/
theorem forall₂_resolves {insts : List Inst} (h : ∀ inst ∈ insts, ∀ line,
    f.scope.Resolves (f.draftInst line inst) (inst.name, f.renumberOp inst.op)) : ∀ line,
      List.Forall₂ f.scope.Resolves (placeInsts line (insts.map (f.draftInst 0)))
        (insts.map fun inst => (inst.name, f.renumberOp inst.op)) := by
  induction insts with
  | nil => exact fun _ => .nil
  | cons inst insts ih =>
      intro line
      rw [List.forall_mem_cons] at h
      exact .cons (h.1 line) (ih h.2 (line + 1))

/-- The terminators of the draft are those of the function. -/
theorem map_isTerminator_draftBlock (hf : f.Legible) (b : BlockId) :
    (f.draftBlock b).insts.map DraftInst.isTerminator = f.marks b := by
  have hmarks : f.marks b = (f.records b).map fun inst => inst.op.isTerminator := by
    have h := congrArg (List.map fun inst? : Option Inst =>
      (inst?.map (·.op)).any Operation.isTerminator) (hf.map_inst?_eq b)
    rwa [List.map_map, List.map_map] at h
  rw [hmarks, draftBlock, List.map_map]
  refine List.map_congr_left fun inst hinst => ?_
  obtain ⟨i, -, hinst⟩ := List.mem_filterMap.1 hinst
  have hop := op?_of_inst? hinst
  show (Opcode.ofName inst.op.opcode).isTerminator = _
  rw [(hf.op_legal i _ hop).kind, Operation.isTerminator_kind]

/-- A block of the draft resolves to the block with the new ids. -/
theorem resolvesBlock_draftBlock (hf : f.Legible) (line : Nat) (hb : b ∈ f.layout) :
    f.scope.ResolvesBlock ⟨f.label b, placeInsts line (f.draftBlock b).insts⟩ (f.body b) := by
  refine ⟨rfl, ?_, forall₂_resolves (fun inst hinst line => ?_) line⟩
  · rw [Scope.shapeFault?_eq_none_iff, map_placeInsts fun _ _ => rfl,
      hf.map_isTerminator_draftBlock]
    exact onlyLast_marks_iff.2 ⟨hf.exitOp b hb, hf.inner b hb⟩
  · obtain ⟨i, hi, hinst⟩ := List.mem_filterMap.1 hinst
    exact hf.resolves_draftInst hb hi hinst

/-- The blocks of the draft, one below the other. -/
theorem forall₂_resolvesBlock (hf : f.Legible) {bs : List BlockId} (hbs : ∀ b ∈ bs, b ∈ f.layout) :
    ∀ line, List.Forall₂ f.scope.ResolvesBlock (placeBlocks line (bs.map f.draftBlock))
      (bs.map f.body) := by
  induction bs with
  | nil => exact fun _ => .nil
  | cons b bs ih =>
      intro line
      rw [List.forall_mem_cons] at hbs
      exact .cons (hf.resolvesBlock_draftBlock (line + 1) hbs.1) (ih hbs.2 _)

/-- The draft of a function resolves to the function with the new ids. -/
theorem resolve_draft (hf : f.Legible) (line : Nat) :
    (f.draft.placed line).resolve = .ok f.renumbered := by
  refine DraftFunc.resolve_eq_ok_iff.2 ⟨?_, hf.nodup_valueNames line, f.layout.map f.body, ?_,
    hf.renumbered_eq_ofBlocks⟩
  · have hlabels : (f.draft.placed line).blocks.map (·.name) = f.layout.map f.label :=
      congrArg Scope.blocks (hf.scope_draft line)
    have hnames : f.layout.map f.blockName? = (f.layout.map f.label).map some := by
      rw [List.map_map]
      exact List.map_congr_left fun b hb => hf.blockName?_eq hb
    rw [hlabels]
    exact List.Nodup.of_map some (hnames ▸ hf.names)
  · rw [hf.scope_draft]
    exact hf.forall₂_resolvesBlock (fun _ hb => hb) (line + 1)

end Legible

end Func

end LoopSwap
