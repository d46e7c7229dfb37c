/-
**What is read is well-formed.**

Whatever the layout of a text is, the drafts that are read from it are legible.  A function that is
made from a legible draft is well-formed, and more than that: its names are names, no two results
have the same one, every operation can be written, and every operand that is a value is the result
of an instruction that has a name.  This is all that a function needs for its text to mean it, and
no edit breaks it.

Main definitions:

* `LoopSwap.Func.Legible` — a well-formed function whose text means it.

Main results:

* `LoopSwap.Cursor.legible_of_readInst`, `LoopSwap.Cursor.legible_of_readFunc` — what is read is
  legible;
* `LoopSwap.Scope.ResolvesBlock.onlyLast` — a block that resolves ends in its only terminator;
* `LoopSwap.DraftFunc.Legible.resolve` — a legible draft resolves to a legible function;
* `LoopSwap.Program.legible_of_read` — the functions of a program that is read are legible.
-/

import LoopSwap.Code.Program
import LoopSwap.Proofs.Code.Draft
import LoopSwap.Proofs.Code.Numbering
import LoopSwap.Proofs.Code.Resolution

set_option relaxedAutoImplicit false
set_option autoImplicit false

namespace LoopSwap

namespace Cursor

/-! ### Drafts that are read -/

theorem legible_of_readOperand {d d' : Cursor} {o : DraftOperand}
    (h : d.readOperand = .ok (o, d')) : o.Legible := by
  unfold readOperand at h
  split at h
  · obtain ⟨⟨name, c⟩, hname, hok⟩ := bind_eq_ok.1 h
    cases hok
    exact isName_of_readName hname
  · obtain ⟨⟨name, c⟩, hname, hok⟩ := bind_eq_ok.1 h
    cases hok
    exact isName_of_readName hname
  · obtain ⟨⟨name, c⟩, hname, hok⟩ := bind_eq_ok.1 h
    cases hok
    exact isName_of_readName hname
  · split at h
    · obtain ⟨⟨value, c⟩, -, hok⟩ := bind_eq_ok.1 h
      cases hok
      exact trivial
    · cases h
  · cases h

theorem legible_of_readOperands {d d' : Cursor} {os : List DraftOperand}
    (h : d.readOperands = .ok (os, d')) : ∀ o ∈ os, o.Legible := by
  fun_induction readOperands d generalizing os d' with
  | case1 => cases h
  | case2 d o c₁ h₁ h₂ =>
      cases h
      exact List.forall_mem_singleton.2 (legible_of_readOperand h₁)
  | case3 => cases h
  | case4 d o c₁ h₁ c₂ h₂ os₂ c₃ h₃ ih =>
      cases h
      exact List.forall_mem_cons.2 ⟨legible_of_readOperand h₁, ih h₃⟩

theorem isWord_of_mem_readWords (d : Cursor) : ∀ w ∈ d.readWords.1, IsWord w := by
  fun_induction readWords d with
  | case1 => exact List.forall_mem_nil _
  | case2 d x xs hrest hx ws c' hws ih =>
      rw [hws] at ih
      refine List.forall_mem_cons.2 ⟨?_, ih⟩
      refine ⟨⟨?_, fun c hc => ?_⟩, fun c hc => ?_⟩
      · rw [String.toList_ofList]
        exact List.cons_ne_nil _ _
      · rw [String.toList_ofList] at hc
        rcases List.mem_cons.1 hc with rfl | hc
        · exact isNameChar_of_isLetter hx
        · exact List.all_eq_true.1 List.all_takeWhile c hc
      · rw [String.toList_ofList] at hc
        cases hc
        exact hx
  | case3 => exact List.forall_mem_nil _

theorem isName_of_readResult {d d' : Cursor} {name : Option String}
    (h : d.readResult = .ok (name, d')) : ∀ n ∈ name, IsName n := by
  unfold readResult at h
  split at h
  · cases h
    intro n hn
    cases hn
  · obtain ⟨⟨s, c₂⟩, hname, h⟩ := bind_eq_ok.1 h
    obtain ⟨c₃, -, hok⟩ := bind_eq_ok.1 h
    cases hok
    intro n hn
    cases hn
    exact isName_of_readName hname

theorem legible_of_readInst {d d' : Cursor} {inst : DraftInst}
    (h : d.readInst = .ok (inst, d')) : inst.Legible := by
  unfold readInst at h
  obtain ⟨⟨name, c₁⟩, hname, h⟩ := bind_eq_ok.1 h
  obtain ⟨⟨word, c₂⟩, hword, h⟩ := bind_eq_ok.1 h
  obtain ⟨⟨os, c₄⟩, hos, h⟩ := bind_eq_ok.1 h
  dsimp only at hos h
  split at h
  · cases h
    refine ⟨isName_of_readResult hname, ?_, ?_⟩
    · exact ⟨word, _, isWord_of_readWord hword, isWord_of_mem_readWords c₂, rfl⟩
    · unfold readArguments at hos
      split at hos
      · cases hos
        exact List.forall_mem_nil _
      · exact legible_of_readOperands hos
  · cases h

theorem legible_of_readInsts {d d' : Cursor} {insts : List DraftInst}
    (h : d.readInsts = .ok (insts, d')) : ∀ inst ∈ insts, inst.Legible := by
  fun_induction readInsts d generalizing insts d' with
  | case1 =>
      cases h
      exact List.forall_mem_nil _
  | case2 => cases h
  | case3 => cases h
  | case4 d hend inst c₁ h₁ insts₂ c₂ h₂ ih =>
      cases h
      exact List.forall_mem_cons.2 ⟨legible_of_readInst h₁, ih h₂⟩

theorem legible_of_readBlock {d d' : Cursor} {block : DraftBlock}
    (h : d.readBlock = .ok (block, d')) : block.Legible := by
  unfold readBlock at h
  obtain ⟨⟨name, c₁⟩, hname, h⟩ := bind_eq_ok.1 h
  obtain ⟨c₂, -, h⟩ := bind_eq_ok.1 h
  obtain ⟨⟨insts, c₃⟩, hinsts, hok⟩ := bind_eq_ok.1 h
  cases hok
  exact ⟨isName_of_readName hname, legible_of_readInsts hinsts⟩

theorem legible_of_readBlocks {d d' : Cursor} {blocks : List DraftBlock}
    (h : d.readBlocks = .ok (blocks, d')) : ∀ block ∈ blocks, block.Legible := by
  fun_induction readBlocks d generalizing blocks d' with
  | case1 =>
      cases h
      exact List.forall_mem_nil _
  | case2 => cases h
  | case3 => cases h
  | case4 => cases h
  | case5 d hbrace hne block c₁ h₁ blocks₂ c₂ h₂ ih =>
      cases h
      exact List.forall_mem_cons.2 ⟨legible_of_readBlock h₁, ih h₂⟩

/-- What is read is legible. -/
theorem legible_of_readFunc {d d' : Cursor} {draft : DraftFunc}
    (h : d.readFunc = .ok (draft, d')) : draft.Legible := by
  unfold readFunc at h
  obtain ⟨⟨name, c₁⟩, hname, h⟩ := bind_eq_ok.1 h
  obtain ⟨c₂, -, h⟩ := bind_eq_ok.1 h
  obtain ⟨c₃, -, h⟩ := bind_eq_ok.1 h
  obtain ⟨c₄, -, h⟩ := bind_eq_ok.1 h
  obtain ⟨⟨blocks, c₅⟩, hblocks, hok⟩ := bind_eq_ok.1 h
  cases hok
  exact ⟨isWord_of_readWord hname, legible_of_readBlocks hblocks⟩

end Cursor

/-! ### Legible functions -/

/-- A well-formed function whose names are names, whose results have different ones, whose
operations can be written, and whose operands are results with a name. -/
structure Func.Legible (f : Func) : Prop extends WellFormed f where
  name_word : IsWord f.name
  label_name : ∀ b ∈ f.layout, ∀ n ∈ f.blockName? b, IsName n
  result_name : ∀ i, ∀ n ∈ f.resultName? i, IsName n
  result_inj : ∀ i j n, f.resultName? i = some n → f.resultName? j = some n → i = j
  op_legal : ∀ i, ∀ op ∈ f.op? i, op.Legal
  value_named : ∀ i, ∀ op ∈ f.op? i, ∀ j, .value j ∈ op.operands →
    (f.resultName? j).isSome = true

/-! ### Terminators -/

/-- Which instructions of a block are terminators. -/
def Func.marks (f : Func) (b : BlockId) : List Bool :=
  (f.blockInsts b).map fun i => (f.op? i).any Operation.isTerminator

/-- A block ends in its only terminator exactly if only its last instruction is one. -/
theorem Func.onlyLast_marks_iff {f : Func} {b : BlockId} : OnlyLast (f.marks b) ↔
    (f.exitOp? b).isSome = true ∧
      ∀ i ∈ (f.blockInsts b).dropLast, ∀ op ∈ f.op? i, op.isTerminator = false := by
  have hlast : (f.marks b).getLast? = some true ↔ (f.exitOp? b).isSome = true := by
    rw [marks, List.getLast?_map, exitOp?, terminator?]
    cases (f.blockInsts b).getLast? with
    | none => simp
    | some i =>
        cases hop : f.op? i with
        | none => simp [hop]
        | some op => cases hends : op.isTerminator <;> simp [Option.filter_some, hop, hends]
  have hinner : (∀ m ∈ (f.marks b).dropLast, m = false) ↔
      ∀ i ∈ (f.blockInsts b).dropLast, ∀ op ∈ f.op? i, op.isTerminator = false := by
    rw [marks, ← List.map_dropLast, List.forall_mem_map]
    refine forall₂_congr fun i _ => ?_
    cases f.op? i <;> simp
  rw [OnlyLast, hlast, hinner]

namespace Scope

variable {s : Scope} {inst : DraftInst} {x : Option String × Operation} {block : DraftBlock}
  {body : String × List (Option String × Operation)}

theorem Resolves.resolvedOp (h : s.Resolves inst x) : s.ResolvedOp inst x.2 :=
  resolvedOp_of_resolveOp h.op

theorem Resolves.isTerminator (h : s.Resolves inst x) :
    x.2.isTerminator = inst.isTerminator := by
  rw [DraftInst.isTerminator, h.resolvedOp.kind, Operation.isTerminator_kind]

/-- A block that resolves ends in its only terminator. -/
theorem ResolvesBlock.onlyLast (h : s.ResolvesBlock block body) :
    OnlyLast (body.2.map fun x => x.2.isTerminator) := by
  have hmarks : body.2.map (fun x => x.2.isTerminator) = block.insts.map DraftInst.isTerminator :=
    map_eq_of_forall₂ h.insts fun _ _ hR => hR.isTerminator
  rw [hmarks]
  exact shapeFault?_eq_none_iff.1 h.shape

end Scope

/-! ### Names -/

/-- If no two elements of a list have the same name, a name tells the place. -/
theorem place_of_name {α β : Type} {g : α → Option β} {n : β} {l : List α} :
    (l.filterMap g).Nodup → ∀ {i j : Nat}, (l[i]?).bind g = some n → (l[j]?).bind g = some n →
      i = j := by
  induction l with
  | nil =>
      intro _ i j hi
      simp at hi
  | cons a l ih =>
      intro hnodup
      have hrest : (l.filterMap g).Nodup := by
        cases ha : g a with
        | none => rwa [List.filterMap_cons_none ha] at hnodup
        | some m =>
            rw [List.filterMap_cons_some ha] at hnodup
            exact (List.nodup_cons.1 hnodup).2
      -- the name of the first element is not found again
      have hfirst : ∀ k : Nat, g a = some n → (l[k]?).bind g ≠ some n := by
        intro k ha hk
        rw [List.filterMap_cons_some ha] at hnodup
        obtain ⟨x, hx, hxn⟩ := Option.bind_eq_some_iff.1 hk
        exact (List.nodup_cons.1 hnodup).1 (List.mem_filterMap.2 ⟨x, List.mem_of_getElem? hx, hxn⟩)
      intro i j hi hj
      cases i with
      | zero =>
          cases j with
          | zero => rfl
          | succ j => exact absurd hj (hfirst j hi)
      | succ i =>
          cases j with
          | zero => exact absurd hi (hfirst i hj)
          | succ j => exact congrArg Nat.succ (ih hrest hi hj)

namespace DraftFunc

variable {draft : DraftFunc} {f : Func} {bs : List (String × List (Option String × Operation))}

theorem values_scope (draft : DraftFunc) :
    draft.scope.values = (draft.blocks.flatMap (·.insts)).map (·.name) := by
  rw [List.map_flatMap]
  rfl

section

variable (hbs : List.Forall₂ draft.scope.ResolvesBlock draft.blocks bs)

include hbs

theorem blockName?_of_resolves (b : BlockId) :
    (Func.ofBlocks draft.name bs).blockName? b = (draft.blocks.map (·.name))[b.index]? := by
  rw [Func.blockName?_ofBlocks, map_eq_of_forall₂ hbs fun _ _ hR => hR.name]

theorem resultName?_of_resolves (i : InstId) : (Func.ofBlocks draft.name bs).resultName? i =
    ((draft.blocks.flatMap (·.insts))[i.index]?).bind (·.name) := by
  have hvalues : (bs.map fun body => body.2.map (·.1)) =
      draft.blocks.map fun block => block.insts.map (·.name) :=
    map_eq_of_forall₂ hbs fun _ _ hR => map_eq_of_forall₂ hR.insts fun _ _ hR => hR.name
  rw [Func.resultName?_ofBlocks, List.flatMap_def, hvalues, ← List.flatMap_def,
    ← List.map_flatMap, List.getElem?_map]
  cases (draft.blocks.flatMap (·.insts))[i.index]? <;> rfl

/-- Every instruction is what an instruction of the draft resolves to. -/
theorem exists_of_inst? {i : InstId} {inst : Inst}
    (h : (Func.ofBlocks draft.name bs).inst? i = some inst) :
    ∃ block ∈ draft.blocks, ∃ d ∈ block.insts, draft.scope.Resolves d (inst.name, inst.op) := by
  obtain ⟨body, hbody, hx⟩ := Func.exists_of_inst?_ofBlocks h
  obtain ⟨block, hblock, hR⟩ := exists_of_forall₂ hbs body hbody
  obtain ⟨d, hd, hRd⟩ := exists_of_forall₂ hR.insts _ hx
  exact ⟨block, hblock, d, hd, hRd⟩

theorem exists_of_op? {i : InstId} {op : Operation}
    (h : (Func.ofBlocks draft.name bs).op? i = some op) :
    ∃ block ∈ draft.blocks, ∃ d ∈ block.insts, draft.scope.ResolvedOp d op ∧ ⟨0⟩ ∉ op.targets := by
  obtain ⟨inst, hinst, rfl⟩ := Option.map_eq_some_iff.1 h
  obtain ⟨block, hblock, d, hd, hR⟩ := exists_of_inst? hbs hinst
  exact ⟨block, hblock, d, hd, hR.resolvedOp, hR.not_entry⟩

/-- Every block ends in its only terminator. -/
theorem onlyLast_marks {b : BlockId} (hb : b ∈ (Func.ofBlocks draft.name bs).layout) :
    OnlyLast ((Func.ofBlocks draft.name bs).marks b) := by
  obtain ⟨body, hbody, hrecords⟩ := Func.records_ofBlocks hb
  obtain ⟨block, -, hR⟩ := exists_of_forall₂ hbs body (List.mem_of_getElem? hbody)
  have hmarks : (Func.ofBlocks draft.name bs).marks b =
      (((Func.ofBlocks draft.name bs).blockInsts b).map (Func.ofBlocks draft.name bs).inst?).map
        fun inst? => (inst?.map (·.op)).any Operation.isTerminator := by
    rw [List.map_map]
    rfl
  rw [hmarks, hrecords, List.map_map]
  exact hR.onlyLast

/-- A function that is made from a draft with different names is well-formed. -/
theorem wellFormed_of_resolves (hnames : (draft.blocks.map (·.name)).Nodup) :
    (Func.ofBlocks draft.name bs).WellFormed := by
  have hlength : bs.length = (draft.blocks.map (·.name)).length := by
    rw [List.length_map, hbs.length_eq]
  have hends := fun b hb => Func.onlyLast_marks_iff.1 (onlyLast_marks (b := b) hbs hb)
  refine ⟨⟨Func.intact_ofBlocks _ _, fun b hb => (hends b hb).1, fun b hb => (hends b hb).2,
    fun b hb t ht => ?_⟩, ?_⟩
  · obtain ⟨op, hexit, ht⟩ := Func.mem_successors_iff.1 ht
    obtain ⟨i, -, hop⟩ := Option.bind_eq_some_iff.1 hexit
    obtain ⟨block, -, d, -, hR, hentry⟩ := exists_of_op? hbs hop
    constructor
    · obtain ⟨o, -, ho⟩ := hR.targets t ht
      obtain ⟨name, hname⟩ := Scope.block?_of_resolveTarget ho
      obtain ⟨hlt, -⟩ := List.getElem?_eq_some_iff.1 (Scope.getElem?_of_block? hname)
      rw [Func.mem_layout_ofBlocks, hlength]
      exact hlt
    · -- the entry is the first block
      intro h
      rw [Func.entry?, Func.layout_ofBlocks, List.head?_map, List.head?_range] at h
      split at h
      · cases h
      · cases h
        exact hentry ht
  · have hlabels : (Func.ofBlocks draft.name bs).layout.map
        (Func.ofBlocks draft.name bs).blockName? = (draft.blocks.map (·.name)).map some := by
      rw [Func.layout_ofBlocks, List.map_map, ← map_getElem?_range, ← hlength]
      exact List.map_congr_left fun k _ => blockName?_of_resolves hbs ⟨k⟩
    rw [hlabels]
    exact hnames.map fun _ _ => Option.some.inj

end

/-- A legible draft resolves to a legible function. -/
theorem Legible.resolve (hd : draft.Legible) (h : draft.resolve = .ok f) : f.Legible := by
  obtain ⟨hnames, hvalues, bs, hbs, rfl⟩ := resolve_eq_ok_iff.1 h
  refine ⟨wellFormed_of_resolves hbs hnames, hd.name, fun b _ n hn => ?_, fun i n hn => ?_,
    fun i j n hi hj => ?_, fun i op hop => ?_, fun i op hop j hj => ?_⟩
  · rw [blockName?_of_resolves hbs, List.getElem?_map] at hn
    obtain ⟨block, hblock, rfl⟩ := Option.map_eq_some_iff.1 hn
    exact (hd.blocks block (List.mem_of_getElem? hblock)).name
  · obtain ⟨inst, hinst, hname⟩ := Option.bind_eq_some_iff.1 hn
    obtain ⟨block, hblock, d, hd', hR⟩ := exists_of_inst? hbs hinst
    exact ((hd.blocks block hblock).insts d hd').name n (hR.name ▸ hname)
  · rw [resultName?_of_resolves hbs] at hi hj
    have hplace := place_of_name hvalues hi hj
    cases i
    cases j
    exact congrArg InstId.mk hplace
  · obtain ⟨block, hblock, d, hd', hR, -⟩ := exists_of_op? hbs hop
    have hlegible := (hd.blocks block hblock).insts d hd'
    refine ⟨hR.opcode ▸ hlegible.opcode, hR.opcode ▸ hR.kind, hR.indices, fun n hn => ?_⟩
    obtain ⟨o, ho, hread⟩ := hR.operands _ hn
    rw [Scope.eq_location_of_resolveOperand hread] at ho
    exact hlegible.operands _ ho
  · obtain ⟨block, hblock, d, hd', hR, -⟩ := exists_of_op? hbs hop
    obtain ⟨o, ho, hread⟩ := hR.operands _ hj
    obtain ⟨name, hname⟩ := Scope.value?_of_resolveOperand hread
    have hplace := Scope.getElem?_of_value? hname
    rw [values_scope, List.getElem?_map] at hplace
    obtain ⟨d', hd', hname'⟩ := Option.map_eq_some_iff.1 hplace
    rw [resultName?_of_resolves hbs, hd', Option.bind_some, hname']
    rfl

end DraftFunc

/-! ### Programs -/

/-- The functions that are read are legible. -/
theorem legible_of_readFuncs {seen : List String} {c : Cursor} {fs : List Func}
    (h : readFuncs seen c = .ok fs) : ∀ f ∈ fs, f.Legible := by
  fun_induction readFuncs seen c generalizing fs with
  | case1 =>
      cases h
      exact List.forall_mem_nil _
  | case2 => cases h
  | case3 => cases h
  | case4 => cases h
  | case5 => cases h
  | case6 seen c hne draft c₁ hread f hf hnew fs₂ hrest ih =>
      cases h
      exact List.forall_mem_cons.2 ⟨(Cursor.legible_of_readFunc hread).resolve hf, ih hrest⟩

/-- The functions of a program that is read are legible. -/
theorem Program.legible_of_read {text : String} {p : Program} (h : Program.read text = .ok p) :
    ∀ f ∈ p.functions, f.Legible := by
  obtain ⟨fs, hfs, hok⟩ := bind_eq_ok.1 h
  cases hok
  exact legible_of_readFuncs hfs

end LoopSwap
