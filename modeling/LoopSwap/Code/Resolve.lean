/-
**From names to ids.**

A draft is resolved in two passes.  The first refuses a second block or value of the same name.
The second goes through the blocks in order: the shape of the block is checked, then each
instruction is built from its opcode and operands, and a branch to the entry block is refused.
The first fault met in this order is the error of the function.

Blocks and instructions get their ids in the order in which they are written.

Main definitions:

* `LoopSwap.Opcode` — what an opcode asks for;
* `LoopSwap.Scope` — the names of a function body and the ids they stand for;
* `LoopSwap.Scope.resolveOp` — an instruction's operation;
* `LoopSwap.Func.ofBlocks` — the function with blocks and instructions numbered in order;
* `LoopSwap.DraftFunc.resolve` — a function from its draft.

Main results:

* `LoopSwap.Func.layout_ofBlocks` — the layout of a numbered function is the order of its blocks.
-/

import LoopSwap.Code.Draft
import LoopSwap.Code.Query

set_option relaxedAutoImplicit false
set_option autoImplicit false

namespace LoopSwap

/-! ### Opcodes -/

/-- What an opcode asks for.  `blockTable` stands for the operations that carry blocks without
being branches; they are not part of the language. -/
inductive Opcode where
  | gep | load | store | const | br | condBr | ret
  | cast (op : CastOp)
  | binary (op : BinaryOp)
  | blockTable
  | other
  deriving DecidableEq

/-- What the given opcode asks for. -/
def Opcode.ofName (name : String) : Opcode :=
  if name = "gep" then gep
  else if name = "load" then load
  else if name = "store" then store
  else if name = "const" then const
  else if name = "br" then br
  else if name = "condbr" then condBr
  else if name = "ret" then ret
  else if name = "phi" ∨ name = "switch" then blockTable
  else
    match CastOp.ofName? name, BinaryOp.ofName? name with
    | some op, _ => cast op
    | none, some op => binary op
    | none, none => other

/-- Whether the opcode ends a block. -/
def Opcode.isTerminator : Opcode → Bool
  | br | condBr | ret => true
  | _ => false

/-- Whether the instruction ends its block. -/
def DraftInst.isTerminator (inst : DraftInst) : Bool := (Opcode.ofName inst.opcode).isTerminator

/-! ### Names given twice -/

/-- The result names of the instructions in front of those already seen; refuses one seen
before. -/
def collectValues (seen : List String) : List DraftInst → Except ReadError (List String)
  | [] => .ok seen
  | inst :: insts =>
    match inst.name with
    | none => collectValues seen insts
    | some name =>
      if name ∈ seen then .error (.duplicate inst.line .value name)
      else collectValues (name :: seen) insts

/-- The line a block is reported at: that of its first instruction, or 0 if it has none. -/
def DraftBlock.line (block : DraftBlock) : Nat := (block.insts.head?.map (·.line)).getD 0

/-- Refuses a block or value whose name has been seen before. -/
def checkDistinct (blocks values : List String) : List DraftBlock → Except ReadError Unit
  | [] => .ok ()
  | block :: rest =>
    if block.name ∈ blocks then .error (.duplicate block.line .block block.name)
    else do
      let values ← collectValues values block.insts
      checkDistinct (block.name :: blocks) values rest

/-! ### Scopes -/

/-- The names of a function body: its blocks in order, and the results of its instructions in
order. -/
structure Scope where
  function : String
  blocks : List String
  values : List (Option String)

/-- The names that a draft defines. -/
def DraftFunc.scope (draft : DraftFunc) : Scope :=
  ⟨draft.name, draft.blocks.map (·.name), draft.blocks.flatMap fun b => b.insts.map (·.name)⟩

namespace Scope

/-- The block of the given name. -/
def block? (s : Scope) (name : String) : Option BlockId := (s.blocks.idxOf? name).map BlockId.mk

/-- The instruction whose result has the given name. -/
def value? (s : Scope) (name : String) : Option InstId :=
  (s.values.idxOf? (some name)).map InstId.mk

/-- An operand that has to be a value. -/
def resolveOperand (s : Scope) (line : Nat) : DraftOperand → Except ReadError Operand
  | .value name =>
    match s.value? name with
    | some id => .ok (.value id)
    | none => .error (.undefined s.function .value name)
  | .const value => .ok (.const value)
  | .location name => .ok (.location name)
  | .block _ => .error (.unexpected line .valueOperand .blockReference)

/-- Operands that have to be values; the first that is none is reported. -/
def resolveOperands (s : Scope) (line : Nat) : List DraftOperand → Except ReadError (List Operand)
  | [] => .ok []
  | o :: os => do
    let o' ← s.resolveOperand line o
    let os' ← s.resolveOperands line os
    return o' :: os'

/-- An operand that has to be a block. -/
def resolveTarget (s : Scope) (line : Nat) : DraftOperand → Except ReadError BlockId
  | .block name =>
    match s.block? name with
    | some id => .ok id
    | none => .error (.undefined s.function .block name)
  | _ => .error (.unexpected line .blockOperand .value)

/-- The operation of an instruction.  The number of operands is checked before any of them is
looked up, and they are looked up from left to right. -/
def resolveOp (s : Scope) (inst : DraftInst) : Except ReadError Operation :=
  let wrongCount (expected : Nat) : Except ReadError Operation :=
    .error (.operandCount inst.line inst.opcode expected inst.operands.length)
  match Opcode.ofName inst.opcode, inst.operands with
  | .gep, base :: index :: indices => do
    let base' ← s.resolveOperand inst.line base
    let indices' ← s.resolveOperands inst.line (index :: indices)
    return .gep base' indices'
  | .gep, _ => wrongCount 2
  | .load, [addr] => do
    return .load (← s.resolveOperand inst.line addr)
  | .load, _ => wrongCount 1
  | .store, [value, addr] => do
    let value' ← s.resolveOperand inst.line value
    let addr' ← s.resolveOperand inst.line addr
    return .store value' addr'
  | .store, _ => wrongCount 2
  | .const, [.const value] => .ok (.const value)
  | .const, [_] => .error (.unexpected inst.line .literal .nonLiteral)
  | .const, _ => wrongCount 1
  | .br, [target] => do
    return .br (← s.resolveTarget inst.line target)
  | .br, _ => wrongCount 1
  | .condBr, [cond, onTrue, onFalse] => do
    let cond' ← s.resolveOperand inst.line cond
    let onTrue' ← s.resolveTarget inst.line onTrue
    let onFalse' ← s.resolveTarget inst.line onFalse
    return .condBr cond' onTrue' onFalse'
  | .condBr, _ => wrongCount 3
  | .ret, [] => .ok (.ret none)
  | .ret, [value] => do
    return .ret (some (← s.resolveOperand inst.line value))
  | .ret, _ => wrongCount 1
  | .cast op, [value] => do
    return .cast op (← s.resolveOperand inst.line value)
  | .cast _, _ => wrongCount 1
  | .binary op, [lhs, rhs] => do
    let lhs' ← s.resolveOperand inst.line lhs
    let rhs' ← s.resolveOperand inst.line rhs
    return .binary op lhs' rhs'
  | .binary _, _ => wrongCount 2
  | .blockTable, _ => .error (.unknownOperation inst.line inst.opcode)
  | .other, operands => do
    return .other inst.opcode (← s.resolveOperands inst.line operands)

/-! ### Blocks -/

/-- What is wrong with the terminators of a block: there has to be one, at the end and nowhere
else. -/
def shapeFault? (insts : List DraftInst) : Option BlockFault :=
  match insts.getLast? with
  | none => some .empty
  | some last =>
    if !last.isTerminator then some .unterminated
    else if insts.dropLast.any DraftInst.isTerminator then some .earlyTerminator
    else none

/-- The instructions of a block.  None of them may branch to the entry, the first block. -/
def resolveInsts (s : Scope) (block : String) :
    List DraftInst → Except ReadError (List (Option String × Operation))
  | [] => .ok []
  | inst :: insts => do
    let op ← s.resolveOp inst
    if ⟨0⟩ ∈ op.targets then
      .error (.malformedBlock s.function block .branchToEntry)
    else
      let rest ← s.resolveInsts block insts
      return (inst.name, op) :: rest

/-- The blocks of a function, each by its name and instructions. -/
def resolveBlocks (s : Scope) :
    List DraftBlock → Except ReadError (List (String × List (Option String × Operation)))
  | [] => .ok []
  | block :: blocks =>
    match shapeFault? block.insts with
    | some fault => .error (.malformedBlock s.function block.name fault)
    | none => do
      let insts ← s.resolveInsts block.name block.insts
      let rest ← s.resolveBlocks blocks
      return (block.name, insts) :: rest

end Scope

/-! ### Numbering -/

/-- The block records of the given blocks, their instructions numbered from `next` on. -/
def numberBlocks (next : Nat) : List (String × List (Option String × Operation)) → List Block
  | [] => []
  | (name, insts) :: rest =>
    ⟨name, (List.range' next insts.length).map InstId.mk⟩ ::
      numberBlocks (next + insts.length) rest

/-- The instruction records of the given blocks, which are numbered from `k` on. -/
def numberInsts (k : Nat) : List (String × List (Option String × Operation)) → List Inst
  | [] => []
  | (_, insts) :: rest =>
    insts.map (fun inst => ⟨inst.1, inst.2, ⟨k⟩⟩) ++ numberInsts (k + 1) rest

/-- The function whose blocks and instructions are numbered in the order given. -/
def Func.ofBlocks (name : String) (blocks : List (String × List (Option String × Operation))) :
    Func :=
  ⟨name, (numberBlocks 0 blocks).toArray, (numberInsts 0 blocks).toArray,
    (List.range blocks.length).map BlockId.mk⟩

@[simp] theorem Func.name_ofBlocks (name : String)
    (blocks : List (String × List (Option String × Operation))) :
    (Func.ofBlocks name blocks).name = name := rfl

@[simp] theorem Func.layout_ofBlocks (name : String)
    (blocks : List (String × List (Option String × Operation))) :
    (Func.ofBlocks name blocks).layout = (List.range blocks.length).map BlockId.mk := rfl

@[simp] theorem numberBlocks_length (blocks : List (String × List (Option String × Operation))) :
    ∀ next, (numberBlocks next blocks).length = blocks.length := by
  induction blocks with
  | nil => intro next; rfl
  | cons b bs ih => intro next; simp [numberBlocks, ih]

/-- A function from its draft. -/
def DraftFunc.resolve (draft : DraftFunc) : Except ReadError Func := do
  checkDistinct [] [] draft.blocks
  let blocks ← draft.scope.resolveBlocks draft.blocks
  return .ofBlocks draft.name blocks

end LoopSwap
