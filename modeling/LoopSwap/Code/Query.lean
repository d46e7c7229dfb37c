/-
**Looking things up in a function.**

Every question here is answered for any id.  An id that names no block has no instructions and no
successors, and an id outside the layout has no neighbours; whether an id does name something is
what the answers of `block?` and `inst?` say.

Main definitions:

* `LoopSwap.Func.block?`, `LoopSwap.Func.inst?` — the records behind the ids;
* `LoopSwap.Func.instIds` — all instructions in program order;
* `LoopSwap.Func.terminator?`, `LoopSwap.Func.successors`, `LoopSwap.Func.predecessors` — the flow
  of control between blocks;
* `LoopSwap.Func.position?`, `LoopSwap.Func.next?`, `LoopSwap.Func.previous?` — the layout;
* `LoopSwap.Func.users`, `LoopSwap.Func.useLists` — who reads the result of an instruction;
* `LoopSwap.Func.operandText?` — an operand as an index text shows it.

Main results:

* `LoopSwap.Func.mem_predecessors` — predecessors and successors are one relation on the layout.
-/

import LoopSwap.Code.Basic

set_option relaxedAutoImplicit false
set_option autoImplicit false

namespace LoopSwap

/-- The only element of a list with exactly one. -/
def sole? {α : Type} : List α → Option α
  | [a] => some a
  | _ => none

@[simp] theorem sole?_eq_some_iff {α : Type} {l : List α} {a : α} :
    sole? l = some a ↔ l = [a] := by
  match l with
  | [] => simp [sole?]
  | [b] => simp [sole?]
  | _ :: _ :: _ => simp [sole?]

namespace Func

/-! ### The arenas -/

/-- The block with the given id. -/
def block? (f : Func) (b : BlockId) : Option Block := f.blocks[b.index]?

/-- The instruction with the given id. -/
def inst? (f : Func) (i : InstId) : Option Inst := f.insts[i.index]?

/-- The label of a block. -/
def blockName? (f : Func) (b : BlockId) : Option String := (f.block? b).map (·.name)

/-- The result name of an instruction. -/
def resultName? (f : Func) (i : InstId) : Option String := (f.inst? i).bind (·.name)

/-- What an instruction does. -/
def op? (f : Func) (i : InstId) : Option Operation := (f.inst? i).map (·.op)

/-- The instructions of a block. -/
def blockInsts (f : Func) (b : BlockId) : List InstId := ((f.block? b).map (·.insts)).getD []

/-- All instructions, block after block in layout order. -/
def instIds (f : Func) : List InstId := f.layout.flatMap f.blockInsts

/-- The block that control enters first. -/
def entry? (f : Func) : Option BlockId := f.layout.head?

/-- The first block of the layout with the given label. -/
def findBlock? (f : Func) (name : String) : Option BlockId :=
  f.layout.find? fun b => f.blockName? b == some name

/-- The first instruction in program order with the given result name. -/
def findInst? (f : Func) (name : String) : Option InstId :=
  f.instIds.find? fun i => f.resultName? i == some name

/-! ### The flow of control -/

/-- The last instruction of a block, if it is a terminator. -/
def terminator? (f : Func) (b : BlockId) : Option InstId :=
  (f.blockInsts b).getLast?.filter fun i => (f.op? i).any Operation.isTerminator

/-- What the terminator of a block does. -/
def exitOp? (f : Func) (b : BlockId) : Option Operation := (f.terminator? b).bind f.op?

/-- The blocks that control may enter after a block, each listed once. -/
def successors (f : Func) (b : BlockId) : List BlockId :=
  ((f.exitOp? b).map Operation.successors).getD []

/-- The blocks of the layout that may continue with `b`, in layout order. -/
def predecessors (f : Func) (b : BlockId) : List BlockId :=
  f.layout.filter fun p => b ∈ f.successors p

/-- The predecessor of a block that has exactly one. -/
def uniquePredecessor? (f : Func) (b : BlockId) : Option BlockId := sole? (f.predecessors b)

theorem mem_predecessors {f : Func} {b p : BlockId} :
    p ∈ f.predecessors b ↔ p ∈ f.layout ∧ b ∈ f.successors p := by
  simp [predecessors]

/-! ### The layout -/

/-- The place of a block in the layout. -/
def position? (f : Func) (b : BlockId) : Option Nat := f.layout.idxOf? b

/-- The block lexically after `b`. -/
def next? (f : Func) (b : BlockId) : Option BlockId :=
  (f.position? b).bind fun k => f.layout[k + 1]?

/-- The block lexically before `b`. -/
def previous? (f : Func) (b : BlockId) : Option BlockId :=
  (f.position? b).bind fun k => if k = 0 then none else f.layout[k - 1]?

/-! ### Uses -/

/-- The operands of an instruction. -/
def instOperands (f : Func) (i : InstId) : List Operand :=
  ((f.op? i).map Operation.operands).getD []

/-- The instructions that read the result of `i`, in program order. -/
def users (f : Func) (i : InstId) : List InstId :=
  f.instIds.filter fun u => .value i ∈ f.instOperands u

/-- The ids read by an instruction. -/
def readIds (f : Func) (i : InstId) : List InstId :=
  (f.instOperands i).filterMap fun
    | .value d => some d
    | _ => none

/-- Every id that some instruction reads, in increasing order, with its users. -/
def useLists (f : Func) : List (InstId × List InstId) :=
  let used := (f.instIds.flatMap f.readIds).mergeSort fun a b => a.index ≤ b.index
  used.eraseDups.map fun d => (d, f.users d)

theorem mem_users {f : Func} {i u : InstId} :
    u ∈ f.users i ↔ u ∈ f.instIds ∧ .value i ∈ f.instOperands u := by
  simp [users]

/-! ### Operands as text -/

/-- The decimal text of a literal. -/
def literalText (value : Int64) : String := toString value.toInt

/-- An operand as an index text shows it: the name of a result or location, or the literal.  A
result without a name shows as nothing; an id that names no instruction has no text. -/
def operandText? (f : Func) : Operand → Option String
  | .value i => (f.inst? i).map fun inst => inst.name.getD ""
  | .const value => some (literalText value)
  | .location name => some name

end Func

end LoopSwap
