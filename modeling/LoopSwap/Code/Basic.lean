/-
**Loop code: functions, blocks and instructions.**

A function owns two arenas, one of basic blocks and one of instructions, and a *layout*, the
lexical order of its blocks.  Blocks and instructions are named by their places in the arenas, and
those places never change: an edit appends to an arena or rearranges the layout.  An operand names
the instruction whose result it reads by that instruction's id, so a function is a flat value and
def-use cycles are harmless.

Main definitions:

* `LoopSwap.BlockId`, `LoopSwap.InstId` — the places of the two arenas;
* `LoopSwap.Operand`, `LoopSwap.BinaryOp`, `LoopSwap.CastOp`, `LoopSwap.Operation` — what an
  instruction computes and from what;
* `LoopSwap.Operation.operands`, `LoopSwap.Operation.targets`, `LoopSwap.Operation.successors` —
  the values it reads and the blocks it may continue with;
* `LoopSwap.Inst`, `LoopSwap.Block`, `LoopSwap.Func` — the records of the arenas and the function.

Main results:

* `LoopSwap.BinaryOp.ofName?_eq_some_iff`, `LoopSwap.CastOp.ofName?_eq_some_iff` — reading an
  opcode and spelling it are inverse to each other;
* `LoopSwap.Operation.mem_successors` — the successors are the targets, each listed once.
-/

set_option relaxedAutoImplicit false
set_option autoImplicit false

namespace LoopSwap

/-! ### Ids -/

/-- The place of a basic block among the blocks of its function. -/
structure BlockId where
  index : Nat
  deriving DecidableEq

/-- The place of an instruction among the instructions of its function. -/
structure InstId where
  index : Nat
  deriving DecidableEq

/-! ### Operands and opcodes -/

/-- What an instruction reads: the result of an instruction, a 64-bit literal, or a named memory
location such as a global array. -/
inductive Operand where
  | value (id : InstId)
  | const (value : Int64)
  | location (name : String)
  deriving DecidableEq

/-- The operations on two integers. -/
inductive BinaryOp where
  | add | sub | mul | udiv | sdiv | urem | srem | shl | and | or | xor
  deriving DecidableEq

/-- The opcode of an operation on two integers. -/
def BinaryOp.name : BinaryOp → String
  | .add => "add"
  | .sub => "sub"
  | .mul => "mul"
  | .udiv => "udiv"
  | .sdiv => "sdiv"
  | .urem => "urem"
  | .srem => "srem"
  | .shl => "shl"
  | .and => "and"
  | .or => "or"
  | .xor => "xor"

/-- The infix sign under which an operation appears in an index text.  Only the arithmetic
operations have one, and the two divisions share theirs. -/
def BinaryOp.symbol? : BinaryOp → Option String
  | .add => some "+"
  | .sub => some "-"
  | .mul => some "*"
  | .udiv | .sdiv => some "/"
  | _ => none

/-- Every operation on two integers. -/
def BinaryOp.all : List BinaryOp :=
  [.add, .sub, .mul, .udiv, .sdiv, .urem, .srem, .shl, .and, .or, .xor]

/-- The operation with the given opcode. -/
def BinaryOp.ofName? (s : String) : Option BinaryOp :=
  BinaryOp.all.find? fun op => op.name == s

@[simp] theorem BinaryOp.ofName?_name (op : BinaryOp) : BinaryOp.ofName? op.name = some op := by
  cases op <;> decide

theorem BinaryOp.ofName?_eq_some_iff {s : String} {op : BinaryOp} :
    BinaryOp.ofName? s = some op ↔ s = op.name := by
  constructor
  · intro h
    have := List.find?_some h
    exact (beq_iff_eq.1 this).symm
  · rintro rfl
    exact BinaryOp.ofName?_name op

/-- The conversions between integer and pointer types; all keep the value an index denotes. -/
inductive CastOp where
  | sext | zext | trunc | bitcast
  deriving DecidableEq

/-- The opcode of a conversion. -/
def CastOp.name : CastOp → String
  | .sext => "sext"
  | .zext => "zext"
  | .trunc => "trunc"
  | .bitcast => "bitcast"

/-- Every conversion. -/
def CastOp.all : List CastOp := [.sext, .zext, .trunc, .bitcast]

/-- The conversion with the given opcode. -/
def CastOp.ofName? (s : String) : Option CastOp :=
  CastOp.all.find? fun op => op.name == s

@[simp] theorem CastOp.ofName?_name (op : CastOp) : CastOp.ofName? op.name = some op := by
  cases op <;> decide

theorem CastOp.ofName?_eq_some_iff {s : String} {op : CastOp} :
    CastOp.ofName? s = some op ↔ s = op.name := by
  constructor
  · intro h
    have := List.find?_some h
    exact (beq_iff_eq.1 this).symm
  · rintro rfl
    exact CastOp.ofName?_name op

/-! ### Operations -/

/-- What an instruction does.  The shapes the analyses look at have a case of their own; every
other operation is kept word for word. -/
inductive Operation where
  /-- The address of `base[indices]`. -/
  | gep (base : Operand) (indices : List Operand)
  | load (addr : Operand)
  | store (value addr : Operand)
  | cast (op : CastOp) (value : Operand)
  | binary (op : BinaryOp) (lhs rhs : Operand)
  | const (value : Int64)
  | br (target : BlockId)
  | condBr (cond : Operand) (onTrue onFalse : BlockId)
  | ret (value : Option Operand)
  | other (opcode : String) (operands : List Operand)
  deriving DecidableEq

namespace Operation

/-- Whether control leaves the block after this operation. -/
def isTerminator : Operation → Bool
  | br _ | condBr .. | ret _ => true
  | _ => false

/-- Whether control goes on to another block of the function. -/
def isBranch : Operation → Bool
  | br _ | condBr .. => true
  | _ => false

/-- The operands an operation reads, as they are written. -/
def operands : Operation → List Operand
  | gep base indices => base :: indices
  | load addr => [addr]
  | store value addr => [value, addr]
  | cast _ value => [value]
  | binary _ lhs rhs => [lhs, rhs]
  | const _ | br _ => []
  | condBr cond _ _ => [cond]
  | ret value => value.toList
  | other _ operands => operands

/-- The blocks a branch names, as they are written; empty for everything else. -/
def targets : Operation → List BlockId
  | br target => [target]
  | condBr _ onTrue onFalse => [onTrue, onFalse]
  | _ => []

/-- The blocks control may continue with, each listed once. -/
def successors : Operation → List BlockId
  | br target => [target]
  | condBr _ onTrue onFalse => if onTrue = onFalse then [onTrue] else [onTrue, onFalse]
  | _ => []

/-- The operation with every target `t` replaced by `g t`. -/
def mapTargets (g : BlockId → BlockId) : Operation → Operation
  | br target => br (g target)
  | condBr cond onTrue onFalse => condBr cond (g onTrue) (g onFalse)
  | op => op

/-- Whether the operation reads memory. -/
def isLoad : Operation → Bool
  | load _ => true
  | _ => false

/-- Whether the operation writes memory. -/
def isStore : Operation → Bool
  | store .. => true
  | _ => false

/-- The successors of an operation are its targets. -/
theorem mem_successors {op : Operation} {b : BlockId} : b ∈ op.successors ↔ b ∈ op.targets := by
  cases op with
  | condBr c t e =>
      by_cases h : t = e <;> simp [successors, targets, h]
  | _ => simp [successors, targets]

theorem nodup_successors (op : Operation) : op.successors.Nodup := by
  cases op with
  | condBr c t e =>
      by_cases h : t = e <;> simp [successors, h]
  | _ => simp [successors]

@[simp] theorem targets_mapTargets (g : BlockId → BlockId) (op : Operation) :
    (op.mapTargets g).targets = op.targets.map g := by
  cases op <;> rfl

@[simp] theorem operands_mapTargets (g : BlockId → BlockId) (op : Operation) :
    (op.mapTargets g).operands = op.operands := by
  cases op <;> rfl

@[simp] theorem isTerminator_mapTargets (g : BlockId → BlockId) (op : Operation) :
    (op.mapTargets g).isTerminator = op.isTerminator := by
  cases op <;> rfl

/-- An operation with a target is a branch. -/
theorem isBranch_iff {op : Operation} : op.isBranch = true ↔ op.targets ≠ [] := by
  cases op <;> simp [isBranch, targets]

end Operation

/-! ### Functions -/

/-- An instruction: the name of its result if it has one, what it does, and the block it is in. -/
structure Inst where
  name : Option String
  op : Operation
  block : BlockId
  deriving DecidableEq

/-- A basic block: its label and its instructions in order. -/
structure Block where
  name : String
  insts : List InstId
  deriving DecidableEq

/-- A function: its two arenas and the lexical order of its blocks. -/
structure Func where
  name : String
  blocks : Array Block
  insts : Array Inst
  layout : List BlockId
  deriving DecidableEq

/-- The function without blocks. -/
def Func.empty (name : String) : Func := ⟨name, #[], #[], []⟩

end LoopSwap
