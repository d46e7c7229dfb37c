/-
**The text of loop code.**

A function is written as its name, then block after block in layout order, each a label followed
by one line per instruction.  The sign of an operand tells its kind: a percent sign a result, an
at sign a location, a caret a block, and a bare number is a literal.

Main definitions:

* `LoopSwap.Func.operandCode`, `LoopSwap.Func.opCode`, `LoopSwap.Func.instLine` — the parts;
* `LoopSwap.Func.print` — the text of a function;
* `LoopSwap.Func.Closed`, `LoopSwap.Func.print?` — the text of a function whose ids all name
  something.
-/

import LoopSwap.Code.Query

set_option relaxedAutoImplicit false
set_option autoImplicit false

namespace LoopSwap

namespace Func

/-! ### Instructions -/

/-- An operand as it is written.  A result without a name is written with a question mark. -/
def operandCode (f : Func) : Operand → String
  | .value i => "%" ++ (f.resultName? i).getD "?"
  | .const value => literalText value
  | .location name => "@" ++ name

/-- The operands after an opcode: each after a blank, with commas between. -/
def operandsCode (f : Func) : List Operand → String
  | [] => ""
  | [o] => " " ++ f.operandCode o
  | o :: os => " " ++ f.operandCode o ++ "," ++ f.operandsCode os

/-- A branch target as it is written. -/
def targetCode (f : Func) (b : BlockId) : String := "^" ++ (f.blockName? b).getD "?"

/-- An operation as it is written: the opcode and its operands. -/
def opCode (f : Func) : Operation → String
  | .gep base indices => "gep" ++ f.operandsCode (base :: indices)
  | .load addr => "load" ++ f.operandsCode [addr]
  | .store value addr => "store" ++ f.operandsCode [value, addr]
  | .cast op value => op.name ++ f.operandsCode [value]
  | .binary op lhs rhs => op.name ++ f.operandsCode [lhs, rhs]
  | .const value => "const " ++ literalText value
  | .br target => "br " ++ f.targetCode target
  | .condBr cond onTrue onFalse =>
    "condbr " ++ f.operandCode cond ++ ", " ++ f.targetCode onTrue ++ ", " ++ f.targetCode onFalse
  | .ret value => "ret" ++ f.operandsCode value.toList
  | .other opcode operands => opcode ++ f.operandsCode operands

/-- The result name of an instruction with the sign that assigns it. -/
def resultCode : Option String → String
  | none => ""
  | some name => "%" ++ name ++ " = "

/-- The line of an instruction. -/
def instLine (f : Func) (inst : Inst) : String :=
  "  " ++ resultCode inst.name ++ f.opCode inst.op ++ "\n"

/-! ### Blocks and functions -/

/-- The lines of a block: its label and its instructions. -/
def blockLines (f : Func) (b : BlockId) : String :=
  (f.blockName? b).getD "?" ++ ":\n" ++
    String.join (((f.blockInsts b).filterMap f.inst?).map f.instLine)

/-- The text of a function. -/
def print (f : Func) : String :=
  f.name ++ "() \x7b\n" ++ String.join (f.layout.map f.blockLines) ++ "\x7d\n"

/-- Whether an operand is a literal, a location, or the id of some instruction. -/
def operandNames (f : Func) : Operand → Bool
  | .value i => (f.inst? i).isSome
  | _ => true

/-- Whether every id an operation mentions names an instruction or a block. -/
def OpClosed (f : Func) (op : Operation) : Prop :=
  (∀ o ∈ op.operands, f.operandNames o = true) ∧ ∀ b ∈ op.targets, (f.block? b).isSome = true

instance (f : Func) (op : Operation) : Decidable (f.OpClosed op) := by
  unfold OpClosed; infer_instance

/-- Whether every id that the instructions of the function mention names something. -/
def Closed (f : Func) : Prop :=
  ∀ i ∈ f.instIds, ∀ op ∈ f.op? i, f.OpClosed op

instance (f : Func) : Decidable f.Closed := by
  unfold Closed; infer_instance

/-- The text of a function, if every id in it names something. -/
def print? (f : Func) : Option String := if f.Closed then some f.print else none

theorem print?_eq_some_iff {f : Func} {text : String} :
    f.print? = some text ↔ f.Closed ∧ f.print = text := by
  simp [print?]

end Func

end LoopSwap
