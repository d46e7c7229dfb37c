/-
**Why a text is not loop code.**

An error is a cause with the facts that belong to it; its wording is one function.  Errors met
while reading characters carry the line where the reader stopped, errors about one instruction the
line where it starts, and errors about names that are missing everywhere carry no line.

Main definitions:

* `LoopSwap.Expected`, `LoopSwap.Found` — the two halves of a mismatch;
* `LoopSwap.ReadError` — the causes;
* `LoopSwap.ReadError.message` — their wording;
* `LoopSwap.ReadError.line?` — the line an error points to.
-/

set_option relaxedAutoImplicit false
set_option autoImplicit false

namespace LoopSwap

/-! ### Mismatches -/

/-- What the reader was looking for. -/
inductive Expected where
  | functionName
  | sign (c : Char)
  | blockLabel
  | labelColon
  | valueName
  | valueEquals
  | operation
  | operand
  | blockName
  | locationName
  | lineEnd
  | literal
  | valueOperand
  | blockOperand
  | oneFunction
  deriving DecidableEq

/-- The wording of what was expected. -/
def Expected.text : Expected → String
  | functionName => "function name"
  | sign c => "'" ++ String.singleton c ++ "'"
  | blockLabel => "block label"
  | labelColon => "':' after block label"
  | valueName => "value name"
  | valueEquals => "'=' after value name"
  | operation => "operation"
  | operand => "operand"
  | blockName => "block name"
  | locationName => "location name"
  | lineEnd => "',' or end of line"
  | literal => "integer literal"
  | valueOperand => "value operand"
  | blockOperand => "block operand"
  | oneFunction => "exactly one function"

/-- What was there instead. -/
inductive Found where
  | endOfInput
  | endOfLine
  | char (c : Char)
  | word (text : String)
  | nonLiteral
  | blockReference
  | value
  | functions (count : Nat)
  deriving DecidableEq

/-- The wording of what was found. -/
def Found.text : Found → String
  | endOfInput => "end of input"
  | endOfLine => "end of line"
  | char c => "'" ++ String.singleton c ++ "'"
  | word text => "'" ++ text ++ "'"
  | nonLiteral => "non-literal operand"
  | blockReference => "block reference"
  | value => "value"
  | functions count => toString count ++ " functions"

/-- What stands at a place in a text, given the rest of the text. -/
def Found.ofNext : List Char → Found
  | [] => endOfInput
  | c :: _ => if c = '\n' then endOfLine else char c

/-! ### Causes -/

/-- The things of a program that have names. -/
inductive Entity where
  | function | block | value
  deriving DecidableEq

/-- The word for a kind of named thing. -/
def Entity.text : Entity → String
  | function => "function"
  | block => "block"
  | value => "value"

/-- What is wrong with the shape of a block. -/
inductive BlockFault where
  | empty | unterminated | earlyTerminator | branchToEntry
  deriving DecidableEq

/-- The wording of a fault, to be read after the block's name. -/
def BlockFault.text : BlockFault → String
  | empty => "is empty"
  | unterminated => "does not end in a terminator"
  | earlyTerminator => "has a terminator before its end"
  | branchToEntry => "branches to the entry block"

/-- Why a text is not loop code. -/
inductive ReadError where
  /-- The text, or an operand, is not of the expected kind. -/
  | unexpected (line : Nat) (expected : Expected) (found : Found)
  /-- An operation that carries blocks but is no branch. -/
  | unknownOperation (line : Nat) (opcode : String)
  | operandCount (line : Nat) (opcode : String) (expected found : Nat)
  /-- A second thing of a kind with the same name. -/
  | duplicate (line : Nat) (entity : Entity) (name : String)
  /-- A name that nothing in the function has. -/
  | undefined (function : String) (entity : Entity) (name : String)
  | malformedBlock (function block : String) (fault : BlockFault)
  deriving DecidableEq

namespace ReadError

/-- The wording of an error. -/
def message : ReadError → String
  | unexpected line expected found =>
    "line " ++ toString line ++ ": expected " ++ expected.text ++ ", found " ++ found.text
  | unknownOperation line opcode =>
    "line " ++ toString line ++ ": unknown operation '" ++ opcode ++ "'"
  | operandCount line opcode expected found =>
    "line " ++ toString line ++ ": '" ++ opcode ++ "' expects " ++ toString expected ++
      " operands, found " ++ toString found
  | duplicate line entity name =>
    "line " ++ toString line ++ ": duplicate definition of " ++ entity.text ++ " '" ++ name ++ "'"
  | undefined function entity name =>
    "function '" ++ function ++ "': undefined " ++ entity.text ++ " '" ++ name ++ "'"
  | malformedBlock function block fault =>
    "function '" ++ function ++ "': block '" ++ block ++ "' " ++ fault.text

/-- The line an error points to, if it points to one. -/
def line? : ReadError → Option Nat
  | unexpected line .. | unknownOperation line _ | operandCount line .. | duplicate line .. =>
    some line
  | undefined .. | malformedBlock .. => none

end ReadError

end LoopSwap
