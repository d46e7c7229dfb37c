/-
**Why loops are not interchanged.**

Main definitions:

* `LoopSwap.LoopRole` — the parts of a loop that have to be there;
* `LoopSwap.NestFault` — how two nested loops fail to be perfectly nested;
* `LoopSwap.LoopError`, `LoopSwap.LoopError.message` — the causes and their wording.
-/

import LoopSwap.Code.Basic

set_option relaxedAutoImplicit false
set_option autoImplicit false

namespace LoopSwap

/-- A part of a loop that may be missing; `loop` is the loop itself. -/
inductive LoopRole where
  | loop
  | preheader
  | latch
  | exit
  /-- The block lexically after the header. -/
  | bodyEntry
  /-- The only predecessor of the preheader. -/
  | preheaderPredecessor
  /-- The only predecessor of the latch. -/
  | latchPredecessor
  deriving DecidableEq

/-- The words for a part of a loop. -/
def LoopRole.text : LoopRole → String
  | loop => "loop"
  | preheader => "preheader"
  | latch => "latch"
  | exit => "exit block"
  | bodyEntry => "body entry block"
  | preheaderPredecessor => "unique preheader predecessor"
  | latchPredecessor => "unique latch predecessor"

/-- The edge that two perfectly nested loops would have. -/
inductive NestFault where
  | headerToPreheader | headerToBody | exitToLatch
  deriving DecidableEq

/-- The wording of a fault. -/
def NestFault.text : NestFault → String
  | headerToPreheader => "outer header does not branch to the inner preheader"
  | headerToBody => "inner header does not branch to the inner body"
  | exitToLatch => "inner exit does not branch to the outer latch"

/-- Why two loops are not interchanged, or a preheader is not made.  Loops are given by their
places in the preorder. -/
inductive LoopError where
  | missingStructure (loop : Nat) (role : LoopRole)
  | notNested (outer inner : Nat)
  | notPerfectlyNested (outer inner : Nat) (fault : NestFault)
  | malformedTerminator (block : String)
  /-- A branch of the loops leads to an id that names no block. -/
  | unknownBlock (block : BlockId)
  deriving DecidableEq

namespace LoopError

/-- The wording of an error. -/
def message : LoopError → String
  | missingStructure loop role => "loop " ++ toString loop ++ ": missing " ++ role.text
  | notNested outer inner =>
    "loop " ++ toString inner ++ " is not nested inside loop " ++ toString outer
  | notPerfectlyNested outer inner fault =>
    "loops " ++ toString outer ++ " and " ++ toString inner ++ " are not perfectly nested: " ++
      fault.text
  | malformedTerminator block => "block '" ++ block ++ "' does not end in a branch"
  | unknownBlock block => "there is no block " ++ toString block.index

/-- Whether the error is about a part of a loop that is not there. -/
def isMissingStructure : LoopError → Bool
  | missingStructure .. => true
  | _ => false

end LoopError

end LoopSwap
