/-
**What an interchange has to find.**

Before anything is changed, every block that an interchange will touch is looked up in the forest
and the function, and the edges that make the two loops perfectly nested are checked: the outer
header leads to the inner preheader, the inner header to the inner body, and the inner exit to the
outer latch.  The first thing that is missing, in a fixed order, is the error.

Main definitions:

* `LoopSwap.Plan` — the blocks of two nested loops by their roles;
* `LoopSwap.LoopForest.plan` — the plan for two loops.

Main results:

* `LoopSwap.leadsTo_eq_ok_iff` — when the check of an edge succeeds.
-/

import LoopSwap.Interchange.Preheader

set_option relaxedAutoImplicit false
set_option autoImplicit false

namespace LoopSwap

/-- The blocks of two nested loops by their roles.  `preheaderPred` is missing if the outer
preheader is the entry, and `continuation` if the outer exit does not end in an unconditional
branch; then a block has to be split. -/
structure Plan where
  outerPreheader : BlockId
  outerHeader : BlockId
  outerLatch : BlockId
  outerExit : BlockId
  innerPreheader : BlockId
  innerHeader : BlockId
  innerLatch : BlockId
  innerExit : BlockId
  bodyEntry : BlockId
  bodyEnd : BlockId
  preheaderPred : Option BlockId
  continuation : Option BlockId
  deriving DecidableEq

/-- What the terminator of a block does. -/
def Func.exitOp (f : Func) (b : BlockId) : Except LoopError Operation :=
  match f.block? b with
  | none => .error (.unknownBlock b)
  | some block =>
    match f.exitOp? b with
    | none => .error (.malformedTerminator block.name)
    | some op => .ok op

/-- Whether `source`, which has to end in a branch, branches to `target`. -/
def leadsTo (f : Func) (source target : BlockId) : Except LoopError Bool := do
  let op ← f.exitOp source
  if op.isBranch then return decide (target ∈ op.targets)
  else .error (.malformedTerminator ((f.blockName? source).getD "?"))

theorem leadsTo_eq_ok_iff {f : Func} {source target : BlockId} {b : Bool} :
    leadsTo f source target = .ok b ↔
      ∃ op, f.exitOp source = .ok op ∧ op.isBranch = true ∧ decide (target ∈ op.targets) = b := by
  unfold leadsTo
  cases f.exitOp source with
  | error e => exact ⟨fun h => (nomatch h), fun ⟨_, h, _⟩ => (nomatch h)⟩
  | ok op =>
      show (if op.isBranch = true then Except.ok (decide (target ∈ op.targets))
        else .error _) = Except.ok b ↔ _
      by_cases h : op.isBranch = true <;> simp [h]

/-- Refuses two loops that lack an edge of perfect nesting. -/
def checkEdge (f : Func) (source target : BlockId) (error : LoopError) :
    Except LoopError Unit := do
  if ← leadsTo f source target then return () else .error error

/-- The preheader, latch and exit of loop `i`. -/
def Loop.connections (l : Loop) (i : Nat) :
    Except LoopError (BlockId × BlockId × BlockId) := do
  let preheader ← require i .preheader l.preheader
  let latch ← require i .latch l.latch
  let exit ← require i .exit l.exit
  return (preheader, latch, exit)

/-- The target of an unconditional branch. -/
def Operation.continuation? : Operation → Option BlockId
  | br target => some target
  | _ => none

/-- The plan for interchanging two loops, which have to be perfectly nested. -/
def LoopForest.plan (n : LoopForest) (f : Func) (outer inner : Nat) :
    Except LoopError Plan := do
  let outerLoop ← require outer .loop (n.loop? outer)
  let innerLoop ← require inner .loop (n.loop? inner)
  if outer = inner ∨ n.isWithin inner outer = false then
    .error (.notNested outer inner)
  else
    let (outerPreheader, outerLatch, outerExit) ← outerLoop.connections outer
    let (innerPreheader, innerLatch, innerExit) ← innerLoop.connections inner
    let bodyEntry ← require inner .bodyEntry (innerLoop.bodyEntry? f)
    let bodyEnd ← require inner .latchPredecessor
      ((innerLoop.latchPredecessor? f).filter fun b => b ≠ innerLoop.header)
    let preheaderPred ←
      if f.entry? = some outerPreheader then pure none
      else do
        let pred ← require outer .preheaderPredecessor (outerLoop.preheaderPredecessor? f)
        pure (some pred)
    checkEdge f outerLoop.header innerPreheader
      (.notPerfectlyNested outer inner .headerToPreheader)
    checkEdge f innerLoop.header bodyEntry (.notPerfectlyNested outer inner .headerToBody)
    checkEdge f innerExit outerLatch (.notPerfectlyNested outer inner .exitToLatch)
    let exitOp ← f.exitOp outerExit
    return {
      outerPreheader, outerHeader := outerLoop.header, outerLatch, outerExit
      innerPreheader, innerHeader := innerLoop.header, innerLatch, innerExit
      bodyEntry, bodyEnd, preheaderPred, continuation := exitOp.continuation? }

end LoopSwap
