/-
**Loop reports.**

Main definitions:

* `LoopSwap.MemoryCounts`, `LoopSwap.Func.memoryCounts` — how many loads and stores blocks hold;
* `LoopSwap.LoopReport`, `LoopSwap.LoopForest.reports` — one line for each loop, in preorder.

Main results:

* `LoopSwap.Func.memoryCounts_append` — counts add up over blocks.
-/

import LoopSwap.Loop.Forest

set_option relaxedAutoImplicit false
set_option autoImplicit false

namespace LoopSwap

/-- Numbers of loads and stores. -/
structure MemoryCounts where
  loads : Nat
  stores : Nat
  deriving DecidableEq

namespace Func

/-- The loads and stores of the given blocks. -/
def memoryCounts (f : Func) (blocks : List BlockId) : MemoryCounts :=
  let ops := (blocks.flatMap f.blockInsts).filterMap f.op?
  ⟨ops.countP Operation.isLoad, ops.countP Operation.isStore⟩

/-- The loads and stores of the given blocks, if every id names one. -/
def memoryCounts? (f : Func) (blocks : List BlockId) : Option MemoryCounts :=
  if blocks.all fun b => (f.block? b).isSome then some (f.memoryCounts blocks) else none

theorem memoryCounts_append (f : Func) (bs cs : List BlockId) :
    f.memoryCounts (bs ++ cs) =
      ⟨(f.memoryCounts bs).loads + (f.memoryCounts cs).loads,
        (f.memoryCounts bs).stores + (f.memoryCounts cs).stores⟩ := by
  simp [memoryCounts, List.filterMap_append, List.countP_append]

end Func

/-- What is reported of a loop. -/
structure LoopReport where
  index : Nat
  depth : Nat
  parent : Option Nat
  header : String
  blocks : Nat
  memory : MemoryCounts
  deriving DecidableEq

/-- The line of a loop. -/
def LoopReport.text (s : LoopReport) : String :=
  let parent :=
    match s.parent with
    | none => ""
    | some p => ", parent " ++ toString p
  "loop " ++ toString s.index ++ " (depth " ++ toString s.depth ++ ", header " ++ s.header ++
    ", " ++ toString s.blocks ++ " blocks" ++ parent ++ ") # Loads: " ++
    toString s.memory.loads ++ " # Stores: " ++ toString s.memory.stores

/-- What is reported of the loops, in preorder. -/
def LoopForest.reports (n : LoopForest) (f : Func) : List LoopReport :=
  n.loops.zipIdx.map fun (l, i) =>
    { index := i
      depth := l.depth
      parent := l.parent
      header := (f.blockName? l.header).getD "?"
      blocks := l.blocks.length
      memory := f.memoryCounts l.blocks }

end LoopSwap
