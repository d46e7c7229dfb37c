/-
**Work on a function, and what has been done.**

Main definitions:

* `LoopSwap.Stats` — how much has been analysed and changed;
* `LoopSwap.Stats.text` — the report of it;
* `LoopSwap.Workspace` — a function under work together with its statistics;
* `LoopSwap.Workspace.findLoops` — the loops of the function, counted as found.
-/

import LoopSwap.Loop.Forest

set_option relaxedAutoImplicit false
set_option autoImplicit false

namespace LoopSwap

/-! ### Statistics -/

/-- Counts over everything that was worked on: functions looked at, loops found each time loops
were looked for, accesses listed, loops interchanged, and blocks made by splitting. -/
structure Stats where
  functions : Nat
  loops : Nat
  accesses : Nat
  interchanges : Nat
  materialized : Nat
  deriving DecidableEq

namespace Stats

/-- Nothing done yet. -/
def zero : Stats := ⟨0, 0, 0, 0, 0⟩

/-- Counts a function. -/
def addFunction (s : Stats) : Stats := { s with functions := s.functions + 1 }

/-- Counts loops that were found. -/
def addLoops (s : Stats) (n : Nat) : Stats := { s with loops := s.loops + n }

/-- Counts accesses that were listed. -/
def addAccesses (s : Stats) (n : Nat) : Stats := { s with accesses := s.accesses + n }

/-- Counts an interchange. -/
def addInterchange (s : Stats) : Stats := { s with interchanges := s.interchanges + 1 }

/-- Counts a block that was split off. -/
def addMaterialized (s : Stats) : Stats := { s with materialized := s.materialized + 1 }

/-- The sum of two statistics. -/
def add (s t : Stats) : Stats :=
  ⟨s.functions + t.functions, s.loops + t.loops, s.accesses + t.accesses,
    s.interchanges + t.interchanges, s.materialized + t.materialized⟩

/-- The report. -/
def text (s : Stats) : String :=
  "Analysis Session Statistics:\n" ++
    "  Functions analysed: " ++ toString s.functions ++ "\n" ++
    "  Loops found: " ++ toString s.loops ++ "\n" ++
    "  Accesses collected: " ++ toString s.accesses ++ "\n" ++
    "  Interchanges: " ++ toString s.interchanges ++ "\n" ++
    "  Blocks materialised: " ++ toString s.materialized ++ "\n"

end Stats

/-! ### Workspaces -/

/-- A function under work and the statistics so far. -/
structure Workspace where
  func : Func
  stats : Stats

/-- The loops of the function; they count as found. -/
def Workspace.findLoops (w : Workspace) : LoopForest × Workspace :=
  let forest := w.func.loops
  (forest, { w with stats := w.stats.addLoops forest.loops.length })

@[simp] theorem Workspace.fst_findLoops (w : Workspace) : w.findLoops.1 = w.func.loops := rfl

@[simp] theorem Workspace.func_findLoops (w : Workspace) : w.findLoops.2.func = w.func := rfl

end LoopSwap
