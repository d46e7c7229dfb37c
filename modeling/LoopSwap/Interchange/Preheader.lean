/-
**Preheaders of their own.**

The entry block may be the preheader of a loop, but other blocks cannot be moved in front of it.
Splitting it before its terminator makes a preheader that can be moved.

Main definitions:

* `LoopSwap.LoopForest.isolatePreheader` — makes sure that the preheader of a loop is not the
  entry.

Main results:

* `LoopSwap.LoopForest.isolatePreheader_eq_self` — a preheader that is not the entry is kept.
-/

import LoopSwap.Code.Edit
import LoopSwap.Interchange.Error
import LoopSwap.Interchange.Workspace
import LoopSwap.Sequence

set_option relaxedAutoImplicit false
set_option autoImplicit false

namespace LoopSwap

/-- What an operation has to find in loop `i`. -/
def require {α : Type} (i : Nat) (role : LoopRole) : Option α → Except LoopError α
  | some a => .ok a
  | none => .error (.missingStructure i role)

@[simp] theorem require_some {α : Type} (i : Nat) (role : LoopRole) (a : α) :
    require i role (some a) = .ok a := rfl

@[simp] theorem require_none {α : Type} (i : Nat) (role : LoopRole) :
    require i role (none : Option α) = .error (.missingStructure i role) := rfl

namespace LoopForest

/-- The forest in which every loop with preheader `old` has preheader `new`. -/
def replacePreheader (n : LoopForest) (old new : BlockId) : LoopForest :=
  ⟨n.loops.map fun l => if l.preheader = some old then { l with preheader := some new } else l⟩

/-- The preheader of loop `i`, which is split off the entry if it was the entry.  The forest that
is returned knows the new preheader; nothing is changed when there is an error. -/
def isolatePreheader (n : LoopForest) (w : Workspace) (i : Nat) :
    Except LoopError (BlockId × LoopForest × Workspace) := do
  let l ← require i .loop (n.loop? i)
  let preheader ← require i .preheader l.preheader
  if some preheader ≠ w.func.entry? then
    return (preheader, n, w)
  else
    match w.func.split? preheader ((w.func.blockInsts preheader).length - 1) with
    | none => .error (.unknownBlock preheader)
    | some (f, split) =>
      return (split, n.replacePreheader preheader split, ⟨f, w.stats.addMaterialized⟩)

theorem isolatePreheader_eq_self {n : LoopForest} {w : Workspace} {i : Nat} {l : Loop}
    {p : BlockId} (hl : n.loop? i = some l) (hp : l.preheader = some p)
    (hne : some p ≠ w.func.entry?) : n.isolatePreheader w i = .ok (p, n, w) := by
  unfold isolatePreheader
  simp only [hl, hp, require_some, ok_bind]
  exact if_pos hne

end LoopForest

end LoopSwap
