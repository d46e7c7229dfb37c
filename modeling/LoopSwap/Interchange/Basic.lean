/-
**Loop interchange.**

Two perfectly nested loops change places without a single instruction being copied: their headers,
preheaders, latches and exits are put into a new order, and six edges are sent to new targets, so
that the inner loop comes to run the outer one.  Whether the exchange keeps what the loops compute
is for the caller to decide.

If the outer preheader is the entry, or the outer exit does not go on to a single block, a block is
split first, so that there is something to relink.  A forest made before the interchange no longer
describes the function.

Main definitions:

* `LoopSwap.Relinking` — the blocks to relink, with those that were split off in place;
* `LoopSwap.Relinking.reorder`, `LoopSwap.Relinking.edges` — the new order and the new edges;
* `LoopSwap.Interchanged` — what an interchange did;
* `LoopSwap.Workspace.interchange` — the interchange.
-/

import LoopSwap.Interchange.Plan

set_option relaxedAutoImplicit false
set_option autoImplicit false

namespace LoopSwap

/-! ### Relinking -/

/-- The blocks to relink: the blocks of a plan, with the outer preheader and the continuation of
the outer exit that splitting may have made. -/
structure Relinking where
  plan : Plan
  preheader : BlockId
  preheaderPred : BlockId
  continuation : BlockId

namespace Relinking

/-- The new order: the headers with their preheaders in front of them, the inner ones first, and
after the outer latch the outer exit, the inner latch and the inner exit. -/
def reorder (r : Relinking) (f : Func) : Func :=
  let p := r.plan
  let f := f.moveBefore p.innerHeader p.outerHeader
  let f := f.moveBefore p.outerHeader p.bodyEntry
  let f := f.moveBefore p.innerPreheader p.innerHeader
  let f := f.moveBefore r.preheader p.outerHeader
  let f :=
    match f.next? p.outerExit with
    | some next => f.moveBefore p.innerExit next
    | none => f.moveToEnd p.innerExit
  let f := f.moveBefore p.innerLatch p.innerExit
  let f := f.moveBefore p.outerExit p.innerLatch
  f.moveBefore p.outerLatch p.outerExit

/-- The edges to be changed, each by its source, its old and its new target. -/
def edges (r : Relinking) : List (BlockId × BlockId × BlockId) :=
  let p := r.plan
  [(r.preheaderPred, r.preheader, p.innerPreheader),
   (p.outerHeader, p.innerPreheader, p.bodyEntry),
   (p.innerHeader, p.bodyEntry, r.preheader),
   (p.innerExit, p.outerLatch, r.continuation),
   (p.outerExit, r.continuation, p.innerLatch),
   (p.bodyEnd, p.innerLatch, p.outerLatch)]

end Relinking

/-- Changes edges one after the other and counts those that were there. -/
def Func.retargetAll (f : Func) : List (BlockId × BlockId × BlockId) → Func × Nat
  | [] => (f, 0)
  | (source, old, new) :: rest =>
    let (f₁, changed) := f.retarget source old new
    let (f₂, count) := f₁.retargetAll rest
    (f₂, (if changed then 1 else 0) + count)

/-- Changing edges leaves the layout alone. -/
@[simp] theorem Func.layout_retargetAll (edges : List (BlockId × BlockId × BlockId)) :
    ∀ f : Func, (f.retargetAll edges).1.layout = f.layout := by
  induction edges with
  | nil => intro f; rfl
  | cons e es ih =>
      intro f
      obtain ⟨source, old, new⟩ := e
      simp [Func.retargetAll, ih]

/-- The number of places at which two layouts differ. -/
def movedBlocks (before after : List BlockId) : Nat :=
  (before.zip after).countP fun p => p.1 ≠ p.2

@[simp] theorem movedBlocks_self (l : List BlockId) : movedBlocks l l = 0 := by
  induction l with
  | nil => rfl
  | cons b bs ih => simpa [movedBlocks, List.countP_cons] using ih

/-! ### Interchange -/

/-- What an interchange did: which loops changed places, which blocks were split off, how many
blocks stand elsewhere, and how many edges lead elsewhere. -/
structure Interchanged where
  outer : Nat
  inner : Nat
  materialized : List BlockId
  moved : Nat
  retargeted : Nat
  deriving DecidableEq

/-- The line of an interchange. -/
def Interchanged.text (s : Interchanged) : String :=
  "interchanged loops " ++ toString s.outer ++ " and " ++ toString s.inner ++ ": " ++
    toString s.moved ++ " blocks moved, " ++ toString s.retargeted ++ " edges retargeted, " ++
    toString s.materialized.length ++ " blocks materialized"

namespace Workspace

/-- Splits what has to be split for a plan: the entry if it is the outer preheader, and the outer
exit if it does not go on to a single block.  With an error comes the workspace as it is then. -/
def materialize (w : Workspace) (n : LoopForest) (plan : Plan) (outer : Nat) :
    Workspace × Except LoopError (Relinking × List BlockId) :=
  let first : Except LoopError (Workspace × BlockId × BlockId × List BlockId) :=
    match plan.preheaderPred with
    | some pred => .ok (w, plan.outerPreheader, pred, [])
    | none =>
      match n.isolatePreheader w outer with
      | .error e => .error e
      | .ok (split, _, w₁) => .ok (w₁, split, plan.outerPreheader, [split])
  match first with
  | .error e => (w, .error e)
  | .ok (w₁, preheader, pred, made) =>
    match plan.continuation with
    | some continuation => (w₁, .ok (⟨plan, preheader, pred, continuation⟩, made))
    | none =>
      match w₁.func.split? plan.outerExit 0 with
      | none => (w₁, .error (.unknownBlock plan.outerExit))
      | some (f, split) =>
        (⟨f, w₁.stats.addMaterialized⟩, .ok (⟨plan, preheader, pred, split⟩, made ++ [split]))

/-- Moves the blocks and changes the edges. -/
def relink (w : Workspace) (r : Relinking) (made : List BlockId) (outer inner : Nat) :
    Workspace × Interchanged :=
  let moved := r.reorder w.func
  let (f, retargeted) := moved.retargetAll r.edges
  (⟨f, w.stats.addInterchange⟩,
    { outer := outer
      inner := inner
      materialized := made
      moved := movedBlocks w.func.layout moved.layout
      retargeted := retargeted })

/-- Interchanges two loops, given by their places in the preorder.  The loops of the function are
counted as found in any case. -/
def interchange (w : Workspace) (outer inner : Nat) :
    Workspace × Except LoopError Interchanged :=
  let (n, w₁) := w.findLoops
  match n.plan w₁.func outer inner with
  | .error e => (w₁, .error e)
  | .ok plan =>
    match w₁.materialize n plan outer with
    | (w₂, .error e) => (w₂, .error e)
    | (w₂, .ok (r, made)) =>
      let (w₃, summary) := w₂.relink r made outer inner
      (w₃, .ok summary)

end Workspace

end LoopSwap
