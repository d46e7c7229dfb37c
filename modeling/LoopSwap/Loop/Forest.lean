/-
**The forest of loops.**

A loop is nested in another if its header is a block of it.  The parent of a loop is the smallest
larger loop around its header, and the loops are numbered in preorder: a loop before its children,
siblings by the place of their headers in the layout.  These numbers are how a loop is picked.

For each loop the forest keeps the blocks that connect it to the rest of the function, where they
are unique: the *preheader*, the only block outside from which the header is entered, if it leads
nowhere else; the *latch*, the only block inside from which the header is entered; and the *exit*,
the only block outside that the loop leads to.

The forest describes a function at one moment; an edit of the function does not change it.

Main definitions:

* `LoopSwap.Nested`, `LoopSwap.preorder` — loops with their parents, and their order;
* `LoopSwap.Loop`, `LoopSwap.LoopForest` — the loops of a function in preorder;
* `LoopSwap.Func.loops` — the forest of a function;
* `LoopSwap.LoopForest.isWithin` — nesting over any number of levels.

Main results:

* `LoopSwap.smallest?_mem`, `LoopSwap.smallest?_size_le` — the smallest loop is one of the given
  ones and none of them is smaller.
-/

import LoopSwap.Loop.Natural

set_option relaxedAutoImplicit false
set_option autoImplicit false

namespace LoopSwap

/-! ### Parents -/

/-- The first of the loops with the fewest blocks. -/
def smallest? : List NaturalLoop → Option NaturalLoop
  | [] => none
  | l :: ls =>
    match smallest? ls with
    | none => some l
    | some m => if m.size < l.size then some m else some l

theorem smallest?_mem {ls : List NaturalLoop} : ∀ {m : NaturalLoop},
    smallest? ls = some m → m ∈ ls := by
  induction ls with
  | nil => intro m h; cases h
  | cons l ls ih =>
      intro m h
      simp only [smallest?] at h
      split at h
      · cases h
        exact List.mem_cons_self
      · next n hn =>
          split at h
          · cases h
            exact List.mem_cons_of_mem _ (ih hn)
          · cases h
            exact List.mem_cons_self

theorem smallest?_size_le {ls : List NaturalLoop} : ∀ {m : NaturalLoop},
    smallest? ls = some m → ∀ l ∈ ls, m.size ≤ l.size := by
  induction ls with
  | nil => intro m h; cases h
  | cons l ls ih =>
      intro m h
      simp only [smallest?] at h
      split at h
      · next hn =>
          cases h
          intro k hk
          rcases List.mem_cons.1 hk with rfl | hk
          · exact Nat.le_refl _
          · exfalso
            cases ls with
            | nil => cases hk
            | cons l' ls' =>
                simp only [smallest?] at hn
                split at hn
                · cases hn
                · split at hn <;> cases hn
      · next n hn =>
          have hle := ih hn
          split at h
          · next hlt =>
              cases h
              intro k hk
              rcases List.mem_cons.1 hk with rfl | hk
              · exact Nat.le_of_lt hlt
              · exact hle k hk
          · next hge =>
              cases h
              intro k hk
              rcases List.mem_cons.1 hk with rfl | hk
              · exact Nat.le_refl _
              · exact Nat.le_trans (Nat.le_of_not_lt hge) (hle k hk)

/-- The smallest of the loops that are larger than `l` and contain its header. -/
def enclosing? (all : List NaturalLoop) (l : NaturalLoop) : Option NaturalLoop :=
  smallest? (all.filter fun o => decide (l.size < o.size) && decide (l.header ∈ o.blocks))

theorem size_lt_of_enclosing? {all : List NaturalLoop} {l o : NaturalLoop}
    (h : enclosing? all l = some o) : l.size < o.size := by
  have := (List.mem_filter.1 (smallest?_mem h)).2
  simp only [Bool.and_eq_true, decide_eq_true_eq] at this
  exact this.1

/-- A loop with its parent, which is larger. -/
structure Nested where
  loop : NaturalLoop
  parent : Option NaturalLoop
  size_lt : ∀ o, parent = some o → loop.size < o.size

/-- The loops with their parents among them. -/
def nest (all : List NaturalLoop) : List Nested :=
  all.map fun l => ⟨l, enclosing? all l, fun _ h => size_lt_of_enclosing? h⟩

/-- The loops whose parent is `l`. -/
def childrenOf (all : List Nested) (l : Option NaturalLoop) : List Nested :=
  all.filter fun c => c.parent = l

/-! ### Preorder -/

/-- The loop `l` and all loops nested in it, parents first, each with its depth. -/
def descend (all : List Nested) (depth : Nat) (l : Nested) : List (Nat × Nested) :=
  (depth, l) :: (childrenOf all (some l.loop)).attach.flatMap fun c =>
    descend all (depth + 1) c.1
termination_by l.loop.size
decreasing_by
  have h := (List.mem_filter.1 c.2).2
  exact c.1.size_lt _ (of_decide_eq_true h)

/-- All loops in preorder, each with its depth. -/
def preorder (all : List Nested) : List (Nat × Nested) :=
  (childrenOf all none).flatMap (descend all 1)

/-! ### Loops of a function -/

/-- A loop of a function.  The parent and the children are places in the preorder. -/
structure Loop where
  header : BlockId
  blocks : List BlockId
  parent : Option Nat
  children : List Nat
  depth : Nat
  preheader : Option BlockId
  latch : Option BlockId
  exit : Option BlockId
  deriving DecidableEq

namespace NaturalLoop

/-- The only reachable block outside the loop that leads to the header, if the header is all it
leads to. -/
def preheader? (l : NaturalLoop) (f : Func) (x : FlowFacts BlockId) : Option BlockId :=
  (sole? ((x.preds l.header).filter (· ∉ l.blocks))).filter fun p => f.successors p = [l.header]

/-- The only block of the loop that leads to the header. -/
def latch? (l : NaturalLoop) (x : FlowFacts BlockId) : Option BlockId :=
  sole? ((x.preds l.header).filter (· ∈ l.blocks))

/-- The only block outside the loop that a block of the loop leads to. -/
def exit? (l : NaturalLoop) (f : Func) : Option BlockId :=
  sole? (lastOccurrences ((l.blocks.flatMap f.successors).filter (· ∉ l.blocks)))

end NaturalLoop

/-- The loops of a function in preorder. -/
structure LoopForest where
  loops : List Loop
  deriving DecidableEq

/-- The forest without loops. -/
def LoopForest.empty : LoopForest := ⟨[]⟩

/-- Finds the loops of a function. -/
def Func.loops (f : Func) : LoopForest :=
  let x := f.graph.facts
  let all := nest (naturalLoops x f.layout)
  let order := preorder all
  let place (l : NaturalLoop) : Option Nat := order.findIdx? fun e => e.2.loop = l
  ⟨order.map fun (depth, l) =>
    { header := l.loop.header
      blocks := l.loop.blocks
      parent := l.parent.bind place
      children := (childrenOf all (some l.loop)).filterMap fun c => place c.loop
      depth := depth
      preheader := l.loop.preheader? f x
      latch := l.loop.latch? x
      exit := l.loop.exit? f }⟩

namespace Loop

/-- The block lexically after the header, if it belongs to the loop. -/
def bodyEntry? (l : Loop) (f : Func) : Option BlockId := (f.next? l.header).filter (· ∈ l.blocks)

/-- The only predecessor of the preheader. -/
def preheaderPredecessor? (l : Loop) (f : Func) : Option BlockId :=
  l.preheader.bind f.uniquePredecessor?

/-- The only predecessor of the latch, where the body of the loop ends. -/
def latchPredecessor? (l : Loop) (f : Func) : Option BlockId :=
  l.latch.bind f.uniquePredecessor?

/-- Whether no loop is around this one. -/
def isOutermost (l : Loop) : Bool := l.parent.isNone

end Loop

namespace LoopForest

/-- The loop at a place of the preorder. -/
def loop? (n : LoopForest) (i : Nat) : Option Loop := n.loops[i]?

/-- Whether loop `inner` is nested in loop `outer`, directly or through loops between.  A parent
stands before its children, so the way up ends. -/
def isWithin (n : LoopForest) (inner outer : Nat) : Bool :=
  match (n.loop? inner).bind (·.parent) with
  | none => false
  | some p => p = outer || (if p < inner then n.isWithin p outer else false)
termination_by inner

end LoopForest

end LoopSwap
