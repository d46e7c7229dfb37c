/-
**Editing a function.**

Blocks and instructions are only ever appended to the arenas; the layout is a list that blocks
move in.  An edit that has to open a block fails when the id names none.  The two moves are total:
a block outside the layout does not move, and neither does one whose anchor is outside.

Main definitions:

* `LoopSwap.Func.appendBlock`, `LoopSwap.Func.appendInst?` — growing a function;
* `LoopSwap.Func.moveBefore`, `LoopSwap.Func.moveToEnd` — rearranging the layout;
* `LoopSwap.Func.retarget`, `LoopSwap.Func.retarget?` — sending the branches of a block
  elsewhere;
* `LoopSwap.Func.freshSplitName`, `LoopSwap.Func.split?` — cutting a block in two.

Main results:

* `LoopSwap.Func.moveBefore_self`, `LoopSwap.Func.moveBefore_eq_self` — the moves that do nothing;
* `LoopSwap.insertBefore_perm`, `LoopSwap.insertAfter_perm` — inserting loses no block.
-/

import LoopSwap.Code.Query

set_option relaxedAutoImplicit false
set_option autoImplicit false

namespace LoopSwap

/-! ### Inserting next to an element -/

/-- The list with `a` put right before the first `anchor`, or at the end if there is none. -/
def insertBefore {α : Type} [DecidableEq α] (a anchor : α) : List α → List α
  | [] => [a]
  | x :: xs => if x = anchor then a :: x :: xs else x :: insertBefore a anchor xs

/-- The list with `a` put right after the first `anchor`, or at the end if there is none. -/
def insertAfter {α : Type} [DecidableEq α] (a anchor : α) : List α → List α
  | [] => [a]
  | x :: xs => if x = anchor then x :: a :: xs else x :: insertAfter a anchor xs

theorem insertBefore_perm {α : Type} [DecidableEq α] (a anchor : α) (l : List α) :
    (insertBefore a anchor l).Perm (a :: l) := by
  induction l with
  | nil => exact List.Perm.refl _
  | cons x xs ih =>
      simp only [insertBefore]
      split
      · exact List.Perm.refl _
      · exact (ih.cons x).trans (List.Perm.swap a x xs)

theorem insertAfter_perm {α : Type} [DecidableEq α] (a anchor : α) (l : List α) :
    (insertAfter a anchor l).Perm (a :: l) := by
  induction l with
  | nil => exact List.Perm.refl _
  | cons x xs ih =>
      simp only [insertAfter]
      split
      · exact List.Perm.swap a x xs
      · exact (ih.cons x).trans (List.Perm.swap a x xs)

namespace Func

/-! ### Growing -/

/-- Appends an empty block at the end of the layout and returns its id. -/
def appendBlock (f : Func) (name : String) : Func × BlockId :=
  let id : BlockId := ⟨f.blocks.size⟩
  ({ f with blocks := f.blocks.push ⟨name, []⟩, layout := f.layout ++ [id] }, id)

/-- Appends an instruction at the end of a block and returns its id. -/
def appendInst? (f : Func) (b : BlockId) (name : Option String) (op : Operation) :
    Option (Func × InstId) :=
  (f.block? b).map fun block =>
    let id : InstId := ⟨f.insts.size⟩
    ({ f with
        blocks := f.blocks.setIfInBounds b.index { block with insts := block.insts ++ [id] }
        insts := f.insts.push ⟨name, op, b⟩ }, id)

/-! ### Moving -/

/-- Moves a block right before `anchor` in the layout. -/
def moveBefore (f : Func) (b anchor : BlockId) : Func :=
  if b = anchor ∨ b ∉ f.layout ∨ anchor ∉ f.layout then f
  else { f with layout := insertBefore b anchor (f.layout.erase b) }

/-- Moves a block to the end of the layout. -/
def moveToEnd (f : Func) (b : BlockId) : Func :=
  if b ∈ f.layout then { f with layout := f.layout.erase b ++ [b] } else f

@[simp] theorem moveBefore_self (f : Func) (b : BlockId) : f.moveBefore b b = f := by
  simp [moveBefore]

theorem moveBefore_eq_self {f : Func} {b anchor : BlockId}
    (h : b ∉ f.layout ∨ anchor ∉ f.layout) : f.moveBefore b anchor = f := by
  simp only [moveBefore, h, or_true, if_true]

theorem moveToEnd_eq_self {f : Func} {b : BlockId} (h : b ∉ f.layout) : f.moveToEnd b = f := by
  simp [moveToEnd, h]

/-! ### Retargeting -/

/-- Replaces every target `old` of the terminator of `b` by `new`, and says whether there was
one.  A block without terminator stays as it is. -/
def retarget (f : Func) (b old new : BlockId) : Func × Bool :=
  match f.terminator? b with
  | none => (f, false)
  | some t =>
    ({ f with
        insts := f.insts.modify t.index fun inst =>
          { inst with op := inst.op.mapTargets fun s => if s = old then new else s } },
      (f.op? t).any fun op => old ∈ op.targets)

/-- Replaces targets as `retarget` does, in a block that has to exist. -/
def retarget? (f : Func) (b old new : BlockId) : Option (Func × Bool) :=
  (f.block? b).map fun _ => f.retarget b old new

/-- Retargeting leaves the layout alone. -/
@[simp] theorem layout_retarget (f : Func) (b old new : BlockId) :
    (f.retarget b old new).1.layout = f.layout := by
  unfold retarget
  split <;> rfl

/-- Retargeting leaves the blocks alone. -/
@[simp] theorem blocks_retarget (f : Func) (b old new : BlockId) :
    (f.retarget b old new).1.blocks = f.blocks := by
  unfold retarget
  split <;> rfl

/-! ### Splitting -/

/-- The names that the part split off a block called `base` may get, best first; one more than
there are names taken. -/
def splitNames (base : String) (taken : Nat) : List String :=
  (base ++ ".split") :: (List.range taken).map fun n => base ++ ".split" ++ toString (n + 1)

/-- The first name for a part of a block called `base` that no block of the layout has. -/
def freshSplitName (f : Func) (base : String) : String :=
  let taken := f.layout.filterMap f.blockName?
  ((splitNames base taken.length).find? fun n => n ∉ taken).getD (base ++ ".split")

/-- Cuts a block before the instruction at place `cut`.  The instructions from there on move to a
new block right after the old one, and the old one goes on to it with a branch. -/
def split? (f : Func) (b : BlockId) (cut : Nat) : Option (Func × BlockId) :=
  (f.block? b).map fun block =>
    let tail := block.insts.drop cut
    let newBlock : BlockId := ⟨f.blocks.size⟩
    let branch : InstId := ⟨f.insts.size⟩
    let first := { block with insts := block.insts.take cut ++ [branch] }
    let second : Block := ⟨f.freshSplitName block.name, tail⟩
    let moved := f.insts.mapIdx fun k inst =>
      if ⟨k⟩ ∈ tail then { inst with block := newBlock } else inst
    ({ f with
        blocks := (f.blocks.setIfInBounds b.index first).push second
        insts := moved.push ⟨none, .br newBlock, b⟩
        layout := insertAfter newBlock b f.layout }, newBlock)

/-- Splitting fails only on an id that names no block. -/
theorem split?_isSome {f : Func} {b : BlockId} {cut : Nat} :
    (f.split? b cut).isSome = (f.block? b).isSome := by
  simp [split?]

end Func

end LoopSwap
