/-
**Checked access.**

Queries and edits of a function are total: an id that names nothing has no instructions, and what is
moved is taken out of a list and put back.  Here they are done by opening every record that they go
by, and by places in the layout, and they fail if a record is missing or a place is not there.  In
an intact function they do not fail and their results are the same.

Main definitions:

* `LoopSwap.removeAt?`, `LoopSwap.insertAt?` — a list without the element at a place, and with one
  more there;
* `LoopSwap.Checked.exitOp`, `LoopSwap.Checked.outgoing`, `LoopSwap.Checked.predecessors` — checked
  queries;
* `LoopSwap.Checked.moveBefore`, `LoopSwap.Checked.moveToEnd`, `LoopSwap.Checked.split`,
  `LoopSwap.Checked.retargetAll` — checked edits.

Main results:

* `LoopSwap.Checked.moveBefore_eq`, `LoopSwap.Checked.moveToEnd_eq` — moves never fail;
* `LoopSwap.Checked.outgoing_eq`, `LoopSwap.Checked.split_eq`, `LoopSwap.Checked.retargetAll_eq` —
  in an intact function the others do not either.
-/

import LoopSwap.Proofs.Code.Layout
import LoopSwap.Proofs.Code.Retarget
import LoopSwap.Proofs.Code.Split

set_option relaxedAutoImplicit false
set_option autoImplicit false

namespace LoopSwap

/-! ### Lists by place -/

section

variable {α : Type} {a anchor : α} {l : List α} {k : Nat}

/-- The list without the element at a place, which has to be there. -/
def removeAt? (l : List α) (k : Nat) : Option (List α) :=
  if k < l.length then some (l.eraseIdx k) else none

/-- The list with `a` at a place, which must not be past its end. -/
def insertAt? (l : List α) (k : Nat) (a : α) : Option (List α) :=
  if k ≤ l.length then some (l.insertIdx k a) else none

theorem removeAt?_append (u v : List α) (a : α) :
    removeAt? (u ++ a :: v) u.length = some (u ++ v) := by
  have herase : (u ++ a :: v).eraseIdx u.length = u ++ v := by
    rw [List.eraseIdx_append_of_length_le (Nat.le_refl _), Nat.sub_self]
    rfl
  rw [removeAt?, if_pos (by simp), herase]

theorem insertAt?_append (u v : List α) (a : α) :
    insertAt? (u ++ v) u.length a = some (u ++ a :: v) := by
  have hinsert : (u ++ v).insertIdx u.length a = u ++ a :: v := by
    induction u with
    | nil => rfl
    | cons x u ih => exact congrArg (x :: ·) ih
  rw [insertAt?, if_pos (by simp), hinsert]

/-- If a reader succeeds on every element, it succeeds on the list. -/
theorem mapM_eq_some {β : Type} {read : α → Option β} {g : α → β}
    (h : ∀ a ∈ l, read a = some (g a)) : l.mapM read = some (l.map g) := by
  induction l with
  | nil => rfl
  | cons x l ih =>
      rw [List.mapM_cons, h x List.mem_cons_self, ih fun a ha => h a (List.mem_cons_of_mem _ ha)]
      rfl

theorem exists_mapM {β : Type} {read : α → Option β} (h : ∀ a ∈ l, (read a).isSome = true) :
    ∃ r, l.mapM read = some r := by
  induction l with
  | nil => exact ⟨[], rfl⟩
  | cons x l ih =>
      obtain ⟨y, hy⟩ := Option.isSome_iff_exists.1 (h x List.mem_cons_self)
      obtain ⟨r, hr⟩ := ih fun a ha => h a (List.mem_cons_of_mem _ ha)
      exact ⟨y :: r, by rw [List.mapM_cons, hy, hr]; rfl⟩

variable [DecidableEq α]

/-- What stands before an element and after it. -/
theorem exists_of_idxOf? (h : l.idxOf? a = some k) :
    ∃ u v, l = u ++ a :: v ∧ a ∉ u ∧ u.length = k := by
  induction l generalizing k with
  | nil => cases h
  | cons x l ih =>
      rw [List.idxOf?_cons] at h
      by_cases hx : x = a
      · rw [if_pos (by simpa using hx)] at h
        cases h
        exact ⟨[], l, by rw [hx]; rfl, List.not_mem_nil, rfl⟩
      · rw [if_neg (by simpa using hx)] at h
        obtain ⟨j, hj, rfl⟩ := Option.map_eq_some_iff.1 h
        obtain ⟨u, v, rfl, hu, rfl⟩ := ih hj
        exact ⟨x :: u, v, rfl, by simp [Ne.symm hx, hu], rfl⟩

/-- An element is taken out by its place. -/
theorem removeAt?_idxOf (h : l.idxOf? a = some k) : removeAt? l k = some (l.erase a) := by
  obtain ⟨u, v, rfl, hu, rfl⟩ := exists_of_idxOf? h
  rw [removeAt?_append, erase_middle hu]

/-- What is put in at the place of an element comes to stand before it. -/
theorem insertAt?_idxOf (h : l.idxOf? anchor = some k) :
    insertAt? l k a = some (insertBefore a anchor l) := by
  obtain ⟨u, v, rfl, hu, rfl⟩ := exists_of_idxOf? h
  rw [insertAt?_append, insertBefore_append hu]

/-- What is put in at the place after an element comes to stand after it. -/
theorem insertAt?_idxOf_succ (h : l.idxOf? anchor = some k) :
    insertAt? l (k + 1) a = some (insertAfter a anchor l) := by
  obtain ⟨u, v, rfl, hu, rfl⟩ := exists_of_idxOf? h
  have hplace := insertAt?_append (u ++ [anchor]) v a
  rw [List.length_append, List.append_assoc, List.append_assoc] at hplace
  rw [insertAfter_append hu]
  exact hplace

/-- What is taken out and put back to its place was not moved. -/
theorem insertAt?_erase (h : l.idxOf? a = some k) :
    insertAt? (l.erase a) (min k (l.erase a).length) a = some l := by
  obtain ⟨u, v, rfl, hu, rfl⟩ := exists_of_idxOf? h
  have hmin : min u.length (u ++ v).length = u.length := Nat.min_eq_left (by simp)
  rw [erase_middle hu, hmin, insertAt?_append]

end

namespace Checked

open Func (Intact)

variable {f f' : Func} {a b n : BlockId} {cut : Nat}

/-! ### Moves -/

/-- Moves a block right before `anchor`.  It is taken out at its place and put in at the place of
`anchor`, or back to its own if there is no `anchor`. -/
def moveBefore (f : Func) (b anchor : BlockId) : Option Func :=
  if b = anchor then some f
  else
    match f.position? b with
    | none => some f
    | some k => do
      let rest ← removeAt? f.layout k
      let layout ←
        match rest.idxOf? anchor with
        | some place => insertAt? rest place b
        | none => insertAt? rest (min k rest.length) b
      return { f with layout }

/-- Moves a block to the end. -/
def moveToEnd (f : Func) (b : BlockId) : Option Func :=
  match f.position? b with
  | none => some f
  | some k => do
    let rest ← removeAt? f.layout k
    return { f with layout := rest ++ [b] }

theorem position?_eq_none_iff : f.position? b = none ↔ b ∉ f.layout := List.idxOf?_eq_none_iff

theorem mem_of_position? {k : Nat} (h : f.position? b = some k) : b ∈ f.layout := by
  by_contra hno
  rw [position?_eq_none_iff.2 hno] at h
  cases h

/-- No move goes by a place that is not there. -/
theorem moveBefore_eq (f : Func) (b anchor : BlockId) :
    moveBefore f b anchor = some (f.moveBefore b anchor) := by
  unfold moveBefore
  split
  · next heq => rw [heq, Func.moveBefore_self]
  · next hne =>
      cases hk : f.position? b with
      | none =>
          have hno := position?_eq_none_iff.1 hk
          exact congrArg some (Func.moveBefore_eq_self (Or.inl hno)).symm
      | some k =>
          have hb := mem_of_position? hk
          dsimp only
          rw [removeAt?_idxOf hk, Option.bind_eq_bind, Option.bind_some]
          cases hplace : (f.layout.erase b).idxOf? anchor with
          | some place =>
              have hmem : anchor ∈ f.layout.erase b := by
                by_contra hno
                rw [List.idxOf?_eq_none_iff.2 hno] at hplace
                cases hplace
              dsimp only
              rw [insertAt?_idxOf hplace, Func.moveBefore, if_neg]
              · rfl
              · simp [hne, hb, List.mem_of_mem_erase hmem]
          | none =>
              have hno : anchor ∉ f.layout := fun hmem =>
                List.idxOf?_eq_none_iff.1 hplace ((List.mem_erase_of_ne (Ne.symm hne)).2 hmem)
              dsimp only
              rw [insertAt?_erase hk, Func.moveBefore_eq_self (Or.inr hno)]
              rfl

theorem moveToEnd_eq (f : Func) (b : BlockId) : moveToEnd f b = some (f.moveToEnd b) := by
  unfold moveToEnd
  cases hk : f.position? b with
  | none => exact congrArg some (Func.moveToEnd_eq_self (position?_eq_none_iff.1 hk)).symm
  | some k =>
      dsimp only
      rw [removeAt?_idxOf hk, Func.moveToEnd, if_pos (mem_of_position? hk)]
      rfl

/-! ### Queries -/

/-- What the terminator of a block does, if the block ends in one. -/
def exitOp (f : Func) (b : BlockId) : Option (Option Operation) := do
  let block ← f.block? b
  match block.insts.getLast? with
  | none => return none
  | some i => do
    let inst ← f.inst? i
    return if inst.op.isTerminator then some inst.op else none

/-- The blocks of the layout, each with its successors. -/
def outgoing (f : Func) : Option (List (BlockId × List BlockId)) :=
  f.layout.mapM fun b => (exitOp f b).map fun exit =>
    (b, (exit.map Operation.successors).getD [])

/-- The blocks of the layout that may continue with `b`. -/
def predecessors (f : Func) (b : BlockId) : Option (List BlockId) :=
  (outgoing f).map fun table => (table.filter fun e => b ∈ e.2).map (·.1)

/-- The predecessor of a block that is there and has exactly one. -/
def uniquePredecessor (f : Func) : Option BlockId → Option (Option BlockId)
  | none => some none
  | some b => (predecessors f b).map sole?

theorem exitOp_eq (hf : f.Intact) (hb : b ∈ f.layout) : exitOp f b = some (f.exitOp? b) := by
  obtain ⟨block, hblock⟩ := Option.isSome_iff_exists.1 (hf.block?_isSome hb)
  have hinsts : f.blockInsts b = block.insts := by rw [Func.blockInsts, hblock]; rfl
  unfold exitOp
  rw [hblock, Option.bind_eq_bind, Option.bind_some, Func.exitOp?, Func.terminator?, hinsts]
  cases hlast : block.insts.getLast? with
  | none => rfl
  | some i =>
      have hi := hf.lt_of_mem_blockInsts (hinsts ▸ List.mem_of_getLast? hlast : i ∈ f.blockInsts b)
      have hinst : f.inst? i = some f.insts[i.index] := Array.getElem?_eq_getElem hi
      dsimp only
      rw [hinst, Option.bind_eq_bind, Option.bind_some, Option.filter_some, Func.op?, hinst,
        Option.map_some, Option.any_some]
      split
      · rw [Option.bind_some, Func.op?, hinst]
        rfl
      · rfl

theorem outgoing_eq (hf : f.Intact) :
    outgoing f = some (f.layout.map fun b => (b, f.successors b)) := by
  refine mapM_eq_some fun b hb => ?_
  rw [exitOp_eq hf hb]
  rfl

theorem predecessors_eq (hf : f.Intact) (b : BlockId) :
    predecessors f b = some (f.predecessors b) := by
  rw [predecessors, outgoing_eq hf, Option.map_some, List.filter_map, List.map_map]
  exact congrArg some (List.map_id _)

theorem uniquePredecessor_eq (hf : f.Intact) (o : Option BlockId) :
    uniquePredecessor f o = some (o.bind f.uniquePredecessor?) := by
  cases o with
  | none => rfl
  | some b =>
      rw [uniquePredecessor, predecessors_eq hf]
      rfl

/-! ### Splits and new targets -/

/-- Cuts a block in two.  The labels of the layout are read for the new one, the instructions that
go to the new block are opened, and the new block is put in by its place. -/
def split (f : Func) (b : BlockId) (cut : Nat) : Option (Func × BlockId) := do
  let _ ← f.layout.mapM f.blockName?
  let block ← f.block? b
  let _ ← (block.insts.drop cut).mapM f.inst?
  let (g, n) ← f.split? b cut
  let layout ← insertAt? f.layout (((f.position? b).map (· + 1)).getD f.layout.length) n
  return ({ g with layout }, n)

/-- Sends branches elsewhere.  The terminator of the block is opened, and the labels are read of all
blocks that are involved. -/
def retarget (f : Func) (b old new : BlockId) : Option (Func × Bool) := do
  let _ ← exitOp f b
  let _ ← [b, old, new].mapM f.blockName?
  return f.retarget b old new

/-- Changes edges one after the other and counts those that were there. -/
def retargetAll (f : Func) : List (BlockId × BlockId × BlockId) → Option (Func × Nat)
  | [] => some (f, 0)
  | (source, old, new) :: rest => do
    let (f₁, changed) ← retarget f source old new
    let (f₂, count) ← retargetAll f₁ rest
    return (f₂, (if changed then 1 else 0) + count)

theorem blockName?_isSome (hf : f.Intact) (hb : b ∈ f.layout) :
    (f.blockName? b).isSome = true := by
  rw [Func.blockName?, Option.isSome_map]
  exact hf.block?_isSome hb

/-- The labels of blocks of the layout can be read. -/
theorem exists_labels (hf : f.Intact) {bs : List BlockId} (h : ∀ b ∈ bs, b ∈ f.layout) :
    ∃ labels, bs.mapM f.blockName? = some labels :=
  exists_mapM fun b hb => blockName?_isSome hf (h b hb)

/-- In an intact function a split of a block finds everything. -/
theorem split_eq (hf : f.Intact) (hb : b ∈ f.layout) (cut : Nat) :
    split f b cut = f.split? b cut := by
  obtain ⟨⟨g, n⟩, hsplit⟩ := hf.exists_split? hb cut
  obtain ⟨block, hblock, -⟩ := Func.exists_of_split? hsplit
  obtain ⟨labels, hlabels⟩ := exists_labels hf fun b hb => hb
  have hinsts : f.blockInsts b = block.insts := by rw [Func.blockInsts, hblock]; rfl
  obtain ⟨moved, hmoved⟩ : ∃ r, (block.insts.drop cut).mapM f.inst? = some r := by
    refine exists_mapM fun i hi => ?_
    have hlt := hf.lt_of_mem_blockInsts (hinsts ▸ List.mem_of_mem_drop hi : i ∈ f.blockInsts b)
    rw [Func.inst?, Array.getElem?_eq_getElem hlt]
    rfl
  obtain ⟨k, hk⟩ : ∃ k, f.position? b = some k := by
    rw [← Option.ne_none_iff_exists']
    exact fun hnone => position?_eq_none_iff.1 hnone hb
  have hlayout : insertAt? f.layout (k + 1) n = some g.layout := by
    rw [Func.layout_split? hsplit]
    exact insertAt?_idxOf_succ hk
  rw [split, hlabels, hblock, hsplit, hk]
  simp only [Option.bind_eq_bind, Option.bind_some, hmoved, Option.map_some, Option.getD_some,
    hlayout]
  rfl

theorem retarget_eq (hf : f.Intact) {old new : BlockId} (h : ∀ x ∈ [b, old, new], x ∈ f.layout) :
    retarget f b old new = some (f.retarget b old new) := by
  obtain ⟨labels, hlabels⟩ := exists_labels hf h
  rw [retarget, exitOp_eq hf (h b List.mem_cons_self), hlabels]
  rfl

/-- In an intact function changes of edges between blocks of the layout find everything. -/
theorem retargetAll_eq (es : List (BlockId × BlockId × BlockId)) : ∀ {f : Func}, f.Intact →
    (∀ e ∈ es, ∀ x ∈ [e.1, e.2.1, e.2.2], x ∈ f.layout) →
      retargetAll f es = some (f.retargetAll es) := by
  induction es with
  | nil => exact fun _ _ => rfl
  | cons e es ih =>
      intro f hf h
      obtain ⟨source, old, new⟩ := e
      have hrest : ∀ e ∈ es, ∀ x ∈ [e.1, e.2.1, e.2.2],
          x ∈ (f.retarget source old new).1.layout := fun e he x hx => by
        rw [Func.layout_retarget]
        exact h e (List.mem_cons_of_mem _ he) x hx
      have hfirst := retarget_eq hf (h (source, old, new) List.mem_cons_self)
      have hnext := ih (hf.retarget source old new) hrest
      simp only [retargetAll, hfirst, Option.bind_eq_bind, Option.bind_some, hnext]
      rfl

end Checked

end LoopSwap
