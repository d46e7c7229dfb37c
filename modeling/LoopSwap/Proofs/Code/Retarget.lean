/-
**Moves and new targets, by edges.**

A move changes the layout and nothing else, and a retargeting changes the targets of one terminator
and nothing else.  So the successors after a move are those before, and the successors after a list
of retargetings are those before, each sent through the list (`redirect`).

Main definitions:

* `LoopSwap.Func.Reordered` — the same blocks in another order, with the same entry;
* `LoopSwap.redirect` — where an edge leads after a list of retargetings.

Main results:

* `LoopSwap.Func.Reordered.moveBefore`, `LoopSwap.Func.Reordered.moveToEnd` — the moves reorder;
* `LoopSwap.Func.Intact.retargetAll`, `LoopSwap.Func.Intact.reordered` — both keep a function
  intact;
* `LoopSwap.Func.mem_successors_retargetAll` — the successors after retargetings;
* `LoopSwap.exists_redirect_iff` — what changes with different sources make of the edges.
-/

import LoopSwap.Interchange.Basic
import LoopSwap.Proofs.Code.WellFormed

set_option relaxedAutoImplicit false
set_option autoImplicit false

namespace LoopSwap

/-! ### Moves -/

theorem head?_insertBefore {α : Type} [DecidableEq α] {a anchor x : α} {l : List α}
    (hx : x ≠ anchor) (hl : l.head? = some x) : (insertBefore a anchor l).head? = some x := by
  cases l with
  | nil => cases hl
  | cons y l =>
      cases hl
      rw [insertBefore, if_neg hx]
      rfl

theorem head?_erase {α : Type} [DecidableEq α] {a x : α} {l : List α} (hx : x ≠ a)
    (hl : l.head? = some x) : (l.erase a).head? = some x := by
  cases l with
  | nil => cases hl
  | cons y l =>
      cases hl
      rw [List.erase_cons_tail (by simpa using hx)]
      rfl

namespace Func

/-- `f'` is `f` with its blocks in another order that starts with the same block. -/
structure Reordered (f f' : Func) : Prop where
  blocks : f'.blocks = f.blocks
  insts : f'.insts = f.insts
  layout : f'.layout.Perm f.layout
  entry : f'.entry? = f.entry?

variable {f f' f'' : Func} {a b anchor e : BlockId} {i : InstId}

namespace Reordered

theorem refl (f : Func) : f.Reordered f := ⟨rfl, rfl, .refl _, rfl⟩

theorem trans (h : f.Reordered f') (h' : f'.Reordered f'') : f.Reordered f'' :=
  ⟨h'.blocks.trans h.blocks, h'.insts.trans h.insts, h'.layout.trans h.layout,
    h'.entry.trans h.entry⟩

/-- A move before a block keeps the entry if neither of the two is the entry. -/
theorem moveBefore (f : Func) (hb : f.entry? ≠ some b) (ha : f.entry? ≠ some anchor) :
    f.Reordered (f.moveBefore b anchor) := by
  unfold Func.moveBefore
  split
  · exact refl f
  · next hcond =>
      have hmem : b ∈ f.layout := not_not.1 (not_or.1 (not_or.1 hcond).2).1
      refine ⟨rfl, rfl, ?_, ?_⟩
      · exact (insertBefore_perm b anchor _).trans (List.perm_cons_erase hmem).symm
      · cases hl : f.layout.head? with
        | none =>
            rw [List.head?_eq_none_iff] at hl
            rw [hl] at hmem
            cases hmem
        | some x =>
            have hxb : x ≠ b := fun hxb => hb (hxb ▸ hl)
            have hxa : x ≠ anchor := fun hxa => ha (hxa ▸ hl)
            exact (head?_insertBefore hxa (head?_erase hxb hl)).trans hl.symm

/-- A move to the end keeps the entry if it does not move it. -/
theorem moveToEnd (f : Func) (hb : f.entry? ≠ some b) : f.Reordered (f.moveToEnd b) := by
  unfold Func.moveToEnd
  split
  · next hmem =>
      refine ⟨rfl, rfl, ?_, ?_⟩
      · exact List.perm_append_comm.trans (List.perm_cons_erase hmem).symm
      · cases hl : f.layout.head? with
        | none =>
            rw [List.head?_eq_none_iff] at hl
            rw [hl] at hmem
            cases hmem
        | some x =>
            have hxb : x ≠ b := fun hxb => hb (hxb ▸ hl)
            show (f.layout.erase b ++ [b]).head? = f.layout.head?
            rw [List.head?_append, head?_erase hxb hl, hl, Option.some_or]
  · exact refl f

theorem mem_layout (h : f.Reordered f') : b ∈ f'.layout ↔ b ∈ f.layout := h.layout.mem_iff

theorem blockInsts (h : f.Reordered f') (b : BlockId) : f'.blockInsts b = f.blockInsts b := by
  rw [Func.blockInsts, Func.blockInsts, block?, block?, h.blocks]

theorem op? (h : f.Reordered f') (i : InstId) : f'.op? i = f.op? i := by
  rw [Func.op?, Func.op?, inst?, inst?, h.insts]

theorem terminator? (h : f.Reordered f') (b : BlockId) : f'.terminator? b = f.terminator? b := by
  have hop : f'.op? = f.op? := funext h.op?
  rw [Func.terminator?, Func.terminator?, h.blockInsts, hop]

theorem exitOp? (h : f.Reordered f') (b : BlockId) : f'.exitOp? b = f.exitOp? b := by
  have hop : f'.op? = f.op? := funext h.op?
  rw [Func.exitOp?, Func.exitOp?, h.terminator?, hop]

theorem successors (h : f.Reordered f') (b : BlockId) : f'.successors b = f.successors b := by
  rw [Func.successors, Func.successors, h.exitOp?]

end Reordered

/-- Any order of the blocks keeps a function intact. -/
theorem Intact.of_perm (hf : f.Intact) (hblocks : f'.blocks = f.blocks)
    (hinsts : f'.insts = f.insts) (hlayout : f'.layout.Perm f.layout) : f'.Intact := by
  have hlists : f'.blockInsts = f.blockInsts := by
    funext b
    rw [Func.blockInsts, Func.blockInsts, block?, block?, hblocks]
  refine ⟨?_, ?_, fun b hb i hi => ?_⟩
  · rw [blockIds, hblocks]
    exact hlayout.trans hf.layout_perm
  · rw [instIds, hlists, arenaInsts, hinsts]
    exact (hlayout.flatMap_right _).trans hf.insts_perm
  · rw [inst?, hinsts]
    rw [hlists] at hi
    exact hf.owner b (hlayout.mem_iff.1 hb) i hi

theorem Intact.reordered (hf : f.Intact) (h : f.Reordered f') : f'.Intact :=
  hf.of_perm h.blocks h.insts h.layout

end Func

/-! ### Retargeting -/

namespace Operation

@[simp] theorem mapTargets_id (op : Operation) : op.mapTargets (fun t => t) = op := by
  cases op <;> rfl

@[simp] theorem mapTargets_mapTargets (g h : BlockId → BlockId) (op : Operation) :
    (op.mapTargets g).mapTargets h = op.mapTargets fun t => h (g t) := by
  cases op <;> rfl

theorem mem_successors_mapTargets {g : BlockId → BlockId} {op : Operation} {b : BlockId} :
    b ∈ (op.mapTargets g).successors ↔ ∃ t ∈ op.successors, g t = b := by
  simp only [mem_successors, targets_mapTargets, List.mem_map]

end Operation

/-- Where an edge from `a` to `t` leads after a list of retargetings. -/
def redirect : List (BlockId × BlockId × BlockId) → BlockId → BlockId → BlockId
  | [], _, t => t
  | (source, old, new) :: rest, a, t =>
    redirect rest a (if source = a ∧ t = old then new else t)

theorem redirect_append (es es' : List (BlockId × BlockId × BlockId)) (a t : BlockId) :
    redirect (es ++ es') a t = redirect es' a (redirect es a t) := by
  induction es generalizing t with
  | nil => rfl
  | cons e es ih =>
      obtain ⟨source, old, new⟩ := e
      exact ih _

/-- A changed edge leads where it did or to the new target of a change. -/
theorem redirect_closed {P : BlockId → Prop} {es : List (BlockId × BlockId × BlockId)}
    (hes : ∀ e ∈ es, P e.2.2) (a : BlockId) : ∀ t, P t → P (redirect es a t) := by
  induction es with
  | nil => exact fun t ht => ht
  | cons e es ih =>
      intro t ht
      obtain ⟨source, old, new⟩ := e
      refine ih (fun e he => hes e (List.mem_cons_of_mem _ he)) _ ?_
      split
      · exact hes _ List.mem_cons_self
      · exact ht

theorem redirect_of_ne {es : List (BlockId × BlockId × BlockId)} {a t : BlockId}
    (h : ∀ e ∈ es, e.1 ≠ a) : redirect es a t = t := by
  induction es with
  | nil => rfl
  | cons e es ih =>
      obtain ⟨source, old, new⟩ := e
      have hne : ¬ (source = a ∧ t = old) := fun hcond => h _ List.mem_cons_self hcond.1
      rw [redirect, if_neg hne]
      exact ih fun e he => h e (List.mem_cons_of_mem _ he)

/-- If every block is the source of one change only, that change decides. -/
theorem redirect_of_mem {es : List (BlockId × BlockId × BlockId)} {a t old new : BlockId}
    (hnodup : (es.map (·.1)).Nodup) (h : (a, old, new) ∈ es) :
    redirect es a t = if t = old then new else t := by
  induction es generalizing t with
  | nil => cases h
  | cons e es ih =>
      rw [List.map_cons, List.nodup_cons] at hnodup
      rcases List.mem_cons.1 h with rfl | hmem
      · -- no later change has this source
        have hrest : ∀ e ∈ es, e.1 ≠ a := fun e he hea =>
          hnodup.1 (List.mem_map.2 ⟨e, he, hea⟩)
        rw [redirect, redirect_of_ne hrest]
        simp
      · have hne : e.1 ≠ a := fun hea => hnodup.1 (List.mem_map.2 ⟨_, hmem, hea.symm⟩)
        obtain ⟨source, old', new'⟩ := e
        rw [redirect, if_neg fun hcond => hne hcond.1]
        exact ih hnodup.2 hmem

/-- What a list of changes makes of the edges, if every change finds its edge and no block is the
source of two. -/
theorem exists_redirect_iff {es : List (BlockId × BlockId × BlockId)}
    {r : BlockId → BlockId → Prop} {a b : BlockId} (hnodup : (es.map (·.1)).Nodup)
    (hes : ∀ e ∈ es, r e.1 e.2.1) :
    (∃ t, r a t ∧ redirect es a t = b) ↔
      (∃ old, (a, old, b) ∈ es) ∨ r a b ∧ ∀ new, (a, b, new) ∉ es := by
  by_cases hsource : ∀ e ∈ es, e.1 ≠ a
  · have hno : ∀ x y, (a, x, y) ∉ es := fun x y hmem => hsource _ hmem rfl
    simp [redirect_of_ne hsource, hno]
  · simp only [not_forall, not_not] at hsource
    obtain ⟨⟨source, old, new⟩, hmem, hsa⟩ := hsource
    obtain rfl : source = a := hsa
    -- this is the only change with its source
    have huniq : ∀ x y, (source, x, y) ∈ es → x = old ∧ y = new := by
      intro x y hxy
      have heq := List.inj_on_of_nodup_map hnodup hxy hmem rfl
      cases heq
      exact ⟨rfl, rfl⟩
    simp only [redirect_of_mem hnodup hmem]
    constructor
    · rintro ⟨t, ht, htb⟩
      by_cases hold : t = old
      · rw [if_pos hold] at htb
        exact Or.inl ⟨old, htb ▸ hmem⟩
      · rw [if_neg hold] at htb
        subst htb
        exact Or.inr ⟨ht, fun y hy => hold (huniq t y hy).1⟩
    · rintro (⟨x, hx⟩ | ⟨hb, hkept⟩)
      · obtain ⟨rfl, rfl⟩ := huniq x b hx
        exact ⟨x, hes _ hx, if_pos rfl⟩
      · have hne : b ≠ old := by
          rintro rfl
          exact hkept new hmem
        exact ⟨b, hb, if_neg hne⟩

namespace Func

variable {f : Func} {a b old new : BlockId} {i : InstId}

@[simp] theorem blockInsts_retarget (f : Func) (b old new a : BlockId) :
    (f.retarget b old new).1.blockInsts a = f.blockInsts a := by
  rw [blockInsts, blockInsts, block?, block?, blocks_retarget]

theorem inst?_retarget (f : Func) (b old new : BlockId) (i : InstId) :
    (f.retarget b old new).1.inst? i =
      if f.terminator? b = some i then
        (f.inst? i).map fun inst =>
          { inst with op := inst.op.mapTargets fun t => if t = old then new else t }
      else f.inst? i := by
  unfold retarget
  cases ht : f.terminator? b with
  | none => rfl
  | some t =>
      show (f.insts.modify t.index _)[i.index]? = _
      rw [Array.getElem?_modify]
      by_cases hti : t = i
      · rw [hti, if_pos rfl, if_pos rfl]
        rfl
      · have hindex : t.index ≠ i.index := fun h => hti (by cases t; cases i; exact congrArg _ h)
        rw [if_neg hindex, if_neg fun h => hti (Option.some.inj h)]
        rfl

theorem op?_retarget (f : Func) (b old new : BlockId) (i : InstId) :
    (f.retarget b old new).1.op? i =
      if f.terminator? b = some i then
        (f.op? i).map (Operation.mapTargets fun t => if t = old then new else t)
      else f.op? i := by
  rw [op?, inst?_retarget]
  by_cases h : f.terminator? b = some i
  · rw [if_pos h, if_pos h, op?, Option.map_map, Option.map_map]
    rfl
  · rw [if_neg h, if_neg h]
    rfl

@[simp] theorem terminator?_retarget (f : Func) (b old new a : BlockId) :
    (f.retarget b old new).1.terminator? a = f.terminator? a := by
  rw [terminator?, terminator?, blockInsts_retarget]
  congr 1
  funext i
  rw [op?_retarget]
  split
  · cases f.op? i with
    | none => rfl
    | some op => simp
  · rfl

/-- Retargeting a block changes how that block ends and nothing else. -/
theorem exitOp?_retarget (hf : f.Intact) (b old new a : BlockId) :
    (f.retarget b old new).1.exitOp? a =
      (f.exitOp? a).map (Operation.mapTargets fun t => if b = a ∧ t = old then new else t) := by
  rw [exitOp?, exitOp?, terminator?_retarget]
  cases ht : f.terminator? a with
  | none => rfl
  | some i =>
      rw [Option.bind_some, Option.bind_some, op?_retarget]
      by_cases hba : b = a
      · rw [hba, if_pos ht]
        simp
      · have hne : f.terminator? b ≠ some i := fun h => hba (hf.terminator_inj h ht)
        rw [if_neg hne]
        cases f.op? i with
        | none => rfl
        | some op => simp [hba]

@[simp] theorem arenaInsts_retarget (f : Func) (b old new : BlockId) :
    (f.retarget b old new).1.arenaInsts = f.arenaInsts := by
  unfold retarget
  split
  · rfl
  · rw [arenaInsts, Array.size_modify, arenaInsts]

theorem Intact.retarget (hf : f.Intact) (b old new : BlockId) :
    (f.retarget b old new).1.Intact := by
  have hblocks := f.blocks_retarget b old new
  have hlayout := f.layout_retarget b old new
  refine ⟨?_, ?_, fun a ha i hi => ?_⟩
  · rw [hlayout, blockIds, hblocks]
    exact hf.layout_perm
  · rw [instIds, hlayout, arenaInsts_retarget, funext (f.blockInsts_retarget b old new)]
    exact hf.insts_perm
  · rw [blockInsts_retarget] at hi
    rw [hlayout] at ha
    rw [inst?_retarget]
    split
    · rw [Option.map_map]
      exact hf.owner a ha i hi
    · exact hf.owner a ha i hi

/-! ### Several retargetings -/

theorem Intact.retargetAll (edges : List (BlockId × BlockId × BlockId)) :
    ∀ {f : Func}, f.Intact → (f.retargetAll edges).1.Intact := by
  induction edges with
  | nil => exact fun hf => hf
  | cons e es ih =>
      intro f hf
      obtain ⟨source, old, new⟩ := e
      exact ih (hf.retarget source old new)

theorem arenaInsts_retargetAll (edges : List (BlockId × BlockId × BlockId)) :
    ∀ f : Func, (f.retargetAll edges).1.arenaInsts = f.arenaInsts := by
  induction edges with
  | nil => exact fun _ => rfl
  | cons e es ih =>
      intro f
      obtain ⟨source, old, new⟩ := e
      exact (ih _).trans (f.arenaInsts_retarget source old new)

/-- How blocks end after a list of retargetings. -/
theorem exitOp?_retargetAll (edges : List (BlockId × BlockId × BlockId)) (a : BlockId) :
    ∀ {f : Func}, f.Intact → (f.retargetAll edges).1.exitOp? a =
      (f.exitOp? a).map (Operation.mapTargets (redirect edges a)) := by
  induction edges with
  | nil =>
      intro f _
      show f.exitOp? a = _
      cases f.exitOp? a with
      | none => rfl
      | some op => exact congrArg some op.mapTargets_id.symm
  | cons e es ih =>
      intro f hf
      obtain ⟨source, old, new⟩ := e
      show ((f.retarget source old new).1.retargetAll es).1.exitOp? a = _
      rw [ih (hf.retarget source old new), exitOp?_retarget hf, Option.map_map]
      congr 1
      funext op
      exact op.mapTargets_mapTargets _ _

/-- The successors after a list of retargetings. -/
theorem mem_successors_retargetAll (hf : f.Intact)
    (edges : List (BlockId × BlockId × BlockId)) :
    b ∈ (f.retargetAll edges).1.successors a ↔ ∃ t ∈ f.successors a, redirect edges a t = b := by
  rw [successors, successors, exitOp?_retargetAll edges a hf]
  cases f.exitOp? a with
  | none => simp
  | some op => exact Operation.mem_successors_mapTargets

end Func

end LoopSwap
