/-
**Well-formed functions.**

What holds of every function is said in layers.  A function is *intact* if its layout lists every
block once and its blocks share out the instructions among them, each of which knows its block.  No
edit breaks that.  It is *flowing* if in addition every block ends in its only terminator and every
target is a block of the layout that control does not start in.  A function that is read from a text
also has distinct block names; then it is *well-formed*.

Main definitions:

* `LoopSwap.Func.Intact`, `LoopSwap.Func.Flowing`, `LoopSwap.Func.WellFormed` — the layers.

Main results:

* `LoopSwap.Func.Intact.terminator_inj` — blocks do not share their terminators;
* `LoopSwap.Func.Flowing.edge_iff` — the edges of a flowing function are its successors.
-/

import LoopSwap.Code.Edit
import LoopSwap.Proofs.Graph.Path
import LoopSwap.Graph.Facts
import Mathlib.Data.List.Nodup

set_option relaxedAutoImplicit false
set_option autoImplicit false

namespace LoopSwap

namespace Func

/-! ### The layers -/

/-- The ids of the blocks of the arena. -/
def blockIds (f : Func) : List BlockId := (List.range f.blocks.size).map BlockId.mk

/-- The ids of the instructions of the arena. -/
def arenaInsts (f : Func) : List InstId := (List.range f.insts.size).map InstId.mk

/-- The layout lists every block once, and every instruction is in exactly one block, which it
names. -/
structure Intact (f : Func) : Prop where
  layout_perm : f.layout.Perm f.blockIds
  insts_perm : f.instIds.Perm f.arenaInsts
  owner : ∀ b ∈ f.layout, ∀ i ∈ f.blockInsts b, (f.inst? i).map (·.block) = some b

/-- Every block ends in its only terminator, and every target is a block of the layout other than
the entry. -/
structure Flowing (f : Func) : Prop extends Intact f where
  exitOp : ∀ b ∈ f.layout, (f.exitOp? b).isSome = true
  inner : ∀ b ∈ f.layout, ∀ i ∈ (f.blockInsts b).dropLast, ∀ op ∈ f.op? i,
    op.isTerminator = false
  target : ∀ b ∈ f.layout, ∀ t ∈ f.successors b, t ∈ f.layout ∧ f.entry? ≠ some t

/-- Control flows, and no two blocks have the same name. -/
structure WellFormed (f : Func) : Prop extends Flowing f where
  names : (f.layout.map f.blockName?).Nodup

instance (f : Func) : Decidable f.Intact :=
  decidable_of_iff (f.layout.Perm f.blockIds ∧ f.instIds.Perm f.arenaInsts ∧
      ∀ b ∈ f.layout, ∀ i ∈ f.blockInsts b, (f.inst? i).map (·.block) = some b)
    ⟨fun h => ⟨h.1, h.2.1, h.2.2⟩, fun h => ⟨h.layout_perm, h.insts_perm, h.owner⟩⟩

instance (f : Func) : Decidable f.Flowing :=
  decidable_of_iff (f.Intact ∧ (∀ b ∈ f.layout, (f.exitOp? b).isSome = true) ∧
      (∀ b ∈ f.layout, ∀ i ∈ (f.blockInsts b).dropLast, ∀ op ∈ f.op? i,
        op.isTerminator = false) ∧
      ∀ b ∈ f.layout, ∀ t ∈ f.successors b, t ∈ f.layout ∧ f.entry? ≠ some t)
    ⟨fun h => ⟨h.1, h.2.1, h.2.2.1, h.2.2.2⟩,
      fun h => ⟨h.toIntact, h.exitOp, h.inner, h.target⟩⟩

instance (f : Func) : Decidable f.WellFormed :=
  decidable_of_iff (f.Flowing ∧ (f.layout.map f.blockName?).Nodup)
    ⟨fun h => ⟨h.1, h.2⟩, fun h => ⟨h.toFlowing, h.names⟩⟩

variable {f : Func} {a b : BlockId} {i : InstId}

@[simp] theorem mem_blockIds : b ∈ f.blockIds ↔ b.index < f.blocks.size := by
  constructor
  · intro h
    obtain ⟨k, hk, rfl⟩ := List.mem_map.1 h
    exact List.mem_range.1 hk
  · intro h
    exact List.mem_map.2 ⟨b.index, List.mem_range.2 h, rfl⟩

@[simp] theorem mem_arenaInsts : i ∈ f.arenaInsts ↔ i.index < f.insts.size := by
  constructor
  · intro h
    obtain ⟨k, hk, rfl⟩ := List.mem_map.1 h
    exact List.mem_range.1 hk
  · intro h
    exact List.mem_map.2 ⟨i.index, List.mem_range.2 h, rfl⟩

theorem nodup_blockIds (f : Func) : f.blockIds.Nodup := by
  refine List.Nodup.map ?_ List.nodup_range
  intro k l h
  exact BlockId.mk.inj h

theorem nodup_arenaInsts (f : Func) : f.arenaInsts.Nodup := by
  refine List.Nodup.map ?_ List.nodup_range
  intro k l h
  exact InstId.mk.inj h

theorem graph_edge : f.graph.Edge a b ↔ a ∈ f.layout ∧ b ∈ f.layout ∧ b ∈ f.successors a := Iff.rfl

/-- Only blocks have instructions. -/
theorem block?_isSome_of_mem_blockInsts (h : i ∈ f.blockInsts b) : (f.block? b).isSome = true := by
  cases hb : f.block? b with
  | none => simp [blockInsts, hb] at h
  | some block => rfl

theorem block?_isSome_iff : (f.block? b).isSome = true ↔ b.index < f.blocks.size := by
  simp [block?]

/-- The terminator of a block is the last of its instructions. -/
theorem mem_blockInsts_of_terminator? (h : f.terminator? b = some i) : i ∈ f.blockInsts b := by
  rw [terminator?, Option.filter_eq_some_iff] at h
  exact List.mem_of_getLast? h.1

theorem mem_successors_iff :
    b ∈ f.successors a ↔ ∃ op, f.exitOp? a = some op ∧ b ∈ op.targets := by
  rw [successors]
  cases f.exitOp? a with
  | none => simp
  | some op => simp [Operation.mem_successors]

namespace Intact

theorem mem_layout (h : f.Intact) : b ∈ f.layout ↔ b.index < f.blocks.size := by
  rw [h.layout_perm.mem_iff, mem_blockIds]

theorem nodup_layout (h : f.Intact) : f.layout.Nodup :=
  h.layout_perm.nodup_iff.2 f.nodup_blockIds

theorem mem_instIds (h : f.Intact) : i ∈ f.instIds ↔ i.index < f.insts.size := by
  rw [h.insts_perm.mem_iff, mem_arenaInsts]

theorem mem_layout_of_mem_blockInsts (h : f.Intact) (hi : i ∈ f.blockInsts b) : b ∈ f.layout :=
  h.mem_layout.2 (block?_isSome_iff.1 (block?_isSome_of_mem_blockInsts hi))

theorem block?_isSome (h : f.Intact) (hb : b ∈ f.layout) : (f.block? b).isSome = true :=
  block?_isSome_iff.2 (h.mem_layout.1 hb)

/-- Every block of the layout can be split. -/
theorem exists_split? (h : f.Intact) (hb : b ∈ f.layout) (cut : Nat) :
    ∃ r, f.split? b cut = some r := by
  have hsome : (f.split? b cut).isSome = true := by
    rw [split?_isSome]
    exact h.block?_isSome hb
  exact Option.isSome_iff_exists.1 hsome

/-- Two blocks have no instruction in common. -/
theorem blockInsts_inj (h : f.Intact) (ha : i ∈ f.blockInsts a) (hb : i ∈ f.blockInsts b) :
    a = b := by
  have hia := h.owner a (h.mem_layout_of_mem_blockInsts ha) i ha
  have hib := h.owner b (h.mem_layout_of_mem_blockInsts hb) i hb
  rw [hia] at hib
  exact Option.some.inj hib

/-- Blocks do not share their terminators. -/
theorem terminator_inj (h : f.Intact) (ha : f.terminator? a = some i)
    (hb : f.terminator? b = some i) : a = b :=
  h.blockInsts_inj (mem_blockInsts_of_terminator? ha) (mem_blockInsts_of_terminator? hb)

/-- A block that leads somewhere is in the layout. -/
theorem mem_layout_of_mem_successors (h : f.Intact) (hb : b ∈ f.successors a) : a ∈ f.layout := by
  unfold successors exitOp? at hb
  cases ht : f.terminator? a with
  | none => simp [ht] at hb
  | some t => exact h.mem_layout_of_mem_blockInsts (mem_blockInsts_of_terminator? ht)

theorem nodup_blockInsts (h : f.Intact) (b : BlockId) : (f.blockInsts b).Nodup := by
  by_cases hb : b ∈ f.layout
  · have hnodup : f.instIds.Nodup := h.insts_perm.nodup_iff.2 f.nodup_arenaInsts
    rw [instIds, List.nodup_flatMap] at hnodup
    exact hnodup.1 b hb
  · cases hl : f.blockInsts b with
    | nil => exact List.nodup_nil
    | cons i l =>
        refine absurd (h.mem_layout_of_mem_blockInsts (i := i) ?_) hb
        rw [hl]
        exact List.mem_cons_self

end Intact

namespace Flowing

theorem edge_iff (h : f.Flowing) : f.graph.Edge a b ↔ b ∈ f.successors a := by
  constructor
  · rintro ⟨-, -, hb⟩
    exact hb
  · intro hb
    have ha := h.mem_layout_of_mem_successors hb
    exact ⟨ha, (h.target a ha b hb).1, hb⟩

theorem edge_iff_mem_predecessors (h : f.Flowing) :
    f.graph.Edge a b ↔ a ∈ f.predecessors b := by
  rw [h.edge_iff, mem_predecessors]
  exact ⟨fun hb => ⟨h.mem_layout_of_mem_successors hb, hb⟩, And.right⟩

/-- No edge leads to the entry. -/
theorem entry_ne (h : f.Flowing) (hab : f.graph.Edge a b) : f.entry? ≠ some b :=
  (h.target a hab.1 b hab.2.2).2

/-- No block is empty. -/
theorem blockInsts_ne_nil (h : f.Flowing) (hb : b ∈ f.layout) : f.blockInsts b ≠ [] := by
  intro hnil
  have hsome := h.exitOp b hb
  simp [exitOp?, terminator?, hnil] at hsome

end Flowing

/-! ### Small functions -/

/-- The function whose blocks consist of the given terminators. -/
def ofExits (exits : List (String × Operation)) : Func where
  name := "f"
  blocks := (exits.mapIdx fun k e => ⟨e.1, [⟨k⟩]⟩).toArray
  insts := (exits.mapIdx fun k e => ⟨none, e.2, ⟨k⟩⟩).toArray
  layout := (List.range exits.length).map BlockId.mk

end Func

end LoopSwap
