/-
**Any number of edits.**

A function is built from nothing by edits: blocks and instructions are appended, blocks are moved,
sent elsewhere and cut in two.  An edit that opens a block needs one to open; a move needs nothing,
not even that its block is there.  The layout, the lists of the blocks and the blocks that
instructions name are three records of one partition, which every edit has to keep in step.  One
edit keeps a function intact, and so does any number of them.

Main definitions:

* `LoopSwap.Move`, `LoopSwap.Edit` — moves and edits;
* `LoopSwap.Func.moveAll`, `LoopSwap.Func.editAll?` — the function after one after the other;
* `LoopSwap.Edit.Fits` — edits that open only blocks that are there by then.

Main results:

* `LoopSwap.Func.Reordered.moveAll` — moves that keep the entry reorder the function;
* `LoopSwap.Func.edit?_isSome_iff` — an edit fails only on a block that is not there;
* `LoopSwap.Func.Intact.edit?`, `LoopSwap.Func.Intact.editAll?` — edits keep a function intact;
* `LoopSwap.Func.editAll?_empty` — what edits make of the function without blocks.
-/

import LoopSwap.Proofs.Code.Layout
import LoopSwap.Proofs.Code.Retarget
import LoopSwap.Proofs.Code.Split

set_option relaxedAutoImplicit false
set_option autoImplicit false

namespace LoopSwap

/-! ### Moves and edits -/

/-- A move of a block, before another one or to the end of the layout. -/
inductive Move where
  | before (b anchor : BlockId)
  | toEnd (b : BlockId)
  deriving DecidableEq

/-- An edit of a function. -/
inductive Edit where
  | appendBlock (name : String)
  | appendInst (b : BlockId) (name : Option String) (op : Operation)
  | move (m : Move)
  | retarget (b old new : BlockId)
  | split (b : BlockId) (cut : Nat)
  deriving DecidableEq

namespace Func

/-- The function after a move. -/
def move (f : Func) : Move → Func
  | .before b anchor => f.moveBefore b anchor
  | .toEnd b => f.moveToEnd b

/-- The function after one move after the other. -/
def moveAll (f : Func) (moves : List Move) : Func := moves.foldl move f

/-- The function after an edit, which fails on a block that is not there. -/
def edit? (f : Func) : Edit → Option Func
  | .appendBlock name => some (f.appendBlock name).1
  | .appendInst b name op => (f.appendInst? b name op).map (·.1)
  | .move m => some (f.move m)
  | .retarget b old new => (f.retarget? b old new).map (·.1)
  | .split b cut => (f.split? b cut).map (·.1)

/-- The function after one edit after the other. -/
def editAll? (f : Func) (edits : List Edit) : Option Func := edits.foldlM edit? f

end Func

namespace Edit

/-- The block that an edit opens, if it opens one. -/
def opened? : Edit → Option BlockId
  | appendInst b .. | retarget b .. | split b _ => some b
  | appendBlock _ | move _ => none

/-- The number of blocks that an edit adds. -/
def added : Edit → Nat
  | appendBlock _ | split .. => 1
  | appendInst .. | move _ | retarget .. => 0

/-- Edits of a function with `n` blocks that open only blocks that are there by then. -/
def Fits (n : Nat) : List Edit → Prop
  | [] => True
  | e :: es => (∀ b ∈ e.opened?, b.index < n) ∧ Fits (n + e.added) es

instance decidableFits : ∀ (n : Nat) (es : List Edit), Decidable (Fits n es)
  | _, [] => isTrue trivial
  | n, e :: es =>
    have := decidableFits (n + e.added) es
    inferInstanceAs (Decidable ((∀ b ∈ e.opened?, b.index < n) ∧ Fits (n + e.added) es))

/-- The first of edits that fit do. -/
theorem Fits.mono {es es' : List Edit} (h : es <+: es') : ∀ {n : Nat}, Fits n es' → Fits n es := by
  induction es generalizing es' with
  | nil => exact fun _ => trivial
  | cons e es ih =>
      obtain ⟨rest, rfl⟩ := h
      exact fun hfits => ⟨hfits.1, ih (List.prefix_append es rest) hfits.2⟩

end Edit

namespace Func

variable {f g : Func} {a b : BlockId} {i : InstId} {name : Option String} {op : Operation}

/-! ### Moves -/

@[simp] theorem blocks_move (f : Func) (m : Move) : (f.move m).blocks = f.blocks := by
  cases m with
  | before b anchor =>
      rw [move, moveBefore]
      split <;> rfl
  | toEnd b =>
      rw [move, moveToEnd]
      split <;> rfl

@[simp] theorem insts_move (f : Func) (m : Move) : (f.move m).insts = f.insts := by
  cases m with
  | before b anchor =>
      rw [move, moveBefore]
      split <;> rfl
  | toEnd b =>
      rw [move, moveToEnd]
      split <;> rfl

theorem perm_move (f : Func) (m : Move) : (f.move m).layout.Perm f.layout := by
  cases m with
  | before b anchor => exact f.perm_moveBefore b anchor
  | toEnd b => exact f.perm_moveToEnd b

/-- Moves change nothing but the order of the layout. -/
theorem moveAll_keeps (moves : List Move) : ∀ f : Func, (f.moveAll moves).blocks = f.blocks ∧
    (f.moveAll moves).insts = f.insts ∧ (f.moveAll moves).layout.Perm f.layout := by
  induction moves with
  | nil => exact fun f => ⟨rfl, rfl, .refl _⟩
  | cons m moves ih =>
      intro f
      obtain ⟨hblocks, hinsts, hlayout⟩ := ih (f.move m)
      exact ⟨hblocks.trans (f.blocks_move m), hinsts.trans (f.insts_move m),
        hlayout.trans (f.perm_move m)⟩

/-- Moves that leave the entry in front reorder the function. -/
theorem Reordered.moveAll {moves : List Move} (h : entry? (f.moveAll moves) = f.entry?) :
    f.Reordered (f.moveAll moves) := by
  obtain ⟨hblocks, hinsts, hlayout⟩ := moveAll_keeps moves f
  exact ⟨hblocks, hinsts, hlayout, h⟩

/-! ### Growing -/

/-- A block that is appended is empty. -/
theorem blockInsts_appendBlock (f : Func) (label : String) (a : BlockId) :
    (f.appendBlock label).1.blockInsts a = f.blockInsts a := by
  show (((f.blocks.push ⟨label, []⟩)[a.index]?).map Block.insts).getD [] = _
  rw [Array.getElem?_push]
  split
  · next h =>
      have hnone : f.block? a = none := Array.getElem?_eq_none (Nat.le_of_eq h.symm)
      rw [blockInsts, hnone]
      rfl
  · rfl

theorem exists_of_appendInst? (h : f.appendInst? b name op = some (g, i)) :
    ∃ block, f.block? b = some block ∧ i = ⟨f.insts.size⟩ ∧ g.layout = f.layout ∧
      g.blocks = f.blocks.setIfInBounds b.index { block with insts := block.insts ++ [i] } ∧
      g.insts = f.insts.push ⟨name, op, b⟩ := by
  obtain ⟨block, hblock, heq⟩ := Option.map_eq_some_iff.1 h
  cases heq
  exact ⟨block, hblock, rfl, rfl, rfl, rfl⟩

/-- An instruction that is appended is the last of its block. -/
theorem blockInsts_appendInst? (h : f.appendInst? b name op = some (g, i)) (a : BlockId) :
    g.blockInsts a = if a = b then f.blockInsts b ++ [i] else f.blockInsts a := by
  obtain ⟨block, hblock, -, -, hblocks, -⟩ := exists_of_appendInst? h
  rw [blockInsts, block?, hblocks, Array.getElem?_setIfInBounds]
  by_cases hab : a = b
  · obtain ⟨hlt, -⟩ := Array.getElem?_eq_some_iff.1 hblock
    rw [hab, if_pos rfl, if_pos rfl, if_pos hlt, blockInsts, hblock]
    rfl
  · have hindex : b.index ≠ a.index := fun heq =>
      hab (by cases a; cases b; exact congrArg _ heq.symm)
    rw [if_neg hindex, if_neg hab]
    rfl

theorem inst?_appendInst?_new (h : f.appendInst? b name op = some (g, i)) :
    g.inst? i = some ⟨name, op, b⟩ := by
  obtain ⟨block, -, rfl, -, -, hinsts⟩ := exists_of_appendInst? h
  rw [inst?, hinsts, Array.getElem?_push, if_pos rfl]

theorem inst?_appendInst?_of_lt (h : f.appendInst? b name op = some (g, i)) {j : InstId}
    (hj : j.index < f.insts.size) : g.inst? j = f.inst? j := by
  obtain ⟨block, -, -, -, -, hinsts⟩ := exists_of_appendInst? h
  rw [inst?, hinsts, Array.getElem?_push, if_neg (Nat.ne_of_lt hj)]
  rfl

/-! ### Intact functions stay intact -/

namespace Intact

/-- The function without blocks is intact. -/
theorem empty (label : String) : (Func.empty label).Intact :=
  ⟨.refl _, .refl _, by simp [Func.empty]⟩

theorem move (hf : f.Intact) (m : Move) : (f.move m).Intact :=
  hf.of_perm (f.blocks_move m) (f.insts_move m) (f.perm_move m)

theorem appendBlock (hf : f.Intact) (label : String) : (f.appendBlock label).1.Intact := by
  have hlists := funext (f.blockInsts_appendBlock label)
  have hlayout : (f.appendBlock label).1.layout = f.layout ++ [⟨f.blocks.size⟩] := rfl
  have hnew : f.blockInsts ⟨f.blocks.size⟩ = [] := by
    rw [blockInsts, block?, Array.getElem?_eq_none (Nat.le_refl _)]
    rfl
  refine ⟨?_, ?_, fun b hb i hi => ?_⟩
  · rw [hlayout, blockIds, Func.appendBlock, Array.size_push, List.range_succ, List.map_append]
    exact hf.layout_perm.append_right _
  · rw [instIds, hlayout, hlists, List.flatMap_append, List.flatMap_singleton, hnew,
      List.append_nil]
    exact hf.insts_perm
  · rw [hlists] at hi
    exact hf.owner b (hf.mem_layout_of_mem_blockInsts hi) i hi

theorem appendInst? (hf : f.Intact) (h : f.appendInst? b name op = some (g, i)) : g.Intact := by
  obtain ⟨block, hblock, hi, hlayout, hblocks, hinsts⟩ := exists_of_appendInst? h
  have hlists := blockInsts_appendInst? h
  have hb : b ∈ f.layout := hf.mem_layout.2 (Array.getElem?_eq_some_iff.1 hblock).1
  refine ⟨?_, ?_, fun a ha j hj => ?_⟩
  · rw [hlayout, blockIds, hblocks, Array.size_setIfInBounds]
    exact hf.layout_perm
  · -- bring the block that grows to the front
    have hsplit := List.perm_cons_erase hb
    have hrest : (f.layout.erase b).flatMap g.blockInsts =
        (f.layout.erase b).flatMap f.blockInsts := by
      refine List.flatMap_congr fun a ha => ?_
      rw [hlists, if_neg (hf.nodup_layout.mem_erase_iff.1 ha).1]
    have hgrown : g.instIds.Perm (i :: f.instIds) := by
      rw [instIds, hlayout]
      refine (hsplit.flatMap_right _).trans ?_
      rw [List.flatMap_cons, hrest, hlists, if_pos rfl, List.append_assoc, List.singleton_append]
      refine List.perm_middle.trans (List.Perm.cons i ?_)
      rw [← List.flatMap_cons]
      exact (hsplit.flatMap_right _).symm
    rw [arenaInsts, hinsts, Array.size_push, List.range_succ, List.map_append]
    refine hgrown.trans ?_
    rw [hi]
    exact (hf.insts_perm.cons _).trans (List.perm_append_singleton _ _).symm
  · have hold : ∀ {c k}, k ∈ f.blockInsts c → (g.inst? k).map (·.block) = some c := by
      intro c k hk
      rw [inst?_appendInst?_of_lt h (hf.lt_of_mem_blockInsts hk)]
      exact hf.owner c (hf.mem_layout_of_mem_blockInsts hk) k hk
    rw [hlists] at hj
    split at hj
    · next hab =>
        rcases List.mem_append.1 hj with hj | hj
        · exact hab ▸ hold hj
        · rw [List.mem_singleton.1 hj, inst?_appendInst?_new h, hab]
          rfl
    · exact hold hj

end Intact

/-! ### One edit -/

/-- An edit fails only on a block that is not there. -/
theorem edit?_isSome_iff {e : Edit} :
    (f.edit? e).isSome = true ↔ ∀ b ∈ e.opened?, b.index < f.blocks.size := by
  cases e with
  | appendBlock label => simp [edit?, Edit.opened?]
  | appendInst b name op => simp [edit?, Edit.opened?, Func.appendInst?, block?]
  | move m => simp [edit?, Edit.opened?]
  | retarget b old new => simp [edit?, Edit.opened?, retarget?, block?]
  | split b cut => simp [edit?, Edit.opened?, split?, block?]

/-- What an edit makes. -/
theorem exists_of_edit? {e : Edit} (h : f.edit? e = some g) :
    (∃ label, e = .appendBlock label ∧ g = (f.appendBlock label).1) ∨
    (∃ b name op i, e = .appendInst b name op ∧ f.appendInst? b name op = some (g, i)) ∨
    (∃ m, e = .move m ∧ g = f.move m) ∨
    (∃ b old new, e = .retarget b old new ∧ g = (f.retarget b old new).1) ∨
    ∃ b cut n, e = .split b cut ∧ f.split? b cut = some (g, n) := by
  cases e with
  | appendBlock label => exact Or.inl ⟨label, rfl, (Option.some.inj h).symm⟩
  | appendInst b name op =>
      obtain ⟨⟨f', i⟩, hf', rfl⟩ := Option.map_eq_some_iff.1 h
      exact Or.inr (Or.inl ⟨b, name, op, i, rfl, hf'⟩)
  | move m => exact Or.inr (Or.inr (Or.inl ⟨m, rfl, (Option.some.inj h).symm⟩))
  | retarget b old new =>
      obtain ⟨r, hr, rfl⟩ := Option.map_eq_some_iff.1 h
      obtain ⟨block, -, rfl⟩ := Option.map_eq_some_iff.1 hr
      exact Or.inr (Or.inr (Or.inr (Or.inl ⟨b, old, new, rfl, rfl⟩)))
  | split b cut =>
      obtain ⟨⟨f', n⟩, hf', rfl⟩ := Option.map_eq_some_iff.1 h
      exact Or.inr (Or.inr (Or.inr (Or.inr ⟨b, cut, n, rfl, hf'⟩)))

/-- The number of blocks after an edit. -/
theorem size_blocks_edit? {e : Edit} (h : f.edit? e = some g) :
    g.blocks.size = f.blocks.size + e.added := by
  rcases exists_of_edit? h with ⟨label, rfl, rfl⟩ | ⟨b, name, op, i, rfl, h'⟩ | ⟨m, rfl, rfl⟩ |
    ⟨b, old, new, rfl, rfl⟩ | ⟨b, cut, n, rfl, h'⟩
  · exact Array.size_push _
  · obtain ⟨block, -, -, -, hblocks, -⟩ := exists_of_appendInst? h'
    rw [hblocks, Array.size_setIfInBounds]
    rfl
  · rw [blocks_move]
    rfl
  · rw [blocks_retarget]
    rfl
  · obtain ⟨block, -, -, hblocks, -⟩ := exists_of_split? h'
    rw [hblocks, Array.size_push, Array.size_setIfInBounds]
    rfl

/-- Every edit keeps a function intact. -/
theorem Intact.edit? (hf : f.Intact) {e : Edit} (h : f.edit? e = some g) : g.Intact := by
  rcases exists_of_edit? h with ⟨label, rfl, rfl⟩ | ⟨b, name, op, i, rfl, h'⟩ | ⟨m, rfl, rfl⟩ |
    ⟨b, old, new, rfl, rfl⟩ | ⟨b, cut, n, rfl, h'⟩
  · exact hf.appendBlock label
  · exact hf.appendInst? h'
  · exact hf.move m
  · exact hf.retarget b old new
  · exact hf.split? h'

/-! ### Any number of edits -/

/-- Edits that fit succeed and keep a function intact. -/
theorem Intact.editAll? (edits : List Edit) : ∀ {f : Func}, f.Intact →
    Edit.Fits f.blocks.size edits → ∃ g, f.editAll? edits = some g ∧ g.Intact := by
  induction edits with
  | nil => exact fun hf _ => ⟨_, rfl, hf⟩
  | cons e edits ih =>
      intro f hf hfits
      obtain ⟨f', h⟩ := Option.isSome_iff_exists.1 (edit?_isSome_iff.2 hfits.1)
      have hrest := hfits.2
      rw [← size_blocks_edit? h] at hrest
      obtain ⟨g, hg, hintact⟩ := ih (hf.edit? h) hrest
      refine ⟨g, ?_, hintact⟩
      rw [Func.editAll?, List.foldlM_cons, h]
      exact hg

/-- The layout of an intact function has every block once. -/
theorem Intact.count_layout (hf : f.Intact) (b : BlockId) :
    f.layout.count b = if b.index < f.blocks.size then 1 else 0 := by
  split
  · next hb => exact List.count_eq_one_of_mem hf.nodup_layout (hf.mem_layout.2 hb)
  · next hb => exact List.count_eq_zero.2 (mt hf.mem_layout.1 hb)

/-- The blocks of an intact function together have every instruction once. -/
theorem Intact.count_insts (hf : f.Intact) (i : InstId) :
    (f.blockIds.flatMap f.blockInsts).count i = if i.index < f.insts.size then 1 else 0 := by
  have hperm : (f.blockIds.flatMap f.blockInsts).Perm f.arenaInsts :=
    (hf.layout_perm.symm.flatMap_right _).trans hf.insts_perm
  rw [hperm.count_eq]
  split
  · next hi => exact List.count_eq_one_of_mem f.nodup_arenaInsts (mem_arenaInsts.2 hi)
  · next hi => exact List.count_eq_zero.2 (mt mem_arenaInsts.1 hi)

/-- **Edits share out blocks and instructions.**  Edits of the function without blocks succeed as
long as they open only blocks that are there.  After each of them the layout has every block once,
the lists of all blocks together have every instruction once, and an instruction names the block in
whose list it is. -/
theorem editAll?_empty (label : String) {edits done : List Edit} (h : Edit.Fits 0 edits)
    (hdone : done <+: edits) : ∃ g, (Func.empty label).editAll? done = some g ∧
      (∀ b, g.layout.count b = if b.index < g.blocks.size then 1 else 0) ∧
      (∀ i, (g.blockIds.flatMap g.blockInsts).count i = if i.index < g.insts.size then 1 else 0) ∧
      ∀ b, ∀ i ∈ g.blockInsts b, ∃ inst, g.inst? i = some inst ∧ inst.block = b := by
  obtain ⟨g, hg, hintact⟩ := (Intact.empty label).editAll? done (h.mono hdone)
  refine ⟨g, hg, hintact.count_layout, hintact.count_insts, fun b i hi => ?_⟩
  exact Option.map_eq_some_iff.1 (hintact.owner b (hintact.mem_layout_of_mem_blockInsts hi) i hi)

/-- A loop that is cut at both ends of its block, past the end of the part that is left, and has its
blocks moved around, some of them next to blocks that are not there. -/
def cutLoop : List Edit :=
  [.appendBlock "a", .appendBlock "b", .appendInst ⟨0⟩ (some "x") (.const 1),
    .appendInst ⟨0⟩ none (.condBr (.value ⟨0⟩) ⟨0⟩ ⟨1⟩), .appendInst ⟨1⟩ none (.ret none),
    .split ⟨0⟩ 1, .move (.before ⟨2⟩ ⟨0⟩), .retarget ⟨2⟩ ⟨0⟩ ⟨2⟩, .split ⟨0⟩ 9,
    .move (.before ⟨3⟩ ⟨7⟩), .move (.toEnd ⟨8⟩), .split ⟨0⟩ 0, .move (.toEnd ⟨2⟩)]

/-- These edits succeed, and all blocks and instructions are where they belong. -/
theorem editAll?_empty_cutLoop : Edit.Fits 0 cutLoop ∧
    ∃ g, (Func.empty "f").editAll? cutLoop = some g ∧ g.layout = [⟨0⟩, ⟨4⟩, ⟨3⟩, ⟨1⟩, ⟨2⟩] ∧
      (∀ b, g.layout.count b = if b.index < g.blocks.size then 1 else 0) ∧
      (∀ i, (g.blockIds.flatMap g.blockInsts).count i = if i.index < g.insts.size then 1 else 0) ∧
      ∀ b, ∀ i ∈ g.blockInsts b, ∃ inst, g.inst? i = some inst ∧ inst.block = b := by
  have hfits : Edit.Fits 0 cutLoop := by decide
  obtain ⟨g, hg, hshared⟩ := editAll?_empty "f" hfits (List.prefix_refl _)
  have hlayout : ((Func.empty "f").editAll? cutLoop).map layout =
      some [⟨0⟩, ⟨4⟩, ⟨3⟩, ⟨1⟩, ⟨2⟩] := by decide +kernel
  rw [hg] at hlayout
  exact ⟨hfits, g, hg, Option.some.inj hlayout, hshared⟩

end Func

end LoopSwap
