/-
**The search for a name.**

The part that is split off a block is named by trying: first the name of the block with `.split`
behind it, then the same with the numbers from 1 on, for as long as some block has the name.
Nothing in the search bounds it, so it is written here as a repetition that need not end
(`LoopSwap.repeatWhile`).  It does end, at the first of these names that is free, since they are all
different and only finitely many are taken.  So a split adds a name that no block had, and however
often blocks are split, parts of blocks among them, no two blocks get the same name.

Main definitions:

* `LoopSwap.repeatWhile` — a step repeated while a test holds;
* `LoopSwap.Func.searchName` — the search for the name of a part;
* `LoopSwap.Func.blockNames` — the names of all blocks;
* `LoopSwap.Func.IsPartName` — the name a part should get;
* `LoopSwap.Func.SplitStep` — some block is split somewhere.

Main results:

* `LoopSwap.repeatWhile_eq_some` — where a repetition ends;
* `LoopSwap.Func.searchName_eq` — the search ends at the name that a split gives;
* `LoopSwap.Func.names_of_splits` — the names after any number of splits.
-/

import LoopSwap.Proofs.Code.Names
import Mathlib.Data.PFun
import Mathlib.Order.Bounds.Defs

set_option relaxedAutoImplicit false
set_option autoImplicit false

namespace LoopSwap

/-! ### Repetition -/

section Repetition

variable {σ : Type} {test : σ → Bool} {step : σ → σ}

/-- Repeats a step for as long as a test holds of the state.  There is no result if it always
does. -/
def repeatWhile (test : σ → Bool) (step : σ → σ) (s : σ) : Part σ :=
  PFun.fix (fun s => Part.some (if test s then .inr (step s) else .inl s)) s

/-- A repetition ends at the first state of which the test does not hold. -/
theorem repeatWhile_eq_some (n : Nat) : ∀ s : σ, (∀ k < n, test (step^[k] s) = true) →
    test (step^[n] s) = false → repeatWhile test step s = Part.some (step^[n] s) := by
  induction n with
  | zero =>
      intro s _ hend
      have hlast : test s = false := hend
      refine Part.eq_some_iff.2 (PFun.fix_stop ?_)
      rw [hlast]
      exact Part.mem_some _
  | succ n ih =>
      intro s hgo hend
      have hfirst : test s = true := hgo 0 n.succ_pos
      have hnext : repeatWhile test step s = repeatWhile test step (step s) := by
        refine PFun.fix_fwd_eq ?_
        rw [hfirst]
        exact Part.mem_some _
      rw [hnext]
      refine ih (step s) ?_ hend
      intro k hk
      exact hgo (k + 1) (Nat.succ_lt_succ hk)

end Repetition

namespace Func

variable {f f' : Func} {b n : BlockId} {base name : String} {cut : Nat}

/-! ### The names of the blocks -/

/-- The names of all blocks, in the order in which the blocks were made. -/
def blockNames (f : Func) : List String := f.blocks.toList.map (·.name)

theorem mem_blockNames : name ∈ f.blockNames ↔ ∃ b, f.blockName? b = some name := by
  simp only [blockNames, List.mem_map, blockName?, block?, Option.map_eq_some_iff]
  constructor
  · rintro ⟨block, hmem, hname⟩
    obtain ⟨k, hk⟩ := List.mem_iff_getElem?.1 hmem
    refine ⟨⟨k⟩, block, ?_, hname⟩
    rwa [Array.getElem?_toList] at hk
  · rintro ⟨b, block, hblock, hname⟩
    refine ⟨block, List.mem_iff_getElem?.2 ⟨b.index, ?_⟩, hname⟩
    rwa [Array.getElem?_toList]

/-- Every block stands in the layout. -/
def LaidOut (f : Func) : Prop := ∀ b ∈ f.blockIds, b ∈ f.layout

instance : Decidable f.LaidOut := inferInstanceAs (Decidable (∀ b ∈ f.blockIds, b ∈ f.layout))

namespace LaidOut

theorem mem_layout (hf : f.LaidOut) (h : f.blockName? b = some name) : b ∈ f.layout := by
  obtain ⟨block, hblock, -⟩ := Option.map_eq_some_iff.1 h
  exact hf b (mem_blockIds.2 (Array.getElem?_eq_some_iff.1 hblock).1)

/-- The names in the layout are all names there are. -/
theorem mem_filterMap (hf : f.LaidOut) :
    name ∈ f.layout.filterMap f.blockName? ↔ name ∈ f.blockNames := by
  rw [List.mem_filterMap, mem_blockNames]
  constructor
  · rintro ⟨b, -, hb⟩
    exact ⟨b, hb⟩
  · rintro ⟨b, hb⟩
    exact ⟨b, hf.mem_layout hb, hb⟩

/-- A search for a name through the layout finds every name there is. -/
theorem isSome_findBlock? (hf : f.LaidOut) :
    (f.findBlock? name).isSome = true ↔ name ∈ f.blockNames := by
  rw [findBlock?, List.find?_isSome, ← hf.mem_filterMap, List.mem_filterMap]
  simp

theorem split? (hf : f.LaidOut) (h : f.split? b cut = some (f', n)) : f'.LaidOut := by
  intro a ha
  rw [blockIds_split? h, List.mem_append, List.mem_singleton] at ha
  rw [mem_layout_split? h]
  rcases ha with hold | hnew
  · exact .inr (hf a hold)
  · exact .inl hnew

end LaidOut

/-- A split adds one name to those that were there. -/
theorem blockNames_of_split? (hbase : f.blockName? b = some base)
    (h : f.split? b cut = some (f', n)) :
    f'.blockNames = f.blockNames ++ [f.freshSplitName base] := by
  obtain ⟨block, hblock, -, hblocks, -⟩ := exists_of_split? h
  obtain ⟨hlt, hget⟩ := Array.getElem?_eq_some_iff.1 hblock
  have hname : block.name = base := by
    rw [blockName?, hblock] at hbase
    exact Option.some.inj hbase
  have hsame : (f.blocks.toList.map (·.name)).set b.index block.name =
      f.blocks.toList.map (·.name) := by
    have hlen : b.index < (f.blocks.toList.map (·.name)).length := by simpa using hlt
    have hat : (f.blocks.toList.map (·.name))[b.index] = block.name := by simp [hget]
    rw [← hat, List.set_getElem_self hlen]
  rw [blockNames, hblocks, Array.toList_push, Array.toList_setIfInBounds, List.map_append,
    List.map_set, hsame, hname]
  rfl

/-! ### The names that are tried -/

/-- The names for a part, in the order in which they are tried. -/
def splitName (base : String) : Nat → String
  | 0 => base ++ ".split"
  | k + 1 => base ++ ".split" ++ toString (k + 1)

theorem splitNames_eq_map (base : String) (taken : Nat) :
    splitNames base taken = (List.range (taken + 1)).map (splitName base) := by
  rw [List.range_succ_eq_map, List.map_cons, List.map_map]
  rfl

/-- A part gets the first name that is free. -/
theorem LaidOut.exists_freshSplitName_eq (hf : f.LaidOut) (base : String) :
    ∃ k, f.freshSplitName base = splitName base k ∧ splitName base k ∉ f.blockNames ∧
      ∀ j < k, splitName base j ∈ f.blockNames := by
  have hfind := find?_freshSplitName f base
  rw [splitNames_eq_map, List.find?_map, Option.map_eq_some_iff] at hfind
  obtain ⟨k, hk, hname⟩ := hfind
  obtain ⟨hfree, -, htaken⟩ := List.find?_range_eq_some.1 hk
  refine ⟨k, hname.symm, ?_, ?_⟩
  · rw [← hf.mem_filterMap]
    simpa using hfree
  · intro j hj
    rw [← hf.mem_filterMap]
    simpa using htaken j hj

/-! ### The search -/

/-- A name to try, and the number that the next one gets. -/
structure Trial where
  name : String
  number : Nat

/-- The next name to try. -/
def Trial.next (base : String) (t : Trial) : Trial :=
  ⟨base ++ ".split" ++ toString t.number, t.number + 1⟩

/-- Tries one name after the other for as long as some block has the name. -/
def searchName (f : Func) (base : String) : Part Trial :=
  repeatWhile (fun t => (f.findBlock? t.name).isSome) (Trial.next base) ⟨base ++ ".split", 1⟩

theorem iterate_next (base : String) (k : Nat) :
    (Trial.next base)^[k] ⟨base ++ ".split", 1⟩ = ⟨splitName base k, k + 1⟩ := by
  induction k with
  | zero => rfl
  | succ k ih =>
      rw [Function.iterate_succ_apply', ih]
      rfl

/-- The search ends, at the name that a split gives. -/
theorem LaidOut.searchName_eq (hf : f.LaidOut) (base : String) :
    ∃ number, f.searchName base = Part.some ⟨f.freshSplitName base, number⟩ := by
  obtain ⟨k, hfresh, hfree, htaken⟩ := hf.exists_freshSplitName_eq base
  refine ⟨k + 1, ?_⟩
  rw [hfresh, ← iterate_next, searchName]
  refine repeatWhile_eq_some k _ ?_ ?_
  · intro j hj
    rw [iterate_next, hf.isSome_findBlock?]
    exact htaken j hj
  · rw [iterate_next, Bool.eq_false_iff, Ne, hf.isSome_findBlock?]
    exact hfree

/-! ### The name of a part -/

/-- The name that a part of a block called `base` should get: the one without a number if no block
has it, otherwise the one with the least number, from 1 on, that no block has. -/
def IsPartName (f : Func) (base name : String) : Prop :=
  if base ++ ".split" ∉ f.blockNames then name = base ++ ".split"
  else ∃ number,
    IsLeast { k : Nat | 1 ≤ k ∧ base ++ ".split" ++ toString k ∉ f.blockNames } number ∧
      name = base ++ ".split" ++ toString number

theorem LaidOut.isPartName (hf : f.LaidOut) (base : String) :
    f.IsPartName base (f.freshSplitName base) := by
  obtain ⟨k, hfresh, hfree, htaken⟩ := hf.exists_freshSplitName_eq base
  rw [hfresh]
  cases k with
  | zero => exact (if_pos hfree).mpr rfl
  | succ k =>
      have hfirst : base ++ ".split" ∈ f.blockNames := htaken 0 k.succ_pos
      rw [IsPartName, if_neg (not_not_intro hfirst)]
      refine ⟨k + 1, ⟨⟨Nat.le_add_left 1 k, hfree⟩, ?_⟩, rfl⟩
      rintro j ⟨hpos, hj⟩
      by_contra hlt
      obtain ⟨i, rfl⟩ : ∃ i, j = i + 1 := ⟨j - 1, by omega⟩
      exact hj (htaken (i + 1) (by omega))

/-! ### Any number of splits -/

/-- Some block is split somewhere. -/
def SplitStep (f f' : Func) : Prop := ∃ b cut n, f.split? b cut = some (f', n)

theorem SplitStep.laidOut (h : f.SplitStep f') (hf : f.LaidOut) : f'.LaidOut := by
  obtain ⟨b, cut, n, h⟩ := h
  exact hf.split? h

/-- A split keeps the names of the blocks different. -/
theorem SplitStep.nodup_blockNames (h : f.SplitStep f') (hf : f.LaidOut)
    (hnames : f.blockNames.Nodup) : f'.blockNames.Nodup := by
  obtain ⟨b, cut, n, h⟩ := h
  obtain ⟨base, hbase, -⟩ := blockName?_split?_new h
  have hnew : f.freshSplitName base ∉ f.blockNames := by
    obtain ⟨k, hfresh, hfree, -⟩ := hf.exists_freshSplitName_eq base
    rwa [hfresh]
  rw [blockNames_of_split? hbase h, List.nodup_append_comm, List.singleton_append, List.nodup_cons]
  exact ⟨hnew, hnames⟩

theorem laidOut_of_splits (hf : f.LaidOut) (h : Relation.ReflTransGen SplitStep f f') :
    f'.LaidOut := by
  induction h with
  | refl => exact hf
  | tail _ hstep ih => exact hstep.laidOut ih

theorem nodup_of_splits (hf : f.LaidOut) (hnames : f.blockNames.Nodup)
    (h : Relation.ReflTransGen SplitStep f f') : f'.blockNames.Nodup := by
  induction h with
  | refl => exact hnames
  | tail hsplits hstep ih => exact hstep.nodup_blockNames (laidOut_of_splits hf hsplits) ih

/-- In a function that lists all its blocks, and after any number of splits of it, every block can
be split anywhere: the search for the name of the part ends, at the name that the part should get,
and the names of the others stay.  If the names of the blocks were different, they still are. -/
theorem names_of_splits (hf : f.LaidOut) (h : Relation.ReflTransGen SplitStep f f') :
    (∀ b base cut, f'.blockName? b = some base → ∃ g n t, f'.split? b cut = some (g, n) ∧
      f'.searchName base = Part.some t ∧ f'.IsPartName base t.name ∧
      g.blockName? n = some t.name ∧ g.blockNames = f'.blockNames ++ [t.name]) ∧
    (f.blockNames.Nodup → f'.blockNames.Nodup) := by
  refine ⟨?_, fun hnames => nodup_of_splits hf hnames h⟩
  intro b base cut hbase
  have hf' := laidOut_of_splits hf h
  have hsome : (f'.split? b cut).isSome = true := by
    obtain ⟨block, hblock, -⟩ := Option.map_eq_some_iff.1 hbase
    rw [split?_isSome, hblock, Option.isSome_some]
  obtain ⟨⟨g, n⟩, hsplit⟩ := Option.isSome_iff_exists.1 hsome
  obtain ⟨number, hsearch⟩ := hf'.searchName_eq base
  obtain ⟨base', hbase', hnew⟩ := blockName?_split?_new hsplit
  obtain rfl : base = base' := Option.some.inj (hbase.symm.trans hbase')
  exact ⟨g, n, _, hsplit, hsearch, hf'.isPartName base, hnew, blockNames_of_split? hbase hsplit⟩

/-- Two blocks, the second of which has the name that a part of the first would get. -/
def takenSplit : Func := .ofExits [("entry", .br ⟨1⟩), ("entry.split", .ret none)]

/-- The names after the first block of that function is split twice, and after its first part is
split in turn; a second part of that part gets a name as well. -/
theorem names_of_splits_takenSplit :
    takenSplit.LaidOut ∧ ∃ f', Relation.ReflTransGen SplitStep takenSplit f' ∧
      f'.blockNames =
        ["entry", "entry.split", "entry.split1", "entry.split2", "entry.split1.split"] ∧
      f'.blockNames.Nodup ∧
      ∃ t, f'.searchName "entry.split1" = Part.some t ∧ f'.IsPartName "entry.split1" t.name := by
  have hf : takenSplit.LaidOut := by decide
  obtain ⟨⟨f₁, n₁⟩, h₁⟩ : ∃ p, takenSplit.split? ⟨0⟩ 0 = some p := ⟨_, rfl⟩
  obtain ⟨⟨f₂, n₂⟩, h₂⟩ : ∃ p, f₁.split? ⟨0⟩ 0 = some p := by cases h₁; exact ⟨_, rfl⟩
  obtain ⟨⟨f₃, n₃⟩, h₃⟩ : ∃ p, f₂.split? ⟨2⟩ 0 = some p := by cases h₁; cases h₂; exact ⟨_, rfl⟩
  have hsplits : Relation.ReflTransGen SplitStep takenSplit f₃ :=
    ((Relation.ReflTransGen.single ⟨_, _, _, h₁⟩).tail ⟨_, _, _, h₂⟩).tail ⟨_, _, _, h₃⟩
  have hnames : f₃.blockNames =
      ["entry", "entry.split", "entry.split1", "entry.split2", "entry.split1.split"] := by
    cases h₁
    cases h₂
    cases h₃
    decide +kernel
  have hlabel : f₃.blockName? ⟨2⟩ = some "entry.split1" := by
    cases h₁
    cases h₂
    cases h₃
    decide +kernel
  obtain ⟨hparts, hnodup⟩ := names_of_splits hf hsplits
  obtain ⟨-, -, t, -, hsearch, hpart, -⟩ := hparts ⟨2⟩ "entry.split1" 0 hlabel
  exact ⟨hf, f₃, hsplits, hnames, hnodup (by decide), t, hsearch, hpart⟩

end Func

end LoopSwap
