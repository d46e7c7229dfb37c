/-
**Block names stay different.**

The part that is split off a block gets the first of a list of names that no block of the layout
has.  The names of the list are all different and there is one more of them than there are names
taken, so one of them is free, and a split adds one new name to those that were there.

Main results:

* `LoopSwap.Func.freshSplitName_not_mem` — the name of a part that is split off is new;
* `LoopSwap.Func.blockNames_split?` — the block names after a split;
* `LoopSwap.Func.WellFormed.split?` — a split that cuts something off keeps a function well-formed.
-/

import LoopSwap.Proofs.Code.Split
import Mathlib.Data.List.Perm.Subperm

set_option relaxedAutoImplicit false
set_option autoImplicit false

namespace LoopSwap

/-! ### The names to choose from -/

theorem toString_nat_injective : Function.Injective (fun n : Nat => toString n) := by
  intro m n h
  have hdigits : Nat.toDigits 10 m = Nat.toDigits 10 n := by
    have hchars := congrArg String.toList h
    simpa only [Nat.toString_eq_repr, Nat.toList_repr] using hchars
  calc
    m = Nat.ofDigitChars 10 (Nat.toDigits 10 m) 0 := Nat.ofDigitChars_ten_toDigits.symm
    _ = Nat.ofDigitChars 10 (Nat.toDigits 10 n) 0 := by rw [hdigits]
    _ = n := Nat.ofDigitChars_ten_toDigits

theorem toString_nat_ne_empty (n : Nat) : toString n ≠ "" := by
  intro h
  have hchars := congrArg String.toList h
  rw [Nat.toString_eq_repr, Nat.toList_repr] at hchars
  exact Nat.toDigits_ne_nil hchars

namespace Func

@[simp] theorem length_splitNames (base : String) (taken : Nat) :
    (splitNames base taken).length = taken + 1 := by
  simp [splitNames]

theorem nodup_splitNames (base : String) (taken : Nat) : (splitNames base taken).Nodup := by
  refine List.nodup_cons.2 ⟨?_, ?_⟩
  · -- the first name is the one without a number
    intro hmem
    obtain ⟨n, -, hn⟩ := List.mem_map.1 hmem
    have hempty : base ++ ".split" ++ toString (n + 1) = base ++ ".split" ++ "" := by
      rw [hn, String.append_empty]
    exact toString_nat_ne_empty _ ((String.append_right_inj _).1 hempty)
  · refine List.Nodup.map ?_ List.nodup_range
    intro m n h
    have hnum := toString_nat_injective ((String.append_right_inj _).1 h)
    exact Nat.succ.inj hnum

/-- One more name than are taken is always enough. -/
theorem exists_free_splitName (base : String) (taken : List String) :
    ∃ n ∈ splitNames base taken.length, n ∉ taken := by
  by_contra hno
  have hsub : splitNames base taken.length ⊆ taken := by
    intro n hn
    by_contra hfree
    exact hno ⟨n, hn, hfree⟩
  have hle := ((nodup_splitNames base _).subperm hsub).length_le
  rw [length_splitNames] at hle
  exact Nat.not_succ_le_self _ hle

variable {f f' : Func} {a b n : BlockId} {cut : Nat}

theorem find?_freshSplitName (f : Func) (base : String) :
    (splitNames base (f.layout.filterMap f.blockName?).length).find?
      (fun n => n ∉ f.layout.filterMap f.blockName?) = some (f.freshSplitName base) := by
  obtain ⟨n, hn, hfree⟩ := exists_free_splitName base (f.layout.filterMap f.blockName?)
  have hsome : ((splitNames base (f.layout.filterMap f.blockName?).length).find?
      fun n => n ∉ f.layout.filterMap f.blockName?).isSome = true := by
    rw [List.find?_isSome]
    exact ⟨n, hn, decide_eq_true hfree⟩
  obtain ⟨m, hm⟩ := Option.isSome_iff_exists.1 hsome
  have hfresh : f.freshSplitName base = m := by
    unfold freshSplitName
    dsimp only
    rw [hm, Option.getD_some]
  rw [hfresh, hm]

/-- The name of a part that is split off is new. -/
theorem freshSplitName_not_mem (f : Func) (base : String) :
    some (f.freshSplitName base) ∉ f.layout.map f.blockName? := by
  have hfree := List.find?_some (find?_freshSplitName f base)
  rw [decide_eq_true_eq, List.mem_filterMap] at hfree
  rwa [List.mem_map]

/-- The name of a part is that of the block, a suffix, and perhaps a number. -/
theorem exists_freshSplitName_eq (f : Func) (base : String) :
    ∃ number : String, f.freshSplitName base = base ++ ".split" ++ number ∧
      ∀ c ∈ number.toList, c.isDigit = true := by
  have hmem := List.mem_of_find?_eq_some (find?_freshSplitName f base)
  rcases List.mem_cons.1 hmem with hfirst | hmem
  · refine ⟨"", ?_, ?_⟩
    · rw [hfirst, String.append_empty]
    · intro c hc
      cases hc
  · obtain ⟨n, -, hn⟩ := List.mem_map.1 hmem
    refine ⟨toString (n + 1), hn.symm, fun c hc => ?_⟩
    rw [Nat.toString_eq_repr, Nat.toList_repr] at hc
    exact Nat.isDigit_of_mem_toDigits (by decide) (by decide) hc

/-! ### The names after a split -/

theorem blockName?_split?_new (h : f.split? b cut = some (f', n)) :
    ∃ base, f.blockName? b = some base ∧ f'.blockName? n = some (f.freshSplitName base) := by
  obtain ⟨block, hblock, rfl, hblocks, -⟩ := exists_of_split? h
  refine ⟨block.name, ?_, ?_⟩
  · rw [blockName?, hblock, Option.map_some]
  · rw [blockName?, block?, hblocks, Array.getElem?_push, Array.size_setIfInBounds, if_pos rfl,
      Option.map_some]

theorem blockName?_split?_of_ne (h : f.split? b cut = some (f', n)) (han : a ≠ n) :
    f'.blockName? a = f.blockName? a := by
  obtain ⟨block, hblock, rfl, hblocks, -⟩ := exists_of_split? h
  have hindex : a.index ≠ f.blocks.size := fun hindex => han (congrArg BlockId.mk hindex)
  rw [blockName?, blockName?, block?, block?, hblocks, Array.getElem?_push,
    Array.size_setIfInBounds, if_neg hindex, Array.getElem?_setIfInBounds]
  split
  · next heq =>
      split
      · rw [← heq]
        rw [block?] at hblock
        rw [hblock, Option.map_some, Option.map_some]
      · next hlt => exact absurd (heq ▸ (Array.getElem?_eq_some_iff.1 hblock).1) hlt
  · rfl

/-- A split adds one new name to those that were there. -/
theorem Intact.blockNames_split? (hf : f.Intact) (h : f.split? b cut = some (f', n)) :
    ∃ base, f.blockName? b = some base ∧
      (f'.layout.map f'.blockName?).Perm
        (some (f.freshSplitName base) :: f.layout.map f.blockName?) := by
  obtain ⟨base, hbase, hnew⟩ := blockName?_split?_new h
  refine ⟨base, hbase, ?_⟩
  have hperm : f'.layout.Perm (n :: f.layout) := by
    rw [layout_split? h]
    exact insertAfter_perm n b f.layout
  refine (hperm.map _).trans ?_
  rw [List.map_cons, hnew]
  refine List.Perm.cons _ (List.Perm.of_eq (List.map_congr_left fun a ha => ?_))
  exact blockName?_split?_of_ne h (hf.split?_ne h ha)

/-- A split that cuts something off keeps a function well-formed. -/
theorem WellFormed.split? (hf : f.WellFormed) (h : f.split? b cut = some (f', n))
    (hcut : cut < (f.blockInsts b).length) : f'.WellFormed := by
  obtain ⟨base, -, hperm⟩ := hf.blockNames_split? h
  refine ⟨hf.toFlowing.split? h hcut, hperm.nodup_iff.2 (List.nodup_cons.2 ⟨?_, hf.names⟩)⟩
  exact f.freshSplitName_not_mem base

end Func

end LoopSwap
