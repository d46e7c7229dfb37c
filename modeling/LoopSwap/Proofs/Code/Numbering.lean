/-
**Functions numbered in order.**

A function that is made from a list of blocks has its blocks and instructions in the order of the
list: the instructions of its blocks, one block after the other, are all instructions of the arena,
and the records of a block are those that the list gives it.  So such a function is intact, whatever
is in the list.

Main results:

* `LoopSwap.Func.records_ofBlocks` — the records of a block;
* `LoopSwap.Func.exists_of_inst?_ofBlocks` — where an instruction comes from;
* `LoopSwap.Func.instIds_ofBlocks` — program order is the order of the arena;
* `LoopSwap.Func.intact_ofBlocks` — a numbered function is intact.
-/

import LoopSwap.Code.Resolve
import LoopSwap.Proofs.Code.WellFormed
import Mathlib.Algebra.GroupWithZero.Nat

set_option relaxedAutoImplicit false
set_option autoImplicit false

namespace LoopSwap

variable {name : String} {bs : List (String × List (Option String × Operation))}

/-! ### The two arenas -/

/-- The number of instructions in a list of blocks. -/
def instCount (bs : List (String × List (Option String × Operation))) : Nat :=
  (bs.map fun b => b.2.length).sum

theorem length_numberInsts (bs : List (String × List (Option String × Operation))) :
    ∀ k, (numberInsts k bs).length = instCount bs := by
  induction bs with
  | nil => intro k; rfl
  | cons b bs ih =>
      intro k
      simp [numberInsts, instCount, ih]

/-- The numbers of the instructions are consecutive. -/
theorem flatMap_insts_numberBlocks (bs : List (String × List (Option String × Operation))) :
    ∀ next, (numberBlocks next bs).flatMap (·.insts) =
      (List.range' next (instCount bs)).map InstId.mk := by
  induction bs with
  | nil => intro next; rfl
  | cons b bs ih =>
      intro next
      have hcount : instCount (b :: bs) = b.2.length + instCount bs := rfl
      rw [hcount, ← List.range'_append_1, List.map_append, ← ih (next + b.2.length)]
      rfl

theorem map_name_numberBlocks (bs : List (String × List (Option String × Operation))) :
    ∀ next, (numberBlocks next bs).map (·.name) = bs.map (·.1) := by
  induction bs with
  | nil => intro next; rfl
  | cons b bs ih =>
      intro next
      rw [numberBlocks, List.map_cons, List.map_cons, ih]

theorem map_name_numberInsts (bs : List (String × List (Option String × Operation))) :
    ∀ k, (numberInsts k bs).map (·.name) = bs.flatMap fun b => b.2.map (·.1) := by
  induction bs with
  | nil => intro k; rfl
  | cons b bs ih =>
      intro k
      rw [numberInsts, List.map_append, ih, List.map_map, List.flatMap_cons]
      rfl

/-- An instruction record belongs to an instruction of one of the blocks. -/
theorem exists_of_mem_numberInsts {inst : Inst}
    (bs : List (String × List (Option String × Operation))) : ∀ k, inst ∈ numberInsts k bs →
    ∃ b ∈ bs, (inst.name, inst.op) ∈ b.2 := by
  induction bs with
  | nil =>
      intro k h
      cases h
  | cons b bs ih =>
      intro k h
      rcases List.mem_append.1 h with h | h
      · obtain ⟨x, hx, rfl⟩ := List.mem_map.1 h
        exact ⟨b, List.mem_cons_self, hx⟩
      · obtain ⟨b', hb', hx⟩ := ih (k + 1) h
        exact ⟨b', List.mem_cons_of_mem _ hb', hx⟩

/-- Consecutive numbers find consecutive elements. -/
theorem map_getElem?_range' {α : Type} (l rest : List α) : ∀ pre : List α,
    (List.range' pre.length l.length).map (fun n => (pre ++ (l ++ rest))[n]?) = l.map some := by
  induction l with
  | nil => intro pre; rfl
  | cons a l ih =>
      intro pre
      have hrec := ih (pre ++ [a])
      rw [List.length_append, List.length_singleton] at hrec
      rw [List.length_cons, List.range'_succ, List.map_cons, List.map_cons]
      congr 1
      · simp
      · rw [← hrec]
        simp

theorem map_getElem?_range {α : Type} (l : List α) :
    (List.range l.length).map (fun n => l[n]?) = l.map some := by
  have h := map_getElem?_range' l [] []
  rw [List.append_nil, List.nil_append, List.length_nil] at h
  rw [List.range_eq_range', h]

/-- The numbers of a block find the records that the list gives the block. -/
theorem records_numberBlocks (bs : List (String × List (Option String × Operation))) :
    ∀ (pre : List Inst) (k j : Nat) (block : Block),
      (numberBlocks pre.length bs)[j]? = some block → ∃ b, bs[j]? = some b ∧
        block.name = b.1 ∧
        block.insts.map (fun i => (pre ++ numberInsts k bs)[i.index]?) =
          b.2.map fun x => some ⟨x.1, x.2, ⟨k + j⟩⟩ := by
  induction bs with
  | nil =>
      intro pre k j block h
      cases h
  | cons b bs ih =>
      intro pre k j block h
      -- the records of the first block, which come before those of the others
      let first : List Inst := b.2.map fun x => ⟨x.1, x.2, ⟨k⟩⟩
      have hlength : first.length = b.2.length := List.length_map _
      cases j with
      | zero =>
          cases h
          refine ⟨b, rfl, rfl, ?_⟩
          have hfind := map_getElem?_range' first (numberInsts (k + 1) bs) pre
          rw [hlength] at hfind
          rw [List.map_map, numberInsts]
          refine hfind.trans ?_
          rw [List.map_map]
          rfl
      | succ j =>
          have hrest : (numberBlocks (pre ++ first).length bs)[j]? = some block := by
            rw [List.length_append, hlength]
            exact h
          obtain ⟨b', hb', hname, hrecords⟩ := ih (pre ++ first) (k + 1) j block hrest
          refine ⟨b', hb', hname, ?_⟩
          rw [List.append_assoc, Nat.add_assoc, Nat.add_comm 1 j] at hrecords
          exact hrecords

/-! ### Numbered functions -/

namespace Func

variable {b : BlockId} {i : InstId}

theorem mem_layout_ofBlocks : b ∈ (ofBlocks name bs).layout ↔ b.index < bs.length := by
  rw [layout_ofBlocks]
  constructor
  · intro h
    obtain ⟨k, hk, rfl⟩ := List.mem_map.1 h
    exact List.mem_range.1 hk
  · intro h
    exact List.mem_map.2 ⟨b.index, List.mem_range.2 h, rfl⟩

theorem block?_ofBlocks : (ofBlocks name bs).block? b = (numberBlocks 0 bs)[b.index]? := by
  simp [block?, ofBlocks]

theorem inst?_ofBlocks : (ofBlocks name bs).inst? i = (numberInsts 0 bs)[i.index]? := by
  simp [inst?, ofBlocks]

theorem resultName?_ofBlocks :
    (ofBlocks name bs).resultName? i = ((bs.flatMap fun b => b.2.map (·.1))[i.index]?).join := by
  rw [resultName?, inst?_ofBlocks, ← map_name_numberInsts bs 0, List.getElem?_map]
  cases (numberInsts 0 bs)[i.index]? <;> rfl

theorem blockName?_ofBlocks : (ofBlocks name bs).blockName? b = (bs.map (·.1))[b.index]? := by
  rw [blockName?, block?_ofBlocks, ← map_name_numberBlocks bs 0, List.getElem?_map]

/-- The records of a block of a numbered function. -/
theorem records_ofBlocks (hb : b ∈ (ofBlocks name bs).layout) : ∃ body, bs[b.index]? = some body ∧
    ((ofBlocks name bs).blockInsts b).map (ofBlocks name bs).inst? =
      body.2.map fun x => some ⟨x.1, x.2, b⟩ := by
  have hlt : b.index < (numberBlocks 0 bs).length := by
    rw [numberBlocks_length]
    exact mem_layout_ofBlocks.1 hb
  have hblock := List.getElem?_eq_getElem hlt
  obtain ⟨body, hbody, -, hrecords⟩ := records_numberBlocks bs [] 0 b.index _ hblock
  refine ⟨body, hbody, ?_⟩
  have hinst : (ofBlocks name bs).inst? = fun i => (numberInsts 0 bs)[i.index]? :=
    funext fun i => inst?_ofBlocks
  rw [Nat.zero_add] at hrecords
  rw [blockInsts, block?_ofBlocks, hblock, Option.map_some, Option.getD_some, hinst]
  exact hrecords

/-- Every instruction of a numbered function is an instruction of one of the blocks. -/
theorem exists_of_inst?_ofBlocks {inst : Inst} (h : (ofBlocks name bs).inst? i = some inst) :
    ∃ body ∈ bs, (inst.name, inst.op) ∈ body.2 := by
  rw [inst?_ofBlocks] at h
  exact exists_of_mem_numberInsts bs 0 (List.mem_of_getElem? h)

theorem blockIds_ofBlocks : (ofBlocks name bs).blockIds = (ofBlocks name bs).layout := by
  rw [blockIds, layout_ofBlocks]
  simp [ofBlocks]

/-- Program order is the order of the arena. -/
theorem instIds_ofBlocks : (ofBlocks name bs).instIds = (ofBlocks name bs).arenaInsts := by
  have hsize : (ofBlocks name bs).insts.size = instCount bs := by
    simp [ofBlocks, length_numberInsts]
  have hblocks : (ofBlocks name bs).layout.map (ofBlocks name bs).blockInsts =
      (numberBlocks 0 bs).map (·.insts) := by
    rw [layout_ofBlocks, List.map_map]
    refine List.ext_getElem ?_ fun k hk hk' => ?_
    · simp
    · have hlt : k < (numberBlocks 0 bs).length := by simpa using hk'
      simp [blockInsts, block?_ofBlocks, List.getElem?_eq_getElem hlt]
  rw [instIds, List.flatMap_def, hblocks, ← List.flatMap_def, flatMap_insts_numberBlocks,
    arenaInsts, hsize, List.range_eq_range']

/-- A numbered function is intact. -/
theorem intact_ofBlocks (name : String) (bs : List (String × List (Option String × Operation))) :
    (ofBlocks name bs).Intact := by
  refine ⟨List.Perm.of_eq blockIds_ofBlocks.symm, List.Perm.of_eq instIds_ofBlocks, ?_⟩
  intro b hb i hi
  obtain ⟨body, -, hrecords⟩ := records_ofBlocks hb
  have hmem : (ofBlocks name bs).inst? i ∈ body.2.map fun x => some (⟨x.1, x.2, b⟩ : Inst) := by
    rw [← hrecords]
    exact List.mem_map_of_mem hi
  obtain ⟨x, -, hx⟩ := List.mem_map.1 hmem
  rw [← hx]
  rfl

end Func

end LoopSwap
