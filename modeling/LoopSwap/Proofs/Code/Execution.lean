/-
**What is executed after a split.**

Control enters a function at its first block, passes along the paths of the graph, and executes each
block from its first instruction on.  It may be looked at in the middle of a block, so what has been
executed is the beginning of what stands along some path.

A block that is split goes on to the part that is split off and to nothing else.  A path of the old
function therefore becomes one of the new function if the part is visited after each visit of the
block, and every path of the new function comes about in this way, except that it may end between
the two.  Along such a path stands what stood along the old one, with the branch between the two
parts in it once for each visit.

Main definitions:

* `LoopSwap.Func.along` — the instructions along a path;
* `LoopSwap.Func.Executes` — what control can have executed since it entered the function;
* `LoopSwap.withPart` — a path with a node visited after each visit of another;
* `LoopSwap.Func.RunsThrough` — a function that executes what another one does, and a branch.

Main results:

* `LoopSwap.Cut.path_withPart`, `LoopSwap.Cut.exists_path_old` — the paths after a cut;
* `LoopSwap.Func.RunsThrough.executes_iff` — the same is executed, the branch apart;
* `LoopSwap.Func.split?_executes` — splitting a block preserves execution and dominance.
-/

import LoopSwap.Proofs.Code.Growth
import LoopSwap.Proofs.Graph.Dominance
import LoopSwap.Proofs.Loop.Cutting

set_option relaxedAutoImplicit false
set_option autoImplicit false

namespace LoopSwap

/-! ### Execution -/

namespace Func

/-- The instructions of the blocks of a path, one block after the other. -/
def along (f : Func) (path : List BlockId) : List InstId := path.flatMap f.blockInsts

/-- Control can have executed these instructions, in this order, since it entered the function. -/
def Executes (f : Func) (run : List InstId) : Prop :=
  ∃ b path, f.graph.Path b path ∧ run <+: f.along path

end Func

/-! ### Paths after a cut -/

section

variable {α : Type} [DecidableEq α] {g g' : FlowGraph α} {a b c n x : α} {p p' : List α}

/-- The path on which every visit of `c` is followed by one of `n`. -/
def withPart (c n : α) (p : List α) : List α := p.flatMap fun a => if a = c then [c, n] else [a]

@[simp] theorem withPart_cons_self : withPart c n (c :: p) = c :: n :: withPart c n p := by
  simp [withPart]

theorem withPart_cons_of_ne (h : a ≠ c) : withPart c n (a :: p) = a :: withPart c n p := by
  simp [withPart, h]

@[simp] theorem withPart_nil : withPart c n [] = [] := rfl

namespace Cut

variable (hc : Cut g g' c n)

include hc

/-- A walk of the old graph is one of the new graph if the second part is visited after the
first. -/
theorem walk_withPart (h : Walk g.Edge a b p) (ha : a ∈ g.listed) :
    Walk g'.Edge a (if b = c then n else b) (withPart c n p) := by
  induction h with
  | here a =>
      by_cases hac : a = c
      · subst hac
        rw [if_pos rfl, withPart_cons_self]
        exact .step (hc.edge_self.2 rfl) (.here n)
      · rw [if_neg hac, withPart_cons_of_ne hac]
        exact .here a
  | @step a x b p hax _ ih =>
      have hrest := ih hax.2.1
      by_cases hac : a = c
      · subst hac
        rw [withPart_cons_self]
        exact .step (hc.edge_self.2 rfl) (.step (hc.edge_new.2 hax) hrest)
      · rw [withPart_cons_of_ne hac]
        exact .step ((hc.edge_of_ne hac (hc.ne ha)).2 hax) hrest

/-- A walk of the new graph is one of the old graph on which the second part is visited after the
first, unless it starts or ends between the two. -/
theorem exists_walk_old (h : Walk g'.Edge a b p') :
    ∃ p, Walk g.Edge (if a = n then c else a) (if b = n then c else b) p ∧
      (if a = n then [c] else []) ++ p' ++ (if b = c then [n] else []) = withPart c n p := by
  have hcn : c ≠ n := hc.ne hc.mem
  induction h with
  | here a =>
      by_cases han : a = n
      · subst han
        refine ⟨[c], ?_, ?_⟩
        · rw [if_pos rfl]
          exact .here c
        · rw [if_pos rfl, if_neg hcn.symm, withPart_cons_self, withPart_nil, List.append_nil]
          rfl
      · refine ⟨[a], ?_, ?_⟩
        · rw [if_neg han]
          exact .here a
        · rw [if_neg han, List.nil_append]
          by_cases hac : a = c
          · subst hac
            rw [if_pos rfl, withPart_cons_self]
            rfl
          · rw [if_neg hac, withPart_cons_of_ne hac]
            rfl
  | @step a x b p' hax _ ih =>
      obtain ⟨p, hp, hsame⟩ := ih
      rcases (hc.edge a x).1 hax with ⟨rfl, rfl⟩ | ⟨rfl, hcx⟩ | ⟨hac, hold⟩
      · -- from the first part to the second one, where the rest of the walk starts
        rw [if_pos rfl] at hp hsame
        rw [if_neg hcn, if_neg hcn]
        exact ⟨p, hp, hsame⟩
      · rw [if_neg (hc.ne hcx.2.1)] at hp hsame
        rw [if_pos rfl]
        refine ⟨c :: p, .step hcx hp, ?_⟩
        rw [if_pos rfl, withPart_cons_self, ← hsame]
        rfl
      · rw [if_neg (hc.ne hold.2.1)] at hp hsame
        rw [if_neg (hc.ne hold.1)]
        refine ⟨a :: p, .step hold hp, ?_⟩
        rw [if_neg (hc.ne hold.1), withPart_cons_of_ne hac, ← hsame]
        rfl

/-- A path becomes a path if the second part is visited after the first. -/
theorem path_withPart (h : g.Path b p) :
    g'.Path (if b = c then n else b) (withPart c n p) := by
  obtain ⟨e, he, hl, hwalk⟩ := h
  exact ⟨e, hc.entry.trans he, (hc.listed e).2 (Or.inr hl), hc.walk_withPart hwalk hl⟩

/-- Every path comes about in this way, unless it ends between the two parts. -/
theorem exists_path_old (h : g'.Path b p') :
    ∃ p, g.Path (if b = n then c else b) p ∧
      p' ++ (if b = c then [n] else []) = withPart c n p := by
  obtain ⟨e, he, hl, hwalk⟩ := h
  rw [hc.entry] at he
  have hen : e ≠ n := fun heq => hc.entry_ne (heq ▸ he)
  obtain ⟨p, hp, hsame⟩ := hc.exists_walk_old hwalk
  rw [if_neg hen] at hp hsame
  exact ⟨p, ⟨e, he, ((hc.listed e).1 hl).resolve_left hen, hp⟩, hsame⟩

end Cut

end

namespace Func

variable {f f' : Func} {a b n x y : BlockId} {branch : InstId} {cut : Nat} {path : List BlockId}

/-! ### Running through a branch -/

/-- `f'` executes what `f` does, and `branch` between the block `b` and its part `n`.  A path of `f`
matches the path of `f'` on which `n` is visited after each visit of `b`; a path of `f'` that ends
in `b` matches up to there. -/
structure RunsThrough (f f' : Func) (b n : BlockId) (branch : InstId) : Prop where
  arenaInsts : f'.arenaInsts = f.arenaInsts ++ [branch]
  inst : f'.inst? branch = some ⟨none, .br n, b⟩
  op : ∀ i ∈ f.instIds, f'.op? i = f.op? i
  resultName : ∀ i ∈ f.instIds, f'.resultName? i = f.resultName? i
  path : ∀ a path, f.graph.Path a path →
    f'.graph.Path (if a = b then n else a) (withPart b n path)
  exists_path : ∀ a path', f'.graph.Path a path' →
    ∃ path, f.graph.Path (if a = n then b else a) path ∧
      path' ++ (if a = b then [n] else []) = withPart b n path
  along : ∀ a path, f.graph.Path a path →
    (f'.along (withPart b n path)).filter (· ≠ branch) = f.along path

/-- The same is executed, the branch apart. -/
theorem RunsThrough.executes_iff (h : f.RunsThrough f' b n branch) (run : List InstId) :
    f.Executes run ↔ ∃ run', f'.Executes run' ∧ run'.filter (· ≠ branch) = run := by
  constructor
  · rintro ⟨a, path, hpath, hrun⟩
    rw [← h.along a path hpath, List.prefix_filter_iff] at hrun
    obtain ⟨run', hrun', rfl⟩ := hrun
    exact ⟨run', ⟨_, _, h.path a path hpath, hrun'⟩, rfl⟩
  · rintro ⟨run', ⟨a, path', hpath', hrun'⟩, rfl⟩
    obtain ⟨path, hpath, hsame⟩ := h.exists_path a path' hpath'
    refine ⟨_, path, hpath, ?_⟩
    -- the path of `f'` is the beginning of one that matches the whole path of `f`
    have hbegin : f'.along path' <+: f'.along (withPart b n path) := by
      rw [← hsame, Func.along, Func.along, List.flatMap_append]
      exact List.prefix_append _ _
    rw [← h.along _ path hpath]
    exact (hrun'.trans hbegin).filter _

/-! ### Splits -/

namespace Intact

/-- The instructions that were there are not the branch between the two parts. -/
theorem filter_blockInsts (hf : f.Intact) (b : BlockId) :
    (f.blockInsts b).filter (· ≠ ⟨f.insts.size⟩) = f.blockInsts b := by
  refine List.filter_eq_self.2 fun i hi => decide_eq_true ?_
  rintro rfl
  exact Nat.lt_irrefl _ (hf.lt_of_mem_blockInsts hi)

/-- Along a path on which the part that is split off is visited after the block stands what stood
along the path before, and the branch. -/
theorem along_withPart (hf : f.Intact) (h : f.split? b cut = some (f', n))
    (hpath : ∀ a ∈ path, a ∈ f.layout) :
    (f'.along (withPart b n path)).filter (· ≠ ⟨f.insts.size⟩) = f.along path := by
  induction path with
  | nil => rfl
  | cons a path ih =>
      rw [List.forall_mem_cons] at hpath
      have hrest := ih hpath.2
      unfold along at hrest ⊢
      rw [List.flatMap_cons, ← hrest]
      by_cases hab : a = b
      · subst hab
        have hparts : (f'.blockInsts a ++ f'.blockInsts n).filter (· ≠ ⟨f.insts.size⟩) =
            f.blockInsts a := by
          rw [blockInsts_split?_self h, blockInsts_split?_new h, List.append_assoc,
            List.filter_append, List.singleton_append, List.filter_cons_of_neg (by simp),
            ← List.filter_append, List.take_append_drop, hf.filter_blockInsts]
        rw [withPart_cons_self, List.flatMap_cons, List.flatMap_cons, ← List.append_assoc,
          List.filter_append, hparts]
      · rw [withPart_cons_of_ne hab, List.flatMap_cons,
          blockInsts_split?_of_ne h hab (hf.split?_ne h hpath.1), List.filter_append,
          hf.filter_blockInsts]

end Intact

/-- A split that cuts something off makes control run through the branch between the two parts. -/
theorem Flowing.runsThrough (hf : f.Flowing) (h : f.split? b cut = some (f', n))
    (hcut : cut < (f.blockInsts b).length) : f.RunsThrough f' b n ⟨f.insts.size⟩ where
  arenaInsts := arenaInsts_split? h
  inst := inst?_split?_branch h
  op _ hi := op?_split? h (hf.mem_instIds.1 hi)
  resultName i _ := resultName?_split? h i
  path _ _ hpath := (hf.cut h hcut).path_withPart hpath
  exists_path _ _ hpath := (hf.cut h hcut).exists_path_old hpath
  along a path hpath := by
    obtain ⟨e, he, hl, hwalk⟩ := hpath
    refine hf.along_withPart h fun x hx => ?_
    obtain ⟨q, hq⟩ := hwalk.exists_prefix hx
    exact FlowGraph.Reachable.listed ⟨q, e, he, hl, hq⟩

/-- Old blocks dominate each other as before a split, by all paths and by the tables. -/
theorem Flowing.dominates_split? (hf : f.Flowing) (h : f.split? b cut = some (f', n))
    (hcut : cut < (f.blockInsts b).length) (hx : x ∈ f.layout) (hy : y ∈ f.layout) :
    (f'.graph.Dominates x y ↔ f.graph.Dominates x y) ∧
      f'.graph.facts.dominates x y = f.graph.facts.dominates x y := by
  have hc := hf.cut h hcut
  have hxy := hc.dominates_iff (hc.ne hx) (hc.ne hy)
  refine ⟨hxy, ?_⟩
  rw [Bool.eq_iff_iff, FlowGraph.dominates_eq_true_iff, FlowGraph.dominates_eq_true_iff, hxy,
    hc.reachable_old (hc.ne hy)]

/-- **Splitting a block preserves execution.**  Splitting any block of a well-formed function before
any of its instructions succeeds and gives a well-formed function with the same entry.  What is
executed from the entry on is the same, path by path, but for the branch that is appended; and the
old blocks dominate each other as before. -/
theorem split?_executes (hf : f.WellFormed) (hb : b ∈ f.layout)
    (hcut : cut < (f.blockInsts b).length) :
    ∃ f' n branch, f.split? b cut = some (f', n) ∧ f'.WellFormed ∧ f'.entry? = f.entry? ∧
      f.RunsThrough f' b n branch ∧
      (∀ run, f.Executes run ↔ ∃ run', f'.Executes run' ∧ run'.filter (· ≠ branch) = run) ∧
      ∀ x ∈ f.layout, ∀ y ∈ f.layout, (f'.graph.Dominates x y ↔ f.graph.Dominates x y) ∧
        f'.graph.facts.dominates x y = f.graph.facts.dominates x y := by
  obtain ⟨⟨f', n⟩, h⟩ := hf.exists_split? hb cut
  have hruns := hf.runsThrough h hcut
  exact ⟨f', n, _, h, hf.split? h hcut, hf.entry?_split? h, hruns, hruns.executes_iff,
    fun x hx y hy => hf.dominates_split? h hcut hx hy⟩

/-- A block that repeats itself. -/
def spinning : Func := .ofBlocks "f" [
  ("entry", [(none, .br ⟨1⟩)]),
  ("spin", [(some "x", .load (.location "m")), (none, .store (.const 1) (.location "m")),
    (none, .condBr (.value ⟨1⟩) ⟨1⟩ ⟨2⟩)]),
  ("done", [(none, .ret none)])]

/-- Splitting that block in its middle: the two parts repeat each other. -/
theorem split?_executes_spinning :
    spinning.WellFormed ∧ ⟨1⟩ ∈ spinning.layout ∧ 1 < (spinning.blockInsts ⟨1⟩).length ∧
      ∃ f' n branch, spinning.split? ⟨1⟩ 1 = some (f', n) ∧ f'.WellFormed ∧
        spinning.RunsThrough f' ⟨1⟩ n branch ∧
        f'.graph.Path ⟨2⟩ [⟨0⟩, ⟨1⟩, n, ⟨1⟩, n, ⟨2⟩] ∧
        (f'.along [⟨0⟩, ⟨1⟩, n, ⟨1⟩, n, ⟨2⟩]).filter (· ≠ branch) =
          [⟨0⟩, ⟨1⟩, ⟨2⟩, ⟨3⟩, ⟨1⟩, ⟨2⟩, ⟨3⟩, ⟨4⟩] := by
  have hf : spinning.WellFormed := by decide +kernel
  have hb : (⟨1⟩ : BlockId) ∈ spinning.layout := by decide +kernel
  have hcut : 1 < (spinning.blockInsts ⟨1⟩).length := by decide +kernel
  obtain ⟨f', n, branch, h, hf', -, hruns, -⟩ := split?_executes hf hb hcut
  have hpath : spinning.graph.Path ⟨2⟩ [⟨0⟩, ⟨1⟩, ⟨1⟩, ⟨2⟩] := by
    have hfirst : spinning.graph.Edge ⟨0⟩ ⟨1⟩ := hf.edge_iff.2 (by decide +kernel)
    have hagain : spinning.graph.Edge ⟨1⟩ ⟨1⟩ := hf.edge_iff.2 (by decide +kernel)
    have hlast : spinning.graph.Edge ⟨1⟩ ⟨2⟩ := hf.edge_iff.2 (by decide +kernel)
    exact ⟨⟨0⟩, by decide +kernel, hfirst.1, .step hfirst (.step hagain (.step hlast (.here _)))⟩
  have halong : spinning.along [⟨0⟩, ⟨1⟩, ⟨1⟩, ⟨2⟩] =
      [⟨0⟩, ⟨1⟩, ⟨2⟩, ⟨3⟩, ⟨1⟩, ⟨2⟩, ⟨3⟩, ⟨4⟩] := by decide +kernel
  exact ⟨hf, hb, hcut, f', n, branch, h, hf', hruns, hruns.path _ _ hpath,
    (hruns.along _ _ hpath).trans halong⟩

end Func

end LoopSwap
