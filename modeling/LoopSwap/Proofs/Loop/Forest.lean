/-
**What the loops of a forest say about the function.**

The record of a loop is read back here in terms of paths: its blocks are the loop of its header,
its preheader is the only reachable block outside that enters it, its latch the only block inside
that goes back to the header, and its exit the only block outside that it leads to.

Nesting goes up from a loop to its parent.  One step up, the header of a loop is a block of a larger
loop (`Func.exists_parent`); over any number of steps this makes the blocks of the inner loop
blocks of the outer one (`Func.nestedIn_of_isWithin`).

Main definitions:

* `LoopSwap.Func.record` — the record that the forest keeps of a loop;
* `LoopSwap.Func.Describes` — a record describes a loop of the function;
* `LoopSwap.Loop.NestedIn` — the header of a loop is a block of a larger one.

Main results:

* `LoopSwap.Func.naturalLoops_eq_of_inLoop`, `LoopSwap.Func.loops_eq_of_naturalLoops` — functions
  with the same loops by paths have forests that differ in connecting blocks only;
* `LoopSwap.Func.describes_loop?` — every record of the forest describes a loop;
* `LoopSwap.Func.nestedIn_of_isWithin` — nesting over any number of levels;
* `LoopSwap.Loop.NestedIn.blocks_subset`, `LoopSwap.Loop.NestedIn.header_ne` — what nesting means
  for the blocks.
-/

import LoopSwap.Loop.Forest
import LoopSwap.Proofs.Loop.Natural

set_option relaxedAutoImplicit false
set_option autoImplicit false

namespace LoopSwap

/-- Elements that give nothing may be left out. -/
theorem filterMap_filter_of_none {α β : Type} {p : α → Bool} {k : α → Option β} {l : List α}
    (h : ∀ a ∈ l, p a = false → k a = none) : (l.filter p).filterMap k = l.filterMap k := by
  rw [List.filterMap_filter]
  refine List.filterMap_congr fun a ha => ?_
  cases hp : p a with
  | true => rfl
  | false => exact (h a ha hp).symm

/-! ### The loops of the preorder -/

/-- Going down from a loop one stays among the given loops. -/
theorem mem_of_mem_descend {all : List Nested} {depth : Nat} {l : Nested} (hl : l ∈ all) :
    ∀ e ∈ descend all depth l, e.2 ∈ all := by
  fun_induction descend all depth l with
  | case1 depth l ih =>
      intro e he
      rcases List.mem_cons.1 he with rfl | he
      · exact hl
      · obtain ⟨c, -, hec⟩ := List.mem_flatMap.1 he
        exact ih c (List.mem_filter.1 c.2).1 e hec

theorem mem_of_mem_preorder {all : List Nested} {e : Nat × Nested} (he : e ∈ preorder all) :
    e.2 ∈ all := by
  obtain ⟨c, hc, hec⟩ := List.mem_flatMap.1 he
  exact mem_of_mem_descend (List.mem_filter.1 hc).1 e hec

/-- A parent is one of the given loops, larger, and contains the header. -/
theorem mem_of_enclosing? {all : List NaturalLoop} {l o : NaturalLoop}
    (h : enclosing? all l = some o) : o ∈ all ∧ l.header ∈ o.blocks := by
  obtain ⟨hmem, hcond⟩ := List.mem_filter.1 (smallest?_mem h)
  simp only [Bool.and_eq_true, decide_eq_true_eq] at hcond
  exact ⟨hmem, hcond.2⟩

/-! ### Records -/

namespace Func

/-- The natural loops of a function with their parents. -/
def nested (f : Func) : List Nested := nest (naturalLoops f.graph.facts f.layout)

/-- The place of a natural loop in the preorder. -/
def place? (f : Func) (l : NaturalLoop) : Option Nat :=
  (preorder f.nested).findIdx? fun e => e.2.loop = l

/-- The record of a natural loop at some depth. -/
def record (f : Func) (depth : Nat) (c : Nested) : Loop where
  header := c.loop.header
  blocks := c.loop.blocks
  parent := c.parent.bind f.place?
  children := (childrenOf f.nested (some c.loop)).filterMap fun d => f.place? d.loop
  depth := depth
  preheader := c.loop.preheader? f f.graph.facts
  latch := c.loop.latch? f.graph.facts
  exit := c.loop.exit? f

variable {f : Func} {i : Nat} {l : Loop} {depth : Nat} {c : Nested}

/-- The forest is the preorder, each loop with its record. -/
theorem loops_eq_map (f : Func) :
    f.loops = ⟨(preorder f.nested).map fun e => f.record e.1 e.2⟩ := rfl

theorem loop?_eq_map (f : Func) (i : Nat) :
    f.loops.loop? i = (preorder f.nested)[i]?.map fun e => f.record e.1 e.2 :=
  List.getElem?_map

theorem loop?_eq_some_iff : f.loops.loop? i = some l ↔
    ∃ depth c, (preorder f.nested)[i]? = some (depth, c) ∧ f.record depth c = l := by
  rw [loop?_eq_map, Option.map_eq_some_iff, Prod.exists]

theorem exists_of_place (hc : (preorder f.nested)[i]? = some (depth, c)) :
    ∃ n ∈ naturalLoops f.graph.facts f.layout,
      c.loop = n ∧ c.parent = enclosing? (naturalLoops f.graph.facts f.layout) n := by
  obtain ⟨n, hn, hnc⟩ := List.mem_map.1 (mem_of_mem_preorder (List.mem_of_getElem? hc))
  subst hnc
  exact ⟨n, hn, rfl, rfl⟩

theorem loop_mem_of_place (hc : (preorder f.nested)[i]? = some (depth, c)) :
    c.loop ∈ naturalLoops f.graph.facts f.layout := by
  obtain ⟨n, hn, rfl, -⟩ := exists_of_place hc
  exact hn

theorem parent_of_place (hc : (preorder f.nested)[i]? = some (depth, c)) :
    c.parent = enclosing? (naturalLoops f.graph.facts f.layout) c.loop := by
  obtain ⟨n, -, rfl, hparent⟩ := exists_of_place hc
  exact hparent

/-! ### The same loops in two functions -/

variable {g : Func}

section

variable (hin : ∀ h a, g.graph.InLoop h a ↔ f.graph.InLoop h a)
  (hlayout : g.layout.filter (· ∈ f.layout) = f.layout)

include hin hlayout

/-- Loops by paths decide what is found, and the layout in what order, no matter which other blocks
it lists. -/
theorem naturalLoop?_eq_of_inLoop (h : BlockId) :
    naturalLoop? g.graph.facts g.layout h = naturalLoop? f.graph.facts f.layout h := by
  refine Option.ext fun l => ?_
  rw [naturalLoop?_eq_some_iff, naturalLoop?_eq_some_iff, FlowGraph.exists_backEdge_iff,
    FlowGraph.exists_backEdge_iff, hin]
  refine and_congr_right fun hh => and_congr_right fun _ => ?_
  obtain ⟨t, ht⟩ := FlowGraph.exists_backEdge_iff.2 hh
  obtain ⟨t', ht'⟩ := FlowGraph.exists_backEdge_iff.2 ((hin h h).2 hh)
  have hbody : ∀ b, b ∈ g.graph.facts.loopBody h (g.graph.facts.tails h) ↔
      b ∈ f.graph.facts.loopBody h (f.graph.facts.tails h) := fun b => by
    rw [FlowGraph.mem_loopBody ht', FlowGraph.mem_loopBody ht, hin]
  have hblocks : g.layout.filter (· ∈ g.graph.facts.loopBody h (g.graph.facts.tails h)) =
      f.layout.filter (· ∈ f.graph.facts.loopBody h (f.graph.facts.tails h)) := by
    conv_rhs => rw [← hlayout, List.filter_filter]
    refine List.filter_congr fun b _ => ?_
    -- what is in a loop of `f` is a block of `f`
    have hmem : b ∈ f.graph.facts.loopBody h (f.graph.facts.tails h) → b ∈ f.layout := fun hb =>
      ((FlowGraph.mem_loopBody ht).1 hb).reachable.listed
    simp only [hbody]
    simpa using hmem
  rw [hblocks]

theorem naturalLoops_eq_of_inLoop :
    naturalLoops g.graph.facts g.layout = naturalLoops f.graph.facts f.layout := by
  -- a block that `f` does not list is no header
  have hnone : ∀ h ∈ g.layout, decide (h ∈ f.layout) = false →
      naturalLoop? f.graph.facts f.layout h = none := by
    intro h _ hh
    refine Option.eq_none_iff_forall_ne_some.2 fun l hl => of_decide_eq_false hh ?_
    obtain ⟨⟨t, ht⟩, -⟩ := naturalLoop?_eq_some_iff.1 hl
    exact ht.edge.2.1
  have hkept := filterMap_filter_of_none hnone
  rw [hlayout] at hkept
  rw [naturalLoops, funext (naturalLoop?_eq_of_inLoop hin hlayout), naturalLoops, hkept]

end

/-- Functions in which the same loops are found have the same forest, up to the preheaders if these
differ. -/
theorem loops_eq_of_naturalLoops {u : Option BlockId → Option BlockId}
    (hloops : naturalLoops g.graph.facts g.layout = naturalLoops f.graph.facts f.layout)
    (hu : ∀ n ∈ naturalLoops f.graph.facts f.layout,
      n.preheader? g g.graph.facts = u (n.preheader? f f.graph.facts) ∧
        n.latch? g.graph.facts = n.latch? f.graph.facts ∧ n.exit? g = n.exit? f) :
    g.loops = ⟨f.loops.loops.map fun l => { l with preheader := u l.preheader }⟩ := by
  have hnested : g.nested = f.nested := congrArg nest hloops
  have hplace : g.place? = f.place? := by
    funext n
    rw [place?, place?, hnested]
  rw [loops_eq_map, loops_eq_map f, hnested, List.map_map]
  refine congrArg LoopForest.mk (List.map_congr_left fun e he => ?_)
  obtain ⟨n, hn, hne⟩ := List.mem_map.1 (mem_of_mem_preorder he)
  obtain ⟨hpre, hlatch, hexit⟩ := hu e.2.loop (hne ▸ hn)
  simp only [Function.comp_apply, record, hnested, hplace, hpre, hlatch, hexit]

end Func

/-! ### What a record says -/

/-- The header of `l` is a block of the larger loop `m`. -/
structure Loop.NestedIn (l m : Loop) : Prop where
  header_mem : l.header ∈ m.blocks
  size_lt : l.blocks.length < m.blocks.length

/-- `l` describes a loop of `f`: its blocks are a loop by paths, and where it names a preheader, a
latch or an exit, that block is the only one of its kind. -/
structure Func.Describes (f : Func) (l : Loop) : Prop where
  backEdge : ∃ t, f.graph.BackEdge t l.header
  blocks_eq : l.blocks = f.layout.filter
    (· ∈ f.graph.facts.loopBody l.header (f.graph.facts.tails l.header))
  preheader : ∀ p, l.preheader = some p → f.successors p = [l.header] ∧
    ∀ a, f.graph.Reachable a ∧ f.graph.Edge a l.header ∧ a ∉ l.blocks ↔ a = p
  latch : ∀ t, l.latch = some t → ∀ a, a ∈ l.blocks ∧ f.graph.Edge a l.header ↔ a = t
  exit : ∀ e, l.exit = some e → ∀ b, (∃ a ∈ l.blocks, b ∈ f.successors a) ∧ b ∉ l.blocks ↔ b = e

namespace Func

variable {f : Func} {i j : Nat} {l m : Loop}

namespace Describes

theorem mem_naturalLoops (h : f.Describes l) :
    (⟨l.header, l.blocks⟩ : NaturalLoop) ∈ naturalLoops f.graph.facts f.layout :=
  mem_naturalLoops_iff.2 ⟨h.backEdge, h.blocks_eq⟩

theorem mem_blocks (h : f.Describes l) {b : BlockId} :
    b ∈ l.blocks ↔ f.graph.InLoop l.header b :=
  mem_blocks_iff h.mem_naturalLoops

/-- A loop is determined by its header. -/
theorem blocks_congr (hl : f.Describes l) (hm : f.Describes m) (h : l.header = m.header) :
    l.blocks = m.blocks := by
  rw [hl.blocks_eq, hm.blocks_eq, h]

end Describes

/-- Every record of the forest describes a loop. -/
theorem describes_loop? (h : f.loops.loop? i = some l) : f.Describes l := by
  obtain ⟨depth, c, hc, rfl⟩ := loop?_eq_some_iff.1 h
  have hmem := loop_mem_of_place hc
  obtain ⟨hback, heq⟩ := mem_naturalLoops_iff.1 hmem
  refine ⟨hback, heq, ?_, ?_, ?_⟩
  · intro p hp
    simp only [record, NaturalLoop.preheader?, Option.filter_eq_some_iff,
      sole?_eq_some_iff] at hp ⊢
    refine ⟨of_decide_eq_true hp.2, fun a => ?_⟩
    rw [← List.mem_singleton, ← hp.1, List.mem_filter, FlowGraph.mem_preds_iff, and_assoc,
      decide_eq_true_eq]
  · intro t ht a
    simp only [record, NaturalLoop.latch?, sole?_eq_some_iff] at ht ⊢
    rw [← List.mem_singleton, ← ht, List.mem_filter, FlowGraph.mem_preds_iff, decide_eq_true_eq]
    constructor
    · rintro ⟨ha, hedge⟩
      exact ⟨⟨((mem_blocks_iff hmem).1 ha).reachable, hedge⟩, ha⟩
    · rintro ⟨⟨-, hedge⟩, ha⟩
      exact ⟨ha, hedge⟩
  · intro e he b
    simp only [record, NaturalLoop.exit?, sole?_eq_some_iff] at he ⊢
    rw [← List.mem_singleton, ← he, mem_lastOccurrences, List.mem_filter, List.mem_flatMap,
      decide_eq_true_eq]

/-! ### Nesting -/

/-- The parent of a loop is a loop of the forest around it. -/
theorem exists_parent (h : f.loops.loop? i = some l) (hp : l.parent = some j) :
    ∃ m, f.loops.loop? j = some m ∧ l.NestedIn m := by
  obtain ⟨depth, c, hc, rfl⟩ := loop?_eq_some_iff.1 h
  obtain ⟨o, ho, hj⟩ := Option.bind_eq_some_iff.1 hp
  rw [parent_of_place hc] at ho
  obtain ⟨hlt, heq, -⟩ := List.findIdx?_eq_some_iff_getElem.1 hj
  obtain rfl := of_decide_eq_true heq
  refine ⟨_, loop?_eq_some_iff.2 ⟨_, _, List.getElem?_eq_getElem hlt, rfl⟩, ?_, ?_⟩
  · exact (mem_of_enclosing? ho).2
  · exact size_lt_of_enclosing? ho

end Func

namespace Loop.NestedIn

variable {f : Func} {l m n : Loop}

/-- Two nested loops have different headers. -/
theorem header_ne (h : l.NestedIn m) (hl : f.Describes l) (hm : f.Describes m) :
    l.header ≠ m.header := by
  intro heq
  have hlt := h.size_lt
  rw [hl.blocks_congr hm heq] at hlt
  exact Nat.lt_irrefl _ hlt

theorem blocks_subset (h : l.NestedIn m) (hl : f.Describes l) (hm : f.Describes m) :
    ∀ b ∈ l.blocks, b ∈ m.blocks := by
  intro b hb
  have hheader := hm.mem_blocks.1 h.header_mem
  exact hm.mem_blocks.2 (hheader.subset (h.header_ne hl hm) (hl.mem_blocks.1 hb))

/-- The inner loop does not contain the header of the outer one. -/
theorem header_not_mem (h : l.NestedIn m) (hl : f.Describes l) (hm : f.Describes m) :
    m.header ∉ l.blocks := by
  intro hmem
  have hheader := hm.mem_blocks.1 h.header_mem
  exact hheader.not_inLoop_header (h.header_ne hl hm) (hl.mem_blocks.1 hmem)

theorem trans (h : l.NestedIn m) (h' : m.NestedIn n) (hm : f.Describes m)
    (hn : f.Describes n) : l.NestedIn n :=
  ⟨h'.blocks_subset hm hn _ h.header_mem, Nat.lt_trans h.size_lt h'.size_lt⟩

end Loop.NestedIn

/-- Nesting over any number of levels. -/
theorem Func.nestedIn_of_isWithin {f : Func} {i o : Nat} {m : Loop}
    (hm : f.loops.loop? o = some m) (h : f.loops.isWithin i o = true) :
    ∀ l, f.loops.loop? i = some l → l.NestedIn m := by
  -- the induction follows the way up from the inner loop
  induction i using Nat.strongRecOn with
  | ind i ih =>
      intro l hl
      unfold LoopForest.isWithin at h
      rw [hl, Option.bind_some] at h
      cases hp : l.parent with
      | none =>
          rw [hp] at h
          cases h
      | some p =>
          rw [hp] at h
          obtain ⟨k, hk, hnest⟩ := Func.exists_parent hl hp
          simp only [Bool.or_eq_true, decide_eq_true_eq] at h
          rcases h with rfl | h
          · rw [hm] at hk
            cases hk
            exact hnest
          · by_cases hlt : p < i
            · rw [if_pos hlt] at h
              exact hnest.trans (ih p hlt h k hk) (describes_loop? hk) (describes_loop? hm)
            · rw [if_neg hlt] at h
              cases h

end LoopSwap
