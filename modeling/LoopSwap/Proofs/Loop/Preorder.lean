/-
**The preorder lists every loop once.**

The loops with their parents form a forest: a parent is among the loops and is larger than its
children, so every way up ends at a loop without parent.  Going down from a loop one meets exactly
the loops from which the way up leads to it (`mem_descend_iff`), and the ways up from one loop never
meet two siblings (`not_below_siblings`).  So the preorder is the list of loops in another order,
and the forest of a function has one record for each of its natural loops.

Main definitions:

* `LoopSwap.IsForest` — loops with their parents among them, each once;
* `LoopSwap.ChildOf`, `LoopSwap.Below` — one step up, and the way up;
* `LoopSwap.ordered` — the loops in preorder.

Main results:

* `LoopSwap.depth_preorder` — depths are one more than those of parents;
* `LoopSwap.IsForest.preorder_perm` — the preorder is a rearrangement of the loops;
* `LoopSwap.Func.loops_natural` — the forest of a function lists its natural loops and nothing else.
-/

import LoopSwap.Proofs.Code.WellFormed
import LoopSwap.Proofs.Loop.Forest
import Mathlib.Algebra.Order.BigOperators.Group.List
import Mathlib.Algebra.Order.Group.Nat
import Mathlib.Data.List.Nodup

set_option relaxedAutoImplicit false
set_option autoImplicit false

namespace LoopSwap

/-! ### Forests -/

/-- The loops are different, and the parent of each is one of them. -/
structure IsForest (all : List Nested) : Prop where
  nodup : (all.map (·.loop)).Nodup
  parent_mem : ∀ c ∈ all, ∀ o, c.parent = some o → ∃ p ∈ all, p.loop = o

/-- `p` is the parent of `c` among the given loops. -/
structure ChildOf (all : List Nested) (c p : Nested) : Prop where
  mem : c ∈ all
  parent_mem : p ∈ all
  parent : c.parent = some p.loop

/-- The way up from `c` leads to `a`. -/
def Below (all : List Nested) (c a : Nested) : Prop := Relation.ReflTransGen (ChildOf all) c a

variable {all : List Nested} {a b c d e l : Nested} {depth : Nat}

theorem ChildOf.size_lt (h : ChildOf all c a) : c.loop.size < a.loop.size :=
  c.size_lt _ h.parent

theorem Below.size_le (h : Below all c a) : c.loop.size ≤ a.loop.size := by
  induction h with
  | refl => exact Nat.le_refl _
  | tail _ hstep ih => exact Nat.le_trans ih (Nat.le_of_lt hstep.size_lt)

theorem descend_eq (all : List Nested) (depth : Nat) (l : Nested) : descend all depth l =
    (depth, l) :: (childrenOf all (some l.loop)).flatMap (descend all (depth + 1)) := by
  rw [descend]
  congr 1
  conv_rhs => rw [← List.attach_map_subtype_val (childrenOf all (some l.loop)), List.flatMap_map]

theorem mem_childrenOf {o : Option NaturalLoop} :
    c ∈ childrenOf all o ↔ c ∈ all ∧ c.parent = o := by
  rw [childrenOf, List.mem_filter, decide_eq_true_eq]

/-- Going down from a loop one meets the loops from which the way up leads to it. -/
theorem mem_descend_iff (hl : l ∈ all) :
    e ∈ (descend all depth l).map (·.2) ↔ Below all e l := by
  constructor
  · fun_induction descend all depth l with
    | case1 depth l ih =>
        intro he
        obtain ⟨x, hx, rfl⟩ := List.mem_map.1 he
        rcases List.mem_cons.1 hx with rfl | hx
        · exact .refl
        · obtain ⟨c, -, hxc⟩ := List.mem_flatMap.1 hx
          obtain ⟨hc, hparent⟩ := mem_childrenOf.1 c.2
          exact (ih c hc (List.mem_map_of_mem hxc)).tail ⟨hc, hl, hparent⟩
  · intro he
    induction he generalizing depth with
    | refl =>
        rw [descend_eq]
        exact List.mem_cons_self
    | @tail c l _ hcl ih =>
        have hchild : c ∈ childrenOf all (some l.loop) := mem_childrenOf.2 ⟨hcl.mem, hcl.parent⟩
        have hbelow : e ∈ (descend all (depth + 1) c).map (·.2) := ih hcl.mem
        obtain ⟨x, hx, rfl⟩ := List.mem_map.1 hbelow
        rw [descend_eq]
        exact List.mem_map_of_mem (List.mem_cons_of_mem _ (List.mem_flatMap.2 ⟨c, hchild, hx⟩))

/-! ### Depths -/

/-- Going down from a loop, the depth grows by one from a parent to its children. -/
theorem depth_descend : ∀ e ∈ descend all depth l, e = (depth, l) ∨
    ∃ p ∈ descend all depth l, e.2.parent = some p.2.loop ∧ e.1 = p.1 + 1 := by
  fun_induction descend all depth l with
  | case1 depth l ih =>
      intro e he
      rcases List.mem_cons.1 he with rfl | he
      · exact Or.inl rfl
      · obtain ⟨c, hc, hec⟩ := List.mem_flatMap.1 he
        refine Or.inr ?_
        rcases ih c e hec with rfl | ⟨p, hp, hparent, hdepth⟩
        · exact ⟨_, List.mem_cons_self, (mem_childrenOf.1 c.2).2, rfl⟩
        · exact ⟨p, List.mem_cons_of_mem _ (List.mem_flatMap.2 ⟨c, hc, hp⟩), hparent, hdepth⟩

/-- A loop without parent has depth one, any other the depth of its parent and one. -/
theorem depth_preorder {e : Nat × Nested} (he : e ∈ preorder all) : e.2.parent = none ∧ e.1 = 1 ∨
    ∃ p ∈ preorder all, e.2.parent = some p.2.loop ∧ e.1 = p.1 + 1 := by
  obtain ⟨r, hr, her⟩ := List.mem_flatMap.1 he
  rcases depth_descend e her with rfl | ⟨p, hp, hparent, hdepth⟩
  · exact Or.inl ⟨(mem_childrenOf.1 hr).2, rfl⟩
  · exact Or.inr ⟨p, List.mem_flatMap.2 ⟨r, hr, hp⟩, hparent, hdepth⟩

/-! ### Every loop once -/

/-- The loops in preorder. -/
def ordered (all : List Nested) : List Nested := (preorder all).map (·.2)

theorem getElem?_ordered {i : Nat} (h : (preorder all)[i]? = some (depth, c)) :
    (ordered all)[i]? = some c := by
  rw [ordered, List.getElem?_map, h]
  rfl

namespace IsForest

variable (hf : IsForest all)

include hf

theorem loop_inj (ha : a ∈ all) (hb : b ∈ all) (h : a.loop = b.loop) : a = b :=
  List.inj_on_of_nodup_map hf.nodup ha hb h

theorem nodup_all : all.Nodup := List.Nodup.of_map _ hf.nodup

theorem childOf_unique : Relator.RightUnique (ChildOf all) := by
  intro c a b ha hb
  exact hf.loop_inj ha.parent_mem hb.parent_mem (Option.some.inj (ha.parent.symm.trans hb.parent))

/-- The way up from a loop meets at most one of several siblings. -/
theorem not_below_siblings (ha : a ∈ all) (hb : b ∈ all) (h : a.parent = b.parent) (hne : a ≠ b)
    (hea : Below all e a) : ¬ Below all e b := by
  -- of two siblings on one way, one would be above the other and hence above its own parent
  have key : ∀ x y, y ∈ all → x.parent = y.parent → x ≠ y → ¬ Below all x y := by
    intro x y hy hparent hxy hbelow
    rcases Relation.ReflTransGen.cases_head hbelow with rfl | ⟨p, hxp, hpy⟩
    · exact hxy rfl
    · have hyp : ChildOf all y p := ⟨hy, hxp.parent_mem, hparent.symm.trans hxp.parent⟩
      exact Nat.lt_irrefl _ (Nat.lt_of_lt_of_le hyp.size_lt (Below.size_le hpy))
  intro heb
  rcases Relation.ReflTransGen.total_of_right_unique hf.childOf_unique hea heb with hab | hba
  · exact key a b hb h hne hab
  · exact key b a ha h.symm hne.symm hba

/-- The way up ends at a loop without parent. -/
theorem exists_root (hc : c ∈ all) : ∃ r ∈ all, r.parent = none ∧ Below all c r := by
  -- the sizes on the way up are bounded by their sum over all loops
  have hle : ∀ d ∈ all, d.loop.size ≤ (all.map (·.loop.size)).sum := fun d hd =>
    List.le_sum_of_mem (List.mem_map_of_mem hd)
  generalize hn : (all.map (·.loop.size)).sum - c.loop.size = n
  induction n using Nat.strongRecOn generalizing c with
  | ind n ih =>
      cases hparent : c.parent with
      | none => exact ⟨c, hc, hparent, .refl⟩
      | some o =>
          obtain ⟨p, hp, rfl⟩ := hf.parent_mem c hc o hparent
          have hstep : ChildOf all c p := ⟨hc, hp, hparent⟩
          have hlt := hstep.size_lt
          have hbound := hle p hp
          obtain ⟨r, hr, hroot, hpr⟩ := ih _ (by omega) hp rfl
          exact ⟨r, hr, hroot, .head hstep hpr⟩

/-- The ways down from different siblings have nothing in common. -/
theorem disjoint_descend (ha : a ∈ all) (hb : b ∈ all) (h : a.parent = b.parent) (hne : a ≠ b) :
    List.Disjoint ((descend all depth a).map (·.2)) ((descend all depth b).map (·.2)) := by
  intro e hea heb
  exact hf.not_below_siblings ha hb h hne ((mem_descend_iff ha).1 hea)
    ((mem_descend_iff hb).1 heb)

/-- The ways down from siblings list no loop twice if none of them does. -/
theorem nodup_siblings {o : Option NaturalLoop} (hsub : ∀ c ∈ childrenOf all o,
    ((descend all depth c).map (·.2)).Nodup) :
    (((childrenOf all o).flatMap (descend all depth)).map (·.2)).Nodup := by
  rw [List.map_flatMap, List.nodup_flatMap]
  refine ⟨hsub, ?_⟩
  have hnodup : (childrenOf all o).Nodup := hf.nodup_all.filter _
  refine List.Pairwise.imp_of_mem ?_ hnodup
  intro a b ha hb hne
  obtain ⟨ha, hap⟩ := mem_childrenOf.1 ha
  obtain ⟨hb, hbp⟩ := mem_childrenOf.1 hb
  exact hf.disjoint_descend ha hb (hap.trans hbp.symm) hne

theorem nodup_descend (hl : l ∈ all) : ((descend all depth l).map (·.2)).Nodup := by
  fun_induction descend all depth l with
  | case1 depth l ih =>
      have hsub : ∀ c ∈ childrenOf all (some l.loop),
          ((descend all (depth + 1) c).map (·.2)).Nodup := fun c hc =>
        ih ⟨c, hc⟩ (mem_childrenOf.1 hc).1
      rw [← descend, descend_eq, List.map_cons, List.nodup_cons]
      refine ⟨fun hmem => ?_, hf.nodup_siblings hsub⟩
      -- what is below a child is smaller than the loop itself
      obtain ⟨x, hx, hxl⟩ := List.mem_map.1 hmem
      obtain ⟨c, hc, hxc⟩ := List.mem_flatMap.1 hx
      obtain ⟨hc, hparent⟩ := mem_childrenOf.1 hc
      have hbelow := (mem_descend_iff hc).1 (List.mem_map_of_mem hxc)
      have hlt : c.loop.size < l.loop.size := c.size_lt _ hparent
      rw [hxl] at hbelow
      exact Nat.lt_irrefl _ (Nat.lt_of_lt_of_le hlt hbelow.size_le)

/-- The preorder is a rearrangement of the loops. -/
theorem preorder_perm : ((preorder all).map (·.2)).Perm all := by
  have hnodup : ((preorder all).map (·.2)).Nodup :=
    hf.nodup_siblings fun c hc => hf.nodup_descend (mem_childrenOf.1 hc).1
  refine (List.perm_ext_iff_of_nodup hnodup hf.nodup_all).2 fun e => ?_
  constructor
  · intro he
    obtain ⟨x, hx, rfl⟩ := List.mem_map.1 he
    exact mem_of_mem_preorder hx
  · intro he
    obtain ⟨r, hr, hroot, hbelow⟩ := hf.exists_root he
    have hmem : e ∈ (descend all 1 r).map (·.2) := (mem_descend_iff hr).2 hbelow
    obtain ⟨x, hx, rfl⟩ := List.mem_map.1 hmem
    exact List.mem_map_of_mem (List.mem_flatMap.2 ⟨r, mem_childrenOf.2 ⟨hr, hroot⟩, hx⟩)

theorem nodup_ordered : (ordered all).Nodup := hf.preorder_perm.nodup_iff.2 hf.nodup_all

end IsForest

/-- Loops with their parents form a forest. -/
theorem isForest_nest {ls : List NaturalLoop} (h : ls.Nodup) : IsForest (nest ls) := by
  have hloops : (nest ls).map (·.loop) = ls := by
    rw [nest, List.map_map]
    exact List.map_id ls
  refine ⟨hloops.symm ▸ h, fun c hc o ho => ?_⟩
  obtain ⟨l, hl, rfl⟩ := List.mem_map.1 hc
  have hmem : o ∈ (nest ls).map (·.loop) := by
    rw [hloops]
    exact (mem_of_enclosing? ho).1
  obtain ⟨p, hp, hpo⟩ := List.mem_map.1 hmem
  exact ⟨p, hp, hpo⟩

namespace Func

variable {f : Func}

theorem nodup_naturalLoops (hl : f.layout.Nodup) :
    (naturalLoops f.graph.facts f.layout).Nodup := by
  refine hl.filterMap fun h h' l hh hh' => ?_
  exact (naturalLoop?_eq_some_iff.1 hh).2.1.symm.trans (naturalLoop?_eq_some_iff.1 hh').2.1

theorem nodup_blocks (hl : f.layout.Nodup) {n : NaturalLoop}
    (hn : n ∈ naturalLoops f.graph.facts f.layout) : n.blocks.Nodup := by
  rw [(mem_naturalLoops_iff.1 hn).2]
  exact hl.filter _

theorem isForest_nested (hl : f.layout.Nodup) : IsForest f.nested :=
  isForest_nest (nodup_naturalLoops hl)

/-- Every natural loop has a record in the forest. -/
theorem exists_loop? (hl : f.layout.Nodup) {n : NaturalLoop}
    (hn : n ∈ naturalLoops f.graph.facts f.layout) :
    ∃ i l, f.loops.loop? i = some l ∧ l.header = n.header := by
  have hmem : (⟨n, enclosing? (naturalLoops f.graph.facts f.layout) n,
      fun _ h => size_lt_of_enclosing? h⟩ : Nested) ∈ f.nested := List.mem_map.2 ⟨n, hn, rfl⟩
  rw [← (isForest_nested hl).preorder_perm.mem_iff, List.mem_map] at hmem
  obtain ⟨⟨depth, c⟩, hx, rfl⟩ := hmem
  obtain ⟨i, hi⟩ := List.getElem?_of_mem hx
  exact ⟨i, _, loop?_eq_some_iff.2 ⟨depth, _, hi, rfl⟩, rfl⟩

/-- No two records of the forest have the same header. -/
theorem loop?_inj (hl : f.layout.Nodup) {i j : Nat} {l m : Loop} (hi : f.loops.loop? i = some l)
    (hj : f.loops.loop? j = some m) (h : l.header = m.header) : i = j := by
  obtain ⟨depth, c, hc, rfl⟩ := loop?_eq_some_iff.1 hi
  obtain ⟨depth', d, hd, rfl⟩ := loop?_eq_some_iff.1 hj
  have hforest := isForest_nested hl
  have hloop : c.loop = d.loop := eq_of_header_eq (loop_mem_of_place hc) (loop_mem_of_place hd) h
  have hcd : c = d := hforest.loop_inj (mem_of_mem_preorder (List.mem_of_getElem? hc))
    (mem_of_mem_preorder (List.mem_of_getElem? hd)) hloop
  subst hcd
  exact place_unique hforest.nodup_ordered (getElem?_ordered hc) (getElem?_ordered hd)

/-- The blocks of a loop, by walks that avoid its header. -/
theorem mem_blocks_iff_walk {l : Loop} (hd : f.Describes l) {b : BlockId} :
    b ∈ l.blocks ↔ b = l.header ∨ f.graph.Reachable b ∧ ∃ t p, f.graph.BackEdge t l.header ∧
      Walk f.graph.Edge b t p ∧ l.header ∉ p := by
  rw [hd.mem_blocks]
  constructor
  · rintro ⟨t, ht, hb | ⟨hne, hreach, hwalk⟩⟩
    · exact Or.inl hb
    · obtain ⟨p, hp, havoid⟩ := hwalk.exists_walk
      refine Or.inr ⟨hreach, t, p, ht, hp, fun hmem => ?_⟩
      rcases havoid _ hmem with heq | hno
      · exact hne heq.symm
      · exact hno rfl
  · rintro (rfl | ⟨hreach, t, p, ht, hp, havoid⟩)
    · obtain ⟨t, ht⟩ := hd.backEdge
      exact ht.header_inLoop
    · have hne : ∀ x ∈ p, x ≠ l.header := fun x hx hxh => havoid (hxh ▸ hx)
      exact ⟨t, ht, Or.inr ⟨hne b hp.start_mem, hreach, hp.reachVia hne⟩⟩

/-- **The forest lists the natural loops.**  Every block to which a reachable block that it
dominates leads back is the header of exactly one loop, and there are no other loops.  The blocks of
a loop are its header and the reachable blocks from which the source of such an edge can be reached
without a visit to the header, each once and in layout order. -/
theorem loops_natural (f : Func) (hl : f.layout.Nodup) :
    (∀ h, (∃ t, f.graph.Reachable t ∧ f.graph.Edge t h ∧ ∀ p, f.graph.Path t p → h ∈ p) →
      ∃! i, ∃ l, f.loops.loop? i = some l ∧ l.header = h) ∧
    ∀ i l, f.loops.loop? i = some l →
      f.graph.Reachable l.header ∧
      (∃ t, f.graph.Reachable t ∧ f.graph.Edge t l.header ∧
        ∀ p, f.graph.Path t p → l.header ∈ p) ∧
      l.blocks.Sublist f.layout ∧ l.blocks.Nodup ∧
      ∀ b, b ∈ l.blocks ↔ b = l.header ∨ f.graph.Reachable b ∧
        ∃ t p, (f.graph.Reachable t ∧ f.graph.Edge t l.header ∧
          ∀ q, f.graph.Path t q → l.header ∈ q) ∧
          Walk f.graph.Edge b t p ∧ l.header ∉ p := by
  have hback : ∀ t h, f.graph.BackEdge t h ↔
      f.graph.Reachable t ∧ f.graph.Edge t h ∧ ∀ p, f.graph.Path t p → h ∈ p := fun t h =>
    ⟨fun ⟨hr, he, hd⟩ => ⟨hr, he, hd⟩, fun ⟨hr, he, hd⟩ => ⟨hr, he, hd⟩⟩
  simp only [← hback]
  constructor
  · rintro h ⟨t, ht⟩
    have hn := mem_naturalLoops_iff (f := f) (l := ⟨h, f.layout.filter
      (· ∈ f.graph.facts.loopBody h (f.graph.facts.tails h))⟩).2 ⟨⟨t, ht⟩, rfl⟩
    obtain ⟨i, l, hi, hheader⟩ := exists_loop? hl hn
    refine ⟨i, ⟨l, hi, hheader⟩, ?_⟩
    rintro j ⟨m, hj, hm⟩
    exact loop?_inj hl hj hi (hm.trans hheader.symm)
  · intro i l hi
    have hd := describes_loop? hi
    obtain ⟨t, ht⟩ := hd.backEdge
    have hsub : l.blocks.Sublist f.layout := by
      rw [hd.blocks_eq]
      exact List.filter_sublist
    exact ⟨ht.reachable.next ht.edge, ⟨t, ht⟩, hsub, hl.sublist hsub,
      fun b => mem_blocks_iff_walk hd⟩

/-- Two latches share a header, one block loops on itself, and a dead block leads into the loop. -/
def sharedHeader : Func :=
  .ofExits [("entry", .br ⟨1⟩), ("head", .condBr (.const 0) ⟨2⟩ ⟨3⟩), ("first", .br ⟨1⟩),
    ("second", .condBr (.const 0) ⟨1⟩ ⟨4⟩), ("self", .condBr (.const 0) ⟨4⟩ ⟨5⟩),
    ("done", .ret none), ("dead", .br ⟨2⟩)]

/-- The two headers of that function have one loop each. -/
theorem loops_natural_sharedHeader :
    Func.sharedHeader.layout.Nodup ∧
      (∃! i, ∃ l, Func.sharedHeader.loops.loop? i = some l ∧ l.header = ⟨1⟩) ∧
      ∃! i, ∃ l, Func.sharedHeader.loops.loop? i = some l ∧ l.header = ⟨4⟩ := by
  have hl : Func.sharedHeader.layout.Nodup := by decide
  have hfirst : Func.sharedHeader.graph.BackEdge ⟨2⟩ ⟨1⟩ :=
    FlowGraph.mem_tails.1 (by decide +kernel)
  have hself : Func.sharedHeader.graph.BackEdge ⟨4⟩ ⟨4⟩ :=
    FlowGraph.mem_tails.1 (by decide +kernel)
  have hloops := (Func.loops_natural Func.sharedHeader hl).1
  exact ⟨hl, hloops ⟨1⟩ ⟨⟨2⟩, hfirst.reachable, hfirst.edge, hfirst.dominates⟩,
    hloops ⟨4⟩ ⟨⟨4⟩, hself.reachable, hself.edge, hself.dominates⟩⟩

end Func

end LoopSwap
