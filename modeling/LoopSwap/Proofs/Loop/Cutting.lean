/-
**Loops after a cut.**

Cutting a node in two makes no new header: the second part is entered from the first one only.  The
other headers stay headers, with the same old nodes in their loops, and since the second part is put
somewhere into the layout and nothing is moved, the loops keep their numbers.

Main results:

* `LoopSwap.Cut.inLoop_iff` — the old nodes of a loop;
* `LoopSwap.Cut.inLoop_new` — the second part is in a loop only if the first one was;
* `LoopSwap.Cut.enters_iff` — from where an old node is entered;
* `LoopSwap.Func.Parted.sameNesting` — splitting a block keeps the numbers of the loops.
-/

import LoopSwap.Proofs.Code.Layout
import LoopSwap.Proofs.Loop.Renaming

set_option relaxedAutoImplicit false
set_option autoImplicit false

namespace LoopSwap

/-! ### Cutting a node -/

namespace Cut

variable {α : Type} {g g' : FlowGraph α} {c n a h : α} (hc : Cut g g' c n)

include hc

theorem reachable_old (ha : a ≠ n) : g'.Reachable a ↔ g.Reachable a := by
  rw [hc.reachable_iff]
  simp [ha]

theorem reachVia_avoiding (hn : h ≠ n) (ha : a ≠ n) {b : α} (hb : b ≠ n) :
    ReachVia g'.Edge (· ≠ h) a b ↔ ReachVia g.Edge (· ≠ h) a b := by
  constructor
  · intro hab
    rcases hc.reachVia_old hab ha with ⟨-, hold⟩ | ⟨hbn, -⟩
    · exact hold
    · exact absurd hbn hb
  · exact fun hab => hc.reachVia hab hn.symm

/-- The second part of a node leads where the node did. -/
theorem reachVia_new_iff {P : α → Prop} {b : α} (hn : P n) (hb : b ∈ g.listed) (hbc : b ≠ c) :
    ReachVia g'.Edge P n b ↔ ReachVia g.Edge P c b := by
  have hbn := hc.ne hb
  constructor
  · intro hwalk
    rcases Relation.ReflTransGen.cases_head hwalk with heq | ⟨z, hz, hzb⟩
    · exact absurd heq.symm hbn
    · have hedge := hc.edge_new.1 hz.1
      rcases hc.reachVia_old hzb (hc.ne hedge.2.1) with ⟨-, hold⟩ | ⟨heq, -⟩
      · exact .head hedge hz.2 hold
      · exact absurd heq hbn
  · intro hwalk
    rcases Relation.ReflTransGen.cases_head hwalk with heq | ⟨z, hz, hzb⟩
    · exact absurd heq.symm hbc
    · exact .head (hc.edge_new.2 hz.1) hz.2 (hc.reachVia hzb hn)

/-- Old nodes dominate each other as before. -/
theorem dominates_iff (hn : h ≠ n) (ha : a ≠ n) : g'.Dominates h a ↔ g.Dominates h a := by
  rw [FlowGraph.dominates_iff, FlowGraph.dominates_iff, hc.entry]
  refine forall₂_congr fun e he => ?_
  have hen : e ≠ n := fun heq => hc.entry_ne (heq ▸ he)
  rw [hc.listed, hc.reachVia_avoiding hn hen ha]
  simp [hen]

/-- The second part is dominated by what dominates the first one. -/
theorem dominates_new (hd : g.Dominates h c) : g'.Dominates h n := by
  rw [FlowGraph.dominates_iff] at hd ⊢
  intro e he hl
  rw [hc.entry] at he
  have hen : e ≠ n := fun heq => hc.entry_ne (heq ▸ he)
  refine (hd e he (((hc.listed e).1 hl).resolve_left hen)).imp_right fun hno hen' => ?_
  rcases hc.reachVia_old hen' hen with ⟨hne, -⟩ | ⟨-, hold⟩
  · exact hne rfl
  · exact hno hold

/-- A back edge starts where it did, or in the second part if it started in the first one. -/
theorem exists_backEdge (hn : h ≠ n) {t : α} (ht : g.BackEdge t h) :
    ∃ t', g'.BackEdge t' h ∧ ReachVia g'.Edge (· ≠ h) t t' := by
  have htn := hc.ne ht.reachable.listed
  by_cases htc : t = c
  · subst htc
    refine ⟨n, ⟨?_, hc.edge_new.2 ht.edge, hc.dominates_new ht.dominates⟩,
      .single (hc.edge_self.2 rfl) hn.symm⟩
    exact hc.reachable_iff.2 (Or.inl ⟨rfl, ht.reachable⟩)
  · refine ⟨t, ⟨?_, (hc.edge_of_ne htc htn).2 ht.edge, ?_⟩, .refl t⟩
    · exact (hc.reachable_old htn).2 ht.reachable
    · exact (hc.dominates_iff hn htn).2 ht.dominates

/-- A loop has the old nodes that it had. -/
theorem inLoop_iff (hn : h ≠ n) (ha : a ≠ n) : g'.InLoop h a ↔ g.InLoop h a := by
  constructor
  · rintro ⟨t, ht, hcase⟩
    -- a way to the second part goes through the first one
    by_cases htn : t = n
    · subst htn
      have hct : g'.Edge c t := hc.edge_self.2 rfl
      have hcreach : g.Reachable c := by
        rcases hc.reachable_iff.1 ht.reachable with ⟨-, hcr⟩ | ⟨hne, -⟩
        · exact hcr
        · exact absurd rfl hne
      have hcn := hc.ne hc.mem
      have hback : g.BackEdge c h := ⟨hcreach, hc.edge_new.1 ht.edge,
        (hc.dominates_iff hn hcn).1 (ht.dominates.pred hn hct)⟩
      refine ⟨c, hback, hcase.imp_right fun ⟨hne, hreach, hat⟩ => ⟨hne, ?_, ?_⟩⟩
      · exact (hc.reachable_old ha).1 hreach
      · rcases hc.reachVia_old hat ha with ⟨hne, -⟩ | ⟨-, hold⟩
        · exact absurd rfl hne
        · exact hold
    · have htc : t ≠ c := by
        rintro rfl
        exact hn (hc.edge_self.1 ht.edge)
      have hback : g.BackEdge t h := ⟨(hc.reachable_old htn).1 ht.reachable,
        (hc.edge_of_ne htc htn).1 ht.edge, (hc.dominates_iff hn htn).1 ht.dominates⟩
      refine ⟨t, hback, hcase.imp_right fun ⟨hne, hreach, hat⟩ => ⟨hne, ?_, ?_⟩⟩
      · exact (hc.reachable_old ha).1 hreach
      · exact (hc.reachVia_avoiding hn ha htn).1 hat
  · rintro ⟨t, ht, hcase⟩
    obtain ⟨t', ht', htt'⟩ := hc.exists_backEdge hn ht
    refine ⟨t', ht', hcase.imp_right fun ⟨hne, hreach, hat⟩ => ⟨hne, ?_, ?_⟩⟩
    · exact (hc.reachable_old ha).2 hreach
    · exact (hc.reachVia hat hn.symm).trans htt'

/-- The second part is in a loop only if the first one was. -/
theorem inLoop_new (hn : h ≠ n) (ha : g'.InLoop h n) : g.InLoop h c := by
  have hcreach : g'.Reachable c := by
    rcases hc.reachable_iff.1 ha.reachable with ⟨-, hcr⟩ | ⟨hne, -⟩
    · exact (hc.reachable_old (hc.ne hc.mem)).2 hcr
    · exact absurd rfl hne
  exact (hc.inLoop_iff hn (hc.ne hc.mem)).1 (ha.pred hn.symm hcreach (hc.edge_self.2 rfl))

/-- The second part of a node is in the loop of the first one if the node was a header. -/
theorem inLoop_self_new : g'.InLoop c n ↔ g.InLoop c c := by
  have hcn := hc.ne hc.mem
  refine ⟨hc.inLoop_new hcn, fun hloop => ?_⟩
  -- a header leads to its loop, and the first part leads to the second one only
  obtain ⟨t, ht⟩ := (hc.inLoop_iff hcn hcn).2 hloop
  have hne : t ≠ c := by
    rintro rfl
    exact hcn (hc.edge_self.1 ht.1.edge)
  obtain ⟨u, v, rfl, -, huv, hv, -⟩ := ht.1.inLoop.from_header.exists_crossing (· = c) rfl hne
  exact hc.edge_self.1 huv ▸ hv

/-- The second part is no header. -/
theorem not_inLoop_new : ¬ g'.InLoop n n :=
  FlowGraph.not_inLoop_of_pred (hc.entry ▸ hc.entry_ne) fun _ => hc.edge_to_new.1

/-- A loop without the first part does not get the second one. -/
theorem inLoop_iff_of_not_inLoop (hn : h ≠ n) (hout : ¬ g.InLoop h c) :
    g'.InLoop h a ↔ g.InLoop h a := by
  by_cases ha : a = n
  · subst ha
    exact ⟨fun hin => absurd (hc.inLoop_new hn hin) hout,
      fun hin => absurd hin.reachable.listed hc.not_mem⟩
  · exact hc.inLoop_iff hn ha

/-- If the node is in no loop at all, nothing changes. -/
theorem inLoop_iff_of_unlooped (hout : ∀ h, ¬ g.InLoop h c) : g'.InLoop h a ↔ g.InLoop h a := by
  by_cases hn : h = n
  · subst hn
    exact ⟨fun hin => absurd hin.header hc.not_inLoop_new,
      fun hin => absurd hin.header.reachable.listed hc.not_mem⟩
  · exact hc.inLoop_iff_of_not_inLoop hn (hout h)

/-- A node is entered from the same reachable nodes, with the second part for the first one. -/
theorem enters_iff [DecidableEq α] (hh : h ∈ g.listed) : g'.Reachable a ∧ g'.Edge a h ↔
    ∃ p, (g.Reachable p ∧ g.Edge p h) ∧ a = if p = c then n else p := by
  rw [hc.reachable_iff, hc.edge_to_old hh]
  constructor
  · rintro ⟨⟨rfl, hcr⟩ | ⟨han, har⟩, ⟨ha, hch⟩ | ⟨hac, hah⟩⟩
    · exact ⟨c, ⟨hcr, hch⟩, (if_pos rfl).symm⟩
    · exact absurd hah.1 hc.not_mem
    · exact absurd ha han
    · exact ⟨a, ⟨har, hah⟩, (if_neg hac).symm⟩
  · rintro ⟨p, ⟨hpr, hph⟩, rfl⟩
    split
    · next hpc =>
        subst hpc
        exact ⟨Or.inl ⟨rfl, hpr⟩, Or.inl ⟨rfl, hph⟩⟩
    · next hpc => exact ⟨Or.inr ⟨hc.ne hph.1, hpr⟩, Or.inr ⟨hpc, hph⟩⟩

end Cut

/-! ### Splitting a block -/

namespace Func

variable {f f' : Func} {a b c n : BlockId} {k : Nat}

/-- A split that cuts something off keeps the numbers of the loops. -/
theorem Flowing.sameNesting_split? (hf : f.Flowing) (h : f.split? b k = some (f', n))
    (hk : k < (f.blockInsts b).length) : f.SameNesting f' id := by
  have hc := hf.cut h hk
  have hne : ∀ a ∈ f.layout, a ≠ n := fun a ha => hc.ne ha
  have hlisted : ∀ a ∈ f.headers, a ≠ n := fun a ha =>
    hne a (mem_headers.1 ha).reachable.listed
  refine ⟨?_, Function.injective_id, fun a ha b hb => hc.inLoop_iff (hlisted a ha) (hlisted b hb)⟩
  have hnew : ¬ f'.graph.facts.tails n ≠ [] := fun htails =>
    hc.not_inLoop_new (tails_ne_nil_iff.1 htails)
  rw [List.map_id, headers_eq_filter, headers_eq_filter, layout_split? h,
    filter_insertAfter (p := fun h => decide (f'.graph.facts.tails h ≠ [])) (decide_eq_false hnew)]
  refine List.filter_congr fun a ha => decide_eq_decide.2 ?_
  rw [tails_ne_nil_iff, tails_ne_nil_iff]
  exact hc.inLoop_iff (hne a ha) (hne a ha)

/-- Where the part that is split off does not show, the layout is the same. -/
theorem Intact.filter_split? {p : BlockId → Bool} (hf : f.Intact) (h : f.split? b k = some (f', n))
    (hp : ∀ a, a ∉ f.layout → p a = false) : f'.layout.filter p = f.layout.filter p := by
  rw [layout_split? h, filter_insertAfter (hp n (hf.split?_not_mem h))]

namespace Parted

variable (hf : f.Flowing) (h : f.Parted f' b)

include hf h

omit hf in
theorem mem_layout (ha : a ∈ f.layout) : a ∈ f'.layout := by
  rcases h with rfl | ⟨k, n, -, h⟩
  · exact ha
  · exact (mem_layout_split? h).2 (Or.inr ha)

theorem filter_layout {p : BlockId → Bool} (hp : ∀ a, a ∉ f.layout → p a = false) :
    f'.layout.filter p = f.layout.filter p := by
  rcases h with rfl | ⟨k, n, -, h⟩
  · rfl
  · exact hf.filter_split? h hp

/-- The loops keep their numbers. -/
theorem sameNesting : f.SameNesting f' id := by
  rcases h with rfl | ⟨k, n, hk, h⟩
  · exact .refl f'
  · exact hf.sameNesting_split? h hk

/-- A loop without the block keeps its blocks. -/
theorem inLoop_iff (ha : a ∈ f.layout) (hout : ¬ f.graph.InLoop a b) :
    f'.graph.InLoop a c ↔ f.graph.InLoop a c := by
  rcases h with rfl | ⟨k, n, hk, h⟩
  · exact Iff.rfl
  · exact (hf.cut h hk).inLoop_iff_of_not_inLoop (hf.split?_ne h ha) hout

/-- Another block is followed by the same block. -/
theorem next?_eq_some (hab : a ≠ b) (hnext : f.next? a = some c) : f'.next? a = some c := by
  rcases h with rfl | ⟨k, n, hk, h⟩
  · exact hnext
  · rw [next?_eq_some_iff hf.nodup_layout] at hnext
    rw [next?_eq_some_iff (hf.toIntact.split? h).nodup_layout, layout_split? h]
    exact hnext.insertAfter hab.symm

/-- Another block ends as before. -/
theorem exitOp?_eq (ha : a ∈ f.layout) (hab : a ≠ b) : f'.exitOp? a = f.exitOp? a := by
  rcases h with rfl | ⟨k, n, hk, h⟩
  · rfl
  · exact exitOp?_split?_of_ne hf.toIntact h hab (hf.split?_ne h ha)

end Parted

end Func

end LoopSwap
