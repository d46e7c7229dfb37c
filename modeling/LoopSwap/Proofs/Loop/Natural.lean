/-
**Natural loops by paths.**

A loop is described here without the algorithm that finds it: `h` is a header if a reachable node
that `h` dominates leads back to it, and a node is in the loop of `h` if it is `h` or can reach the
source of such an edge without passing `h`.

Two facts carry everything else.  Going backwards along an edge between reachable nodes one stays
in the loop, unless one leaves it through the header (`InLoop.pred`); and a header dominates its
loop (`InLoop.dominates`).

Main definitions:

* `LoopSwap.FlowGraph.BackEdge`, `LoopSwap.FlowGraph.InLoop` — back edges and loops by paths.

Main results:

* `LoopSwap.mem_closure` — the closure finds what can be reached;
* `LoopSwap.FlowGraph.InLoop.from_header` — a loop is reached from its header inside the loop;
* `LoopSwap.FlowGraph.InLoop.subset` — a loop whose header is in another loop is part of it;
* `LoopSwap.mem_naturalLoops_iff` — the loops that are found are the loops by paths.
-/

import LoopSwap.Loop.Natural
import LoopSwap.Proofs.Graph.Dominance

set_option relaxedAutoImplicit false
set_option autoImplicit false

namespace LoopSwap

variable {α : Type}

/-! ### Closure -/

/-- The closure finds what can be reached from the nodes to do by way of fresh nodes. -/
theorem mem_closure [DecidableEq α] {next : α → List α} {fresh todo found : List α} {b : α}
    (hfresh : fresh.Nodup) :
    b ∈ closure next fresh todo found ↔ b ∈ found ∨ ∃ t ∈ todo, t ∈ fresh ∧
      ReachVia (fun x y => y ∈ next x) (· ∈ fresh) t b := by
  fun_induction closure next fresh todo found with
  | case1 => simp
  | case2 fresh found a rest ha ih =>
      have herase : ∀ x, x ∈ fresh.erase a ↔ x ≠ a ∧ x ∈ fresh := fun x => hfresh.mem_erase_iff
      -- from `a` on, the rest of a walk need not come back to `a`
      have hfrom : ∀ b, ReachVia (fun x y => y ∈ next x) (· ∈ fresh) a b →
          b = a ∨ ∃ t ∈ next a, t ∈ fresh.erase a ∧
            ReachVia (fun x y => y ∈ next x) (· ∈ fresh.erase a) t b := by
        intro b hab
        obtain ⟨u, rfl, -, hub⟩ := hab.last_meet (· = a) rfl
        rcases Relation.ReflTransGen.cases_head hub with rfl | ⟨v, huv, hvb⟩
        · exact Or.inl rfl
        · refine Or.inr ⟨v, huv.1, (herase v).2 ⟨huv.2.2, huv.2.1⟩, ?_⟩
          exact ReachVia.mono (P := fun x => x ∈ fresh ∧ ¬ x = u) hvb
            fun x hx => (herase x).2 ⟨hx.2, hx.1⟩
      rw [ih (hfresh.erase a), List.mem_cons]
      constructor
      · rintro ((rfl | hb) | ⟨t, ht, htf, htb⟩)
        · exact Or.inr ⟨b, List.mem_cons_self, ha, .refl b⟩
        · exact Or.inl hb
        · have htb' := htb.mono fun x hx => ((herase x).1 hx).2
          rcases List.mem_append.1 ht with ht | ht
          · exact Or.inr ⟨a, List.mem_cons_self, ha, .head ht ((herase t).1 htf).2 htb'⟩
          · exact Or.inr ⟨t, List.mem_cons_of_mem _ ht, ((herase t).1 htf).2, htb'⟩
      · rintro (hb | ⟨t, ht, htf, htb⟩)
        · exact Or.inl (Or.inr hb)
        · have hpass : ReachVia (fun x y => y ∈ next x) (· ∈ fresh) a b →
              (b = a ∨ b ∈ found) ∨ ∃ t ∈ next a ++ rest, t ∈ fresh.erase a ∧
                ReachVia (fun x y => y ∈ next x) (· ∈ fresh.erase a) t b := by
            intro hab
            rcases hfrom b hab with hba | ⟨v, hv, hvf, hvb⟩
            · exact Or.inl (Or.inl hba)
            · exact Or.inr ⟨v, List.mem_append_left _ hv, hvf, hvb⟩
          by_cases hta : t = a
          · exact hpass (hta ▸ htb)
          · have ht' := (List.mem_cons.1 ht).resolve_left hta
            rcases htb.first_meet (· = a) with havoid | ⟨u, v, -, -, -, rfl, hvb⟩
            · refine Or.inr ⟨t, List.mem_append_right _ ht', (herase t).2 ⟨hta, htf⟩, ?_⟩
              exact havoid.mono fun x hx => (herase x).2 ⟨hx.2, hx.1⟩
            · exact hpass hvb
  | case3 fresh found a rest ha ih =>
      rw [ih hfresh]
      simp only [List.mem_cons, or_and_right, exists_or, exists_eq_left, ha, false_and, false_or]

/-! ### Loops by paths -/

namespace FlowGraph

variable {g : FlowGraph α} {h h' a b t : α}

/-- An edge from a reachable node to a node that dominates it. -/
structure BackEdge (g : FlowGraph α) (t h : α) : Prop where
  reachable : g.Reachable t
  edge : g.Edge t h
  dominates : g.Dominates h t

/-- `a` is in the loop of `h`: it is `h`, or can reach the source of a back edge to `h` around
`h`. -/
def InLoop (g : FlowGraph α) (h a : α) : Prop :=
  ∃ t, g.BackEdge t h ∧ (a = h ∨ a ≠ h ∧ g.Reachable a ∧ ReachVia g.Edge (· ≠ h) a t)

theorem BackEdge.header_inLoop (ht : g.BackEdge t h) : g.InLoop h h := ⟨t, ht, Or.inl rfl⟩

theorem BackEdge.inLoop (ht : g.BackEdge t h) : g.InLoop h t := by
  by_cases hth : t = h
  · exact ⟨t, ht, Or.inl hth⟩
  · exact ⟨t, ht, Or.inr ⟨hth, ht.reachable, .refl t⟩⟩

/-- A node is a header if it is in the loop that it starts. -/
theorem exists_backEdge_iff : (∃ t, g.BackEdge t h) ↔ g.InLoop h h :=
  ⟨fun ⟨_, ht⟩ => ht.header_inLoop, fun ⟨t, ht, _⟩ => ⟨t, ht⟩⟩

namespace InLoop

theorem header (ha : g.InLoop h a) : g.InLoop h h := by
  obtain ⟨t, ht, -⟩ := ha
  exact ht.header_inLoop

theorem reachable (ha : g.InLoop h a) : g.Reachable a := by
  obtain ⟨t, ht, rfl | ⟨-, hreach, -⟩⟩ := ha
  · exact ht.reachable.next ht.edge
  · exact hreach

/-- A header dominates its loop. -/
theorem dominates (ha : g.InLoop h a) : g.Dominates h a := by
  obtain ⟨t, ht, rfl | ⟨-, -, hat⟩⟩ := ha
  · exact .refl g a
  · refine dominates_iff.2 fun e he hl => ?_
    rcases dominates_iff.1 ht.dominates e he hl with heh | hno
    · exact Or.inl heh
    · exact Or.inr fun hea => hno (hea.trans hat)

/-- Backwards one leaves a loop through its header only. -/
theorem pred (hb : g.InLoop h b) (hbh : b ≠ h) (ha : g.Reachable a) (hab : g.Edge a b) :
    g.InLoop h a := by
  obtain ⟨t, ht, rfl | ⟨-, -, hbt⟩⟩ := hb
  · exact absurd rfl hbh
  · by_cases hah : a = h
    · exact ⟨t, ht, Or.inl hah⟩
    · exact ⟨t, ht, Or.inr ⟨hah, ha, .head hab hbh hbt⟩⟩

/-- From every node of a loop one gets to the header inside the loop. -/
theorem to_header (ha : g.InLoop h a) : ReachVia g.Edge (g.InLoop h) a h := by
  obtain ⟨t, ht, rfl | ⟨hne, hreach, hat⟩⟩ := ha
  · exact .refl a
  · have key : ∀ x, ReachVia g.Edge (· ≠ h) x t → x ≠ h → g.Reachable x →
        ReachVia g.Edge (g.InLoop h) x h := by
      intro x hxt
      induction hxt using Relation.ReflTransGen.head_induction_on with
      | refl => exact fun _ _ => .single ht.edge ht.header_inLoop
      | @head x y hxy hyt ih =>
          intro _ hx
          have hy := hx.next hxy.1
          exact .head hxy.1 ⟨t, ht, Or.inr ⟨hxy.2, hy, hyt⟩⟩ (ih hxy.2 hy)
    exact key a hat hne hreach

/-- Every node of a loop is reached from the header inside the loop. -/
theorem from_header (ha : g.InLoop h a) : ReachVia g.Edge (g.InLoop h) h a := by
  have hwalk := ha.dominates.exists_reachVia ha.reachable
  have key : ∀ x, ReachVia g.Edge (· ≠ h) h x → g.InLoop h x →
      ReachVia g.Edge (g.InLoop h) h x := by
    intro x hx
    induction hx with
    | refl => exact fun _ => .refl h
    | @tail y z hy hyz ih =>
        intro hz
        have hyreach : g.Reachable y := ha.header.reachable.via (P := (· ≠ h)) hy
        exact (ih (hz.pred hyz.2 hyreach hyz.1)).tail hyz.1 hz
  exact key a hwalk ha

/-- Of two loops with different headers, at most one contains the header of the other. -/
theorem not_inLoop_header (hh : g.InLoop h h') (hne : h' ≠ h) : ¬ g.InLoop h' h := by
  intro hcon
  exact hne (hcon.dominates.antisymm hh.dominates hcon.reachable)

/-- A loop whose header is in another loop is part of it. -/
theorem subset (hh : g.InLoop h h') (hne : h' ≠ h) (ha : g.InLoop h' a) : g.InLoop h a := by
  have hout := hh.not_inLoop_header hne
  have key : ∀ x, ReachVia g.Edge (g.InLoop h') x h' → g.InLoop h' x → g.InLoop h x := by
    intro x hx
    induction hx using Relation.ReflTransGen.head_induction_on with
    | refl => exact fun _ => hh
    | @head x y hxy _ ih =>
        intro hxloop
        exact (ih hxy.2).pred (fun hyh => hout (hyh ▸ hxy.2)) hxloop.reachable hxy.1
  exact key a ha.to_header ha

end InLoop

variable [DecidableEq α]

theorem mem_preds_iff {p : α} : p ∈ g.facts.preds a ↔ g.Reachable p ∧ g.Edge p a := by
  rw [mem_preds_facts, mem_order, edge_iff_mem_next]

theorem mem_tails : t ∈ g.facts.tails h ↔ g.BackEdge t h := by
  rw [FlowFacts.tails, List.mem_filter, mem_preds_iff, dominates_eq_true_iff]
  exact ⟨fun ⟨⟨hr, he⟩, _, hd⟩ => ⟨hr, he, hd⟩, fun ⟨hr, he, hd⟩ => ⟨⟨hr, he⟩, hr, hd⟩⟩

theorem mem_loopBody (ht : g.BackEdge t h) :
    a ∈ g.facts.loopBody h (g.facts.tails h) ↔ g.InLoop h a := by
  have hnodup : (g.nodes.erase h).Nodup := g.nodup_nodes.erase h
  have hfresh : ∀ x, x ∈ g.nodes.erase h ↔ x ≠ h ∧ x ∈ g.listed := fun x => by
    rw [g.nodup_nodes.mem_erase_iff, mem_nodes]
  rw [FlowFacts.loopBody, nodes_facts, mem_closure hnodup, List.mem_singleton]
  constructor
  · rintro (rfl | ⟨s, hs, hsf, hsa⟩)
    · exact ht.header_inLoop
    · -- the closure walks backwards, so each step is one of `InLoop.pred`
      have hs' := mem_tails.1 hs
      refine (hsa.mem_of_closed (S := fun x => g.InLoop h x ∧ x ≠ h)
        ⟨hs'.inLoop, ((hfresh s).1 hsf).1⟩ fun x y hx hxy hy => ?_).1
      have hyx := mem_preds_iff.1 hxy
      exact ⟨hx.1.pred hx.2 hyx.1 hyx.2, ((hfresh y).1 hy).1⟩
  · rintro ⟨s, hs, rfl | ⟨hah, hreach, has⟩⟩
    · exact Or.inl rfl
    · refine Or.inr ⟨s, mem_tails.2 hs, ?_, ?_⟩
      · refine (hfresh s).2 ⟨?_, hs.reachable.listed⟩
        rcases has.eq_or_end with rfl | hsh
        · exact hah
        · exact hsh
      · have key : ∀ x, ReachVia g.Edge (· ≠ h) x s → x ≠ h → g.Reachable x →
            ReachVia (fun x y => y ∈ g.facts.preds x) (· ∈ g.nodes.erase h) s x := by
          intro x hx
          induction hx using Relation.ReflTransGen.head_induction_on with
          | refl => exact fun _ _ => .refl s
          | @head x y hxy _ ih =>
              intro hxh hxreach
              exact (ih hxy.2 (hxreach.next hxy.1)).tail (mem_preds_iff.2 ⟨hxreach, hxy.1⟩)
                ((hfresh x).2 ⟨hxh, hxreach.listed⟩)
        exact key a has hah hreach

end FlowGraph

/-! ### The loops that are found -/

theorem naturalLoop?_eq_some_iff {f : Func} {h : BlockId} {l : NaturalLoop} :
    naturalLoop? f.graph.facts f.layout h = some l ↔
      (∃ t, f.graph.BackEdge t h) ∧ l.header = h ∧
        l.blocks = f.layout.filter
          (· ∈ f.graph.facts.loopBody h (f.graph.facts.tails h)) := by
  unfold naturalLoop?
  cases htails : f.graph.facts.tails h with
  | nil =>
      constructor
      · intro hl
        cases hl
      · rintro ⟨⟨t, ht⟩, -⟩
        have hmem := FlowGraph.mem_tails.2 ht
        rw [htails] at hmem
        cases hmem
  | cons t ts =>
      have ht : f.graph.BackEdge t h := by
        refine FlowGraph.mem_tails.1 ?_
        rw [htails]
        exact List.mem_cons_self
      constructor
      · intro hl
        cases hl
        exact ⟨⟨t, ht⟩, rfl, rfl⟩
      · rintro ⟨-, rfl, hblocks⟩
        simp only [← hblocks]

/-- The loops that are found are the loops by paths, each with its blocks in layout order. -/
theorem mem_naturalLoops_iff {f : Func} {l : NaturalLoop} :
    l ∈ naturalLoops f.graph.facts f.layout ↔ (∃ t, f.graph.BackEdge t l.header) ∧
      l.blocks = f.layout.filter
        (· ∈ f.graph.facts.loopBody l.header (f.graph.facts.tails l.header)) := by
  simp only [naturalLoops, List.mem_filterMap, naturalLoop?_eq_some_iff]
  constructor
  · rintro ⟨h, -, hback, rfl, hblocks⟩
    exact ⟨hback, hblocks⟩
  · rintro ⟨⟨t, ht⟩, hblocks⟩
    exact ⟨l.header, ht.edge.2.1, ⟨t, ht⟩, rfl, hblocks⟩

/-- A loop that is found is determined by its header. -/
theorem eq_of_header_eq {f : Func} {l m : NaturalLoop}
    (hl : l ∈ naturalLoops f.graph.facts f.layout) (hm : m ∈ naturalLoops f.graph.facts f.layout)
    (h : l.header = m.header) : l = m := by
  cases l
  cases m
  simp_all [mem_naturalLoops_iff]

/-- The blocks of a loop that is found. -/
theorem mem_blocks_iff {f : Func} {l : NaturalLoop} {b : BlockId}
    (hl : l ∈ naturalLoops f.graph.facts f.layout) :
    b ∈ l.blocks ↔ f.graph.InLoop l.header b := by
  obtain ⟨⟨t, ht⟩, hblocks⟩ := mem_naturalLoops_iff.1 hl
  rw [hblocks, List.mem_filter, decide_eq_true_eq, FlowGraph.mem_loopBody ht]
  exact ⟨And.right, fun hb => ⟨hb.reachable.listed, hb⟩⟩

end LoopSwap
