/-
**The loops after an interchange.**

The edges of a clean nest after an interchange are those before under the swapped names, so the
loops are those before under the swapped names.  Which numbers they get depends on the layout, in
which the headers have changed places too, and no other header has moved: the other blocks that are
moved have one way in and so are no headers.  So the loops with the two numbers are found again,
each with the connecting blocks of the other, and they are a clean nest.

Main definitions:

* `LoopSwap.Corners.turned` — the corners of the nest that is turned inside out.

Main results:

* `LoopSwap.Clean.renamed` — the graph after relinking, under the swapped names;
* `LoopSwap.Clean.sameNesting` — the loops keep their numbers;
* `LoopSwap.Clean.cleanNest` — the loops with these numbers are a clean nest again.
-/

import LoopSwap.Proofs.Interchange.CleanNest
import LoopSwap.Proofs.Interchange.Reorder
import LoopSwap.Proofs.Interchange.Steps
import LoopSwap.Proofs.Loop.Connections
import LoopSwap.Proofs.Loop.Cutting

set_option relaxedAutoImplicit false
set_option autoImplicit false

namespace LoopSwap

/-! ### The corners -/

/-- The corners of the nest that is turned inside out. -/
def Corners.turned (k : Corners) : Corners where
  outerHeader := k.innerHeader
  innerHeader := k.outerHeader
  outerPreheader := k.innerPreheader
  innerPreheader := k.outerPreheader
  outerLatch := k.innerLatch
  innerLatch := k.outerLatch
  outerExit := k.innerExit
  innerExit := k.outerExit

/-- The swap of the headers keeps the other corners. -/
theorem Corners.swap_of_mem_links {k : Corners} {x : BlockId} (hk : k.list.Nodup)
    (hx : x ∈ k.links) : Equiv.swap k.outerHeader k.innerHeader x = x := by
  rw [Corners.list_eq, List.nodup_cons, List.nodup_cons, List.mem_cons, not_or] at hk
  refine Equiv.swap_apply_of_ne_of_ne ?_ ?_
  · rintro rfl
    exact hk.1.2 hx
  · rintro rfl
    exact hk.2.1 hx

namespace SwapsCorners

variable {π : BlockId → BlockId} {k : Corners} {x : BlockId}

theorem mem_links (h : SwapsCorners π k) (hx : x ∈ k.links) : π x ∈ k.links := by
  simp only [Corners.links, List.mem_cons, List.not_mem_nil, or_false] at hx
  rcases hx with rfl | rfl | rfl | rfl | rfl | rfl
  · simp [Corners.links, h.outerPreheader]
  · simp [Corners.links, h.innerPreheader]
  · simp [Corners.links, h.outerLatch]
  · simp [Corners.links, h.innerLatch]
  · simp [Corners.links, h.outerExit]
  · simp [Corners.links, h.innerExit]

/-- Away from the other corners, only the headers are swapped. -/
theorem eq_swap (h : SwapsCorners π k) (hx : x ∉ k.links) :
    Equiv.swap k.outerHeader k.innerHeader x = π x := by
  by_cases hoh : x = k.outerHeader
  · rw [hoh, Equiv.swap_apply_left, h.outerHeader]
  · by_cases hih : x = k.innerHeader
    · rw [hih, Equiv.swap_apply_right, h.innerHeader]
    · have hout : x ∉ k.list := by
        rw [Corners.list_eq, List.mem_cons, List.mem_cons]
        simp [hoh, hih, hx]
      rw [Equiv.swap_apply_of_ne_of_ne hoh hih, h.other x hout]

end SwapsCorners

/-! ### Functions under new names -/

namespace Func

section

variable {f g : Func} {φ : BlockId → BlockId} {a b c : BlockId} (hg : g.Flowing)
  (hren : f.graph.Renamed g.graph φ)

include hg hren

theorem successors_renamed (h : ∀ x, f.graph.Edge (φ a) x ↔ x = φ b) : g.successors a = [b] :=
  hg.successors_eq_singleton fun x => by rw [hren.edge_iff, h, hren.injective.eq_iff]

theorem predecessors_renamed (h : ∀ x, f.graph.Edge x (φ b) ↔ x = φ a) :
    g.predecessors b = [a] :=
  hg.predecessors_eq_singleton fun x => by rw [hren.edge_iff, h, hren.injective.eq_iff]

theorem successors_perm_renamed (hbc : b ≠ c)
    (h : ∀ x, f.graph.Edge (φ a) x ↔ x = φ b ∨ x = φ c) : (g.successors a).Perm [b, c] :=
  hg.successors_perm_pair hbc fun x => by
    rw [hren.edge_iff, h, hren.injective.eq_iff, hren.injective.eq_iff]

/-- A loop under new names has its connecting blocks under new names. -/
theorem connections_renamed {S : BlockId → Prop} {h p t x : BlockId} {i : Nat} {l : Loop}
    (hS : Region f.graph S h p t x) (hloop : ∀ b, S b ↔ f.graph.InLoop h b)
    (hi : g.loops.loop? i = some l) (hheader : l.header = φ h) :
    l.preheader = some (φ p) ∧ l.latch = some (φ t) ∧ l.exit = some (φ x) := by
  refine connections_of_region hg hi ?_
  have hblocks : (· ∈ l.blocks) = fun b => S (φ b) := by
    funext b
    rw [(describes_loop? hi).mem_blocks, hheader, hloop, ← hren.inLoop_iff, hren.involutive]
  rw [hblocks, hheader]
  exact hren.region hS

end

end Func

/-! ### The loops -/

namespace Clean

variable {O I : BlockId → Prop} {r : Relinking} {π : BlockId → BlockId}

section

variable {g : FlowGraph BlockId} {b : BlockId} (hc : Clean g r.plan) (h : Exchange g O I r)

include hc h

/-- The corners that are not headers have one way in, and so are no headers of loops. -/
theorem not_inLoop_of_mem_links (hb : b ∈ r.corners.links) : ¬ g.InLoop b b := by
  have hpred := h.pred_edge (hc.preheaderPred_ne_outerExit h)
  have hsole : ∃ a, g.Edge a b ∧ ∀ x, g.Edge x b → x = a := by
    simp only [Corners.links, Relinking.corners, List.mem_cons, List.not_mem_nil, or_false] at hb
    rcases hb with rfl | rfl | rfl | rfl | rfl | rfl
    · exact ⟨_, hpred, fun x hx => h.nest.approach x _ hx hpred⟩
    · exact ⟨_, (hc.toInnerPreheader _).2 rfl, fun x => (hc.toInnerPreheader x).1⟩
    · exact ⟨_, (hc.toOuterLatch _).2 rfl, fun x => (hc.toOuterLatch x).1⟩
    · exact ⟨_, h.nest.bodyEnd_edge, fun x => (h.nest.bodyEnd_iff x).1⟩
    · exact ⟨_, (hc.toOuterExit _).2 rfl, fun x => (hc.toOuterExit x).1⟩
    · exact ⟨_, (hc.toInnerExit _).2 rfl, fun x => (hc.toInnerExit x).1⟩
  obtain ⟨a, hab, honly⟩ := hsole
  exact FlowGraph.not_inLoop_of_pred (h.ne_entry hab) honly

/-- Something leads to every corner. -/
theorem exists_edge_to_corner (hb : b ∈ r.corners.list) : ∃ a, g.Edge a b := by
  simp only [Corners.list, Relinking.corners, List.mem_cons, List.not_mem_nil, or_false] at hb
  rcases hb with rfl | rfl | rfl | rfl | rfl | rfl | rfl | rfl
  · exact ⟨_, h.nest.outer.latch_edge⟩
  · exact ⟨_, h.nest.inner.latch_edge⟩
  · exact h.exists_pred
  · exact ⟨_, h.nest.header_edge⟩
  · exact ⟨_, h.nest.exit_edge⟩
  · exact ⟨_, h.nest.bodyEnd_edge⟩
  · exact ⟨_, (hc.toOuterExit _).2 rfl⟩
  · exact ⟨_, (hc.toInnerExit _).2 rfl⟩

end

section

variable {f : Func} (hf : f.Flowing) (hc : Clean f.graph r.plan) (h : Exchange f.graph O I r)
  (hπ : SwapsCorners π r.corners) (hr : ∀ b ∈ f.layout, f.graph.Reachable b)

include hf hc h hπ hr

/-- The graph after relinking is the graph before under the swapped names. -/
theorem renamed : f.graph.Renamed (Func.graph (r.apply f)) π := by
  have hw := h.rewired hf
  have hcorner : ∀ b ∈ r.corners.list, f.graph.entry ≠ some b ∧ b ∈ f.layout := by
    intro b hb
    obtain ⟨a, hab⟩ := hc.exists_edge_to_corner h hb
    exact ⟨h.ne_entry hab, hab.2.1⟩
  refine ⟨hπ.involutive, ?_, fun b => ?_, fun a b => hc.mirrored h hπ hr hw⟩
  · rw [hw.entry]
    cases he : f.graph.entry with
    | none => rfl
    | some e => rw [Option.map_some, hπ.other e fun hmem => (hcorner e hmem).1 he]
  · rw [hw.listed]
    by_cases hb : b ∈ r.corners.list
    · exact iff_of_true (hcorner _ (hπ.mem_list hb)).2 (hcorner b hb).2
    · rw [hπ.other b hb]

theorem not_inLoop_apply_of_mem_links {b : BlockId} (hb : b ∈ r.corners.links) :
    ¬ (Func.graph (r.apply f)).InLoop b b := fun hin =>
  hc.not_inLoop_of_mem_links h (hπ.mem_links hb) ((hc.renamed hf h hπ hr).symm.inLoop hin)

/-- The headers after relinking are those before with two of them swapped. -/
theorem inLoop_swap_iff {b : BlockId} : (Func.graph (r.apply f)).InLoop
      (Equiv.swap r.plan.outerHeader r.plan.innerHeader b)
      (Equiv.swap r.plan.outerHeader r.plan.innerHeader b) ↔ f.graph.InLoop b b := by
  by_cases hb : b ∈ r.corners.links
  · have hfix : Equiv.swap r.plan.outerHeader r.plan.innerHeader b = b :=
      Corners.swap_of_mem_links (hc.nodup h) hb
    rw [hfix]
    exact iff_of_false (hc.not_inLoop_apply_of_mem_links hf h hπ hr hb)
      (hc.not_inLoop_of_mem_links h hb)
  · rw [← (hc.renamed hf h hπ hr).inLoop_iff (h := b), ← hπ.eq_swap hb]
    rfl

/-- The loops keep their numbers. -/
theorem sameNesting (hnext : f.next? r.plan.innerHeader = some r.plan.bodyEntry) :
    f.SameNesting (r.apply f) π := by
  have hren := hc.renamed hf h hπ hr
  refine ⟨?_, hren.injective, fun a _ b _ => hren.inLoop_iff⟩
  have hlayout := Relinking.layout_moveHeaders hf.nodup_layout hnext
    (h.nest.outer.reachable h.nest.outer.header_mem).listed (hc.nodup h) (hc.ends h).2.1
  rw [Func.headers_eq_filter, Relinking.layout_apply, Relinking.filter_reorder, hlayout,
    List.filter_map, Func.headers_eq_filter]
  · have hsame : f.layout.filter ((fun b => decide ((Func.graph (r.apply f)).facts.tails b ≠ [])) ∘
        Equiv.swap r.plan.outerHeader r.plan.innerHeader) =
        f.layout.filter fun b => decide (f.graph.facts.tails b ≠ []) := by
      refine List.filter_congr fun b _ => decide_eq_decide.2 ?_
      rw [Func.tails_ne_nil_iff, Func.tails_ne_nil_iff, hc.inLoop_swap_iff hf h hπ hr]
    rw [hsame]
    -- a header is none of the other corners, so the two swaps agree on it
    refine List.map_congr_left fun b hb => hπ.eq_swap fun hmem => ?_
    exact hc.not_inLoop_of_mem_links h hmem
      (Func.tails_ne_nil_iff.1 (of_decide_eq_true (List.mem_filter.1 hb).2))
  · intro b hb
    refine decide_eq_false fun htails => ?_
    exact hc.not_inLoop_apply_of_mem_links hf h hπ hr hb (Func.tails_ne_nil_iff.1 htails)

/-- The loops with the numbers of a clean nest are a clean nest after relinking, with the corners of
the one for the other. -/
theorem cleanNest (hnext : f.next? r.plan.innerHeader = some r.plan.bodyEntry)
    (hO : ∀ b, O b ↔ f.graph.InLoop r.plan.outerHeader b)
    (hI : ∀ b, I b ↔ f.graph.InLoop r.plan.innerHeader b) {outer inner : Nat} {l m : Loop}
    (hl : (Func.loops (r.apply f)).loop? outer = some l)
    (hm : (Func.loops (r.apply f)).loop? inner = some m)
    (hlh : l.header = r.plan.innerHeader) (hmh : m.header = r.plan.outerHeader)
    (hparent : m.parent = some outer) :
    Func.CleanNest (r.apply f) outer inner l m r.corners.turned r.plan.bodyEntry := by
  have hg := h.flowing_apply hf
  have hren := hc.renamed hf h hπ hr
  have hn := h.nest
  have hpp := h.pred_edge (hc.preheaderPred_ne_outerExit h)
  obtain ⟨hkpp, hkbody, hkend, -⟩ := hc.swap_ends h hπ
  obtain ⟨hoh, hih, hoph, hiph, hol, hil, hoe, hie, -⟩ := hπ
  simp only [Relinking.corners] at hoh hih hoph hiph hol hil hoe hie
  have houter := Func.connections_renamed hg hren hn.outer hO hl (hlh.trans hoh.symm)
  have hinner := Func.connections_renamed hg hren hn.inner hI hm (hmh.trans hih.symm)
  rw [hoph, hol, hoe] at houter
  rw [hiph, hil, hie] at hinner
  -- what a corner leads to after relinking is what its counterpart led to, under the new names
  refine ⟨hl, hm, hparent, ⟨hlh, houter⟩, ⟨hmh, hinner⟩,
    Func.successors_perm_renamed hg hren ?_ ?_, Func.successors_perm_renamed hg hren ?_ ?_,
    Func.successors_renamed hg hren ?_, Func.successors_renamed hg hren ?_,
    Func.successors_renamed hg hren ?_, Func.predecessors_renamed hg hren ?_,
    Func.predecessors_renamed hg hren ?_, Func.predecessors_renamed hg hren ?_,
    Func.predecessors_renamed hg hren ?_,
    ⟨r.plan.bodyEnd, Func.predecessors_renamed hg hren ?_, ?_⟩,
    Or.inr ⟨r.preheaderPred, Func.predecessors_renamed hg hren ?_⟩, ?_⟩ <;>
    simp only [Corners.turned, Relinking.corners]
  · exact (Nest.ne_of_outer_of_not_outer hn.innerExit_mem h.preheader_not_outer).symm
  · rw [hih, hoph, hie]
    exact hc.outerHeader
  · exact Nest.ne_of_outer_of_not_outer (hn.subset _ hn.bodyEntry_inner) h.outerExit_not_outer
  · rw [hoh, hkbody, hoe]
    exact hc.innerHeader
  · rw [hoe, hil]
    exact hc.innerExit
  · rw [hil, hih]
    exact hc.outerLatch
  · rw [hol, hoh]
    exact hc.innerLatch
  · rw [hoph, hih]
    exact hc.toInnerPreheader
  · rw [hoe, hoh]
    exact hc.toInnerExit
  · rw [hil, hoe]
    exact hc.toOuterLatch
  · rw [hie, hih]
    exact hc.toOuterExit
  · rw [hol, hkend]
    exact hn.bodyEnd_iff
  · exact hn.ne_outerHeader_of_inner hn.bodyEnd_inner
  · rw [hiph, hkpp]
    exact fun x => ⟨fun hx => hn.approach x _ hx hpp, fun hx => hx ▸ hpp⟩
  · rw [Relinking.next?_apply]
    exact Relinking.next?_reorder hf.nodup_layout hnext
      (hn.outer.reachable hn.outer.header_mem).listed (hc.nodup h) (hc.ends h).2.1

end

end Clean

end LoopSwap
