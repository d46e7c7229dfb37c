/-
**A clean nest is turned inside out.**

In a clean nest the outer loop adds four blocks to the inner one, and nothing but the body of the
inner loop is left open: the two headers choose between what is inside and the way out, and the
other connecting blocks lead one way.  Relinking such a nest exchanges the two loops in the
strictest sense.  If one swaps the names of the two headers, of the two preheaders, of the two
latches and of the two exits, the edges afterwards are the edges before.

The proof lists the edges that touch one of these eight corners.  There are twelve: six are changed
and six are not, and the swap takes the old ends of the changes to the new ones and the six other
edges to each other.

Main definitions:

* `LoopSwap.Corners` — the eight blocks, and `LoopSwap.Corners.mirror`, the swap;
* `LoopSwap.Clean` — what a clean nest says of the graph.

Main results:

* `LoopSwap.Exchange.corners_nodup`, `LoopSwap.Exchange.corners_listed` — the corners are different
  blocks of the layout;
* `LoopSwap.Clean.outer_iff` — the outer loop adds four blocks;
* `LoopSwap.Clean.edge_iff` — the edges of a clean nest;
* `LoopSwap.Clean.mirrored` — the edges after relinking it.
-/

import LoopSwap.Proofs.Interchange.Materialize
import LoopSwap.Proofs.Interchange.Roles
import Mathlib.Algebra.Group.End

set_option relaxedAutoImplicit false
set_option autoImplicit false

namespace LoopSwap

/-! ### The swap -/

/-- The blocks that connect two nested loops. -/
structure Corners where
  outerHeader : BlockId
  innerHeader : BlockId
  outerPreheader : BlockId
  innerPreheader : BlockId
  outerLatch : BlockId
  innerLatch : BlockId
  outerExit : BlockId
  innerExit : BlockId

namespace Corners

/-- The eight blocks in a row. -/
def list (k : Corners) : List BlockId :=
  [k.outerHeader, k.innerHeader, k.outerPreheader, k.innerPreheader, k.outerLatch, k.innerLatch,
    k.outerExit, k.innerExit]

/-- The swap of the two headers, preheaders, latches and exits. -/
def mirror (k : Corners) : Equiv.Perm BlockId :=
  Equiv.swap k.outerHeader k.innerHeader * Equiv.swap k.outerPreheader k.innerPreheader *
    Equiv.swap k.outerLatch k.innerLatch * Equiv.swap k.outerExit k.innerExit

end Corners

/-- A function that swaps the corners in pairs and keeps all other blocks. -/
structure SwapsCorners (π : BlockId → BlockId) (k : Corners) : Prop where
  outerHeader : π k.outerHeader = k.innerHeader
  innerHeader : π k.innerHeader = k.outerHeader
  outerPreheader : π k.outerPreheader = k.innerPreheader
  innerPreheader : π k.innerPreheader = k.outerPreheader
  outerLatch : π k.outerLatch = k.innerLatch
  innerLatch : π k.innerLatch = k.outerLatch
  outerExit : π k.outerExit = k.innerExit
  innerExit : π k.innerExit = k.outerExit
  other : ∀ x, x ∉ k.list → π x = x

/-- If the corners are different blocks, the swap does what it should. -/
theorem Corners.swapsCorners_mirror {k : Corners} (h : k.list.Nodup) :
    SwapsCorners k.mirror k := by
  -- the inequalities are needed in both directions
  have hrev := List.nodup_reverse.2 h
  simp [Corners.list] at h hrev
  refine ⟨?_, ?_, ?_, ?_, ?_, ?_, ?_, ?_, fun x hx => ?_⟩
  · simp [Corners.mirror, Equiv.swap_apply_def, h]
  · simp [Corners.mirror, Equiv.swap_apply_def, h]
  · simp [Corners.mirror, Equiv.swap_apply_def, h, hrev]
  · simp [Corners.mirror, Equiv.swap_apply_def, h, hrev]
  · simp [Corners.mirror, Equiv.swap_apply_def, h, hrev]
  · simp [Corners.mirror, Equiv.swap_apply_def, h, hrev]
  · simp [Corners.mirror, Equiv.swap_apply_def, hrev]
  · simp [Corners.mirror, Equiv.swap_apply_def, hrev]
  · simp [Corners.list] at hx
    simp [Corners.mirror, Equiv.swap_apply_def, hx]

namespace SwapsCorners

variable {π : BlockId → BlockId} {k : Corners} {x : BlockId}

/-- Swapping twice changes nothing. -/
theorem involutive (h : SwapsCorners π k) (x : BlockId) : π (π x) = x := by
  by_cases hx : x ∈ k.list
  · simp only [Corners.list, List.mem_cons, List.not_mem_nil, or_false] at hx
    rcases hx with rfl | rfl | rfl | rfl | rfl | rfl | rfl | rfl
    · rw [h.outerHeader, h.innerHeader]
    · rw [h.innerHeader, h.outerHeader]
    · rw [h.outerPreheader, h.innerPreheader]
    · rw [h.innerPreheader, h.outerPreheader]
    · rw [h.outerLatch, h.innerLatch]
    · rw [h.innerLatch, h.outerLatch]
    · rw [h.outerExit, h.innerExit]
    · rw [h.innerExit, h.outerExit]
  · rw [h.other x hx, h.other x hx]

theorem mem_list (h : SwapsCorners π k) (hx : x ∈ k.list) : π x ∈ k.list := by
  simp only [Corners.list, List.mem_cons, List.not_mem_nil, or_false] at hx
  rcases hx with rfl | rfl | rfl | rfl | rfl | rfl | rfl | rfl <;>
    simp [Corners.list, h.outerHeader, h.innerHeader, h.outerPreheader, h.innerPreheader,
      h.outerLatch, h.innerLatch, h.outerExit, h.innerExit]

theorem mem_list_iff (h : SwapsCorners π k) : π x ∈ k.list ↔ x ∈ k.list := by
  constructor
  · intro hx
    have := h.mem_list hx
    rwa [h.involutive] at this
  · exact h.mem_list

end SwapsCorners

/-! ### Clean nests -/

/-- The corners of a nest that is relinked. -/
def Relinking.corners (r : Relinking) : Corners where
  outerHeader := r.plan.outerHeader
  innerHeader := r.plan.innerHeader
  outerPreheader := r.preheader
  innerPreheader := r.plan.innerPreheader
  outerLatch := r.plan.outerLatch
  innerLatch := r.plan.innerLatch
  outerExit := r.plan.outerExit
  innerExit := r.plan.innerExit

/-- The headers choose between two ways, the other corners have one way out, and the four blocks
that the outer loop adds or is left to have one way in. -/
structure Clean (g : FlowGraph BlockId) (p : Plan) : Prop where
  outerHeader : ∀ b, g.Edge p.outerHeader b ↔ b = p.innerPreheader ∨ b = p.outerExit
  innerHeader : ∀ b, g.Edge p.innerHeader b ↔ b = p.bodyEntry ∨ b = p.innerExit
  innerExit : ∀ b, g.Edge p.innerExit b ↔ b = p.outerLatch
  outerLatch : ∀ b, g.Edge p.outerLatch b ↔ b = p.outerHeader
  innerLatch : ∀ b, g.Edge p.innerLatch b ↔ b = p.innerHeader
  toInnerPreheader : ∀ a, g.Edge a p.innerPreheader ↔ a = p.outerHeader
  toInnerExit : ∀ a, g.Edge a p.innerExit ↔ a = p.innerHeader
  toOuterLatch : ∀ a, g.Edge a p.outerLatch ↔ a = p.innerExit
  toOuterExit : ∀ a, g.Edge a p.outerExit ↔ a = p.outerHeader

/-- A node whose only predecessor is not cut keeps it as its only predecessor. -/
theorem Opened.pred_iff {g g' : FlowGraph BlockId} {c n x y : BlockId} {made : List BlockId}
    (h : Opened g g' c n made) (hyc : y ≠ c) (hx : ∀ a, g.Edge a x ↔ a = y) :
    ∀ a, g'.Edge a x ↔ a = y := by
  have hyx := (hx y).2 rfl
  rcases h with ⟨rfl, -⟩ | ⟨hcut, -⟩
  · exact hx
  · intro a
    rw [hcut.edge_to_old hyx.2.1]
    constructor
    · rintro (⟨-, hcx⟩ | ⟨-, hax⟩)
      · exact absurd ((hx c).1 hcx).symm hyc
      · exact (hx a).1 hax
    · rintro rfl
      exact Or.inr ⟨hyc, hyx⟩

/-- A clean nest stays clean if a block outside is split. -/
theorem Clean.opened {g g' : FlowGraph BlockId} {O I : BlockId → Prop} {q c n : BlockId} {p : Plan}
    {made : List BlockId} (hc : Clean g p) (hn : Nest g O I q p) (h : Opened g g' c n made)
    (hcO : ¬ O c) : Clean g' p := by
  have hne : ∀ a, O a → a ≠ c := fun a ha => Nest.ne_of_outer_of_not_outer ha hcO
  have hedge : ∀ a b, O a → (g'.Edge a b ↔ g.Edge a b) := fun a b ha =>
    h.edge_iff (hne a ha) (hn.outer.reachable ha).listed
  have hoh := hn.outer.header_mem
  have hih := hn.innerHeader_outer
  have hie := hn.innerExit_mem
  refine ⟨fun b => ?_, fun b => ?_, fun b => ?_, fun b => ?_, fun b => ?_, ?_, ?_, ?_, ?_⟩
  · rw [hedge _ b hoh, hc.outerHeader]
  · rw [hedge _ b hih, hc.innerHeader]
  · rw [hedge _ b hie, hc.innerExit]
  · rw [hedge _ b hn.outer.latch_mem, hc.outerLatch]
  · rw [hedge _ b hn.innerLatch_outer, hc.innerLatch]
  · exact h.pred_iff (hne _ hoh) hc.toInnerPreheader
  · exact h.pred_iff (hne _ hih) hc.toInnerExit
  · exact h.pred_iff (hne _ hie) hc.toOuterLatch
  · exact h.pred_iff (hne _ hoh) hc.toOuterExit

/-! ### Which blocks are different -/

section

variable {g : FlowGraph BlockId} {O I : BlockId → Prop} {r : Relinking}

/-- The corners are different blocks, if the inner exit is not the outer latch. -/
theorem Exchange.corners_nodup (h : Exchange g O I r)
    (hne : r.plan.innerExit ≠ r.plan.outerLatch) : r.corners.list.Nodup := by
  have hperm : (r.corners.list ++ [r.plan.bodyEntry]).Perm
      (r.plan.innerExit :: r.plan.settled r.preheader) := by
    rw [List.perm_iff_count]
    intro b
    simp only [Corners.list, Relinking.corners, Plan.settled, List.count_append, List.count_cons,
      List.count_nil]
    omega
  have hroles : (r.plan.innerExit :: r.plan.settled r.preheader).Nodup :=
    List.nodup_cons.2 ⟨mt h.nest.eq_outerLatch_of_mem_settled hne, h.nest.nodup_settled⟩
  exact (hperm.nodup_iff.2 hroles).of_append_left

/-- The corners are nodes of the graph. -/
theorem Exchange.corners_listed (h : Exchange g O I r) : ∀ b ∈ r.corners.list, b ∈ g.listed := by
  have hn := h.nest
  have hlisted : ∀ b, O b → b ∈ g.listed := fun b hb => (hn.outer.reachable hb).listed
  simp only [Corners.list, Relinking.corners, List.forall_mem_cons]
  exact ⟨hlisted _ hn.outer.header_mem, hlisted _ hn.innerHeader_outer,
    hn.outer.preheader_reachable.listed, hlisted _ hn.innerPreheader_mem,
    hlisted _ hn.outer.latch_mem, hlisted _ hn.innerLatch_outer, hn.outer.exit_reachable.listed,
    hlisted _ hn.innerExit_mem, List.forall_mem_nil _⟩

/-- A block of the inner loop is a corner only as its header or its latch. -/
theorem Exchange.not_mem_corners {a : BlockId} (h : Exchange g O I r) (ha : I a)
    (hih : a ≠ r.plan.innerHeader) (hil : a ≠ r.plan.innerLatch) : a ∉ r.corners.list := by
  have hn := h.nest
  intro hmem
  simp only [Corners.list, Relinking.corners, List.mem_cons, List.not_mem_nil, or_false] at hmem
  rcases hmem with rfl | rfl | rfl | rfl | rfl | rfl | rfl | rfl
  · exact hn.outerHeader_not_inner ha
  · exact hih rfl
  · exact h.preheader_not_outer (hn.subset _ ha)
  · exact hn.inner.preheader_not_mem ha
  · exact hn.outerLatch_not_inner ha
  · exact hil rfl
  · exact h.outerExit_not_outer (hn.subset _ ha)
  · exact hn.inner.exit_not_mem ha

namespace Clean

theorem innerExit_ne_outerLatch {p : Plan} {q : BlockId} (hc : Clean g p) (hn : Nest g O I q p) :
    p.innerExit ≠ p.outerLatch := by
  intro heq
  -- otherwise the outer latch would lead to itself only
  have hedge := hn.outer.latch_edge
  rw [← heq, hc.innerExit] at hedge
  exact hn.outerLatch_ne_outerHeader hedge.symm

/-- The outer loop adds four blocks to the inner one. -/
theorem outer_iff {p : Plan} {q b : BlockId} (hc : Clean g p) (hn : Nest g O I q p) :
    O b ↔ I b ∨ b ∈ [p.outerHeader, p.innerPreheader, p.innerExit, p.outerLatch] := by
  simp only [List.mem_cons, List.not_mem_nil, or_false]
  constructor
  · intro hb
    -- no edge of the outer loop leads out of these
    refine (hn.outer.from_header b hb).mem_of_closed (S := fun x => I x ∨ x = p.outerHeader ∨
      x = p.innerPreheader ∨ x = p.innerExit ∨ x = p.outerLatch) (Or.inr (Or.inl rfl))
      fun x y hx hxy hy => ?_
    rcases hx with hx | rfl | rfl | rfl | rfl
    · by_cases hyI : I y
      · exact Or.inl hyI
      · exact Or.inr (Or.inr (Or.inr (Or.inl (hn.inner.leaves x y hx hxy hyI))))
    · rcases (hc.outerHeader y).1 hxy with rfl | rfl
      · exact Or.inr (Or.inr (Or.inl rfl))
      · exact absurd hy hn.outer.exit_not_mem
    · exact Or.inl ((hn.inner.preheader_edge y).1 hxy ▸ hn.inner.header_mem)
    · exact Or.inr (Or.inr (Or.inr (Or.inr ((hc.innerExit y).1 hxy))))
    · exact Or.inr (Or.inl ((hc.outerLatch y).1 hxy))
  · rintro (hb | rfl | rfl | rfl | rfl)
    · exact hn.subset b hb
    · exact hn.outer.header_mem
    · exact hn.innerPreheader_mem
    · exact hn.innerExit_mem
    · exact hn.outer.latch_mem

variable (hc : Clean g r.plan) (h : Exchange g O I r)

include hc h

theorem nodup : r.corners.list.Nodup := h.corners_nodup (hc.innerExit_ne_outerLatch h.nest)

/-- The outer exit is entered from the outer header only. -/
theorem not_edge_outerExit {a : BlockId} (ha : ¬ O a) : ¬ g.Edge a r.plan.outerExit := by
  intro hedge
  rw [hc.toOuterExit] at hedge
  exact ha (hedge ▸ h.nest.outer.header_mem)

/-- The outer preheader is not reached through the outer exit. -/
theorem preheaderPred_ne_outerExit : r.preheaderPred ≠ r.plan.outerExit := by
  intro heq
  obtain ⟨e, he, hl, heO, hwalk⟩ := h.exists_approach
  rw [heq] at hwalk
  cases hwalk with
  | refl => exact h.ne_entry ((hc.toOuterExit _).2 rfl) he
  | @tail y _ hy hyx =>
      have hyO : ¬ O y := by
        rcases ReachVia.eq_or_end hy with rfl | hend
        · exact heO
        · exact hend.1
      exact hc.not_edge_outerExit h hyO hyx.1

/-- The blocks at the ends of the nest that are left open are not corners. -/
theorem ends : r.preheaderPred ∉ r.corners.list ∧ r.plan.bodyEntry ∉ r.corners.list ∧
    r.plan.bodyEnd ∉ r.corners.list ∧ r.continuation ∉ r.corners.list := by
  have hn := h.nest
  have hpp := hc.preheaderPred_ne_outerExit h
  -- a block outside is a corner only as the preheader or the exit of the outer loop
  have houtside : ∀ a, ¬ O a → a ≠ r.preheader → a ≠ r.plan.outerExit → a ∉ r.corners.list := by
    intro a ha hq hoe hmem
    simp only [Corners.list, Relinking.corners, List.mem_cons, List.not_mem_nil, or_false] at hmem
    rcases hmem with rfl | rfl | rfl | rfl | rfl | rfl | rfl | rfl
    · exact ha hn.outer.header_mem
    · exact ha hn.innerHeader_outer
    · exact hq rfl
    · exact ha hn.innerPreheader_mem
    · exact ha hn.outer.latch_mem
    · exact ha hn.innerLatch_outer
    · exact hoe rfl
    · exact ha hn.innerExit_mem
  refine ⟨houtside _ h.preheaderPred_not_outer ?_ hpp,
    h.not_mem_corners hn.bodyEntry_inner hn.bodyEntry_ne hn.bodyEntry_ne_innerLatch,
    h.not_mem_corners hn.bodyEnd_inner hn.bodyEnd_ne hn.bodyEnd_ne_innerLatch,
    houtside _ h.continuation_not_outer ?_ ?_⟩
  · intro heq
    have hedge := h.pred_edge hpp
    rw [heq, hn.outer.preheader_edge] at hedge
    exact h.preheader_not_outer (hedge ▸ hn.outer.header_mem)
  · intro heq
    exact hpp (hn.approach _ _ (h.pred_edge hpp) ((h.exit_iff _).2 heq.symm))
  · intro heq
    exact hc.not_edge_outerExit h h.outerExit_not_outer ((h.exit_iff _).2 heq.symm)

end Clean

end

/-! ### The edges of a clean nest -/

namespace Relinking

/-- The edges that are taken away. -/
def removed (r : Relinking) : List (BlockId × BlockId) := r.edges.map fun e => (e.1, e.2.1)

/-- The edges that are put in their place. -/
def added (r : Relinking) : List (BlockId × BlockId) := r.edges.map fun e => (e.1, e.2.2)

/-- The edges at the corners that stay. -/
def unmoved (r : Relinking) : List (BlockId × BlockId) :=
  [(r.preheader, r.plan.outerHeader), (r.plan.outerHeader, r.plan.outerExit),
    (r.plan.innerPreheader, r.plan.innerHeader), (r.plan.innerHeader, r.plan.innerExit),
    (r.plan.outerLatch, r.plan.outerHeader), (r.plan.innerLatch, r.plan.innerHeader)]

variable {r : Relinking} {a b : BlockId}

theorem mem_removed : (a, b) ∈ r.removed ↔ ∃ new, (a, b, new) ∈ r.edges := by
  simp [removed, List.mem_map]

theorem mem_added : (a, b) ∈ r.added ↔ ∃ old, (a, old, b) ∈ r.edges := by
  simp [added, List.mem_map]

/-- Every edge that is taken away is at a corner. -/
theorem corner_of_mem_removed (h : (a, b) ∈ r.removed) :
    a ∈ r.corners.list ∨ b ∈ r.corners.list := by
  simp only [removed, Relinking.edges, List.map_cons, List.map_nil, List.mem_cons, Prod.mk.injEq,
    List.not_mem_nil, or_false] at h
  rcases h with ⟨-, rfl⟩ | ⟨rfl, -⟩ | ⟨rfl, -⟩ | ⟨rfl, -⟩ | ⟨rfl, -⟩ | ⟨-, rfl⟩ <;>
    simp [Corners.list, corners]

end Relinking

/-- What one change of a relinked nest does to the edges. -/
theorem Rewired.edge_iff_of_edges {g g' : FlowGraph BlockId} {r : Relinking} {a b : BlockId}
    (hw : Rewired g g' r.edges) :
    g'.Edge a b ↔ (a, b) ∈ r.added ∨ g.Edge a b ∧ (a, b) ∉ r.removed := by
  rw [hw.edge, Relinking.mem_added, Relinking.mem_removed, not_exists]

namespace Clean

variable {g g' : FlowGraph BlockId} {O I : BlockId → Prop} {r : Relinking} {a b : BlockId}

section

variable (hc : Clean g r.plan) (h : Exchange g O I r)

include hc h

/-- All changes of a clean nest take effect. -/
theorem effective : r.effective = r.edges :=
  Relinking.effective_of_ne (hc.preheaderPred_ne_outerExit h)

theorem edge_of_mem_removed (hmem : (a, b) ∈ r.removed) : g.Edge a b := by
  obtain ⟨new, hnew⟩ := Relinking.mem_removed.1 hmem
  rw [← hc.effective h] at hnew
  exact h.effective_spec.2 _ hnew

theorem edge_of_mem_unmoved (hmem : (a, b) ∈ r.unmoved) : g.Edge a b := by
  simp only [Relinking.unmoved, List.mem_cons, Prod.mk.injEq, List.not_mem_nil, or_false] at hmem
  rcases hmem with ⟨rfl, rfl⟩ | ⟨rfl, rfl⟩ | ⟨rfl, rfl⟩ | ⟨rfl, rfl⟩ | ⟨rfl, rfl⟩ | ⟨rfl, rfl⟩
  · exact (h.nest.outer.preheader_edge _).2 rfl
  · exact (hc.toOuterExit _).2 rfl
  · exact (h.nest.inner.preheader_edge _).2 rfl
  · exact (hc.toInnerExit _).2 rfl
  · exact h.nest.outer.latch_edge
  · exact h.nest.inner.latch_edge

/-- No edge that stays is taken away. -/
theorem not_mem_removed (hmem : (a, b) ∈ r.unmoved) : (a, b) ∉ r.removed := by
  have hbody := (h.nest.ne_innerExit_of_inner h.nest.bodyEntry_inner).symm
  have hnodup := hc.nodup h
  have hrev := List.nodup_reverse.2 hnodup
  simp [Corners.list, Relinking.corners] at hnodup hrev
  simp only [Relinking.unmoved, List.mem_cons, Prod.mk.injEq, List.not_mem_nil, or_false] at hmem
  rcases hmem with ⟨rfl, rfl⟩ | ⟨rfl, rfl⟩ | ⟨rfl, rfl⟩ | ⟨rfl, rfl⟩ | ⟨rfl, rfl⟩ | ⟨rfl, rfl⟩ <;>
    simp [Relinking.removed, Relinking.edges, hnodup, hrev, hbody]

/-- An edge from a corner is one of the twelve. -/
theorem mem_of_edge_from (hab : g.Edge a b) (ha : a ∈ r.corners.list) :
    (a, b) ∈ r.removed ∨ (a, b) ∈ r.unmoved := by
  simp only [Corners.list, Relinking.corners, List.mem_cons, List.not_mem_nil, or_false] at ha
  simp only [Relinking.removed, Relinking.edges, Relinking.unmoved, List.map_cons, List.map_nil]
  rcases ha with rfl | rfl | rfl | rfl | rfl | rfl | rfl | rfl
  · rcases (hc.outerHeader b).1 hab with rfl | rfl <;> simp
  · rcases (hc.innerHeader b).1 hab with rfl | rfl <;> simp
  · obtain rfl := (h.nest.outer.preheader_edge b).1 hab
    simp
  · obtain rfl := (h.nest.inner.preheader_edge b).1 hab
    simp
  · obtain rfl := (hc.outerLatch b).1 hab
    simp
  · obtain rfl := (hc.innerLatch b).1 hab
    simp
  · obtain rfl := (h.exit_iff b).1 hab
    simp
  · obtain rfl := (hc.innerExit b).1 hab
    simp

/-- An edge to a corner is one of the twelve. -/
theorem mem_of_edge_to (ha : g.Reachable a) (hab : g.Edge a b) (hb : b ∈ r.corners.list) :
    (a, b) ∈ r.removed ∨ (a, b) ∈ r.unmoved := by
  have hn := h.nest
  simp only [Corners.list, Relinking.corners, List.mem_cons, List.not_mem_nil, or_false] at hb
  simp only [Relinking.removed, Relinking.edges, Relinking.unmoved, List.map_cons, List.map_nil]
  rcases hb with rfl | rfl | rfl | rfl | rfl | rfl | rfl | rfl
  · -- a header is entered from the preheader or from the latch
    by_cases haO : O a
    · obtain rfl := hn.outer.turns a haO hab
      simp
    · obtain ⟨rfl, -⟩ := hn.outer.enters a _ ha hab haO hn.outer.header_mem
      simp
  · by_cases haI : I a
    · obtain rfl := hn.inner.turns a haI hab
      simp
    · obtain ⟨rfl, -⟩ := hn.inner.enters a _ ha hab haI hn.inner.header_mem
      simp
  · obtain rfl := hn.approach _ _ hab (h.pred_edge (hc.preheaderPred_ne_outerExit h))
    simp
  · obtain rfl := (hc.toInnerPreheader a).1 hab
    simp
  · obtain rfl := (hc.toOuterLatch a).1 hab
    simp
  · obtain rfl := (hn.bodyEnd_iff a).1 hab
    simp
  · obtain rfl := (hc.toOuterExit a).1 hab
    simp
  · obtain rfl := (hc.toInnerExit a).1 hab
    simp

variable (hr : ∀ a ∈ g.listed, g.Reachable a)

include hr

/-- An edge of a clean nest is taken away, or stays at a corner, or is away from the corners. -/
theorem edge_iff : g.Edge a b ↔ (a, b) ∈ r.removed ∨ (a, b) ∈ r.unmoved ∨
    a ∉ r.corners.list ∧ b ∉ r.corners.list ∧ g.Edge a b := by
  constructor
  · intro hab
    by_cases ha : a ∈ r.corners.list
    · rcases hc.mem_of_edge_from h hab ha with hmem | hmem
      · exact Or.inl hmem
      · exact Or.inr (Or.inl hmem)
    · by_cases hb : b ∈ r.corners.list
      · rcases hc.mem_of_edge_to h (hr a hab.1) hab hb with hmem | hmem
        · exact Or.inl hmem
        · exact Or.inr (Or.inl hmem)
      · exact Or.inr (Or.inr ⟨ha, hb, hab⟩)
  · rintro (hmem | hmem | ⟨-, -, hab⟩)
    · exact hc.edge_of_mem_removed h hmem
    · exact hc.edge_of_mem_unmoved h hmem
    · exact hab

/-- After relinking, the new edges have taken the place of the old ones. -/
theorem edge_iff_of_rewired (hw : Rewired g g' r.effective) : g'.Edge a b ↔
    (a, b) ∈ r.added ∨ (a, b) ∈ r.unmoved ∨
      a ∉ r.corners.list ∧ b ∉ r.corners.list ∧ g.Edge a b := by
  rw [hc.effective h] at hw
  rw [hw.edge_iff_of_edges]
  constructor
  · rintro (hmem | ⟨hab, hnot⟩)
    · exact Or.inl hmem
    · exact Or.inr (((hc.edge_iff h hr).1 hab).resolve_left hnot)
  · rintro (hmem | hmem | ⟨ha, hb, hab⟩)
    · exact Or.inl hmem
    · exact Or.inr ⟨hc.edge_of_mem_unmoved h hmem, hc.not_mem_removed h hmem⟩
    · refine Or.inr ⟨hab, fun hmem => ?_⟩
      rcases Relinking.corner_of_mem_removed hmem with hcorner | hcorner
      · exact ha hcorner
      · exact hb hcorner

end

/-! ### The mirror -/

section

variable {π : BlockId → BlockId}

/-- The swap takes the edges that stay to each other. -/
theorem mem_unmoved_swap (hπ : SwapsCorners π r.corners) (hmem : (a, b) ∈ r.unmoved) :
    (π a, π b) ∈ r.unmoved := by
  obtain ⟨hoh, hih, hoph, hiph, hol, hil, hoe, hie, -⟩ := hπ
  simp only [Relinking.corners] at hoh hih hoph hiph hol hil hoe hie
  simp only [Relinking.unmoved, List.mem_cons, Prod.mk.injEq, List.not_mem_nil, or_false] at hmem
  rcases hmem with ⟨rfl, rfl⟩ | ⟨rfl, rfl⟩ | ⟨rfl, rfl⟩ | ⟨rfl, rfl⟩ | ⟨rfl, rfl⟩ | ⟨rfl, rfl⟩ <;>
    simp [Relinking.unmoved, *]

variable (hc : Clean g r.plan) (h : Exchange g O I r) (hπ : SwapsCorners π r.corners)

include hc h hπ

/-- The swap keeps the ends that are left open. -/
theorem swap_ends : π r.preheaderPred = r.preheaderPred ∧ π r.plan.bodyEntry = r.plan.bodyEntry ∧
    π r.plan.bodyEnd = r.plan.bodyEnd ∧ π r.continuation = r.continuation := by
  obtain ⟨hpp, hbe, hbend, hcont⟩ := hc.ends h
  exact ⟨hπ.other _ hpp, hπ.other _ hbe, hπ.other _ hbend, hπ.other _ hcont⟩

/-- The swap takes the edges that are taken away to those that are put in their place. -/
theorem mem_added_swap (hmem : (a, b) ∈ r.removed) : (π a, π b) ∈ r.added := by
  obtain ⟨hpp, hbe, hbend, hcont⟩ := hc.swap_ends h hπ
  obtain ⟨hoh, hih, hoph, hiph, hol, hil, hoe, hie, -⟩ := hπ
  simp only [Relinking.corners] at hoh hih hoph hiph hol hil hoe hie
  simp only [Relinking.removed, Relinking.edges, List.map_cons, List.map_nil, List.mem_cons,
    Prod.mk.injEq, List.not_mem_nil, or_false] at hmem
  rcases hmem with ⟨rfl, rfl⟩ | ⟨rfl, rfl⟩ | ⟨rfl, rfl⟩ | ⟨rfl, rfl⟩ | ⟨rfl, rfl⟩ | ⟨rfl, rfl⟩ <;>
    simp [Relinking.added, Relinking.edges, *]

/-- The swap takes the new edges back to the old ones. -/
theorem mem_removed_swap (hmem : (a, b) ∈ r.added) : (π a, π b) ∈ r.removed := by
  obtain ⟨hpp, hbe, hbend, hcont⟩ := hc.swap_ends h hπ
  obtain ⟨hoh, hih, hoph, hiph, hol, hil, hoe, hie, -⟩ := hπ
  simp only [Relinking.corners] at hoh hih hoph hiph hol hil hoe hie
  simp only [Relinking.added, Relinking.edges, List.map_cons, List.map_nil, List.mem_cons,
    Prod.mk.injEq, List.not_mem_nil, or_false] at hmem
  rcases hmem with ⟨rfl, rfl⟩ | ⟨rfl, rfl⟩ | ⟨rfl, rfl⟩ | ⟨rfl, rfl⟩ | ⟨rfl, rfl⟩ | ⟨rfl, rfl⟩ <;>
    simp [Relinking.removed, Relinking.edges, *]

/-- After relinking a clean nest, the edges are those before with the two loops swapped. -/
theorem mirrored (hr : ∀ a ∈ g.listed, g.Reachable a) (hw : Rewired g g' r.effective) :
    g'.Edge (π a) (π b) ↔ g.Edge a b := by
  rw [hc.edge_iff_of_rewired h hr hw, hc.edge_iff h hr (a := a) (b := b), hπ.mem_list_iff,
    hπ.mem_list_iff]
  constructor
  · rintro (hmem | hmem | ⟨ha, hb, hab⟩)
    · have hback := hc.mem_removed_swap h hπ hmem
      rw [hπ.involutive, hπ.involutive] at hback
      exact Or.inl hback
    · have hback := mem_unmoved_swap hπ hmem
      rw [hπ.involutive, hπ.involutive] at hback
      exact Or.inr (Or.inl hback)
    · rw [hπ.other a ha, hπ.other b hb] at hab
      exact Or.inr (Or.inr ⟨ha, hb, hab⟩)
  · rintro (hmem | hmem | ⟨ha, hb, hab⟩)
    · exact Or.inl (hc.mem_added_swap h hπ hmem)
    · exact Or.inr (Or.inl (mem_unmoved_swap hπ hmem))
    · rw [← hπ.other a ha, ← hπ.other b hb] at hab
      exact Or.inr (Or.inr ⟨ha, hb, hab⟩)

end

end Clean

end LoopSwap
