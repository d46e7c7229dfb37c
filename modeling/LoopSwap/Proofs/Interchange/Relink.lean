/-
**Relinking, by edges.**

The moves of an interchange neither move the entry nor move anything before it, so all they change
is the order of the layout.  The six retargetings send every edge through the list of changes.  If
the changes have different sources and find their edges, this gives the graph with some edges sent
elsewhere, of which the second half of this module says what can be reached.

Main definitions:

* `LoopSwap.Relinking.apply` — what relinking makes of a function;
* `LoopSwap.Rewired` — a graph with some edges sent elsewhere.

Main results:

* `LoopSwap.Relinking.reordered` — the moves keep the blocks, the instructions and the entry;
* `LoopSwap.Relinking.edge_apply` — the edges after an interchange.
-/

import LoopSwap.Proofs.Code.Retarget
import LoopSwap.Proofs.Interchange.Plan

set_option relaxedAutoImplicit false
set_option autoImplicit false

namespace LoopSwap

namespace Func

variable {f g : Func} {a b anchor : BlockId}

/-- The block after another one is not the entry. -/
theorem next?_ne_entry (hf : f.layout.Nodup) (h : f.next? a = some b) : f.entry? ≠ some b := by
  intro hentry
  obtain ⟨k, -, hnext⟩ := Option.bind_eq_some_iff.1 h
  have hzero : f.layout[0]? = some b := by
    rw [← List.head?_eq_getElem?]
    exact hentry
  have hplace := place_unique hf hzero hnext
  omega

theorem Reordered.before (h : f.Reordered g) (hb : f.entry? ≠ some b)
    (ha : f.entry? ≠ some anchor) : f.Reordered (g.moveBefore b anchor) := by
  rw [← h.entry] at hb ha
  exact h.trans (Reordered.moveBefore g hb ha)

theorem Reordered.toEnd (h : f.Reordered g) (hb : f.entry? ≠ some b) :
    f.Reordered (g.moveToEnd b) := by
  rw [← h.entry] at hb
  exact h.trans (Reordered.moveToEnd g hb)

end Func

namespace Relinking

/-- The blocks that an interchange moves, or moves others before, apart from the one after the
outer exit. -/
def movers (r : Relinking) : List BlockId :=
  [r.plan.innerHeader, r.plan.outerHeader, r.plan.bodyEntry, r.plan.innerPreheader, r.preheader,
    r.plan.innerExit, r.plan.innerLatch, r.plan.outerExit, r.plan.outerLatch]

/-- The moves keep the entry if it is none of the blocks they deal with. -/
theorem reordered (r : Relinking) {f : Func} (hf : f.Intact)
    (hne : ∀ b ∈ r.movers, f.entry? ≠ some b) : f.Reordered (r.reorder f) := by
  simp only [movers, List.forall_mem_cons] at hne
  obtain ⟨hih, hoh, hbe, hiph, hph, hie, hil, hoe, hol, -⟩ := hne
  have hfront := ((((Func.Reordered.refl f).before hih hoh).before hoh hbe).before hiph
    hih).before hph hoh
  dsimp only [reorder]
  -- the inner exit goes before the block after the outer exit, or to the end
  split
  · next next hnext =>
      have hnode := Func.next?_ne_entry (hf.reordered hfront).nodup_layout hnext
      rw [hfront.entry] at hnode
      exact (((hfront.before hie hnode).before hil hie).before hoe hil).before hol hoe
  · exact (((hfront.toEnd hie).before hil hie).before hoe hil).before hol hoe

/-- What relinking makes of a function. -/
@[irreducible] def apply (r : Relinking) (f : Func) : Func :=
  ((r.reorder f).retargetAll r.edges).1

theorem layout_apply (r : Relinking) (f : Func) : (r.apply f).layout = (r.reorder f).layout := by
  unfold apply
  exact Func.layout_retargetAll r.edges (r.reorder f)

theorem mem_successors_apply {r : Relinking} {f : Func} {a b : BlockId}
    (hf : (r.reorder f).Intact) : b ∈ (r.apply f).successors a ↔
      ∃ t ∈ (r.reorder f).successors a, redirect r.edges a t = b := by
  unfold apply
  exact Func.mem_successors_retargetAll hf r.edges

section

variable {r : Relinking} {f : Func} (hf : f.Flowing) (hne : ∀ b ∈ r.movers, f.entry? ≠ some b)
  (hnew : ∀ e ∈ r.edges, e.2.2 ∈ f.layout)

include hf hne

theorem entry?_apply : Func.entry? (r.apply f) = f.entry? := by
  have hentry := (r.reordered hf.toIntact hne).entry
  exact (congrArg List.head? (r.layout_apply f)).trans hentry

theorem mem_layout_apply {b : BlockId} : b ∈ (r.apply f).layout ↔ b ∈ f.layout := by
  rw [layout_apply]
  exact (r.reordered hf.toIntact hne).mem_layout

include hnew

/-- The edges after relinking are those before, each sent through the changes. -/
theorem edge_apply {a b : BlockId} :
    (r.apply f).graph.Edge a b ↔ ∃ t, f.graph.Edge a t ∧ redirect r.edges a t = b := by
  have horder := r.reordered hf.toIntact hne
  have hsucc : b ∈ (r.apply f).successors a ↔
      ∃ t, f.graph.Edge a t ∧ redirect r.edges a t = b := by
    rw [mem_successors_apply (hf.toIntact.reordered horder), horder.successors]
    simp only [hf.edge_iff]
  rw [Func.graph_edge, hsucc]
  constructor
  · exact fun h => h.2.2
  · intro h
    obtain ⟨t, ht, htb⟩ := h
    have hb : b ∈ f.layout := htb ▸ redirect_closed (P := (· ∈ f.layout)) hnew a t ht.2.1
    exact ⟨(mem_layout_apply hf hne).2 ht.1, (mem_layout_apply hf hne).2 hb, t, ht, htb⟩

end

end Relinking

/-! ### Graphs with some edges sent elsewhere -/

/-- `g'` is `g` with the edge from each source to its old target sent to the new target. -/
structure Rewired {α : Type} (g g' : FlowGraph α) (es : List (α × α × α)) : Prop where
  entry : g'.entry = g.entry
  listed : ∀ a, a ∈ g'.listed ↔ a ∈ g.listed
  edge : ∀ a b, g'.Edge a b ↔ (∃ old, (a, old, b) ∈ es) ∨ g.Edge a b ∧ ∀ new, (a, b, new) ∉ es

namespace Rewired

variable {α : Type} {g g' : FlowGraph α} {es : List (α × α × α)} {a b old : α}

theorem changed (h : Rewired g g' es) (hmem : (a, old, b) ∈ es) : g'.Edge a b :=
  (h.edge a b).2 (Or.inl ⟨old, hmem⟩)

theorem kept (h : Rewired g g' es) (hab : g.Edge a b) (hes : ∀ e ∈ es, e.1 = a → e.2.1 ≠ b) :
    g'.Edge a b :=
  (h.edge a b).2 (Or.inr ⟨hab, fun _ hmem => hes _ hmem rfl rfl⟩)

theorem entry_reachable (h : Rewired g g' es) {e : α} (he : g.entry = some e)
    (hl : e ∈ g.listed) : g'.Reachable e :=
  .entry (h.entry.trans he) ((h.listed e).2 hl)

/-- What is reached by an edge is reached afterwards too, unless the edge is changed. -/
theorem step (h : Rewired g g' es) (ha : g'.Reachable a) (hab : g.Edge a b)
    (hes : ∀ e ∈ es, e.1 = a → e.2.1 = b → g'.Reachable b) : g'.Reachable b := by
  by_cases hchanged : ∃ e ∈ es, e.1 = a ∧ e.2.1 = b
  · obtain ⟨e, he, hea, heb⟩ := hchanged
    exact hes e he hea heb
  · exact ha.next (h.kept hab fun e he hea heb => hchanged ⟨e, he, hea, heb⟩)

/-- If every old target can still be reached, then so can everything. -/
theorem reachable_of_old (h : Rewired g g' es) (hes : ∀ e ∈ es, g'.Reachable e.2.1)
    (hb : g.Reachable b) : g'.Reachable b := by
  obtain ⟨e, he, hl, hwalk⟩ := FlowGraph.Reachable.iff_reachVia.1 hb
  refine hwalk.mem_of_closed (h.entry_reachable he hl) fun x y hx hxy _ => ?_
  exact h.step hx hxy fun e he _ hey => hey ▸ hes e he

/-- If every new target could be reached, then nothing else is reached. -/
theorem reachable_of_new (h : Rewired g g' es) (hes : ∀ e ∈ es, g.Reachable e.2.2)
    (hb : g'.Reachable b) : g.Reachable b := by
  obtain ⟨e, he, hl, hwalk⟩ := FlowGraph.Reachable.iff_reachVia.1 hb
  have hentry : g.Reachable e := .entry (h.entry.symm.trans he) ((h.listed e).1 hl)
  refine hwalk.mem_of_closed hentry fun x y hx hxy _ => ?_
  rcases (h.edge x y).1 hxy with ⟨old, hmem⟩ | ⟨hxy, -⟩
  · exact hes _ hmem
  · exact hx.next hxy

end Rewired

end LoopSwap
