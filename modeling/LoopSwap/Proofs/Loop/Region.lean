/-
**Loops as regions with one way in and one way out.**

A loop whose preheader, latch and exit are known is a set of nodes that control enters from the
preheader through the header only, turns round in at the latch only, and leaves to the exit only.
This is all that a rearrangement of loops needs to know of them; where the region came from, and
that it is a natural loop, no longer matters.

Cutting a node in two (`Cut`) keeps such a region if the node is outside.  If the node was the
preheader, the second part becomes the preheader.

Main definitions:

* `LoopSwap.Region` — a set of nodes with a header, a preheader, a latch and an exit;
* `LoopSwap.Cut` — a graph in which one node is cut in two.

Main results:

* `LoopSwap.Func.Describes.region` — the record of a loop describes a region;
* `LoopSwap.Region.exists_approach` — the preheader is reached without entering the region;
* `LoopSwap.Cut.reachable_iff`, `LoopSwap.Region.cut` — what cutting a node does.
-/

import LoopSwap.Proofs.Code.Split
import LoopSwap.Proofs.Loop.Forest

set_option relaxedAutoImplicit false
set_option autoImplicit false

namespace LoopSwap

variable {α : Type}

/-! ### Regions -/

/-- A set of reachable nodes that is entered from `p` through `h` only, that leads back to `h`
from `l` only, and that is left to `x` only. -/
structure Region (g : FlowGraph α) (S : α → Prop) (h p l x : α) : Prop where
  header_mem : S h
  latch_mem : S l
  preheader_not_mem : ¬ S p
  exit_not_mem : ¬ S x
  preheader_reachable : g.Reachable p
  preheader_edge : ∀ b, g.Edge p b ↔ b = h
  latch_edge : g.Edge l h
  exists_exit : ∃ a, S a ∧ g.Edge a x
  enters : ∀ a b, g.Reachable a → g.Edge a b → ¬ S a → S b → a = p ∧ b = h
  turns : ∀ a, S a → g.Edge a h → a = l
  leaves : ∀ a b, S a → g.Edge a b → ¬ S b → b = x
  from_header : ∀ a, S a → ReachVia g.Edge S h a

/-- The record of a loop describes a region. -/
theorem Func.Describes.region {f : Func} {l : Loop} {p t x : BlockId} (hf : f.Flowing)
    (hl : f.Describes l) (hp : l.preheader = some p) (ht : l.latch = some t)
    (hx : l.exit = some x) : Region f.graph (· ∈ l.blocks) l.header p t x := by
  have hmem : ∀ b, b ∈ l.blocks ↔ f.graph.InLoop l.header b := fun b => hl.mem_blocks
  obtain ⟨hsucc, hpre⟩ := hl.preheader p hp
  obtain ⟨hpreach, hpedge, hpnot⟩ := (hpre p).2 rfl
  obtain ⟨htmem, htedge⟩ := (hl.latch t ht t).2 rfl
  obtain ⟨⟨a, ha, hax⟩, hxnot⟩ := (hl.exit x hx x).2 rfl
  obtain ⟨s, hs⟩ := hl.backEdge
  exact {
    header_mem := (hmem _).2 hs.header_inLoop
    latch_mem := htmem
    preheader_not_mem := hpnot
    exit_not_mem := hxnot
    preheader_reachable := hpreach
    preheader_edge := fun b => by rw [hf.edge_iff, hsucc, List.mem_singleton]
    latch_edge := htedge
    exists_exit := ⟨a, ha, hf.edge_iff.2 hax⟩
    enters := fun a b hreach hab ha hb => by
      have hbh : b = l.header := by
        by_contra hne
        exact ha ((hmem a).2 (((hmem b).1 hb).pred hne hreach hab))
      exact ⟨(hpre a).1 ⟨hreach, hbh ▸ hab, ha⟩, hbh⟩
    turns := fun a ha hah => (hl.latch t ht a).1 ⟨ha, hah⟩
    leaves := fun a b ha hab hb => (hl.exit x hx b).1 ⟨⟨a, ha, hf.edge_iff.1 hab⟩, hb⟩
    from_header := fun a ha =>
      ((hmem a).1 ha).from_header.mono fun b hb => (hmem b).2 hb }

namespace Region

variable {g : FlowGraph α} {S : α → Prop} {h p l x a e : α}

theorem reachable (hr : Region g S h p l x) (ha : S a) : g.Reachable a :=
  (hr.preheader_reachable.next ((hr.preheader_edge h).2 rfl)).via (hr.from_header a ha)

theorem exit_reachable (hr : Region g S h p l x) : g.Reachable x := by
  obtain ⟨a, ha, hax⟩ := hr.exists_exit
  exact (hr.reachable ha).next hax

/-- No node of the region is the entry, if nothing leads to the entry. -/
theorem entry_not_mem (hr : Region g S h p l x) (he : ∀ a, ¬ g.Edge a e) : ¬ S e := by
  intro hmem
  cases hr.from_header e hmem with
  | refl => exact he l hr.latch_edge
  | @tail a _ _ hae => exact he a hae.1

/-- The preheader is the entry, or it is reached from there without entering the region and
without passing the preheader before. -/
theorem exists_approach (hr : Region g S h p l x) (he : g.entry = some e)
    (hfree : ∀ a, ¬ g.Edge a e) :
    e = p ∨ ∃ u, ReachVia g.Edge (fun y => ¬ S y ∧ y ≠ p) e u ∧ g.Edge u p ∧ ¬ S u ∧ u ≠ p ∧
      g.Reachable u := by
  by_cases hep : e = p
  · exact Or.inl hep
  · refine Or.inr ?_
    obtain ⟨e', he', hl, hwalk⟩ := FlowGraph.Reachable.iff_reachVia.1 hr.preheader_reachable
    obtain rfl : e = e' := Option.some.inj (he.symm.trans he')
    have heS := hr.entry_not_mem hfree
    -- stop at the first node that is in the region or the preheader
    rcases hwalk.first_meet (fun y => S y ∨ y = p) with hall | ⟨u, v, heu, huv, -, hv, -⟩
    · rcases hall.eq_or_end with hpe | ⟨-, hno⟩
      · exact absurd hpe.symm hep
      · exact absurd (Or.inr rfl) hno
    · have hu : ¬ (S u ∨ u = p) := by
        rcases heu.eq_or_end with rfl | ⟨-, hno⟩
        · exact not_or.2 ⟨heS, hep⟩
        · exact hno
      have hureach : g.Reachable u := (FlowGraph.Reachable.entry he hl).via heu
      have hvp : v = p := by
        rcases hv with hv | hv
        · exact absurd (Or.inr (hr.enters u v hureach huv (not_or.1 hu).1 hv).1) hu
        · exact hv
      refine ⟨u, heu.mono fun y hy => not_or.1 hy.2, hvp ▸ huv, (not_or.1 hu).1,
        (not_or.1 hu).2, hureach⟩

end Region

/-! ### Cutting a node -/

/-- `g'` is `g` with the listed node `c` cut in two: `c` goes on to the new node `n`, which leads
where `c` did. -/
structure Cut (g g' : FlowGraph α) (c n : α) : Prop where
  entry : g'.entry = g.entry
  entry_ne : g.entry ≠ some n
  listed : ∀ a, a ∈ g'.listed ↔ a = n ∨ a ∈ g.listed
  mem : c ∈ g.listed
  not_mem : n ∉ g.listed
  edge : ∀ a b, g'.Edge a b ↔ a = c ∧ b = n ∨ a = n ∧ g.Edge c b ∨ a ≠ c ∧ g.Edge a b

/-- A split cuts a block in two. -/
theorem Func.Flowing.cut {f f' : Func} {b n : BlockId} {k : Nat} (hf : f.Flowing)
    (h : f.split? b k = some (f', n)) (hk : k < (f.blockInsts b).length) :
    Cut f.graph f'.graph b n where
  entry := hf.entry?_split? h
  entry_ne he := hf.split?_not_mem h (List.mem_of_head? he)
  listed _ := mem_layout_split? h
  mem := hf.split?_mem h
  not_mem := hf.split?_not_mem h
  edge _ _ := hf.edge_split? h hk

namespace Cut

variable {g g' : FlowGraph α} {c n a b : α} {P : α → Prop}

theorem ne (hc : Cut g g' c n) (ha : a ∈ g.listed) : a ≠ n := by
  rintro rfl
  exact hc.not_mem ha

theorem edge_of_ne (hc : Cut g g' c n) (hac : a ≠ c) (han : a ≠ n) :
    g'.Edge a b ↔ g.Edge a b := by
  rw [hc.edge]
  simp [hac, han]

theorem edge_self (hc : Cut g g' c n) : g'.Edge c b ↔ b = n := by
  rw [hc.edge]
  simp [hc.ne hc.mem]

theorem edge_new (hc : Cut g g' c n) : g'.Edge n b ↔ g.Edge c b := by
  rw [hc.edge]
  have hno : ¬ g.Edge n b := fun h => hc.not_mem h.1
  simp [(hc.ne hc.mem).symm, hno]

theorem edge_to_new (hc : Cut g g' c n) : g'.Edge a n ↔ a = c := by
  rw [hc.edge]
  have hno : ∀ x, ¬ g.Edge x n := fun x h => hc.not_mem h.2.1
  simp [hno]

/-- An edge to an old node starts where it did, up to the part of the node that it starts in. -/
theorem edge_to_old (hc : Cut g g' c n) (hb : b ∈ g.listed) :
    g'.Edge a b ↔ a = n ∧ g.Edge c b ∨ a ≠ c ∧ g.Edge a b := by
  rw [hc.edge]
  simp [hc.ne hb]

/-- If at most one node leads to `q`, this is so afterwards, for the second part of `q` if `q` is
cut. -/
theorem sole_pred [DecidableEq α] {q : α} (hc : Cut g g' c n) (hq : q ∈ g.listed)
    (h : ∀ a b, g.Edge a q → g.Edge b q → a = b) :
    ∀ a b, g'.Edge a (if q = c then n else q) → g'.Edge b (if q = c then n else q) → a = b := by
  intro a b ha hb
  split at ha
  · next hqc =>
      rw [if_pos hqc] at hb
      rw [hc.edge_to_new.1 ha, hc.edge_to_new.1 hb]
  · next hqc =>
      rw [if_neg hqc] at hb
      rcases (hc.edge_to_old hq).1 ha with ⟨rfl, hca⟩ | ⟨hac, ha⟩
      · rcases (hc.edge_to_old hq).1 hb with ⟨rfl, -⟩ | ⟨hbc, hb⟩
        · rfl
        · exact absurd (h _ _ hb hca) hbc
      · rcases (hc.edge_to_old hq).1 hb with ⟨rfl, hcb⟩ | ⟨-, hb⟩
        · exact absurd (h _ _ ha hcb) hac
        · exact h _ _ ha hb

/-- A way of the old graph is a way of the new one, with the new node inserted. -/
theorem reachVia (hc : Cut g g' c n) (h : ReachVia g.Edge P a b) (hn : P n) :
    ReachVia g'.Edge P a b := by
  induction h with
  | refl => exact .refl a
  | @tail y z _ hyz ih =>
      by_cases hyc : y = c
      · subst hyc
        exact (ih.tail (hc.edge_self.2 rfl) hn).tail (hc.edge_new.2 hyz.1) hyz.2
      · exact ih.tail ((hc.edge_of_ne hyc (hc.ne hyz.1.1)).2 hyz.1) hyz.2

/-- A way of the new graph is a way of the old one, with the new node left out. -/
theorem reachVia_old (hc : Cut g g' c n) (h : ReachVia g'.Edge P a b) (ha : a ≠ n) :
    b ≠ n ∧ ReachVia g.Edge P a b ∨ b = n ∧ ReachVia g.Edge P a c := by
  induction h with
  | refl => exact Or.inl ⟨ha, .refl a⟩
  | @tail y z _ hyz ih =>
      rcases (hc.edge y z).1 hyz.1 with ⟨rfl, rfl⟩ | ⟨rfl, hcz⟩ | ⟨-, hold⟩
      · rcases ih with ⟨-, ih⟩ | ⟨hyn, -⟩
        · exact Or.inr ⟨rfl, ih⟩
        · exact absurd hyn (hc.ne hc.mem)
      · rcases ih with ⟨hne, -⟩ | ⟨-, ih⟩
        · exact absurd rfl hne
        · exact Or.inl ⟨hc.ne hcz.2.1, ih.tail hcz hyz.2⟩
      · rcases ih with ⟨-, ih⟩ | ⟨hyn, -⟩
        · exact Or.inl ⟨hc.ne hold.2.1, ih.tail hold hyz.2⟩
        · exact absurd hyn (hc.ne hold.1)

theorem reachable_iff (hc : Cut g g' c n) :
    g'.Reachable a ↔ a = n ∧ g.Reachable c ∨ a ≠ n ∧ g.Reachable a := by
  simp only [FlowGraph.Reachable.iff_reachVia, hc.entry, hc.listed]
  constructor
  · rintro ⟨e, he, hl, h⟩
    rcases hl with rfl | hl
    · exact absurd he hc.entry_ne
    · rcases hc.reachVia_old h (hc.ne hl) with ⟨hne, hold⟩ | ⟨rfl, hold⟩
      · exact Or.inr ⟨hne, e, he, hl, hold⟩
      · exact Or.inl ⟨rfl, e, he, hl, hold⟩
  · rintro (⟨rfl, e, he, hl, h⟩ | ⟨-, e, he, hl, h⟩)
    · exact ⟨e, he, Or.inr hl, (hc.reachVia h trivial).tail (hc.edge_self.2 rfl) trivial⟩
    · exact ⟨e, he, Or.inr hl, hc.reachVia h trivial⟩

end Cut

/-- A region stays a region if a node outside is cut.  The second part of a preheader that is cut
is the new preheader. -/
theorem Region.cut [DecidableEq α] {g g' : FlowGraph α} {S : α → Prop} {h p l x c n : α}
    (hr : Region g S h p l x) (hc : Cut g g' c n) (hcS : ¬ S c) :
    Region g' S h (if p = c then n else p) l x := by
  have hlisted : ∀ a, S a → a ∈ g.listed := fun a ha => (hr.reachable ha).listed
  have hnS : ¬ S n := fun hn => hc.not_mem (hlisted n hn)
  -- the edges from inside are the old ones
  have hedge : ∀ a b, S a → (g'.Edge a b ↔ g.Edge a b) := fun a b ha =>
    hc.edge_of_ne (fun hac => hcS (hac ▸ ha)) (hc.ne (hlisted a ha))
  refine ⟨hr.header_mem, hr.latch_mem, ?_, hr.exit_not_mem, ?_, ?_, ?_, ?_, ?_, ?_, ?_, ?_⟩
  · split
    · exact hnS
    · exact hr.preheader_not_mem
  · rw [hc.reachable_iff]
    split
    · next hpc => exact Or.inl ⟨rfl, hpc ▸ hr.preheader_reachable⟩
    · exact Or.inr ⟨hc.ne hr.preheader_reachable.listed, hr.preheader_reachable⟩
  · intro b
    split
    · next hpc => rw [hc.edge_new, ← hpc, hr.preheader_edge]
    · next hpc =>
        rw [hc.edge_of_ne hpc (hc.ne hr.preheader_reachable.listed), hr.preheader_edge]
  · exact (hedge l h hr.latch_mem).2 hr.latch_edge
  · obtain ⟨a, ha, hax⟩ := hr.exists_exit
    exact ⟨a, ha, (hedge a x ha).2 hax⟩
  · intro a b hreach hab ha hb
    rcases (hc.edge a b).1 hab with ⟨-, rfl⟩ | ⟨rfl, hcb⟩ | ⟨hac, hold⟩
    · exact absurd hb hnS
    · have hcreach : g.Reachable c := by
        rcases hc.reachable_iff.1 hreach with ⟨-, hcr⟩ | ⟨hne, -⟩
        · exact hcr
        · exact absurd rfl hne
      obtain ⟨hcp, hbh⟩ := hr.enters c b hcreach hcb hcS hb
      exact ⟨(if_pos hcp.symm).symm, hbh⟩
    · have hareach : g.Reachable a := by
        rcases hc.reachable_iff.1 hreach with ⟨han, -⟩ | ⟨-, har⟩
        · exact absurd han (hc.ne hold.1)
        · exact har
      obtain ⟨hap, hbh⟩ := hr.enters a b hareach hold ha hb
      exact ⟨by rw [if_neg fun hpc => hac (hap.trans hpc), hap], hbh⟩
  · exact fun a ha hah => hr.turns a ha ((hedge a h ha).1 hah)
  · exact fun a b ha hab hb => hr.leaves a b ha ((hedge a b ha).1 hab) hb
  · intro a ha
    have hwalk := hr.from_header a ha
    have key : ∀ b, ReachVia g.Edge S h b → S b ∧ ReachVia g'.Edge S h b := by
      intro b hb
      induction hb with
      | refl => exact ⟨hr.header_mem, .refl h⟩
      | @tail y z _ hyz ih => exact ⟨hyz.2, ih.2.tail ((hedge y z ih.1).2 hyz.1) hyz.2⟩
    exact (key a hwalk).2

end LoopSwap
