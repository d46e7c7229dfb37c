/-
**How paths cross the border of a loop.**

The preheader, the latch and the exit of a loop are told by edges alone: each is the only block of
its kind.  Here is what this means for paths.  Control gets into a loop through its header, and to
the header it gets from reachable blocks only; so a preheader is on every path to the loop.  A way
round the loop comes back to the header over the latch, and a path that leaves the loop for good
goes on at the exit.

A block that cannot be reached may lead to the header as well.  It is not counted, and no path takes
its edge.  A loop whose header is the entry has no preheader, since the entry dominates whatever
leads back to it.

Main results:

* `LoopSwap.Walk.exists_last_step`, `LoopSwap.Walk.last_leave` — the last edge of a walk, and the
  last one over a border;
* `LoopSwap.FlowGraph.InLoop.dominates_of_sole_entrance` — the only block that leads into a loop
  dominates it;
* `LoopSwap.Func.loops_borders` — the connecting blocks of a loop and the paths across its border.
-/

import LoopSwap.Proofs.Loop.Connections

set_option relaxedAutoImplicit false
set_option autoImplicit false

namespace LoopSwap

/-! ### The last edge of a walk -/

namespace Walk

variable {α : Type} {r : α → α → Prop} {a b : α} {q : List α}

/-- A walk that moves ends in an edge. -/
theorem exists_last_step (h : Walk r a b q) (hq : q ≠ [a]) :
    ∃ q' x, q = q' ++ [x, b] ∧ r x b := by
  induction h with
  | here a => exact absurd rfl hq
  | @step a c b p hac hw ih =>
      by_cases hp : p = [c]
      · subst hp
        obtain rfl := List.mem_singleton.1 hw.end_mem
        exact ⟨[], a, rfl, hac⟩
      · obtain ⟨q', x, rfl, hxb⟩ := ih hp
        exact ⟨a :: q', x, rfl, hxb⟩

/-- A walk that ends outside a set is outside all along, or it leaves the set for the last time
over some edge. -/
theorem last_leave (S : α → Prop) (h : Walk r a b q) (hb : ¬ S b) :
    (∀ z ∈ q, ¬ S z) ∨
      ∃ q₁ x y q₂, q = q₁ ++ x :: y :: q₂ ∧ S x ∧ r x y ∧ ∀ z ∈ y :: q₂, ¬ S z := by
  induction h with
  | here a => exact Or.inl (List.forall_mem_singleton.2 hb)
  | @step a c b p hac hw ih =>
      rcases ih hb with hout | ⟨q₁, x, y, q₂, rfl, hrest⟩
      · by_cases ha : S a
        · -- the walk starts inside and leaves at once
          cases hw with
          | here => exact Or.inr ⟨[], a, c, [], rfl, ha, hac, hout⟩
          | @step _ _ _ p' _ _ => exact Or.inr ⟨[], a, c, p', rfl, ha, hac, hout⟩
        · exact Or.inl (List.forall_mem_cons.2 ⟨ha, hout⟩)
      · exact Or.inr ⟨a :: q₁, x, y, q₂, rfl, hrest⟩

end Walk

/-! ### The way into a loop -/

namespace FlowGraph

variable {α : Type} {g : FlowGraph α} {h p b e : α}

/-- If control gets to the header from outside, the entry is outside. -/
theorem InLoop.entry_not_inLoop (hp : g.Reachable p) (hph : g.Edge p h) (hout : ¬ g.InLoop h p)
    (he : g.entry = some e) (hl : e ∈ g.listed) : ¬ g.InLoop h e := by
  intro hin
  -- the path that consists of the entry alone visits the header, so the header is the entry
  obtain rfl := List.mem_singleton.1 (hin.dominates [e] ⟨e, he, hl, .here e⟩)
  refine hout (BackEdge.inLoop ⟨hp, hph, ?_⟩)
  rintro q ⟨e', he', -, hq⟩
  rw [he] at he'
  cases he'
  exact hq.start_mem

/-- The only reachable block outside that leads to the header dominates the loop. -/
theorem InLoop.dominates_of_sole_entrance (hb : g.InLoop h b)
    (hp : ∀ a, g.Reachable a ∧ g.Edge a h ∧ ¬ g.InLoop h a ↔ a = p) : g.Dominates p b := by
  obtain ⟨hpreach, hph, hpout⟩ := (hp p).2 rfl
  refine dominates_iff.2 fun e he hl => ?_
  by_cases hep : e = p
  · exact Or.inl hep
  · refine Or.inr fun hwalk => ?_
    -- where the walk gets into the loop for the last time, it comes from `p`
    obtain ⟨u, v, hu, hv, huv, -, heu, -⟩ := hwalk.exists_crossing (fun x => ¬ g.InLoop h x)
      (InLoop.entry_not_inLoop hpreach hph hpout he hl) (not_not.2 hb)
    have hureach : g.Reachable u := (Reachable.entry he hl).via heu
    have hvh : v = h := by
      by_contra hne
      exact hu ((not_not.1 hv).pred hne hureach huv)
    obtain rfl := (hp u).1 ⟨hureach, hvh ▸ huv, hu⟩
    rcases heu.eq_or_end with hue | hne
    · exact hep hue.symm
    · exact hne rfl

end FlowGraph

/-! ### Loops of a function -/

namespace Func

variable {f : Func} {i : Nat} {l : Loop} {p t x : BlockId}

theorem preheader_eq_some_iff (hi : f.loops.loop? i = some l) : l.preheader = some p ↔
    f.successors p = [l.header] ∧
      ∀ a, f.graph.Reachable a ∧ f.graph.Edge a l.header ∧ a ∉ l.blocks ↔ a = p := by
  obtain ⟨depth, c, -, rfl⟩ := loop?_eq_some_iff.1 hi
  exact NaturalLoop.preheader?_eq_some_iff

/-- All blocks of a loop are reachable, so this need not be asked of a latch. -/
theorem latch_eq_some_iff (hi : f.loops.loop? i = some l) : l.latch = some t ↔
    ∀ a, a ∈ l.blocks ∧ f.graph.Edge a l.header ↔ a = t := by
  have hreach : ∀ a ∈ l.blocks, f.graph.Reachable a := fun a ha =>
    ((describes_loop? hi).mem_blocks.1 ha).reachable
  obtain ⟨depth, c, -, rfl⟩ := loop?_eq_some_iff.1 hi
  refine NaturalLoop.latch?_eq_some_iff.trans (forall_congr' fun a => iff_congr ?_ Iff.rfl)
  exact ⟨fun h => ⟨h.2.2, h.2.1⟩, fun h => ⟨hreach a h.1, h.2, h.1⟩⟩

theorem exit_eq_some_iff (hi : f.loops.loop? i = some l) : l.exit = some x ↔
    ∀ b, (∃ a ∈ l.blocks, b ∈ f.successors a) ∧ b ∉ l.blocks ↔ b = x := by
  obtain ⟨depth, c, -, rfl⟩ := loop?_eq_some_iff.1 hi
  exact NaturalLoop.exit?_eq_some_iff

/-- Every path to a block of a loop visits its preheader. -/
theorem preheader_dominates (hi : f.loops.loop? i = some l) (hp : l.preheader = some p) :
    ∀ b ∈ l.blocks, f.graph.Dominates p b := by
  have hmem : ∀ b, b ∈ l.blocks ↔ f.graph.InLoop l.header b := fun b =>
    (describes_loop? hi).mem_blocks
  intro b hb
  refine ((hmem b).1 hb).dominates_of_sole_entrance fun a => ?_
  rw [← hmem]
  exact ((preheader_eq_some_iff hi).1 hp).2 a

/-- A way round a loop that has a latch ends in the edge from there to the header. -/
theorem latch_of_cycle (hi : f.loops.loop? i = some l) (ht : l.latch = some t) {q : List BlockId}
    (hq : Walk f.graph.Edge l.header l.header q) (hne : q ≠ [l.header])
    (hin : ∀ a ∈ q, a ∈ l.blocks) : ∃ q', q = q' ++ [t, l.header] := by
  obtain ⟨q', a, rfl, hedge⟩ := hq.exists_last_step hne
  have ha : a ∈ l.blocks := hin a (List.mem_append_right _ List.mem_cons_self)
  obtain rfl := ((latch_eq_some_iff hi).1 ht a).1 ⟨ha, hedge⟩
  exact ⟨q', rfl⟩

/-- A path from a loop to a block outside goes on at the exit when it leaves the loop for good. -/
theorem exit_of_walk (hi : f.loops.loop? i = some l) (hx : l.exit = some x) {a b : BlockId}
    {q : List BlockId} (ha : a ∈ l.blocks) (hb : b ∉ l.blocks) (hq : Walk f.graph.Edge a b q) :
    ∃ q₁ u q₂, q = q₁ ++ u :: x :: q₂ ∧ u ∈ l.blocks ∧ ∀ z ∈ x :: q₂, z ∉ l.blocks := by
  rcases hq.last_leave (· ∈ l.blocks) hb with hout | ⟨q₁, u, v, q₂, rfl, hu, huv, hout⟩
  · exact absurd ha (hout a hq.start_mem)
  · obtain rfl := ((exit_eq_some_iff hi).1 hx v).1
      ⟨⟨u, hu, huv.2.2⟩, hout v List.mem_cons_self⟩
    exact ⟨q₁, u, q₂, rfl, hu, hout⟩

/-- **The connecting blocks of a loop.**  A loop has a preheader if just one reachable block
outside leads to its header, and that block leads nowhere else; then every path from the entry to a
block of the loop visits the preheader, which so dominates the loop.  It has a latch if just one of
its blocks leads to the header; then every way round the loop from its header ends in the edge from
the latch to the header.  It has an exit if its blocks lead to just one block outside; then on every
path from the loop to a block outside, the exit comes right after the last block of the loop. -/
theorem loops_borders (f : Func) (i : Nat) (l : Loop) (hi : f.loops.loop? i = some l) :
    (∀ p, l.preheader = some p ↔ f.successors p = [l.header] ∧
        ∀ a, f.graph.Reachable a ∧ f.graph.Edge a l.header ∧ a ∉ l.blocks ↔ a = p) ∧
      (∀ p, l.preheader = some p → ∀ b ∈ l.blocks, f.graph.facts.dominates p b = true ∧
        ∀ q, f.graph.Path b q → p ∈ q) ∧
      (∀ t, l.latch = some t ↔ ∀ a, a ∈ l.blocks ∧ f.graph.Edge a l.header ↔ a = t) ∧
      (∀ t, l.latch = some t → ∀ q, Walk f.graph.Edge l.header l.header q → q ≠ [l.header] →
        (∀ a ∈ q, a ∈ l.blocks) → ∃ q', q = q' ++ [t, l.header]) ∧
      (∀ x, l.exit = some x ↔
        ∀ b, (∃ a ∈ l.blocks, b ∈ f.successors a) ∧ b ∉ l.blocks ↔ b = x) ∧
      ∀ x, l.exit = some x → ∀ a b q, a ∈ l.blocks → b ∉ l.blocks → Walk f.graph.Edge a b q →
        ∃ q₁ u q₂, q = q₁ ++ u :: x :: q₂ ∧ u ∈ l.blocks ∧ ∀ z ∈ x :: q₂, z ∉ l.blocks := by
  refine ⟨fun p => preheader_eq_some_iff hi, fun p hp b hb => ?_, fun t => latch_eq_some_iff hi,
    fun t ht q => latch_of_cycle hi ht, fun x => exit_eq_some_iff hi,
    fun x hx a b q => exit_of_walk hi hx⟩
  have hdom := preheader_dominates hi hp b hb
  have hreach := ((describes_loop? hi).mem_blocks.1 hb).reachable
  exact ⟨f.graph.dominates_eq_true_iff.2 ⟨hreach, hdom⟩, hdom⟩

/-- A loop around a block that loops on itself, and a dead block that leads to both headers. -/
def deadEntrance : Func :=
  .ofExits [("entry", .br ⟨1⟩), ("head", .condBr (.const 0) ⟨2⟩ ⟨4⟩),
    ("self", .condBr (.const 0) ⟨2⟩ ⟨3⟩), ("again", .br ⟨1⟩), ("done", .ret none),
    ("dead", .condBr (.const 0) ⟨1⟩ ⟨2⟩)]

/-- The dead block is no entrance: the outer loop has the entry as its preheader.  The inner loop
has none, since the block before it leads elsewhere too; it turns round and is left at its only
block. -/
theorem loops_borders_deadEntrance :
    ∃ l m, deadEntrance.loops.loop? 0 = some l ∧ deadEntrance.loops.loop? 1 = some m ∧
      (∀ b ∈ l.blocks, ∀ q, deadEntrance.graph.Path b q → ⟨0⟩ ∈ q) ∧
      (∀ q, Walk deadEntrance.graph.Edge l.header l.header q → q ≠ [l.header] →
        (∀ a ∈ q, a ∈ l.blocks) → ∃ q', q = q' ++ [⟨3⟩, l.header]) ∧
      (∀ p, ¬ (deadEntrance.successors p = [m.header] ∧ ∀ a, deadEntrance.graph.Reachable a ∧
        deadEntrance.graph.Edge a m.header ∧ a ∉ m.blocks ↔ a = p)) ∧
      (∀ a, a ∈ m.blocks ∧ deadEntrance.graph.Edge a m.header ↔ a = ⟨2⟩) ∧
      ∀ a b q, a ∈ m.blocks → b ∉ m.blocks → Walk deadEntrance.graph.Edge a b q →
        ∃ q₁ u q₂, q = q₁ ++ u :: ⟨3⟩ :: q₂ ∧ u ∈ m.blocks ∧ ∀ z ∈ ⟨3⟩ :: q₂, z ∉ m.blocks := by
  have hloops : ∀ i < 2, (deadEntrance.loops.loop? i).isSome = true := by decide +kernel
  obtain ⟨l, h₀⟩ := Option.isSome_iff_exists.1 (hloops 0 (by decide))
  obtain ⟨m, h₁⟩ := Option.isSome_iff_exists.1 (hloops 1 (by decide))
  have houter : (deadEntrance.loops.loop? 0).map (fun l => (l.preheader, l.latch)) =
      some (some ⟨0⟩, some ⟨3⟩) := by decide +kernel
  have hinner : (deadEntrance.loops.loop? 1).map (fun m => (m.preheader, m.latch, m.exit)) =
      some (none, some ⟨2⟩, some ⟨3⟩) := by decide +kernel
  rw [h₀, Option.map_some, Option.some.injEq, Prod.mk.injEq] at houter
  rw [h₁, Option.map_some, Option.some.injEq, Prod.mk.injEq, Prod.mk.injEq] at hinner
  obtain ⟨-, hentered, -, hround, -, -⟩ := loops_borders deadEntrance 0 l h₀
  obtain ⟨hpre, -, hlatch, -, -, hleft⟩ := loops_borders deadEntrance 1 m h₁
  refine ⟨l, m, h₀, h₁, fun b hb => (hentered ⟨0⟩ houter.1 b hb).2, hround ⟨3⟩ houter.2,
    fun p hp => ?_, (hlatch ⟨2⟩).1 hinner.2.1, hleft ⟨3⟩ hinner.2.2⟩
  have hsome := (hpre p).2 hp
  rw [hinner.1] at hsome
  cases hsome

end Func

end LoopSwap
