/-
**Isolating a preheader keeps the forest.**

A preheader that is the entry is split before its terminator, and the forest is not computed anew:
the new block is put into it wherever the entry was the preheader.  This is right because control
never comes back to the entry, so the entry is in no loop (`Func.Flowing.not_inLoop_entry`).  A cut
outside of all loops leaves their blocks, their latches and their exits alone, and moves the end of
the edges from the first part, one of which may lead from a preheader (`Func.loops_split?`).

Main results:

* `LoopSwap.Func.loops_split?` — the forest after a split outside of all loops;
* `LoopSwap.LoopForest.isolatePreheader_fresh` — the forest that comes with an isolated preheader is
  the forest of the function that comes with it.
-/

import LoopSwap.Proofs.Interchange.Materialize
import LoopSwap.Proofs.Loop.Connections
import LoopSwap.Proofs.Loop.Cutting

set_option relaxedAutoImplicit false
set_option autoImplicit false

namespace LoopSwap

namespace Func

variable {f f' : Func} {a b n : BlockId} {k : Nat} {l : NaturalLoop}

/-! ### The entry -/

/-- The entry is in no loop. -/
theorem Flowing.not_inLoop_entry (hf : f.Flowing) (hb : f.entry? = some b) :
    ¬ f.graph.InLoop a b := by
  intro hin
  have hmem : b ∈ f.layout := List.mem_of_head? hb
  rcases FlowGraph.dominates_iff.1 hin.dominates b hb hmem with rfl | hno
  · obtain ⟨t, ht, -⟩ := hin
    exact hf.entry_ne ht.edge hb
  · exact hno (.refl b)

/-! ### A split outside of all loops -/

section Unlooped

variable (hf : f.Flowing) (h : f.split? b k = some (f', n)) (hk : k < (f.blockInsts b).length)
  (hout : ∀ a, ¬ f.graph.InLoop a b)

include hf h hk hout

theorem naturalLoops_split? : naturalLoops f'.graph.facts f'.layout =
    naturalLoops f.graph.facts f.layout := by
  refine naturalLoops_eq_of_inLoop (fun _ _ => (hf.cut h hk).inLoop_iff_of_unlooped hout) ?_
  rw [hf.filter_split? h fun a ha => decide_eq_false ha]
  exact List.filter_eq_self.2 fun a ha => decide_eq_true ha

omit hk in
/-- The block that is split and the part that is split off are not blocks of a loop. -/
theorem ne_of_mem_blocks (hl : l ∈ naturalLoops f.graph.facts f.layout) (ha : a ∈ l.blocks) :
    a ≠ b ∧ a ≠ n := by
  have hin := (mem_blocks_iff hl).1 ha
  refine ⟨?_, hf.split?_ne h hin.reachable.listed⟩
  rintro rfl
  exact hout _ hin

/-- A preheader stays the preheader, unless it is split: then the second part is. -/
theorem preheader?_split? (hl : l ∈ naturalLoops f.graph.facts f.layout) :
    l.preheader? f' f'.graph.facts =
      (l.preheader? f f.graph.facts).map fun p => if p = b then n else p := by
  have hc := hf.cut h hk
  have hheader := (header_mem_of_mem_naturalLoops hl).1
  have hb : b ∉ l.blocks := fun hmem => hout _ ((mem_blocks_iff hl).1 hmem)
  have hn : n ∉ l.blocks := fun hmem => (ne_of_mem_blocks hf h hout hl hmem).2 rfl
  -- what enters the loop from outside, and where it starts after the split
  have houtside : ∀ a, f'.graph.Reachable a ∧ f'.graph.Edge a l.header ∧ a ∉ l.blocks ↔
      ∃ p, (f.graph.Reachable p ∧ f.graph.Edge p l.header ∧ p ∉ l.blocks) ∧
        a = if p = b then n else p := by
    intro a
    rw [← and_assoc, hc.enters_iff hheader]
    constructor
    · rintro ⟨⟨p, ⟨hpr, hph⟩, rfl⟩, ha⟩
      refine ⟨p, ⟨hpr, hph, ?_⟩, rfl⟩
      by_cases hpb : p = b
      · exact hpb ▸ hb
      · rwa [if_neg hpb] at ha
    · rintro ⟨p, ⟨hpr, hph, hp⟩, rfl⟩
      refine ⟨⟨p, ⟨hpr, hph⟩, rfl⟩, ?_⟩
      split
      · exact hn
      · exact hp
  have hinj : ∀ p q, p ∈ f.layout → q ∈ f.layout →
      (if p = b then n else p) = (if q = b then n else q) → p = q := by
    intro p q hp hq heq
    split at heq
    · next hpb =>
        split at heq
        · next hqb => rw [hpb, hqb]
        · exact absurd heq.symm (hf.split?_ne h hq)
    · split at heq
      · exact absurd heq (hf.split?_ne h hp)
      · exact heq
  have hsucc : ∀ p ∈ f.layout, f'.successors (if p = b then n else p) = f.successors p := by
    intro p hp
    split
    · next hpb => rw [hf.successors_split?_new h hk, hpb]
    · next hpb => exact hf.successors_split?_of_ne h hpb (hf.split?_ne h hp)
  refine Option.ext fun q => ?_
  rw [NaturalLoop.preheader?_eq_some_iff, Option.map_eq_some_iff]
  constructor
  · rintro ⟨hq, hsole⟩
    obtain ⟨p, hp, rfl⟩ := (houtside q).1 ((hsole q).2 rfl)
    refine ⟨p, NaturalLoop.preheader?_eq_some_iff.2 ⟨?_, fun a => ⟨fun ha => ?_, ?_⟩⟩, rfl⟩
    · rw [← hsucc p hp.2.1.1, hq]
    · exact hinj a p ha.2.1.1 hp.2.1.1 ((hsole _).1 ((houtside _).2 ⟨a, ha, rfl⟩))
    · rintro rfl
      exact hp
  · rintro ⟨p, hp, rfl⟩
    obtain ⟨hq, hsole⟩ := NaturalLoop.preheader?_eq_some_iff.1 hp
    have hmem := (hsole p).2 rfl
    refine ⟨(hsucc p hmem.2.1.1).trans hq, fun a => ?_⟩
    rw [houtside]
    constructor
    · rintro ⟨p', hp', rfl⟩
      rw [(hsole p').1 hp']
    · rintro rfl
      exact ⟨p, hmem, rfl⟩

theorem latch?_split? (hl : l ∈ naturalLoops f.graph.facts f.layout) :
    l.latch? f'.graph.facts = l.latch? f.graph.facts := by
  have hc := hf.cut h hk
  refine Option.ext fun t => ?_
  rw [NaturalLoop.latch?_eq_some_iff, NaturalLoop.latch?_eq_some_iff]
  refine forall_congr' fun a => iff_congr ?_ Iff.rfl
  rw [← and_assoc, ← and_assoc]
  refine and_congr_left fun ha => ?_
  obtain ⟨hab, han⟩ := ne_of_mem_blocks hf h hout hl ha
  rw [hc.reachable_old han, hc.edge_of_ne hab han]

omit hk in
theorem exit?_split? (hl : l ∈ naturalLoops f.graph.facts f.layout) :
    l.exit? f' = l.exit? f := by
  unfold NaturalLoop.exit?
  have hsucc : l.blocks.flatMap f'.successors = l.blocks.flatMap f.successors := by
    refine List.flatMap_congr fun a ha => ?_
    obtain ⟨hab, han⟩ := ne_of_mem_blocks hf h hout hl ha
    exact hf.successors_split?_of_ne h hab han
  rw [hsucc]

/-- If a block that is in no loop is split, the second part takes its place as a preheader, and this
is all that changes in the forest. -/
theorem loops_split? : f'.loops = f.loops.replacePreheader b n := by
  rw [loops_eq_of_naturalLoops (naturalLoops_split? hf h hk hout) fun l hl =>
    ⟨preheader?_split? hf h hk hout hl, latch?_split? hf h hk hout hl,
      exit?_split? hf h hout hl⟩]
  refine congrArg LoopForest.mk (List.map_congr_left fun r _ => ?_)
  obtain ⟨header, blocks, parent, children, depth, preheader, latch, exit⟩ := r
  cases preheader with
  | none => rfl
  | some p => by_cases hp : p = b <;> simp [hp]

end Unlooped

end Func

/-! ### Isolated preheaders -/

namespace LoopForest

variable {w w' : Workspace} {i : Nat} {q : BlockId} {n' : LoopForest}

/-- The preheader of a loop is isolated once and for all: the forest that is returned is the forest
of the function that is returned, it names the preheader, which is not the entry, and to isolate the
preheader of that loop again changes nothing. -/
theorem isolatePreheader_fresh (hf : w.func.WellFormed)
    (h : w.func.loops.isolatePreheader w i = .ok (q, n', w')) :
    n' = w'.func.loops ∧ (∃ l, n'.loop? i = some l ∧ l.preheader = some q) ∧
      w'.func.entry? ≠ some q ∧ n'.isolatePreheader w' i = .ok (q, n', w') := by
  have hflow := hf.toFlowing
  obtain ⟨l, p, hl, hp, ⟨hne, rfl, rfl, rfl⟩ | ⟨he, f, hsplit, rfl, rfl⟩⟩ :=
    Workspace.isolatePreheader_cases h
  · exact ⟨rfl, ⟨l, hl, hp⟩, hne, h⟩
  · have hout : ∀ a, ¬ w.func.graph.InLoop a p := fun a => hflow.not_inLoop_entry he
    have hpos := List.length_pos_iff.2 (hflow.blockInsts_ne_nil (List.mem_of_head? he))
    have hk := Nat.sub_lt hpos Nat.one_pos
    have hnext : (w.func.loops.replacePreheader p q).loop? i =
        some { l with preheader := some q } := by
      rw [replacePreheader, loop?, List.getElem?_map, ← loop?, hl, Option.map_some, if_pos hp]
    have hne : f.entry? ≠ some q := by
      rw [hflow.entry?_split? hsplit]
      exact fun hq => hflow.split?_not_mem hsplit (List.mem_of_head? hq)
    exact ⟨(Func.loops_split? hflow hsplit hk hout).symm, ⟨_, hnext, rfl⟩, hne,
      isolatePreheader_eq_self hnext rfl hne.symm⟩

/-- The preheader of the loop around two others is the entry, and becomes a block of its own. -/
theorem isolatePreheader_fresh_twoInside : Func.twoInside.WellFormed ∧
    ∃ n' w', Func.twoInside.loops.isolatePreheader ⟨.twoInside, .zero⟩ 0 = .ok (⟨6⟩, n', w') ∧
      n'.loops.length = 3 ∧ n' = w'.func.loops ∧ w'.func.entry? ≠ some ⟨6⟩ ∧
      n'.isolatePreheader w' 0 = .ok (⟨6⟩, n', w') := by
  have hf : Func.twoInside.WellFormed := by decide
  have hresult : ((Func.twoInside.loops.isolatePreheader ⟨.twoInside, .zero⟩ 0).map fun r =>
      (r.1, r.2.1.loops.length)) = .ok (⟨6⟩, 3) := by decide +kernel
  cases h : Func.twoInside.loops.isolatePreheader ⟨.twoInside, .zero⟩ 0 with
  | error e =>
      rw [h] at hresult
      cases hresult
  | ok r =>
      obtain ⟨q, n', w'⟩ := r
      rw [h] at hresult
      obtain ⟨rfl, hlength⟩ := Prod.mk.inj (Except.ok.inj hresult)
      obtain ⟨hfresh, -, hne, hagain⟩ := isolatePreheader_fresh (w := ⟨.twoInside, .zero⟩) hf h
      exact ⟨hf, n', w', rfl, hlength, hfresh, hne, hagain⟩

end LoopForest

end LoopSwap
