/-
**The loops do not depend on the order of the layout.**

Moves of blocks change the layout and with it every number that the analysis works with: the order
of the search, of the predecessors, of the headers and of the blocks of each loop.  What is found
does not depend on these.  A loop is a set of blocks given by ways in the graph, its parent is the
closest loop around its header, its children are the loops whose parent it is, and its depth is one
more than that of its parent.  All of this can be said by headers, without numbers, and so it is the
same for two functions that agree.

Only the numbers of the loops and the order of blocks and of children change.

Main definitions:

* `LoopSwap.LoopForest.header?` — the header of a loop by its number;
* `LoopSwap.Loop.Reordered`, `LoopSwap.LoopForest.Reordered` — the same loops with other numbers and
  in another order.

Main results:

* `LoopSwap.Func.header_parent_eq_some_iff`, `LoopSwap.Func.mem_header_childrenOf` — parents and
  children by headers;
* `LoopSwap.Func.Agrees.depth_eq` — the depth of a loop depends on what is around its header;
* `LoopSwap.Func.Agrees.reordered_loops` — functions that agree have the same loops;
* `LoopSwap.Func.loops_moveAll` — moves keep the loops.
-/

import LoopSwap.Proofs.Code.Edits
import LoopSwap.Proofs.Loop.Agreement
import LoopSwap.Proofs.Loop.Renaming

set_option relaxedAutoImplicit false
set_option autoImplicit false

namespace LoopSwap

/-! ### Forests up to order -/

/-- The header of the loop at a place. -/
def LoopForest.header? (n : LoopForest) (i : Nat) : Option BlockId := (n.loop? i).map (·.header)

/-- The loop `l` of the forest `n` and the loop `l'` of `n'` differ in the numbers of other loops
and in order only. -/
structure Loop.Reordered (n n' : LoopForest) (l l' : Loop) : Prop where
  header : l'.header = l.header
  blocks : l'.blocks.Perm l.blocks
  parent : l'.parent.map n'.header? = l.parent.map n.header?
  children : (l'.children.map n'.header?).Perm (l.children.map n.header?)
  depth : l'.depth = l.depth
  preheader : l'.preheader = l.preheader
  latch : l'.latch = l.latch
  exit : l'.exit = l.exit

/-- `n'` has the loops of `n`, with other numbers and in another order. -/
structure LoopForest.Reordered (n n' : LoopForest) : Prop where
  headers : (n'.loops.map (·.header)).Perm (n.loops.map (·.header))
  loops : ∀ l ∈ n.loops, ∀ l' ∈ n'.loops, l'.header = l.header → l.Reordered n n' l'

namespace Func

/-! ### Parents and children by headers -/

section

variable {f : Func} {i : Nat} {n : NaturalLoop} {c : Nested} {h p : BlockId} {depth : Nat}

/-- The parent of a loop has the header of the closest loop around it. -/
theorem header_parent_eq_some_iff (hf : f.layout.Nodup) (hc : c ∈ f.nested) :
    c.parent.map (·.header) = some p ↔ f.graph.Encloses p c.loop.header := by
  rw [Option.map_eq_some_iff]
  constructor
  · rintro ⟨o, ho, rfl⟩
    obtain ⟨q, hq, rfl⟩ := (isForest_nested hf).parent_mem c hc o ho
    exact (nested_parent_eq_some_iff hf hc hq).1 ho
  · intro henc
    obtain ⟨n, hn, rfl⟩ := exists_naturalLoop henc.2.1.header
    obtain ⟨q, hq, rfl⟩ := exists_nested hn
    exact ⟨q.loop, (nested_parent_eq_some_iff hf hc hq).2 henc, rfl⟩

/-- The children of a loop are the loops to which it is closest. -/
theorem mem_header_childrenOf (hf : f.layout.Nodup) (hc : c ∈ f.nested) :
    h ∈ (childrenOf f.nested (some c.loop)).map (·.loop.header) ↔
      f.graph.InLoop h h ∧ f.graph.Encloses c.loop.header h := by
  rw [List.mem_map]
  constructor
  · rintro ⟨d, hd, rfl⟩
    obtain ⟨hd, hparent⟩ := mem_childrenOf.1 hd
    have hheader : d.loop.header ∈ f.headers := List.mem_map_of_mem (exists_of_mem_nested hd).1
    exact ⟨mem_headers.1 hheader, (nested_parent_eq_some_iff hf hd hc).1 hparent⟩
  · rintro ⟨hh, henc⟩
    obtain ⟨n, hn, rfl⟩ := exists_naturalLoop hh
    obtain ⟨d, hd, rfl⟩ := exists_nested hn
    exact ⟨d, mem_childrenOf.2 ⟨hd, (nested_parent_eq_some_iff hf hd hc).2 henc⟩, rfl⟩

theorem nodup_header_childrenOf (hf : f.layout.Nodup) (o : Option NaturalLoop) :
    ((childrenOf f.nested o).map (·.loop.header)).Nodup := by
  have hsub : ((childrenOf f.nested o).map (·.loop.header)).Sublist f.headers := by
    rw [← map_header_nested]
    exact List.filter_sublist.map _
  exact (nodup_headers hf).sublist hsub

/-! ### Numbers by headers -/

theorem header?_of_place? (h : f.place? n = some i) : f.loops.header? i = some n.header := by
  obtain ⟨hlt, heq, -⟩ := List.findIdx?_eq_some_iff_getElem.1 h
  obtain rfl := of_decide_eq_true heq
  have hi := loop?_eq_some_iff.2 ⟨_, _, List.getElem?_eq_getElem hlt, rfl⟩
  rw [LoopForest.header?, hi]
  rfl

/-- Every loop has a number. -/
theorem exists_place? (hf : f.layout.Nodup) (hn : n ∈ naturalLoops f.graph.facts f.layout) :
    ∃ i, f.place? n = some i := by
  obtain ⟨i, -, -, hi, -⟩ := exists_record hf hn
  exact ⟨i, hi⟩

theorem map_place? (hf : f.layout.Nodup) (hn : n ∈ naturalLoops f.graph.facts f.layout) :
    (f.place? n).map f.loops.header? = some (some n.header) := by
  obtain ⟨i, hi⟩ := exists_place? hf hn
  rw [hi, Option.map_some, header?_of_place? hi]

theorem header?_parent_record (hf : f.layout.Nodup) (hc : c ∈ f.nested) :
    (f.record depth c).parent.map f.loops.header? = (c.parent.map (·.header)).map some := by
  show (c.parent.bind f.place?).map f.loops.header? = _
  cases ho : c.parent with
  | none => rfl
  | some o =>
      obtain ⟨q, hq, rfl⟩ := (isForest_nested hf).parent_mem c hc o ho
      exact map_place? hf (exists_of_mem_nested hq).1

theorem header?_children_record (hf : f.layout.Nodup) : (f.record depth c).children.map
    f.loops.header? = ((childrenOf f.nested (some c.loop)).map (·.loop.header)).map some := by
  show ((childrenOf f.nested (some c.loop)).filterMap fun d => f.place? d.loop).map
    f.loops.header? = _
  rw [List.map_filterMap, List.map_map, ← List.filterMap_eq_map]
  refine List.filterMap_congr fun d hd => ?_
  exact map_place? hf (exists_of_mem_nested (mem_childrenOf.1 hd).1).1

theorem header_loops_perm (hf : f.layout.Nodup) :
    (f.loops.loops.map (·.header)).Perm f.headers := by
  have hmap : f.loops.loops.map (·.header) =
      ((preorder f.nested).map (·.2)).map (·.loop.header) := by
    rw [loops_eq_map, List.map_map, List.map_map]
    rfl
  rw [hmap, ← map_header_nested]
  exact (isForest_nested hf).preorder_perm.map _

end

/-! ### Functions that agree -/

namespace Agrees

variable {f g : Func} (hg : f.Agrees g) (hf : f.layout.Nodup) (hf' : g.layout.Nodup)

include hg

theorem encloses_iff {p h : BlockId} : g.graph.Encloses p h ↔ f.graph.Encloses p h := by
  simp only [FlowGraph.Encloses, hg.graph.inLoop_iff]

include hf hf'

theorem headers_perm : g.headers.Perm f.headers := by
  refine (List.perm_ext_iff_of_nodup (nodup_headers hf') (nodup_headers hf)).2 fun h => ?_
  rw [mem_headers, mem_headers, hg.graph.inLoop_iff]

section

variable {c d : Nested} (hc : c ∈ f.nested) (hd : d ∈ g.nested)
  (hheader : d.loop.header = c.loop.header)

include hc hd hheader

theorem header_parent_eq : d.parent.map (·.header) = c.parent.map (·.header) := by
  refine Option.ext fun p => ?_
  rw [header_parent_eq_some_iff hf' hd, header_parent_eq_some_iff hf hc, hheader, hg.encloses_iff]

theorem header_childrenOf_perm : ((childrenOf g.nested (some d.loop)).map (·.loop.header)).Perm
    ((childrenOf f.nested (some c.loop)).map (·.loop.header)) := by
  refine (List.perm_ext_iff_of_nodup (nodup_header_childrenOf hf' _)
    (nodup_header_childrenOf hf _)).2 fun h => ?_
  rw [mem_header_childrenOf hf' hd, mem_header_childrenOf hf hc, hheader, hg.encloses_iff,
    hg.graph.inLoop_iff]

end

/-- Loops with the same header are at the same depth. -/
theorem depth_eq {e e' : Nat × Nested} (he : e ∈ preorder f.nested) (he' : e' ∈ preorder g.nested)
    (hheader : e'.2.loop.header = e.2.loop.header) : e'.1 = e.1 := by
  -- the induction goes up from a loop to its parent
  induction hn : e.1 generalizing e e' with
  | zero =>
      rcases depth_preorder he with ⟨-, hone⟩ | ⟨p, -, -, hp⟩ <;> omega
  | succ n ih =>
      have hup := hg.header_parent_eq hf hf' (mem_of_mem_preorder he) (mem_of_mem_preorder he')
        hheader
      rcases depth_preorder he with ⟨hparent, hdepth⟩ | ⟨p, hp, hparent, hdepth⟩
      · rcases depth_preorder he' with ⟨-, hdepth'⟩ | ⟨p', -, hparent', -⟩
        · omega
        · rw [hparent, hparent'] at hup
          cases hup
      · rcases depth_preorder he' with ⟨hparent', -⟩ | ⟨p', hp', hparent', hdepth'⟩
        · rw [hparent, hparent'] at hup
          cases hup
        · rw [hparent, hparent'] at hup
          have hsame := ih hp hp' (Option.some.inj hup) (by omega)
          omega

/-- Functions that agree have the same loops, up to their order. -/
theorem reordered_loops : f.loops.Reordered g.loops := by
  have hheaders := (hg.headers_perm hf hf').trans (header_loops_perm hf).symm
  refine ⟨(header_loops_perm hf').trans hheaders, fun l hl l' hl' hheader => ?_⟩
  obtain ⟨e, he, rfl⟩ := List.mem_map.1 hl
  obtain ⟨e', he', rfl⟩ := List.mem_map.1 hl'
  have hc := mem_of_mem_preorder he
  have hd := mem_of_mem_preorder he'
  have hn := (exists_of_mem_nested hc).1
  have hn' := (exists_of_mem_nested hd).1
  refine ⟨hheader, ?_, ?_, ?_, hg.depth_eq hf hf' he he' hheader, hg.preheader?_eq hn hn' hheader,
    hg.latch?_eq hn hn' hheader, hg.exit?_eq hn hn' hheader⟩
  · exact (List.perm_ext_iff_of_nodup (nodup_blocks hf' hn') (nodup_blocks hf hn)).2 fun b =>
      hg.mem_blocks_iff hn hn' hheader
  · show (g.record e'.1 e'.2).parent.map _ = (f.record e.1 e.2).parent.map _
    rw [header?_parent_record hf' hd, header?_parent_record hf hc,
      hg.header_parent_eq hf hf' hc hd hheader]
  · show ((g.record e'.1 e'.2).children.map _).Perm ((f.record e.1 e.2).children.map _)
    rw [header?_children_record hf', header?_children_record hf]
    exact (hg.header_childrenOf_perm hf hf' hc hd hheader).map _

end Agrees

/-! ### Moves -/

variable {f g : Func}

/-- The order of the blocks is not seen by the graph. -/
theorem Reordered.agrees (h : f.Reordered g) : f.Agrees g := by
  refine ⟨⟨h.entry, fun e _ => h.mem_layout, fun a _ b => ?_⟩, fun a _ => h.successors a⟩
  show a ∈ g.layout ∧ b ∈ g.layout ∧ b ∈ g.successors a ↔
    a ∈ f.layout ∧ b ∈ f.layout ∧ b ∈ f.successors a
  rw [h.mem_layout, h.mem_layout, h.successors]

/-- **The loops do not depend on the order of the layout.**  After any moves that end with the entry
in front there are loops with the same headers, and loops with the same header have the same blocks,
parents and children with the same headers, the same depth and the same connecting blocks. -/
theorem loops_moveAll (hf : f.layout.Nodup) (moves : List Move)
    (h : entry? (f.moveAll moves) = f.entry?) : f.loops.Reordered (f.moveAll moves).loops := by
  have hreordered := Reordered.moveAll h
  exact hreordered.agrees.reordered_loops hf (hreordered.layout.nodup_iff.2 hf)

/-- The entry is moved away and back, the inner loops change places, and the header around them
moves to the end. -/
def swapInside : List Move :=
  [.toEnd ⟨0⟩, .before ⟨3⟩ ⟨2⟩, .before ⟨0⟩ ⟨1⟩, .toEnd ⟨1⟩]

/-- The numbers of the inner loops are exchanged, and nothing else happens. -/
theorem loops_moveAll_swapInside : twoInside.layout.Nodup ∧
    entry? (twoInside.moveAll swapInside) = twoInside.entry? ∧
    twoInside.loops.loops.map (·.header) = [⟨1⟩, ⟨2⟩, ⟨3⟩] ∧
    (twoInside.moveAll swapInside).loops.loops.map (·.header) = [⟨1⟩, ⟨3⟩, ⟨2⟩] ∧
    twoInside.loops.Reordered (twoInside.moveAll swapInside).loops := by
  have hf : twoInside.layout.Nodup := by decide
  have hentry : entry? (twoInside.moveAll swapInside) = twoInside.entry? := by decide
  exact ⟨hf, hentry, by decide +kernel, by decide +kernel, loops_moveAll hf swapInside hentry⟩

end Func

end LoopSwap
