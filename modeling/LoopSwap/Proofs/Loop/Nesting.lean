/-
**Loops are nested or apart.**

Two loops with a common block are nested: going backwards from that block to one of the two headers,
one stays in the other loop or passes its header.  So the loops around a block form a chain, and the
header alone decides whether one loop is part of another.  This is why it is enough to look at sizes
and headers to find a parent: the loops around a header differ in size, and the smallest of them is
part of all others (`Func.enclosing?_eq_some_iff`).

In the preorder a parent stands before its children, so that the way up by places ends, and it meets
all loops that contain the header one starts from (`Func.isWithin_iff_header_mem`).

Main definitions:

* `LoopSwap.Loop.Inside` — the blocks of a loop are among those of another, which has more.
* `LoopSwap.ParentsFirst` — a list of loops in which parents stand before their children.

Main results:

* `LoopSwap.FlowGraph.InLoop.header_or` — two loops with a common node are nested;
* `LoopSwap.Func.parent_lt` — the place of a parent is before that of the child;
* `LoopSwap.Func.parent_eq_some_iff` — the parent is the smallest loop around a loop;
* `LoopSwap.Func.loops_laminar` — nesting is containment, and containment is in order.
-/

import LoopSwap.Proofs.Loop.Preorder
import Mathlib.Data.List.Perm.Subperm

set_option relaxedAutoImplicit false
set_option autoImplicit false

namespace LoopSwap

/-! ### A common node -/

/-- Of two loops with a common node, one contains the header of the other. -/
theorem FlowGraph.InLoop.header_or {α : Type} {g : FlowGraph α} {h h' b : α} (hb : g.InLoop h b)
    (hb' : g.InLoop h' b) : g.InLoop h h' ∨ g.InLoop h' h := by
  have key : ∀ x, ReachVia g.Edge (g.InLoop h') x b → g.InLoop h' x →
      g.InLoop h x ∨ g.InLoop h' h := by
    intro x hx
    induction hx using Relation.ReflTransGen.head_induction_on with
    | refl => exact fun _ => Or.inl hb
    | @head x y hxy _ ih =>
        intro hx'
        rcases ih hxy.2 with hy | hout
        · by_cases hyh : y = h
          · exact Or.inr (hyh ▸ hxy.2)
          · exact Or.inl (hy.pred hyh hx'.reachable hxy.1)
        · exact Or.inr hout
  exact key h' hb'.from_header hb'.header

/-! ### Parents stand first -/

/-- Every loop of the list has its parent before it, unless the parent is `o`. -/
def ParentsFirst (o : Option NaturalLoop) (xs : List Nested) : Prop :=
  ∀ (i : Nat) (c : Nested), xs[i]? = some c →
    c.parent = o ∨ ∃ j < i, ∃ p, xs[j]? = some p ∧ c.parent = some p.loop

namespace ParentsFirst

variable {o : Option NaturalLoop} {xs ys : List Nested} {all : List Nested} {l : Nested}

theorem nil (o : Option NaturalLoop) : ParentsFirst o [] := by
  intro i c hc
  simp at hc

/-- A loop can be put in front of those below it. -/
theorem cons (h : ParentsFirst (some l.loop) xs) : ParentsFirst l.parent (l :: xs) := by
  intro i c hc
  cases i with
  | zero =>
      cases hc
      exact Or.inl rfl
  | succ i =>
      rcases h i c hc with hparent | ⟨j, hj, p, hp, hparent⟩
      · exact Or.inr ⟨0, Nat.succ_pos i, l, rfl, hparent⟩
      · exact Or.inr ⟨j + 1, Nat.succ_lt_succ hj, p, hp, hparent⟩

theorem append (hx : ParentsFirst o xs) (hy : ParentsFirst o ys) : ParentsFirst o (xs ++ ys) := by
  intro i c hc
  by_cases hi : i < xs.length
  · rw [List.getElem?_append_left hi] at hc
    rcases hx i c hc with hparent | ⟨j, hj, p, hp, hparent⟩
    · exact Or.inl hparent
    · refine Or.inr ⟨j, hj, p, ?_, hparent⟩
      rw [List.getElem?_append_left (Nat.lt_trans hj hi)]
      exact hp
  · rw [List.getElem?_append_right (Nat.le_of_not_lt hi)] at hc
    rcases hy _ c hc with hparent | ⟨j, hj, p, hp, hparent⟩
    · exact Or.inl hparent
    · refine Or.inr ⟨xs.length + j, by omega, p, ?_, hparent⟩
      rw [List.getElem?_append_right (Nat.le_add_right _ _), Nat.add_sub_cancel_left]
      exact hp

theorem flatMap {cs : List Nested} {k : Nested → List Nested}
    (h : ∀ c ∈ cs, ParentsFirst o (k c)) : ParentsFirst o (cs.flatMap k) := by
  induction cs with
  | nil => exact nil o
  | cons c cs ih =>
      rw [List.flatMap_cons]
      exact (h c List.mem_cons_self).append (ih fun d hd => h d (List.mem_cons_of_mem _ hd))

theorem descend (all : List Nested) (depth : Nat) (l : Nested) :
    ParentsFirst l.parent ((descend all depth l).map (·.2)) := by
  fun_induction LoopSwap.descend all depth l with
  | case1 depth l ih =>
      rw [← LoopSwap.descend, descend_eq, List.map_cons, List.map_flatMap]
      refine cons (flatMap fun c hc => ?_)
      have hsub := ih ⟨c, hc⟩
      rw [(mem_childrenOf.1 hc).2] at hsub
      exact hsub

theorem preorder (all : List Nested) : ParentsFirst none ((preorder all).map (·.2)) := by
  unfold LoopSwap.preorder
  rw [List.map_flatMap]
  refine flatMap fun c hc => ?_
  have hdown := descend all 1 c
  rw [(mem_childrenOf.1 hc).2] at hdown
  exact hdown

end ParentsFirst

/-! ### Parents -/

theorem smallest?_eq_none_iff {ls : List NaturalLoop} : smallest? ls = none ↔ ls = [] := by
  cases ls with
  | nil => simp [smallest?]
  | cons l ls =>
      simp only [smallest?, List.cons_ne_nil, iff_false]
      split
      · exact Option.some_ne_none l
      · split <;> exact Option.some_ne_none _

namespace Func

variable {f : Func} {i j : Nat} {l m : Loop} {n o : NaturalLoop}

/-- A loop with another header in it is larger. -/
theorem size_lt_of_header_mem (hl : f.layout.Nodup)
    (hn : n ∈ naturalLoops f.graph.facts f.layout) (ho : o ∈ naturalLoops f.graph.facts f.layout)
    (hne : o ≠ n) (h : n.header ∈ o.blocks) : n.size < o.size := by
  have hheader := (mem_blocks_iff ho).1 h
  have hne' : n.header ≠ o.header := fun heq => hne (eq_of_header_eq ho hn heq.symm)
  have hout : o.header ∉ n.blocks := fun hmem =>
    hheader.not_inLoop_header hne' ((mem_blocks_iff hn).1 hmem)
  -- the blocks of the one loop and the header of the other are blocks of the other
  have hsub : o.header :: n.blocks ⊆ o.blocks := by
    refine List.cons_subset.2 ⟨(header_mem_of_mem_naturalLoops ho).2, fun b hb => ?_⟩
    exact (mem_blocks_iff ho).2 (hheader.subset hne' ((mem_blocks_iff hn).1 hb))
  exact (List.Nodup.subperm (List.nodup_cons.2 ⟨hout, nodup_blocks hl hn⟩) hsub).length_le

/-- Among the loops around a header the parent is chosen. -/
theorem mem_larger_iff (hl : f.layout.Nodup) (hn : n ∈ naturalLoops f.graph.facts f.layout) :
    o ∈ (naturalLoops f.graph.facts f.layout).filter
        (fun o => decide (n.size < o.size) && decide (n.header ∈ o.blocks)) ↔
      o ∈ naturalLoops f.graph.facts f.layout ∧ o ≠ n ∧ n.header ∈ o.blocks := by
  simp only [List.mem_filter, Bool.and_eq_true, decide_eq_true_eq]
  refine and_congr_right fun ho => ⟨fun ⟨hlt, hmem⟩ => ⟨?_, hmem⟩, fun ⟨hne, hmem⟩ =>
    ⟨size_lt_of_header_mem hl hn ho hne hmem, hmem⟩⟩
  rintro rfl
  exact Nat.lt_irrefl _ hlt

/-- The parent is the loop around a header that is part of all the others. -/
theorem enclosing?_eq_some_iff (hl : f.layout.Nodup)
    (hn : n ∈ naturalLoops f.graph.facts f.layout) :
    enclosing? (naturalLoops f.graph.facts f.layout) n = some o ↔
      o ∈ naturalLoops f.graph.facts f.layout ∧ o ≠ n ∧ n.header ∈ o.blocks ∧
        ∀ k ∈ naturalLoops f.graph.facts f.layout, k ≠ n → n.header ∈ k.blocks →
          o.header ∈ k.blocks := by
  have hfound : ∀ {o}, enclosing? (naturalLoops f.graph.facts f.layout) n = some o →
      (o ∈ naturalLoops f.graph.facts f.layout ∧ o ≠ n ∧ n.header ∈ o.blocks) ∧
        ∀ k ∈ naturalLoops f.graph.facts f.layout, k ≠ n → n.header ∈ k.blocks →
          o.header ∈ k.blocks := by
    intro o h
    obtain ⟨ho, hne, hmem⟩ := (mem_larger_iff hl hn).1 (smallest?_mem h)
    refine ⟨⟨ho, hne, hmem⟩, fun k hk hkn hmem' => ?_⟩
    rcases ((mem_blocks_iff hk).1 hmem').header_or ((mem_blocks_iff ho).1 hmem) with hin | hin
    · exact (mem_blocks_iff hk).2 hin
    · by_cases hko : k = o
      · exact hko ▸ (header_mem_of_mem_naturalLoops ho).2
      · -- otherwise the other loop would be the smaller one
        have hle := smallest?_size_le h k ((mem_larger_iff hl hn).2 ⟨hk, hkn, hmem'⟩)
        have hlt := size_lt_of_header_mem hl hk ho (Ne.symm hko) ((mem_blocks_iff ho).2 hin)
        exact absurd hle (Nat.not_le_of_lt hlt)
  constructor
  · intro h
    obtain ⟨⟨ho, hne, hmem⟩, hleast⟩ := hfound h
    exact ⟨ho, hne, hmem, hleast⟩
  · rintro ⟨ho, hne, hmem, hleast⟩
    cases hp : enclosing? (naturalLoops f.graph.facts f.layout) n with
    | none =>
        have hcand := (mem_larger_iff hl hn).2 ⟨ho, hne, hmem⟩
        rw [enclosing?, smallest?_eq_none_iff] at hp
        rw [hp] at hcand
        cases hcand
    | some o' =>
        obtain ⟨⟨ho', hne', hmem'⟩, hleast'⟩ := hfound hp
        by_contra hdiff
        have hheader : o.header ≠ o'.header := fun heq =>
          hdiff (congrArg some (eq_of_header_eq ho' ho heq.symm))
        have hin := (mem_blocks_iff ho').1 (hleast o' ho' hne' hmem')
        exact hin.not_inLoop_header hheader ((mem_blocks_iff ho).1 (hleast' o ho hne hmem))

theorem enclosing?_eq_none_iff (hl : f.layout.Nodup)
    (hn : n ∈ naturalLoops f.graph.facts f.layout) :
    enclosing? (naturalLoops f.graph.facts f.layout) n = none ↔
      ∀ o ∈ naturalLoops f.graph.facts f.layout, o ≠ n → n.header ∉ o.blocks := by
  rw [enclosing?, smallest?_eq_none_iff, List.eq_nil_iff_forall_not_mem]
  refine forall_congr' fun o => ?_
  rw [mem_larger_iff hl hn]
  exact ⟨fun h ho hne hmem => h ⟨ho, hne, hmem⟩, fun h ⟨ho, hne, hmem⟩ => h ho hne hmem⟩

/-! ### Records -/

/-- The record of a natural loop. -/
theorem exists_record (hl : f.layout.Nodup) (hn : n ∈ naturalLoops f.graph.facts f.layout) :
    ∃ i l, f.loops.loop? i = some l ∧ f.place? n = some i ∧
      (⟨l.header, l.blocks⟩ : NaturalLoop) = n := by
  obtain ⟨i, l, hi, hheader⟩ := exists_loop? hl hn
  obtain ⟨depth, c, hc, rfl⟩ := loop?_eq_some_iff.1 hi
  obtain rfl : c.loop = n := eq_of_header_eq (loop_mem_of_place hc) hn hheader
  have hsome : (f.place? c.loop).isSome = true := by
    rw [place?, List.findIdx?_isSome, List.any_eq_true]
    exact ⟨_, List.mem_of_getElem? hc, decide_eq_true rfl⟩
  obtain ⟨j, hj⟩ := Option.isSome_iff_exists.1 hsome
  obtain ⟨hlt, heq, -⟩ := List.findIdx?_eq_some_iff_getElem.1 hj
  exact ⟨j, _, loop?_eq_some_iff.2 ⟨_, _, List.getElem?_eq_getElem hlt, rfl⟩, hj,
    of_decide_eq_true heq⟩

/-- A parent stands before its children. -/
theorem parent_lt (hi : f.loops.loop? i = some l) (hp : l.parent = some j) : j < i := by
  obtain ⟨depth, c, hc, rfl⟩ := loop?_eq_some_iff.1 hi
  obtain ⟨o, ho, hj⟩ := Option.bind_eq_some_iff.1 hp
  rcases ParentsFirst.preorder f.nested i c (getElem?_ordered hc) with
    hnone | ⟨k, hk, p, hpk, hparent⟩
  · rw [hnone] at ho
    cases ho
  · obtain rfl := Option.some.inj (ho.symm.trans hparent)
    -- the place of a loop is the first at which it stands
    obtain ⟨hlt, -, hfirst⟩ := List.findIdx?_eq_some_iff_getElem.1 hj
    rw [List.getElem?_map, Option.map_eq_some_iff] at hpk
    obtain ⟨x, hx, rfl⟩ := hpk
    obtain ⟨hlen, hxk⟩ := List.getElem?_eq_some_iff.1 hx
    by_contra hge
    have hno := hfirst k (by omega)
    rw [hxk] at hno
    exact hno (decide_eq_true rfl)

/-- The parent of a loop is the loop around its header that is part of all the others. -/
theorem parent_eq_some_iff (hl : f.layout.Nodup) (hi : f.loops.loop? i = some l) :
    l.parent = some j ↔ ∃ m, f.loops.loop? j = some m ∧ j ≠ i ∧ l.header ∈ m.blocks ∧
      ∀ k n, f.loops.loop? k = some n → k ≠ i → l.header ∈ n.blocks → m.header ∈ n.blocks := by
  obtain ⟨depth, c, hc, rfl⟩ := loop?_eq_some_iff.1 hi
  have hmem := loop_mem_of_place hc
  have hparent : (f.record depth c).parent =
      (enclosing? (naturalLoops f.graph.facts f.layout) c.loop).bind f.place? := by
    rw [← parent_of_place hc]
    rfl
  -- records with the header of the loop are at its place
  have hplace : ∀ {k n}, f.loops.loop? k = some n → (k = i ↔ n.header = c.loop.header) := by
    intro k n hk
    constructor
    · rintro rfl
      rw [hi] at hk
      cases hk
      rfl
    · exact fun h => loop?_inj hl hk hi h
  rw [hparent, Option.bind_eq_some_iff]
  constructor
  · rintro ⟨o, ho, hj⟩
    obtain ⟨ho, hne, hin, hleast⟩ := (enclosing?_eq_some_iff hl hmem).1 ho
    obtain ⟨j', m, hm, hj', rfl⟩ := exists_record hl ho
    obtain rfl := Option.some.inj (hj'.symm.trans hj)
    refine ⟨m, hm, fun hji => hne (eq_of_header_eq ho hmem ((hplace hm).1 hji)), hin,
      fun k n hk hki hkn => ?_⟩
    have hn := (describes_loop? hk).mem_naturalLoops
    exact hleast _ hn (fun heq => hki ((hplace hk).2 (congrArg NaturalLoop.header heq))) hkn
  · rintro ⟨m, hm, hji, hin, hleast⟩
    have ho := (describes_loop? hm).mem_naturalLoops
    obtain ⟨j', m', hm', hj', heq⟩ := exists_record hl ho
    obtain rfl : j' = j := loop?_inj hl hm' hm (congrArg NaturalLoop.header heq)
    refine ⟨_, (enclosing?_eq_some_iff hl hmem).2 ⟨ho, fun heq => ?_, hin, ?_⟩, hj'⟩
    · exact hji ((hplace hm).2 (congrArg NaturalLoop.header heq))
    · intro k hk hkn hkin
      obtain ⟨k', n, hk', -, rfl⟩ := exists_record hl hk
      exact hleast k' n hk' (fun hki => hkn (eq_of_header_eq hk hmem ((hplace hk').1 hki))) hkin

/-- A loop has no parent if its header is in no other loop. -/
theorem parent_eq_none_iff (hl : f.layout.Nodup) (hi : f.loops.loop? i = some l) :
    l.parent = none ↔ ∀ k n, f.loops.loop? k = some n → k ≠ i → l.header ∉ n.blocks := by
  obtain ⟨depth, c, hc, rfl⟩ := loop?_eq_some_iff.1 hi
  have hmem := loop_mem_of_place hc
  constructor
  · intro hnone k n hk hki hin
    have hparent : (enclosing? (naturalLoops f.graph.facts f.layout) c.loop).bind f.place? =
        none := by
      rw [← parent_of_place hc]
      exact hnone
    have hn := (describes_loop? hk).mem_naturalLoops
    -- some loop is around the header, so one of them is chosen, and it has a place
    cases ho : enclosing? (naturalLoops f.graph.facts f.layout) c.loop with
    | none =>
        refine (enclosing?_eq_none_iff hl hmem).1 ho _ hn (fun heq => hki ?_) hin
        exact loop?_inj hl hk hi (congrArg NaturalLoop.header heq)
    | some o =>
        obtain ⟨j, m, -, hj, -⟩ := exists_record hl ((enclosing?_eq_some_iff hl hmem).1 ho).1
        rw [ho, Option.bind_some, hj] at hparent
        cases hparent
  · intro hfree
    cases hp : (f.record depth c).parent with
    | none => rfl
    | some j =>
        obtain ⟨m, hm, hji, hin, -⟩ := (parent_eq_some_iff hl hi).1 hp
        exact absurd hin (hfree j m hm hji)

/-- The way up from a loop meets exactly the loops that contain its header. -/
theorem isWithin_iff_header_mem (hl : f.layout.Nodup) (hj : f.loops.loop? j = some m) :
    ∀ {i l}, f.loops.loop? i = some l → i ≠ j →
      (f.loops.isWithin i j = true ↔ l.header ∈ m.blocks) := by
  intro i
  -- the induction follows the way up, on which the places fall
  induction i using Nat.strongRecOn with
  | ind i ih =>
      intro l hi hij
      refine ⟨fun h => (nestedIn_of_isWithin hj h l hi).header_mem, fun hin => ?_⟩
      unfold LoopForest.isWithin
      rw [hi, Option.bind_some]
      cases hp : l.parent with
      | none => exact absurd hin ((parent_eq_none_iff hl hi).1 hp j m hj (Ne.symm hij))
      | some p =>
          obtain ⟨n, hn, -, -, hleast⟩ := (parent_eq_some_iff hl hi).1 hp
          have hlt := parent_lt hi hp
          have hup := hleast j m hj (Ne.symm hij) hin
          by_cases hpj : p = j
          · simp [hpj]
          · simp [hlt, (ih p hlt hn hpj).2 hup]

end Func

/-! ### Containment -/

/-- The blocks of `l` are blocks of `m`, and `m` has others. -/
def Loop.Inside (l m : Loop) : Prop := l.blocks ⊆ m.blocks ∧ ¬ m.blocks ⊆ l.blocks

namespace Func

variable {f : Func} {i j : Nat} {l m : Loop}

/-- Whether one loop is part of another can be seen from its header. -/
theorem inside_iff_header_mem (hl : f.layout.Nodup) (hi : f.loops.loop? i = some l)
    (hj : f.loops.loop? j = some m) (hij : i ≠ j) : l.Inside m ↔ l.header ∈ m.blocks := by
  have hdl := describes_loop? hi
  have hdm := describes_loop? hj
  have hne : l.header ≠ m.header := fun h => hij (loop?_inj hl hi hj h)
  have hself : ∀ {n : Loop}, f.Describes n → n.header ∈ n.blocks := fun hn =>
    (header_mem_of_mem_naturalLoops hn.mem_naturalLoops).2
  constructor
  · exact fun h => h.1 (hself hdl)
  · intro h
    have hheader := hdm.mem_blocks.1 h
    refine ⟨fun b hb => ?_, fun hsub => ?_⟩
    · exact hdm.mem_blocks.2 (hheader.subset hne (hdl.mem_blocks.1 hb))
    · exact hheader.not_inLoop_header hne (hdl.mem_blocks.1 (hsub (hself hdm)))

/-- Two loops have no block in common, or one is part of the other. -/
theorem disjoint_or_inside (hl : f.layout.Nodup) (hi : f.loops.loop? i = some l)
    (hj : f.loops.loop? j = some m) (hij : i ≠ j) :
    l.blocks.Disjoint m.blocks ∨ l.Inside m ∨ m.Inside l := by
  have hdl := describes_loop? hi
  have hdm := describes_loop? hj
  by_cases hcommon : ∃ b, b ∈ l.blocks ∧ b ∈ m.blocks
  · obtain ⟨b, hbl, hbm⟩ := hcommon
    rcases (hdl.mem_blocks.1 hbl).header_or (hdm.mem_blocks.1 hbm) with hin | hin
    · exact Or.inr (Or.inr ((inside_iff_header_mem hl hj hi (Ne.symm hij)).2
        (hdl.mem_blocks.2 hin)))
    · exact Or.inr (Or.inl ((inside_iff_header_mem hl hi hj hij).2 (hdm.mem_blocks.2 hin)))
  · exact Or.inl fun b hbl hbm => hcommon ⟨b, hbl, hbm⟩

/-- The parent of a loop is the only smallest one that it is part of. -/
theorem parent_eq_some_iff_inside (hl : f.layout.Nodup) (hi : f.loops.loop? i = some l) :
    l.parent = some j ↔ ∃ m, f.loops.loop? j = some m ∧ l.Inside m ∧
      ∀ k n, f.loops.loop? k = some n → l.Inside n → k = j ∨ m.Inside n := by
  have hself : ∀ {k n}, f.loops.loop? k = some n → l.Inside n → k ≠ i := by
    rintro k n hk hin rfl
    rw [hi] at hk
    cases hk
    exact hin.2 (List.Subset.refl _)
  rw [parent_eq_some_iff hl hi]
  constructor
  · rintro ⟨m, hj, hji, hin, hleast⟩
    refine ⟨m, hj, (inside_iff_header_mem hl hi hj (Ne.symm hji)).2 hin, fun k n hk hkin => ?_⟩
    have hki := hself hk hkin
    have hup := hleast k n hk hki ((inside_iff_header_mem hl hi hk (Ne.symm hki)).1 hkin)
    by_cases hkj : k = j
    · exact Or.inl hkj
    · exact Or.inr ((inside_iff_header_mem hl hj hk (Ne.symm hkj)).2 hup)
  · rintro ⟨m, hj, hin, hleast⟩
    have hji := hself hj hin
    refine ⟨m, hj, hji, (inside_iff_header_mem hl hi hj (Ne.symm hji)).1 hin,
      fun k n hk hki hkin => ?_⟩
    have hm := (header_mem_of_mem_naturalLoops (describes_loop? hj).mem_naturalLoops).2
    rcases hleast k n hk ((inside_iff_header_mem hl hi hk (Ne.symm hki)).2 hkin) with rfl | hup
    · rw [hj] at hk
      cases hk
      exact hm
    · exact hup.1 hm

/-- A loop without parent is part of no other. -/
theorem parent_eq_none_iff_inside (hl : f.layout.Nodup) (hi : f.loops.loop? i = some l) :
    l.parent = none ↔ ∀ k n, f.loops.loop? k = some n → ¬ l.Inside n := by
  rw [parent_eq_none_iff hl hi]
  refine forall₃_congr fun k n hk => ?_
  by_cases hki : k = i
  · subst hki
    rw [hi] at hk
    cases hk
    simp [Loop.Inside]
  · rw [inside_iff_header_mem hl hi hk (Ne.symm hki)]
    simp [hki]

/-- **Loops are nested or apart.**  A header dominates its loop.  Two different loops have no block
in common or one is strictly part of the other, and `isWithin` says which, as does the header alone.
The parent of a loop is the only smallest loop that it is strictly part of, and a loop without
parent is part of no other. -/
theorem loops_laminar (f : Func) (hl : f.layout.Nodup) :
    (∀ i l, f.loops.loop? i = some l → ∀ b ∈ l.blocks,
      f.graph.Reachable b ∧ ∀ p, f.graph.Path b p → l.header ∈ p) ∧
    (∀ i j l m, f.loops.loop? i = some l → f.loops.loop? j = some m → i ≠ j →
      (l.blocks.Disjoint m.blocks ∨ l.Inside m ∨ m.Inside l) ∧
      (f.loops.isWithin i j = true ↔ l.Inside m) ∧
      (f.loops.isWithin i j = true ↔ l.header ∈ m.blocks)) ∧
    ∀ i l, f.loops.loop? i = some l →
      (∀ j, l.parent = some j ↔ ∃ m, f.loops.loop? j = some m ∧ l.Inside m ∧
        ∀ k n, f.loops.loop? k = some n → l.Inside n → k = j ∨ m.Inside n) ∧
      (l.parent = none ↔ ∀ k n, f.loops.loop? k = some n → ¬ l.Inside n) := by
  refine ⟨fun i l hi b hb => ?_, fun i j l m hi hj hij => ?_, fun i l hi => ⟨fun j => ?_, ?_⟩⟩
  · have hloop := (describes_loop? hi).mem_blocks.1 hb
    exact ⟨hloop.reachable, hloop.dominates⟩
  · have hwithin := isWithin_iff_header_mem hl hj hi hij
    exact ⟨disjoint_or_inside hl hi hj hij,
      hwithin.trans (inside_iff_header_mem hl hi hj hij).symm, hwithin⟩
  · exact parent_eq_some_iff_inside hl hi
  · exact parent_eq_none_iff_inside hl hi

/-- Two loops of one block each, one after the other in a loop around them. -/
def twoInside : Func :=
  .ofExits [("entry", .br ⟨1⟩), ("around", .condBr (.const 0) ⟨2⟩ ⟨5⟩),
    ("first", .condBr (.const 0) ⟨2⟩ ⟨3⟩), ("second", .condBr (.const 0) ⟨3⟩ ⟨4⟩),
    ("again", .br ⟨1⟩), ("done", .ret none)]

/-- The two loops have no block in common, and the parent of the first is the smallest loop that it
is part of. -/
theorem loops_laminar_twoInside :
    twoInside.layout.Nodup ∧ ∃ l m n, twoInside.loops.loop? 0 = some l ∧
      twoInside.loops.loop? 1 = some m ∧ twoInside.loops.loop? 2 = some n ∧
      m.blocks.Disjoint n.blocks ∧ m.Inside l ∧
      ∀ k o, twoInside.loops.loop? k = some o → m.Inside o → k = 0 ∨ l.Inside o := by
  have hl : twoInside.layout.Nodup := by decide
  have hloops : ∀ i < 3, (twoInside.loops.loop? i).isSome = true := by decide +kernel
  obtain ⟨l, h₀⟩ := Option.isSome_iff_exists.1 (hloops 0 (by decide))
  obtain ⟨m, h₁⟩ := Option.isSome_iff_exists.1 (hloops 1 (by decide))
  obtain ⟨n, h₂⟩ := Option.isSome_iff_exists.1 (hloops 2 (by decide))
  obtain ⟨-, hpairs, hparents⟩ := Func.loops_laminar twoInside hl
  refine ⟨hl, l, m, n, h₀, h₁, h₂, ?_, ?_⟩
  · obtain ⟨hapart, hwithin, -⟩ := hpairs 1 2 m n h₁ h₂ (by decide)
    obtain ⟨-, hwithin', -⟩ := hpairs 2 1 n m h₂ h₁ (by decide)
    rw [← hwithin, ← hwithin'] at hapart
    exact hapart.resolve_right (by decide +kernel)
  · have hparent : (twoInside.loops.loop? 1).bind (·.parent) = some 0 := by decide +kernel
    rw [h₁] at hparent
    obtain ⟨l', hl', hin, hleast⟩ := ((hparents 1 m h₁).1 0).1 hparent
    rw [h₀] at hl'
    cases hl'
    exact ⟨hin, hleast⟩

end Func

end LoopSwap
