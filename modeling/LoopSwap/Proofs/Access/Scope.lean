/-
**The accesses of a loop among those of its function.**

The accesses in some blocks are collected block after block, as those of the function are.  Every
instruction knows its block, so as long as the blocks stand in the order of the layout, what is
collected in them is what the function has there: its records in their order, without those whose
address is computed elsewhere.  Where an address is used does not matter.

The blocks of a loop stand in the order of the layout.  So the records of loops lie as the loops do:
a nested loop has some of the records of the loop around it, in the same order, and two loops with
the same parent have no record in common.

Main definitions:

* `LoopSwap.Func.blockOf?` — the block that an instruction is in;
* `LoopSwap.Access.computedIn` — whether the address of a record is computed in given blocks.

Main results:

* `LoopSwap.Func.Intact.accessesIn?_filter` — the accesses in some blocks of the layout;
* `LoopSwap.Func.siblings_disjoint` — loops with the same parent have no block in common;
* `LoopSwap.Workspace.accessesIn?_loops` — the accesses of the loops of a function.
-/

import LoopSwap.Proofs.Access.Enumeration
import LoopSwap.Proofs.Loop.Nesting

set_option relaxedAutoImplicit false
set_option autoImplicit false

namespace LoopSwap

/-- If all that comes from an element is kept or left out together with it, it is the same to choose
before and after. -/
theorem flatMap_filter_of_forall {α β : Type} {l : List α} {g : α → List β} {P : α → Bool}
    {Q : β → Bool} (h : ∀ a ∈ l, ∀ b ∈ g a, Q b = P a) :
    (l.filter P).flatMap g = (l.flatMap g).filter Q := by
  induction l with
  | nil => rfl
  | cons a l ih =>
      obtain ⟨ha, hl⟩ := List.forall_mem_cons.1 h
      rw [List.flatMap_cons, List.filter_append, List.filter_congr ha, ← ih hl, List.filter_cons]
      cases P a with
      | true => rw [if_pos rfl, List.flatMap_cons, List.filter_true]
      | false => rw [if_neg Bool.false_ne_true, List.filter_false, List.nil_append]

/-- The block that an instruction is in. -/
def Func.blockOf? (f : Func) (i : InstId) : Option BlockId := (f.inst? i).map (·.block)

/-- Whether the address of a record is computed in one of the given blocks. -/
def Access.computedIn (a : Access) (f : Func) (blocks : List BlockId) : Bool :=
  (f.blockOf? a.address).any (· ∈ blocks)

theorem Access.computedIn_iff {a : Access} {f : Func} {blocks : List BlockId} :
    a.computedIn f blocks = true ↔ ∃ b, f.blockOf? a.address = some b ∧ b ∈ blocks := by
  rw [computedIn, Option.any_eq_true]
  simp only [decide_eq_true_eq]

namespace Func

variable {f : Func} {i j : Nat} {l m : Loop} {as : List Access}

/-! ### Collecting in some blocks -/

/-- The instructions of some blocks of the layout are those that know one of them as their block. -/
theorem Intact.flatMap_filter (hf : f.Intact) (P : BlockId → Bool) :
    (f.layout.filter P).flatMap f.blockInsts = f.instIds.filter fun i => (f.blockOf? i).any P :=
  flatMap_filter_of_forall fun b hb i hi => by rw [blockOf?, hf.owner b hb i hi, Option.any_some]

/-- Leaving out addresses leaves out their pairs. -/
theorem accessPairs_filter (f : Func) (insts : List InstId) (Q : InstId → Bool) :
    f.accessPairs (insts.filter Q) = (f.accessPairs insts).filter fun p => Q p.1 := by
  rw [accessPairs, List.filter_comm]
  refine flatMap_filter_of_forall fun i _ p hp => ?_
  obtain ⟨u, -, rfl⟩ := List.mem_map.1 hp
  rfl

/-- **Collecting in some blocks.**  What is collected in some blocks of the layout is what the
function has there, in its order. -/
theorem Intact.accessesIn?_filter (hf : f.Intact) (hr : f.InRange) (has : f.accesses? = some as)
    (P : BlockId → Bool) : f.accessesIn? (f.layout.filter P) =
      some (as.filter fun a => (f.blockOf? a.address).any P) := by
  rw [hr.accesses?_eq] at has
  cases has
  rw [hr.accessesIn?_eq, hf.flatMap_filter, accessPairs_filter, List.filterMap_filter,
    List.filter_filterMap]
  refine congrArg some (List.filterMap_congr fun p _ => ?_)
  cases ha : f.access? p.1 p.2 with
  | none => simp
  | some a =>
      have haddress : a.address = p.1 := congrArg Prod.fst (faithfulTo_of_access? ha).1
      rw [Option.filter_some, haddress]

/-- The accesses of a loop are those of the function whose address is computed in the loop. -/
theorem Intact.accessesIn?_loop (hf : f.Intact) (hr : f.InRange) (has : f.accesses? = some as)
    (hi : f.loops.loop? i = some l) :
    f.accessesIn? l.blocks = some (as.filter fun a => a.computedIn f l.blocks) := by
  have hl := describes_loop? hi
  have hblocks : f.layout.filter (· ∈ l.blocks) = l.blocks := by
    refine (List.filter_congr fun b hb => decide_eq_decide.2 ?_).trans hl.blocks_eq.symm
    rw [hl.blocks_eq, List.mem_filter, and_iff_right hb, decide_eq_true_eq]
  have hscope := hf.accessesIn?_filter hr has fun b => decide (b ∈ l.blocks)
  rw [hblocks] at hscope
  exact hscope

/-! ### Loops side by side -/

/-- Two loops with the same parent, or two without one, have no block in common. -/
theorem siblings_disjoint (hl : f.layout.Nodup) (hi : f.loops.loop? i = some l)
    (hj : f.loops.loop? j = some m) (hij : i ≠ j) (hparent : l.parent = m.parent) :
    l.blocks.Disjoint m.blocks := by
  -- a loop that is part of its sibling would have it around itself, below the parent
  have key : ∀ {i j l m}, f.loops.loop? i = some l → f.loops.loop? j = some m →
      l.parent = m.parent → ¬ l.Inside m := by
    intro i j l m hi hj hparent hin
    cases hp : l.parent with
    | none => exact (parent_eq_none_iff_inside hl hi).1 hp j m hj hin
    | some k =>
        obtain ⟨n, hn, -, hleast⟩ := (parent_eq_some_iff_inside hl hi).1 hp
        obtain ⟨n', hn', hmn, -⟩ := (parent_eq_some_iff_inside hl hj).1 (hparent ▸ hp)
        obtain rfl := Option.some.inj (hn.symm.trans hn')
        rcases hleast j m hj hin with rfl | hnm
        · obtain rfl := Option.some.inj (hj.symm.trans hn)
          exact hmn.2 hmn.1
        · exact hmn.2 hnm.1
  rcases disjoint_or_inside hl hi hj hij with hdisjoint | hin | hin
  · exact hdisjoint
  · exact absurd hin (key hi hj hparent)
  · exact absurd hin (key hj hi hparent.symm)

end Func

/-! ### Loops of a function that was read -/

namespace Workspace

variable {w : Workspace}

/-- **The accesses of the loops.**  After any steps on what was read from a text, the accesses of a
loop are those of the function whose address is computed in a block of the loop, in the same order.
A loop that is nested in another one has a part of its accesses, in the same order, and two loops
with the same parent have none in common. -/
theorem accessesIn?_loops {text : String} {p : Program} (h : Program.read text = .ok p)
    (hw : w.func ∈ p.functions) (steps : List Step) :
    let f := (w.run steps).func
    ∃ as, f.accesses? = some as ∧
      (∀ i l, f.loops.loop? i = some l →
        f.accessesIn? l.blocks = some (as.filter fun a => a.computedIn f l.blocks)) ∧
      ∀ i j l m bs cs, f.loops.loop? i = some l → f.loops.loop? j = some m →
        f.accessesIn? l.blocks = some bs → f.accessesIn? m.blocks = some cs →
        (f.loops.isWithin i j = true → bs.Sublist cs) ∧
        (i ≠ j → l.parent = m.parent → bs.Disjoint cs) := by
  intro f
  have hf : f.Legible := (legible_run steps (Program.legible_of_read h w.func hw)).1
  have hintact := hf.toIntact
  have has := hf.inRange.accesses?_eq
  have hloop := fun i l => hintact.accessesIn?_loop hf.inRange has (i := i) (l := l)
  refine ⟨_, has, hloop, fun i j l m bs cs hi hj hbs hcs => ?_⟩
  rw [hloop i l hi] at hbs
  rw [hloop j m hj] at hcs
  cases hbs
  cases hcs
  constructor
  · intro hwithin
    have hsub := (Func.nestedIn_of_isWithin hj hwithin l hi).blocks_subset
      (Func.describes_loop? hi) (Func.describes_loop? hj)
    refine List.monotone_filter_right _ fun a ha => ?_
    obtain ⟨b, hb, hmem⟩ := Access.computedIn_iff.1 ha
    exact Access.computedIn_iff.2 ⟨b, hb, hsub b hmem⟩
  · intro hij hparent a hal ham
    obtain ⟨b, hb, hbl⟩ := Access.computedIn_iff.1 (List.mem_filter.1 hal).2
    obtain ⟨c, hc, hcm⟩ := Access.computedIn_iff.1 (List.mem_filter.1 ham).2
    obtain rfl := Option.some.inj (hb.symm.trans hc)
    exact Func.siblings_disjoint hf.nodup_layout hi hj hij hparent hbl hcm

/-- Two loops of one block each in a loop around them, each with an access.  The address that the
first of them computes is used once more behind all loops. -/
def apartText : String :=
  "f() \x7b\ne: br ^h\nh: br ^a\na: %p = gep @A, 0, 1\n store 1, %p\n condbr 1, ^a, ^b\n" ++
    "b: %q = gep @B, 0, 2\n store 1, %q\n condbr 1, ^b, ^l\nl: condbr 1, ^h, ^x\n" ++
    "x: store 2, %p\n ret\n\x7d"

/-- The function of that text. -/
def apart : Func := .ofBlocks "f" [
  ("e", [(none, .br ⟨1⟩)]),
  ("h", [(none, .br ⟨2⟩)]),
  ("a", [(some "p", .gep (.location "A") [.const 0, .const 1]),
    (none, .store (.const 1) (.value ⟨2⟩)), (none, .condBr (.const 1) ⟨2⟩ ⟨3⟩)]),
  ("b", [(some "q", .gep (.location "B") [.const 0, .const 2]),
    (none, .store (.const 1) (.value ⟨5⟩)), (none, .condBr (.const 1) ⟨3⟩ ⟨4⟩)]),
  ("l", [(none, .condBr (.const 1) ⟨1⟩ ⟨5⟩)]),
  ("x", [(none, .store (.const 2) (.value ⟨2⟩)), (none, .ret none)])]

/-- After a preheader is isolated and an interchange is refused, the first inner loop still has its
two accesses, the second its only one, and the loop around them all three. -/
theorem accessesIn?_loops_apart :
    let f := (run ⟨apart, .zero⟩ [.isolatePreheader 0, .interchange 0 1]).func
    Program.read apartText = .ok ⟨[apart]⟩ ∧
      ∃ l m n bs cs ds, f.loops.loop? 0 = some l ∧ f.loops.loop? 1 = some m ∧
        f.loops.loop? 2 = some n ∧ f.accessesIn? l.blocks = some bs ∧
        f.accessesIn? m.blocks = some cs ∧ f.accessesIn? n.blocks = some ds ∧
        cs.Sublist bs ∧ cs.Disjoint ds ∧
        bs.map Access.pair = [(⟨2⟩, ⟨3⟩), (⟨2⟩, ⟨9⟩), (⟨5⟩, ⟨6⟩)] ∧
        cs.map Access.pair = [(⟨2⟩, ⟨3⟩), (⟨2⟩, ⟨9⟩)] ∧ ds.map Access.pair = [(⟨5⟩, ⟨6⟩)] := by
  intro f
  have hread : Program.read apartText = .ok ⟨[apart]⟩ := by decide +kernel
  obtain ⟨as, -, hloops, hpairs⟩ := accessesIn?_loops (w := ⟨apart, .zero⟩) hread
    (List.mem_singleton_self _) [.isolatePreheader 0, .interchange 0 1]
  have htable : f.loops.loops.map
      (fun l => (l.parent, f.accessPairs (l.blocks.flatMap f.blockInsts))) =
        [(none, [(⟨2⟩, ⟨3⟩), (⟨2⟩, ⟨9⟩), (⟨5⟩, ⟨6⟩)]), (some 0, [(⟨2⟩, ⟨3⟩), (⟨2⟩, ⟨9⟩)]),
          (some 0, [(⟨5⟩, ⟨6⟩)])] := by decide +kernel
  obtain ⟨l, ls, hls, hl, hrest⟩ := List.map_eq_cons_iff.1 htable
  obtain ⟨m, ms, rfl, hm, hrest⟩ := List.map_eq_cons_iff.1 hrest
  obtain ⟨n, ns, rfl, hn, -⟩ := List.map_eq_cons_iff.1 hrest
  rw [Prod.mk.injEq] at hl hm hn
  have h₀ : f.loops.loop? 0 = some l := by rw [LoopForest.loop?, hls]; rfl
  have h₁ : f.loops.loop? 1 = some m := by rw [LoopForest.loop?, hls]; rfl
  have h₂ : f.loops.loop? 2 = some n := by rw [LoopForest.loop?, hls]; rfl
  have hwithin : f.loops.isWithin 1 0 = true := by
    rw [LoopForest.isWithin, h₁, Option.bind_some, hm.1]
    rfl
  have hbs := hloops 0 l h₀
  have hcs := hloops 1 m h₁
  have hds := hloops 2 n h₂
  have hpair : ∀ {blocks as}, f.accessesIn? blocks = some as →
      as.map Access.pair = f.accessPairs (blocks.flatMap f.blockInsts) := fun h =>
    (Func.faithfulTo_of_accessRecords? h).1
  exact ⟨hread, l, m, n, _, _, _, h₀, h₁, h₂, hbs, hcs, hds,
    (hpairs 1 0 m l _ _ h₁ h₀ hcs hbs).1 hwithin,
    (hpairs 1 2 m n _ _ h₁ h₂ hcs hds).2 (by decide) (hm.1.trans hn.1.symm),
    (hpair hbs).trans hl.2, (hpair hcs).trans hm.2, (hpair hds).trans hn.2⟩

end Workspace

end LoopSwap
