/-
**The instructions that an interchange takes into the loops.**

An instruction outside the outer loop is left where it is, up to the splits: what the outer exit
holds goes to the block that is split off if the exit does not end in an unconditional branch.  If
it does, the exit is relinked as it is, and since it leads to the inner latch afterwards, its own
instructions are repeated with the loop.  So are those of a loop that starts at the outer exit.

This module brings the conditions back to the function before the splits and says exactly which
instructions from outside are in a loop of the nest afterwards.

Main definitions:

* `LoopSwap.Func.InstInLoop` — an instruction is in a loop with a given header;
* `LoopSwap.Plan.place` — where the instructions of a block are after the splits;
* `LoopSwap.Plan.TakenByLatch`, `LoopSwap.Plan.TakenByPreheader` — the blocks that are taken in.

Main results:

* `LoopSwap.Planned.inLoop_place_iff` — the blocks outside that get into the loops;
* `LoopSwap.Workspace.interchange_takes_in_iff` — the instructions outside that do.
-/

import LoopSwap.Proofs.Interchange.Captured
import LoopSwap.Proofs.Interchange.Steps
import LoopSwap.Proofs.Loop.Cutting

set_option relaxedAutoImplicit false
set_option autoImplicit false

namespace LoopSwap

/-! ### Across a split -/

namespace Opened

variable {α : Type} {g g' : FlowGraph α} {c n a b : α} {made : List α}

theorem dominates_iff (h : Opened g g' c n made) (ha : a ∈ g.listed) (hb : b ∈ g.listed) :
    g'.Dominates a b ↔ g.Dominates a b := by
  rcases h with ⟨rfl, -⟩ | ⟨hc, -⟩
  · exact Iff.rfl
  · exact hc.dominates_iff (hc.ne ha) (hc.ne hb)

theorem inLoop_iff (h : Opened g g' c n made) (ha : a ∈ g.listed) (hb : b ∈ g.listed) :
    g'.InLoop a b ↔ g.InLoop a b := by
  rcases h with ⟨rfl, -⟩ | ⟨hc, -⟩
  · exact Iff.rfl
  · exact hc.inLoop_iff (hc.ne ha) (hc.ne hb)

theorem reachable_old (h : Opened g g' c n made) (ha : a ∈ g.listed) :
    g'.Reachable a ↔ g.Reachable a := by
  rcases h with ⟨rfl, -⟩ | ⟨hc, -⟩
  · exact Iff.rfl
  · exact hc.reachable_old (hc.ne ha)

end Opened

/-! ### Instructions in loops -/

/-- The instruction is in a loop with the header `h`. -/
def Func.InstInLoop (f : Func) (h : BlockId) (i : InstId) : Prop :=
  ∃ k l, f.loops.loop? k = some l ∧ l.header = h ∧ ∃ b ∈ l.blocks, i ∈ f.blockInsts b

/-- An instruction is in the loops that its block is in. -/
theorem Func.Flowing.instInLoop_iff {f : Func} {h b : BlockId} {i : InstId} (hf : f.Flowing)
    (hi : i ∈ f.blockInsts b) : f.InstInLoop h i ↔ f.graph.InLoop h b := by
  constructor
  · rintro ⟨k, l, hl, rfl, a, ha, hia⟩
    rw [hf.blockInsts_inj hi hia]
    exact (describes_loop? hl).mem_blocks.1 ha
  · intro hb
    obtain ⟨n, hn, rfl⟩ := exists_naturalLoop hb.header
    obtain ⟨k, l, hl, heq⟩ := exists_loop? hf.nodup_layout hn
    exact ⟨k, l, hl, heq, b, (describes_loop? hl).mem_blocks.2 (heq ▸ hb), hi⟩

/-! ### What is taken in -/

namespace Plan

/-- Where the instructions of a block other than the outer preheader are after the splits, if `c` is
the block that the outer exit goes on with. -/
def place (p : Plan) (c b : BlockId) : BlockId :=
  if b = p.outerExit ∧ p.continuation = none then c else b

/-- The loop that the inner latch closes takes the block in.  The outer exit is reached through the
outer loop only, and without the inner latch; the block is in a loop that starts at the outer exit,
or it is the outer exit, and the exit is not split. -/
def TakenByLatch (p : Plan) (g : FlowGraph BlockId) (b : BlockId) : Prop :=
  g.Dominates p.outerHeader p.outerExit ∧ p.Apart g p.outerExit ∧
    (g.InLoop p.outerExit b ∨ b = p.outerExit ∧ p.continuation ≠ none)

/-- The loop that the inner preheader closes in the new graph `g'` takes the block in.  The block
leads to the outer preheader outside the outer loop `O`, without coming to the outer exit.  If the
outer preheader is entered from the outer exit, only the part split off the exit does, and then the
outer header has to be in the loop. -/
def TakenByPreheader (p : Plan) (O : BlockId → Prop) (g g' : FlowGraph BlockId) (b : BlockId) :
    Prop :=
  g'.BackEdge p.innerPreheader p.innerHeader ∧ g.Reachable b ∧
    (b = p.outerExit → p.continuation = none) ∧
    ReachVia g.Edge (fun a => ¬ O a ∧ a ≠ p.outerExit) b p.outerPreheader ∧
    (p.preheaderPred = some p.outerExit → g'.InLoop p.innerHeader p.outerHeader)

variable {p : Plan} {b c : BlockId}

theorem place_of_none (h : p.continuation = none) : p.place c p.outerExit = c :=
  if_pos ⟨rfl, h⟩

theorem place_of_ne (h : b ≠ p.outerExit) : p.place c b = b :=
  if_neg fun hb => h hb.1

theorem place_of_some (h : p.continuation ≠ none) : p.place c b = b :=
  if_neg fun hb => h hb.2

end Plan

/-! ### Across the splits of a plan -/

namespace Planned

variable {f f₁ f₂ : Func} {outer inner : Nat} {l m : Loop} {p : Plan} {q c b : BlockId}
  (hf : f.Flowing) (h : Planned f outer inner l m p)
  (h₁ : f.splitEntry? p.outerPreheader = some (f₁, q))
  (h₂ : f₁.splitExit? p.outerExit = some (f₂, c))

include hf h h₁

/-- The block that takes the place of the outer preheader has a block before it exactly if the outer
preheader had, or it is that block. -/
theorem reachVia_splitEntry_iff {P : BlockId → Prop} (hb : b ∈ f.layout)
    (hne : b ≠ p.outerPreheader) :
    ReachVia f₁.graph.Edge P b q ↔ ReachVia f.graph.Edge P b p.outerPreheader := by
  obtain ⟨hf₁, -, ⟨rfl, rfl, -⟩ | ⟨hcut, hnone⟩⟩ := h.splitEntry hf h₁
  · exact Iff.rfl
  · -- nothing leads to the entry
    have hentry : f.entry? = some p.outerPreheader := by
      rcases h.preheaderPred_cases hf with ⟨hentry, -⟩ | ⟨-, a, ha, -⟩
      · exact hentry
      · rw [hnone] at ha
        cases ha
    have hno : ∀ {k : Func}, k.Flowing → k.entry? = some p.outerPreheader →
        ¬ ReachVia k.graph.Edge P b p.outerPreheader := by
      intro k hk hkentry hwalk
      rcases Relation.ReflTransGen.cases_tail hwalk with heq | ⟨a, -, hedge⟩
      · exact hne heq.symm
      · exact hk.entry_ne hedge.1 hkentry
    refine iff_of_false (fun hwalk => ?_) (hno hf hentry)
    rcases Relation.ReflTransGen.cases_tail hwalk with heq | ⟨a, ha, hedge⟩
    · exact hcut.ne hb heq.symm
    · obtain rfl := hcut.edge_to_new.1 hedge.1
      exact hno hf₁ (hcut.entry.trans hentry) ha

include h₂

theorem place_cases (hb : b ∈ f.layout) :
    b = p.outerExit ∧ p.continuation = none ∧ p.place c b = c ∧
        Cut f₁.graph f₂.graph p.outerExit c ∨
      (b = p.outerExit → p.continuation ≠ none) ∧ p.place c b = b ∧ b ∈ f₁.layout ∧
        Opened f₁.graph f₂.graph p.outerExit c (if p.continuation = none then [c] else []) := by
  have hb₁ : b ∈ f₁.layout := (h.openedEntry hf h₁).listed_iff.2 (Or.inr hb)
  have hopen := h.openedExit hf h₁ h₂
  obtain ⟨-, -, ⟨-, hsome⟩ | ⟨hcut, hnone⟩⟩ := h.splitExit hf h₁ h₂
  · have hne : p.continuation ≠ none := hsome ▸ Option.some_ne_none c
    exact Or.inr ⟨fun _ => hne, Plan.place_of_some hne, hb₁, hopen⟩
  · by_cases hbe : b = p.outerExit
    · exact Or.inl ⟨hbe, hnone, hbe ▸ Plan.place_of_none hnone, hcut⟩
    · exact Or.inr ⟨fun heq => absurd heq hbe, Plan.place_of_ne hbe, hb₁, hopen⟩

/-- The instructions of a block are in its place after the splits. -/
theorem mem_blockInsts_place {i : InstId} (hb : b ∈ f.layout) (hne : b ≠ p.outerPreheader)
    (hi : i ∈ f.blockInsts b) : i ∈ f₂.blockInsts (p.place c b) := by
  have hi₁ : i ∈ f₁.blockInsts b := by
    unfold Func.splitEntry? at h₁
    split at h₁
    · rw [Func.blockInsts_split?_of_ne h₁ hne (hf.split?_ne h₁ hb)]
      exact hi
    · cases h₁
      exact hi
  have hexit := h₂
  rw [h.splitExit?_eq hf h₁] at hexit
  rcases h.place_cases hf h₁ h₂ hb with ⟨rfl, hnone, hplace, -⟩ | ⟨hkept, hplace, hb₁, -⟩
  · rw [hnone] at hexit
    rw [hplace, Func.blockInsts_split?_new hexit]
    exact hi₁
  · rw [hplace]
    cases hc : p.continuation with
    | some t =>
        rw [hc] at hexit
        cases hexit
        exact hi₁
    | none =>
        rw [hc] at hexit
        have hf₁ := (h.splitEntry hf h₁).1
        rw [Func.blockInsts_split?_of_ne hexit (fun heq => hkept heq hc)
          (hf₁.split?_ne hexit hb₁)]
        exact hi₁

/-- A block outside has its place outside. -/
theorem place_outside (hb : b ∈ f.layout) (hbO : b ∉ l.blocks) (hne : b ≠ p.outerPreheader) :
    p.place c b ∉ l.blocks ∧ p.place c b ≠ q := by
  have hq := (h.nest_splitEntry hf h₁).outer.preheader_reachable.listed
  rcases h.place_cases hf h₁ h₂ hb with ⟨-, -, hplace, hcut⟩ | ⟨-, hplace, -⟩
  · rw [hplace]
    exact ⟨(h.exchange hf h₁ h₂).continuation_not_outer, fun heq => hcut.ne hq heq.symm⟩
  · rw [hplace]
    refine ⟨hbO, ?_⟩
    obtain ⟨-, -, ⟨-, rfl, -⟩ | ⟨hcut, -⟩⟩ := h.splitEntry hf h₁
    · exact hne
    · exact hcut.ne hb

theorem reachable_place_iff (hb : b ∈ f.layout) :
    f₂.graph.Reachable (p.place c b) ↔ f.graph.Reachable b := by
  have hexit := (h.nest_splitEntry hf h₁).outer.exit_reachable
  rcases h.place_cases hf h₁ h₂ hb with ⟨rfl, -, hplace, hcut⟩ | ⟨-, hplace, hb₁, hopen⟩
  · rw [hplace]
    exact iff_of_true (hcut.reachable_iff.2 (Or.inl ⟨rfl, hexit⟩))
      (h.nest hf).outer.exit_reachable
  · rw [hplace, hopen.reachable_old hb₁, (h.openedEntry hf h₁).reachable_old hb]

/-- The place of a block is the outer exit or in its loop exactly if the block was in the loop, or
is the outer exit and is not split. -/
theorem inLoop_exit_place_iff (hb : b ∈ f.layout) :
    p.place c b = p.outerExit ∨ f₂.graph.InLoop p.outerExit (p.place c b) ↔
      f.graph.InLoop p.outerExit b ∨ b = p.outerExit ∧ p.continuation ≠ none := by
  have hlisted := (h.nest hf).outer.exit_reachable.listed
  have hlisted₁ := (h.nest_splitEntry hf h₁).outer.exit_reachable.listed
  have hentry := (h.openedEntry hf h₁).inLoop_iff hlisted hb
  rcases h.place_cases hf h₁ h₂ hb with ⟨rfl, hnone, hplace, hcut⟩ | ⟨hkept, hplace, hb₁, hopen⟩
  · rw [hplace, hcut.inLoop_self_new, hentry]
    simp [hnone, (hcut.ne hcut.mem).symm]
  · rw [hplace, hopen.inLoop_iff hlisted₁ hb₁, hentry, or_comm]
    exact or_congr_right ⟨fun heq => ⟨heq, hkept heq⟩, And.left⟩

/-- The place of a block leads to the outer preheader as the block did. -/
theorem reachVia_place_iff (hb : b ∈ f.layout) (hne : b ≠ p.outerPreheader) :
    ReachVia f₂.graph.Edge (fun a => a ∉ l.blocks ∧ a ≠ p.outerExit) (p.place c b) q ↔
      ReachVia f.graph.Edge (fun a => a ∉ l.blocks ∧ a ≠ p.outerExit) b p.outerPreheader := by
  have hnest₁ := h.nest_splitEntry hf h₁
  have hq := hnest₁.outer.preheader_reachable.listed
  have hcO : c ∉ l.blocks := (h.exchange hf h₁ h₂).continuation_not_outer
  rw [← h.reachVia_splitEntry_iff hf h₁ hb hne]
  rcases h.place_cases hf h₁ h₂ hb with ⟨rfl, -, hplace, hcut⟩ | ⟨-, hplace, hb₁, hopen⟩
  · rw [hplace]
    exact hcut.reachVia_new_iff ⟨hcO, (hcut.ne hcut.mem).symm⟩ hq
      hnest₁.outerExit_ne_outerPreheader.symm
  · rw [hplace]
    rcases hopen with ⟨heq, -⟩ | ⟨hcut, hmade⟩
    · rw [heq]
    · exact Opened.reachVia_iff (Or.inr ⟨hcut, hmade⟩) ⟨hcO, (hcut.ne hcut.mem).symm⟩ hb₁ hq

/-- The outer header dominates the outer exit after the splits exactly if it did before. -/
theorem dominates_split_iff : f₂.graph.Dominates p.outerHeader p.outerExit ↔
    f.graph.Dominates p.outerHeader p.outerExit := by
  have hnest := h.nest hf
  have hnest₁ := h.nest_splitEntry hf h₁
  rw [(h.openedExit hf h₁ h₂).dominates_iff (hnest₁.outer.reachable hnest₁.outer.header_mem).listed
      hnest₁.outer.exit_reachable.listed,
    (h.openedEntry hf h₁).dominates_iff (hnest.outer.reachable hnest.outer.header_mem).listed
      hnest.outer.exit_reachable.listed]

/-- **The blocks outside that get into the loops of the nest.** -/
theorem inLoop_place_iff {g' : FlowGraph BlockId}
    (hg : Func.graph ((p.relinking q c).apply f₂) = g') (hb : b ∈ f.layout) (hbO : b ∉ l.blocks)
    (hne : b ≠ p.outerPreheader) :
    g'.InLoop p.outerHeader (p.place c b) ∨ g'.InLoop p.innerHeader (p.place c b) ↔
      p.TakenByLatch f.graph b ∨ p.TakenByPreheader (· ∈ l.blocks) f.graph g' b := by
  subst hg
  have hexch := h.exchange hf h₁ h₂
  have hw := hexch.rewired (h.splitExit hf h₁ h₂).1
  obtain ⟨hplaceO, hplaceq⟩ := h.place_outside hf h₁ h₂ hb hbO hne
  have hexit : p.place c b ≠ p.outerExit ↔ (b = p.outerExit → p.continuation = none) := by
    rcases h.place_cases hf h₁ h₂ hb with ⟨rfl, hnone, hplace, hcut⟩ | ⟨hkept, hplace, -⟩
    · simp [hplace, hnone, (hcut.ne hcut.mem).symm]
    · rw [hplace]
      exact ⟨fun hbe heq => absurd heq hbe, fun hall heq => hkept heq (hall heq)⟩
  refine (or_iff_right_of_imp (hexch.inLoop_innerHeader hw hplaceO)).trans
    ((hexch.inLoop_innerHeader_iff hw hplaceO hplaceq).trans (or_congr ?_ ?_))
  · exact and_congr (h.dominates_split_iff hf h₁ h₂) (and_congr (h.apart_split_iff hf h₁ h₂)
      (h.inLoop_exit_place_iff hf h₁ h₂ hb))
  · exact and_congr_right fun _ => and_congr (h.reachable_place_iff hf h₁ h₂ hb)
      (and_congr hexit (and_congr (h.reachVia_place_iff hf h₁ h₂ hb hne)
        (imp_congr (h.preheaderPred_eq_iff hf) Iff.rfl)))

end Planned

/-! ### Interchanges -/

/-- **The instructions from outside that an interchange takes into the loops.**  After a successful
interchange of a well-formed function, an instruction that was neither in the outer loop nor in the
outer preheader is in a loop that starts at one of the two headers exactly if its block is taken in
by the loop that the inner latch closes or by the one that the inner preheader closes. -/
theorem Workspace.interchange_takes_in_iff {w w' : Workspace} {outer inner : Nat}
    {done : Interchanged} (hf : w.func.WellFormed)
    (h : w.interchange outer inner = (w', .ok done)) :
    ∃ l m p, Planned w.func outer inner l m p ∧
      ∀ b i, i ∈ w.func.blockInsts b → b ∉ l.blocks → b ≠ p.outerPreheader →
        (w'.func.InstInLoop l.header i ∨ w'.func.InstInLoop m.header i ↔
          p.TakenByLatch w.func.graph b ∨
            p.TakenByPreheader (· ∈ l.blocks) w.func.graph w'.func.graph b) := by
  have hflow := hf.toFlowing
  obtain ⟨l, m, p, f₁, q, f₂, c, hp, h₁, h₂, hfunc, -⟩ := exists_planned hflow h
  refine ⟨l, m, p, hp, fun b i hi hbO hne => ?_⟩
  have hflow₂ := (hp.splitExit hflow h₁ h₂).1
  have hexch := hp.exchange hflow h₁ h₂
  have hflow' : w'.func.Flowing := hfunc ▸ hexch.flowing_apply hflow₂
  have hb := hflow.mem_layout_of_mem_blockInsts hi
  have hi' : i ∈ w'.func.blockInsts (p.place c b) := by
    rw [hfunc, Relinking.blockInsts_apply (hexch.reordered hflow₂)]
    exact hp.mem_blockInsts_place hflow h₁ h₂ hb hne hi
  rw [hflow'.instInLoop_iff hi', hflow'.instInLoop_iff hi', hp.headers.1, hp.headers.2]
  exact hp.inLoop_place_iff hflow h₁ h₂ (congrArg Func.graph hfunc.symm) hb hbO hne

/-- A nest with an instruction in the outer exit, which ends in an unconditional branch. -/
def Func.storingNest : Func := .ofBlocks "f" [
  ("entry", [(none, .br ⟨1⟩)]), ("oph", [(none, .br ⟨2⟩)]),
  ("oh", [(none, .condBr (.const 0) ⟨3⟩ ⟨9⟩)]), ("iph", [(none, .br ⟨4⟩)]),
  ("ih", [(none, .condBr (.const 0) ⟨5⟩ ⟨7⟩)]), ("be", [(none, .br ⟨6⟩)]),
  ("il", [(none, .br ⟨4⟩)]), ("ie", [(none, .br ⟨8⟩)]), ("ol", [(none, .br ⟨2⟩)]),
  ("oe", [(none, .store (.const 7) (.location "l")), (none, .br ⟨10⟩)]),
  ("done", [(none, .ret none)])]

/-- Interchanging that nest takes the instruction into a loop. -/
theorem Workspace.interchange_storingNest_repeats_store :
    Func.storingNest.WellFormed ∧
      Func.storingNest.op? ⟨9⟩ = some (.store (.const 7) (.location "l")) ∧
      ∃ w' done l m p, (⟨Func.storingNest, .zero⟩ : Workspace).interchange 0 1 = (w', .ok done) ∧
        Planned Func.storingNest 0 1 l m p ∧
        (∀ b, (⟨9⟩ : InstId) ∈ Func.storingNest.blockInsts b →
          b ∉ l.blocks ∧ b ≠ p.outerPreheader) ∧
        (w'.func.InstInLoop l.header ⟨9⟩ ∨ w'.func.InstInLoop m.header ⟨9⟩) := by
  have hf : Func.storingNest.WellFormed := by decide +kernel
  have hdone : ((⟨Func.storingNest, .zero⟩ : Workspace).interchange 0 1).2 =
      .ok ⟨0, 1, [], 8, 6⟩ := by decide +kernel
  have hrun : (⟨Func.storingNest, .zero⟩ : Workspace).interchange 0 1 =
      (_, .ok ⟨0, 1, [], 8, 6⟩) := Prod.ext rfl hdone
  have hplan : Func.storingNest.loops.plan Func.storingNest 0 1 =
      .ok ⟨⟨1⟩, ⟨2⟩, ⟨8⟩, ⟨9⟩, ⟨3⟩, ⟨4⟩, ⟨6⟩, ⟨7⟩, ⟨5⟩, ⟨5⟩, some ⟨0⟩, some ⟨10⟩⟩ := by
    decide +kernel
  obtain ⟨l, m, p, hp, htakes⟩ := Workspace.interchange_takes_in_iff hf hrun
  obtain rfl := Except.ok.inj (hplan.symm.trans hp.plan_eq)
  have hmem : (⟨9⟩ : InstId) ∈ Func.storingNest.blockInsts ⟨9⟩ := by decide +kernel
  have hout : (⟨9⟩ : BlockId) ∉ l.blocks := (hp.nest hf.toFlowing).outer.exit_not_mem
  refine ⟨hf, by decide +kernel, _, _, l, m, _, hrun, hp, fun b hb => ?_,
    (htakes ⟨9⟩ ⟨9⟩ hmem hout (by decide)).2 (Or.inl ⟨?_, ?_, Or.inr ⟨rfl, by decide⟩⟩)⟩
  · obtain rfl := hf.blockInsts_inj hmem hb
    exact ⟨hout, by decide⟩
  · have hdom : Func.storingNest.graph.facts.dominates ⟨2⟩ ⟨9⟩ = true := by decide +kernel
    exact ((FlowGraph.dominates_eq_true_iff _).1 hdom).2
  · have hback : Func.storingNest.graph.Edge ⟨8⟩ ⟨2⟩ := hf.edge_iff.2 (by decide +kernel)
    have hexit : Func.storingNest.graph.Edge ⟨2⟩ ⟨9⟩ := hf.edge_iff.2 (by decide +kernel)
    exact ⟨⟨8⟩, Or.inr rfl, (ReachVia.single hback (by decide)).tail hexit (by decide)⟩

end LoopSwap
