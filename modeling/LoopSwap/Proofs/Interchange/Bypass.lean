/-
**Ways past the nest.**

A way from the entry that meets neither the outer preheader nor the outer loop can still run through
two blocks that are relinked: the block before the outer preheader, whose other edges are kept, and
the outer exit.  The outer exit has one successor after the splits, and that edge is sent into the
nest, so a way past the nest is kept exactly as long as it does not go on from the outer exit.

Main definitions:

* `LoopSwap.Spliced` — a list with the blocks that were split off inserted;
* `LoopSwap.Plan.cutBlocks` — the blocks they were split from.

Main results:

* `LoopSwap.Exchange.outer_of_outerExit_edge` — the outer exit leads into the nest afterwards;
* `LoopSwap.Workspace.interchange_keeps_bypass_iff` — which ways past the nest are kept.
-/

import LoopSwap.Proofs.Interchange.Materialize

set_option relaxedAutoImplicit false
set_option autoImplicit false

namespace LoopSwap

/-! ### Insertions into a path -/

section

variable {α : Type} {parts : List (α × α)} {p p' : List α} {x : α}

/-- `p'` is `p`, in which after some visits to the first of a pair the second is inserted. -/
inductive Spliced (parts : List (α × α)) : List α → List α → Prop
  | nil : Spliced parts [] []
  | keep {p p' : List α} (a : α) : Spliced parts p p' → Spliced parts (a :: p) (a :: p')
  | insert {p p' : List α} {a n : α} : (a, n) ∈ parts → Spliced parts p p' →
      Spliced parts (a :: p) (a :: n :: p')

namespace Spliced

theorem refl (parts : List (α × α)) (p : List α) : Spliced parts p p := by
  induction p with
  | nil => exact .nil
  | cons a p ih => exact .keep a ih

/-- Nothing but the second elements of the pairs is inserted. -/
theorem mem_or (h : Spliced parts p p') (hx : x ∈ p') : x ∈ p ∨ ∃ a, (a, x) ∈ parts := by
  induction h with
  | nil => exact Or.inl hx
  | keep a _ ih =>
      rcases List.mem_cons.1 hx with rfl | hx
      · exact Or.inl List.mem_cons_self
      · exact (ih hx).imp_left (List.mem_cons_of_mem _)
  | @insert _ _ a n hn _ ih =>
      rcases List.mem_cons.1 hx with rfl | hx
      · exact Or.inl List.mem_cons_self
      · rcases List.mem_cons.1 hx with rfl | hx
        · exact Or.inr ⟨a, hn⟩
        · exact (ih hx).imp_left (List.mem_cons_of_mem _)

theorem ne_nil (h : Spliced parts p p') (hp : p ≠ []) : p' ≠ [] := by
  cases h with
  | nil => exact absurd rfl hp
  | keep => exact List.cons_ne_nil _ _
  | insert => exact List.cons_ne_nil _ _

/-- What is not last before is not last afterwards. -/
theorem mem_dropLast (h : Spliced parts p p') (hx : x ∈ p.dropLast) : x ∈ p'.dropLast := by
  induction h with
  | nil => cases hx
  | @keep p p' a h ih =>
      cases hp : p with
      | nil =>
          rw [hp] at hx
          cases hx
      | cons b q =>
          have hne : p ≠ [] := by simp [hp]
          rw [List.dropLast_cons_of_ne_nil hne] at hx
          rw [List.dropLast_cons_of_ne_nil (h.ne_nil hne)]
          rcases List.mem_cons.1 hx with rfl | hx
          · exact List.mem_cons_self
          · exact List.mem_cons_of_mem _ (ih hx)
  | @insert p p' a n _ h ih =>
      cases hp : p with
      | nil =>
          rw [hp] at hx
          cases hx
      | cons b q =>
          have hne : p ≠ [] := by simp [hp]
          rw [List.dropLast_cons_of_ne_nil hne] at hx
          rw [List.dropLast_cons_of_ne_nil (List.cons_ne_nil _ _),
            List.dropLast_cons_of_ne_nil (h.ne_nil hne)]
          rcases List.mem_cons.1 hx with rfl | hx
          · exact List.mem_cons_self
          · exact List.mem_cons_of_mem _ (List.mem_cons_of_mem _ (ih hx))

end Spliced

namespace Walk

variable {r s : α → α → Prop} {a b : α}

theorem ne_nil (h : Walk r a b p) : p ≠ [] := List.ne_nil_of_mem h.start_mem

/-- A walk goes on from every node but the last. -/
theorem exists_edge (h : Walk r a b p) (hx : x ∈ p.dropLast) : ∃ y ∈ p, r x y := by
  induction h with
  | here a => cases hx
  | step hab hw ih =>
      rw [List.dropLast_cons_of_ne_nil hw.ne_nil] at hx
      rcases List.mem_cons.1 hx with rfl | hx
      · exact ⟨_, List.mem_cons_of_mem _ hw.start_mem, hab⟩
      · obtain ⟨y, hy, hxy⟩ := ih hx
        exact ⟨y, List.mem_cons_of_mem _ hy, hxy⟩

/-- A walk is a walk along another relation that has the edges from all its nodes but the last. -/
theorem mono_dropLast (h : Walk r a b p)
    (hrs : ∀ x y, x ∈ p.dropLast → y ∈ p → r x y → s x y) : Walk s a b p := by
  induction h with
  | here a => exact .here a
  | step hab hw ih =>
      rw [List.dropLast_cons_of_ne_nil hw.ne_nil] at hrs
      refine .step (hrs _ _ List.mem_cons_self (List.mem_cons_of_mem _ hw.start_mem) hab) ?_
      exact ih fun x y hx hy => hrs x y (List.mem_cons_of_mem _ hx) (List.mem_cons_of_mem _ hy)

end Walk

end

/-! ### The outer exit -/

namespace Exchange

variable {g g' : FlowGraph BlockId} {O I : BlockId → Prop} {r : Relinking} {a b : BlockId}
  (h : Exchange g O I r) (hw : Rewired g g' r.effective)

include h hw

/-- After an interchange the outer exit leads into the nest. -/
theorem outer_of_outerExit_edge (hb : g'.Edge r.plan.outerExit b) : O b := by
  rcases (hw.edge _ b).1 hb with ⟨old, hmem⟩ | ⟨hold, hkept⟩
  · have hmem' := mem_edges_of_effective hmem
    simp only [Relinking.edges, List.mem_cons, List.not_mem_nil, or_false, Prod.mk.injEq] at hmem'
    rcases hmem' with ⟨-, -, rfl⟩ | ⟨heq, -⟩ | ⟨heq, -⟩ | ⟨heq, -⟩ | ⟨-, -, rfl⟩ | ⟨heq, -⟩
    · exact h.nest.innerPreheader_mem
    · exact absurd (heq ▸ h.nest.outer.header_mem) h.outerExit_not_outer
    · exact absurd (heq ▸ h.nest.innerHeader_outer) h.outerExit_not_outer
    · exact absurd (heq ▸ h.nest.innerExit_mem) h.outerExit_not_outer
    · exact h.nest.innerLatch_outer
    · exact absurd (heq ▸ h.nest.subset _ h.nest.bodyEnd_inner) h.outerExit_not_outer
  · -- the only edge of the outer exit is changed, by its own change or by the first one
    exfalso
    rw [(h.exit_iff b).1 hold] at hkept
    by_cases hshared : r.preheaderPred = r.plan.outerExit ∧ r.continuation = r.preheader
    · obtain ⟨hpp, hc⟩ := hshared
      refine hkept r.plan.innerPreheader ?_
      rw [Relinking.effective_of_shared hpp hc, ← hpp, hc]
      exact List.mem_cons_self
    · exact hkept _ (exit_effective fun hpp hc => hshared ⟨hpp, hc⟩)

/-- Outside the nest, edges are kept unless they start in the outer exit or lead to the outer
preheader. -/
theorem bypass_edge (hab : g.Edge a b) (ha : ¬ O a) (hae : a ≠ r.plan.outerExit)
    (hb : b ≠ r.preheader) : g'.Edge a b := by
  refine kept hw hab fun e he hea heb => ?_
  rcases h.outer_source he (hea ▸ ha) with ⟨-, hold⟩ | ⟨hsource, -⟩
  · exact hb (heb.symm.trans hold)
  · exact hae (hea.symm.trans hsource)

end Exchange

/-! ### Ways past the nest -/

/-- The blocks that are split for a plan. -/
def Plan.cutBlocks (p : Plan) : List BlockId :=
  (if p.preheaderPred = none then [p.outerPreheader] else []) ++
    if p.continuation = none then [p.outerExit] else []

/-- The blocks that are split off are outside the outer loop. -/
theorem Planned.made_not_outer {f f₁ f₂ : Func} {outer inner : Nat} {l m : Loop} {p : Plan}
    {q c b : BlockId} (hf : f.Flowing) (h : Planned f outer inner l m p)
    (h₁ : f.splitEntry? p.outerPreheader = some (f₁, q))
    (h₂ : f₁.splitExit? p.outerExit = some (f₂, c)) (hb : b ∈ p.made q c) : b ∉ l.blocks := by
  have hexch := h.exchange hf h₁ h₂
  rcases List.mem_append.1 hb with hb | hb
  · split at hb
    · rw [List.mem_singleton.1 hb]
      exact hexch.preheader_not_outer
    · cases hb
  · split at hb
    · rw [List.mem_singleton.1 hb]
      exact hexch.continuation_not_outer
    · cases hb

/-- **Which ways past the nest are kept.**  After a successful interchange of a well-formed
function, a path from the entry that visited neither the outer preheader nor a block of the outer
loop is still a path, up to inserting the blocks that were split off after those they were split
from, exactly if it did not go on from the outer exit. -/
theorem Workspace.interchange_keeps_bypass_iff {w w' : Workspace} {outer inner : Nat}
    {done : Interchanged} (hf : w.func.WellFormed)
    (h : w.interchange outer inner = (w', .ok done)) :
    ∃ p l, w.func.loops.plan w.func outer inner = .ok p ∧ w.func.loops.loop? outer = some l ∧
      ∀ b path, w.func.graph.Path b path →
        (∀ x ∈ path, x ≠ p.outerPreheader ∧ x ∉ l.blocks) →
        ((∃ b' path', Spliced (p.cutBlocks.zip done.materialized) path path' ∧
          w'.func.graph.Path b' path') ↔ p.outerExit ∉ path.dropLast) := by
  have hflow := hf.toFlowing
  obtain ⟨l, m, p, f₁, q, f₂, c, hp, h₁, h₂, hfunc, hmade⟩ := exists_planned hflow h
  obtain ⟨hflow₂, -, -⟩ := hp.splitExit hflow h₁ h₂
  have hexch := hp.exchange hflow h₁ h₂
  have hw := hexch.rewired hflow₂
  refine ⟨p, l, hp.plan_eq, hp.outerLoop, fun b path hpath hout => ?_⟩
  rw [hfunc, hmade]
  constructor
  · rintro ⟨b', path', hsplice, e, -, -, hwalk⟩ hmem
    obtain ⟨y, hy, hedge⟩ := hwalk.exists_edge (hsplice.mem_dropLast hmem)
    have hyO := hexch.outer_of_outerExit_edge hw hedge
    rcases hsplice.mem_or hy with hy | ⟨x, hx⟩
    · exact (hout y hy).2 hyO
    · exact hp.made_not_outer hflow h₁ h₂ (List.of_mem_zip hx).2 hyO
  · intro hmem
    obtain ⟨e, he, hl, hwalk⟩ := hpath
    have hentry := hp.openedEntry hflow h₁
    have hexit := hp.openedExit hflow h₁ h₂
    refine ⟨b, path, .refl _ _, e, ?_, ?_, hwalk.mono_dropLast fun x y hx hy hxy => ?_⟩
    · exact hw.entry.trans (hexit.entry.trans (hentry.entry.trans he))
    · exact (hw.listed e).2 (hexit.listed_iff.2 (Or.inr (hentry.listed_iff.2 (Or.inr hl))))
    · have hxmem := List.dropLast_subset _ hx
      have hxe : x ≠ p.outerExit := fun heq => hmem (heq ▸ hx)
      have hxy₁ := (hentry.edge_iff (hout x hxmem).1 hxy.1).2 hxy
      have hxy₂ := (hexit.edge_iff hxe hxy₁.1).2 hxy₁
      refine hexch.bypass_edge hw hxy₂ (hout x hxmem).2 hxe ?_
      obtain ⟨-, -, ⟨-, rfl, -⟩ | ⟨hcut, -⟩⟩ := hp.splitEntry hflow h₁
      · exact (hout y hy).1
      · exact hcut.ne hxy.2.1

/-- A nest under a guard that leads past it to the outer exit. -/
def Func.guardedNest : Func :=
  .ofExits [("entry", .condBr (.const 0) ⟨1⟩ ⟨9⟩), ("oph", .br ⟨2⟩),
    ("oh", .condBr (.const 0) ⟨3⟩ ⟨9⟩), ("iph", .br ⟨4⟩), ("ih", .condBr (.const 0) ⟨5⟩ ⟨7⟩),
    ("be", .br ⟨6⟩), ("il", .br ⟨4⟩), ("ie", .br ⟨8⟩), ("ol", .br ⟨2⟩), ("oe", .br ⟨10⟩),
    ("done", .ret none)]

/-- Interchanging that nest succeeds, splits nothing, and breaks the way past the nest. -/
theorem Workspace.interchange_guardedNest_breaks_way :
    Func.guardedNest.WellFormed ∧ Func.guardedNest.graph.Path ⟨10⟩ [⟨0⟩, ⟨9⟩, ⟨10⟩] ∧
      ∃ w' done, (⟨Func.guardedNest, .zero⟩ : Workspace).interchange 0 1 = (w', .ok done) ∧
        done.materialized = [] ∧ ¬ w'.func.graph.Path ⟨10⟩ [⟨0⟩, ⟨9⟩, ⟨10⟩] := by
  have hf : Func.guardedNest.WellFormed := by decide +kernel
  have hplan : Func.guardedNest.loops.plan Func.guardedNest 0 1 =
      .ok ⟨⟨1⟩, ⟨2⟩, ⟨8⟩, ⟨9⟩, ⟨3⟩, ⟨4⟩, ⟨6⟩, ⟨7⟩, ⟨5⟩, ⟨5⟩, some ⟨0⟩, some ⟨10⟩⟩ := by
    decide +kernel
  have hloop : (Func.guardedNest.loops.loop? 0).map (·.blocks) =
      some [⟨2⟩, ⟨3⟩, ⟨4⟩, ⟨5⟩, ⟨6⟩, ⟨7⟩, ⟨8⟩] := by decide +kernel
  have hdone : ((⟨Func.guardedNest, .zero⟩ : Workspace).interchange 0 1).2 =
      .ok ⟨0, 1, [], 8, 6⟩ := by decide +kernel
  have hpath : Func.guardedNest.graph.Path ⟨10⟩ [⟨0⟩, ⟨9⟩, ⟨10⟩] := by
    have hfirst : Func.guardedNest.graph.Edge ⟨0⟩ ⟨9⟩ := hf.edge_iff.2 (by decide +kernel)
    have hlast : Func.guardedNest.graph.Edge ⟨9⟩ ⟨10⟩ := hf.edge_iff.2 (by decide +kernel)
    exact ⟨⟨0⟩, by decide +kernel, hfirst.1, .step hfirst (.step hlast (.here _))⟩
  have hrun : (⟨Func.guardedNest, .zero⟩ : Workspace).interchange 0 1 =
      (_, .ok ⟨0, 1, [], 8, 6⟩) := Prod.ext rfl hdone
  refine ⟨hf, hpath, _, _, hrun, rfl, fun hkept => ?_⟩
  obtain ⟨p, l, hp, hl, hways⟩ := Workspace.interchange_keeps_bypass_iff hf hrun
  obtain rfl := Except.ok.inj (hplan.symm.trans hp)
  rw [hl, Option.map_some, Option.some.injEq] at hloop
  -- the way is past the nest, and it goes on from the outer exit
  have hpast : ∀ x ∈ ([⟨0⟩, ⟨9⟩, ⟨10⟩] : List BlockId), x ≠ ⟨1⟩ ∧ x ∉ l.blocks := by
    rw [hloop]
    decide
  exact (hways ⟨10⟩ _ hpath hpast).1 ⟨_, _, .refl _ _, hkept⟩ (by decide)

end LoopSwap
