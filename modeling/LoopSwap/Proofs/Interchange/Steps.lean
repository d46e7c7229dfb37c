/-
**Any number of interchanges.**

A caller can interchange loops and split off preheaders, with any indices and as often as they like;
a step that fails leaves the function as it was.  Every step keeps a legible function legible, with
the same entry: a split cuts off a part that is not empty, and relinking only moves blocks that
something leads to, and sends edges to such blocks, so neither touches the entry.

It follows that what is read from a text stays well-formed over any run, and that the text of the
outcome reads back as the outcome with its ids in order.

Main definitions:

* `LoopSwap.Step`, `LoopSwap.Workspace.step`, `LoopSwap.Workspace.run` — steps and runs.

Main results:

* `LoopSwap.Exchange.flowing_apply`, `LoopSwap.Func.Legible.apply` — relinking keeps a function
  flowing and legible;
* `LoopSwap.Workspace.func_interchange_cases` — what an interchange makes of a function;
* `LoopSwap.Workspace.legible_step`, `LoopSwap.Workspace.legible_run` — steps and runs keep a
  function legible;
* `LoopSwap.Workspace.run_wellFormed` — what is read stays well-formed;
* `LoopSwap.Workspace.read_print_run` — the outcome of a run reads back.
-/

import LoopSwap.Proofs.Code.Growth
import LoopSwap.Proofs.Code.RoundTrip
import LoopSwap.Proofs.Interchange.Materialize

set_option relaxedAutoImplicit false
set_option autoImplicit false

namespace LoopSwap

/-! ### Relinking -/

namespace Relinking

variable {r : Relinking} {f : Func}

theorem name_reorder (r : Relinking) (f : Func) : (r.reorder f).name = f.name := by
  dsimp only [reorder]
  split <;> simp

/-- Relinking adds nothing. -/
theorem grown_apply (h : f.Reordered (r.reorder f)) : f.Grown (r.apply f) := by
  unfold apply
  exact (Func.Grown.reordered h (r.name_reorder f)).trans (Func.Grown.retargetAll _ _)

theorem blocks_apply (h : f.Reordered (r.reorder f)) : Func.blocks (r.apply f) = f.blocks := by
  unfold apply
  exact (Func.blocks_retargetAll _ _).trans h.blocks

theorem blockName?_apply (h : f.Reordered (r.reorder f)) (b : BlockId) :
    Func.blockName? (r.apply f) b = f.blockName? b := by
  rw [Func.blockName?, Func.blockName?, Func.block?, Func.block?, blocks_apply h]

theorem blockInsts_apply (h : f.Reordered (r.reorder f)) (b : BlockId) :
    Func.blockInsts (r.apply f) b = f.blockInsts b := by
  rw [Func.blockInsts, Func.blockInsts, Func.block?, Func.block?, blocks_apply h]

/-- Every block ends as before, with other targets. -/
theorem exitOp?_apply (hf : f.Intact) (h : f.Reordered (r.reorder f)) (b : BlockId) :
    Func.exitOp? (r.apply f) b =
      (f.exitOp? b).map (Operation.mapTargets (redirect r.edges b)) := by
  unfold apply
  rw [Func.exitOp?_retargetAll _ _ (hf.reordered h), h.exitOp?]

/-- An instruction after relinking is one before, perhaps with other targets. -/
theorem exists_of_op?_apply (h : f.Reordered (r.reorder f)) {i : InstId} {op : Operation}
    (hop : Func.op? (r.apply f) i = some op) :
    ∃ old ∈ f.op? i, ∃ u : BlockId → BlockId, op = old.mapTargets u := by
  unfold apply at hop
  obtain ⟨old, hold, hu⟩ := Func.exists_of_op?_retargetAll _ hop
  rw [h.op?] at hold
  exact ⟨old, hold, hu⟩

end Relinking

namespace Exchange

variable {f : Func} {O I : BlockId → Prop} {r : Relinking}

theorem reordered (hf : f.Flowing) (h : Exchange f.graph O I r) : f.Reordered (r.reorder f) :=
  r.reordered hf.toIntact h.movers_ne_entry

/-- The new targets of the changes are blocks other than the entry. -/
theorem new_target (h : Exchange f.graph O I r) :
    ∀ e ∈ r.edges, e.2.2 ∈ f.layout ∧ f.entry? ≠ some e.2.2 := by
  intro e he
  refine ⟨(h.new_reachable e he).listed, ?_⟩
  obtain ⟨q, hq⟩ := h.exists_pred
  have hentry : ∀ e ∈ r.edges, f.graph.entry ≠ some e.2.2 := by
    simp only [Relinking.edges, List.forall_mem_cons]
    exact ⟨h.ne_entry h.nest.header_edge, h.ne_entry h.nest.body_edge, h.ne_entry hq,
      h.ne_entry ((h.exit_iff _).2 rfl), h.ne_entry h.nest.bodyEnd_edge,
      h.ne_entry h.nest.exit_edge, List.forall_mem_nil _⟩
  exact hentry e he

/-- Relinking keeps a function flowing. -/
theorem flowing_apply (hf : f.Flowing) (h : Exchange f.graph O I r) : Func.Flowing (r.apply f) := by
  have horder := h.reordered hf
  have hne := h.movers_ne_entry
  have hlayout : ∀ b, b ∈ Func.layout (r.apply f) ↔ b ∈ f.layout := fun b =>
    Relinking.mem_layout_apply hf hne
  have hintact : Func.Intact (r.apply f) := by
    unfold Relinking.apply
    exact (hf.toIntact.reordered horder).retargetAll _
  refine ⟨hintact, fun b hb => ?_, fun b hb i hi op hop => ?_, fun b hb t ht => ?_⟩
  · rw [Relinking.exitOp?_apply hf.toIntact horder, Option.isSome_map]
    exact hf.exitOp b ((hlayout b).1 hb)
  · rw [Relinking.blockInsts_apply horder] at hi
    obtain ⟨old, hold, u, rfl⟩ := Relinking.exists_of_op?_apply horder hop
    rw [Operation.isTerminator_mapTargets]
    exact hf.inner b ((hlayout b).1 hb) i hi old hold
  · rw [Relinking.mem_successors_apply (hf.toIntact.reordered horder)] at ht
    obtain ⟨s, hs, rfl⟩ := ht
    rw [horder.successors] at hs
    rw [hlayout, Relinking.entry?_apply hf hne]
    have htarget := hf.target b ((hlayout b).1 hb) s hs
    exact redirect_closed (P := fun t => t ∈ f.layout ∧ f.entry? ≠ some t) h.new_target b s htarget

end Exchange

namespace Func

variable {f f' : Func} {q n : BlockId}

namespace Legible

/-- Relinking keeps a function legible. -/
theorem apply {O I : BlockId → Prop} {r : Relinking} (hf : f.Legible)
    (h : Exchange f.graph O I r) : Legible (r.apply f) := by
  have horder := h.reordered hf.toFlowing
  have hlayout : (Func.layout (r.apply f)).Perm f.layout := by
    rw [r.layout_apply]
    exact horder.layout
  have hname := Relinking.blockName?_apply horder
  refine hf.of_grown ⟨h.flowing_apply hf.toFlowing, ?_⟩ (Relinking.grown_apply horder)
    fun b hb label hlabel => ?_
  · rw [List.map_congr_left fun b _ => hname b]
    exact (hlayout.map _).nodup_iff.2 hf.names
  · rw [hname] at hlabel
    exact hf.label_name b (hlayout.mem_iff.1 hb) label hlabel

/-- Splitting off a part of a block keeps a function legible, and the entry. -/
theorem parted (hf : f.Legible) (h : f.Parted f' q) : f'.Legible ∧ f'.entry? = f.entry? := by
  rcases h with rfl | ⟨k, n, hk, h⟩
  · exact ⟨hf, rfl⟩
  · exact ⟨hf.split? h hk, hf.toFlowing.entry?_split? h⟩

end Legible

end Func

/-! ### Steps -/

/-- What a caller can do to a function; loops are given by their places in the preorder. -/
inductive Step where
  | interchange (outer inner : Nat)
  | isolatePreheader (loop : Nat)
  deriving DecidableEq

namespace Workspace

/-- The workspace after a step, which looks for the loops of the function first. -/
def step (w : Workspace) : Step → Workspace
  | .interchange outer inner => (w.interchange outer inner).1
  | .isolatePreheader loop =>
    match w.findLoops.1.isolatePreheader w.findLoops.2 loop with
    | .ok (_, _, w') => w'
    | .error _ => w.findLoops.2

/-- The workspace after one step after the other. -/
def run (w : Workspace) (steps : List Step) : Workspace := steps.foldl step w

variable {w w' : Workspace}

/-- An interchange leaves the function as it was, or splits what has to be split for a plan and
relinks. -/
theorem func_interchange_cases (hf : w.func.Flowing) (outer inner : Nat) :
    (w.interchange outer inner).1.func = w.func ∨
      ∃ l m p f₁ q f₂ c, Planned w.func outer inner l m p ∧
        w.func.splitEntry? p.outerPreheader = some (f₁, q) ∧
        f₁.splitExit? p.outerExit = some (f₂, c) ∧
        (w.interchange outer inner).1.func = (p.relinking q c).apply f₂ := by
  cases hplan : w.func.loops.plan w.func outer inner with
  | error e =>
      rw [interchange_of_refused hplan]
      exact Or.inl rfl
  | ok p =>
      obtain ⟨l, m, hp⟩ := plan_eq_ok_iff.1 hplan
      obtain ⟨f₁, q, f₂, c, -, h₁, h₂, -, w', done, heq, hfunc, -⟩ := interchange_eq hf hp
      refine Or.inr ⟨l, m, p, f₁, q, f₂, c, hp, h₁, h₂, ?_⟩
      rw [heq]
      exact hfunc

/-- A preheader that is isolated is split off if it was the entry. -/
theorem splitEntry?_of_isolatePreheader {n n' : LoopForest} {i : Nat} {s : BlockId}
    (h : n.isolatePreheader w i = .ok (s, n', w')) :
    ∃ q, w.func.splitEntry? q = some (w'.func, s) := by
  obtain ⟨-, p, -, -, ⟨hne, rfl, -, rfl⟩ | ⟨he, f, hsplit, -, rfl⟩⟩ := isolatePreheader_cases h
  · exact ⟨s, if_neg hne⟩
  · exact ⟨p, (if_pos he).trans hsplit⟩

/-- A step keeps a function legible, and the entry. -/
theorem legible_step (hw : w.func.Legible) (s : Step) :
    (w.step s).func.Legible ∧ (w.step s).func.entry? = w.func.entry? := by
  cases s with
  | interchange outer inner =>
      rw [step]
      have hf := hw.toFlowing
      rcases func_interchange_cases hf outer inner with
        hsame | ⟨l, m, p, f₁, q, f₂, c, hp, h₁, h₂, happly⟩
      · rw [hsame]
        exact ⟨hw, rfl⟩
      · obtain ⟨hf₁, hentry₁⟩ := hw.parted (Func.parted_splitEntry? hw.toFlowing h₁)
        obtain ⟨hf₂, hentry₂⟩ := hf₁.parted (Func.parted_splitExit? hf₁.toFlowing h₂)
        have hx := hp.exchange hf h₁ h₂
        rw [happly, Relinking.entry?_apply hf₂.toFlowing hx.movers_ne_entry, hentry₂]
        exact ⟨hf₂.apply hx, hentry₁⟩
  | isolatePreheader loop =>
      rw [step]
      split
      · next s n' w' h =>
          obtain ⟨q, hq⟩ := splitEntry?_of_isolatePreheader h
          exact hw.parted (Func.parted_splitEntry? hw.toFlowing hq)
      · exact ⟨hw, rfl⟩

/-- A run keeps a function legible, and the entry. -/
theorem legible_run (steps : List Step) : ∀ {w : Workspace}, w.func.Legible →
    (w.run steps).func.Legible ∧ (w.run steps).func.entry? = w.func.entry? := by
  induction steps with
  | nil => exact fun hw => ⟨hw, rfl⟩
  | cons s steps ih =>
      intro w hw
      obtain ⟨hstep, hentry⟩ := legible_step hw s
      obtain ⟨hrun, hentry'⟩ := ih hstep
      exact ⟨hrun, hentry'.trans hentry⟩

/-- What is read from a text stays well-formed over any run, with the same entry, and every value
that an instruction takes is the result of an instruction and has a name. -/
theorem run_wellFormed {text : String} {p : Program} (h : Program.read text = .ok p)
    (hw : w.func ∈ p.functions) (steps : List Step) :
    (w.run steps).func.WellFormed ∧ (w.run steps).func.entry? = w.func.entry? ∧
      ∀ i, ∀ op ∈ (w.run steps).func.op? i, ∀ j, .value j ∈ op.operands →
        ((w.run steps).func.resultName? j).isSome = true := by
  obtain ⟨hrun, hentry⟩ := legible_run steps (Program.legible_of_read h w.func hw)
  exact ⟨hrun.toWellFormed, hentry, hrun.value_named⟩

/-- Two nested loops between an entry and a block that returns, with a result that is used before
the block that defines it. -/
def countedText : String :=
  "f() \x7b\nentry: br ^oh\noh: condbr %c, ^iph, ^oe\niph: br ^ih\nih: condbr 1, ^be, ^ie\n" ++
    "be: %c = my op @l, -1\n br ^il\nil: br ^ih\nie: br ^ol\nol: br ^oh\noe: ret\n\x7d"

/-- The function of that text. -/
def counted : Func := .ofBlocks "f" [
  ("entry", [(none, .br ⟨1⟩)]),
  ("oh", [(none, .condBr (.value ⟨4⟩) ⟨2⟩ ⟨8⟩)]),
  ("iph", [(none, .br ⟨3⟩)]),
  ("ih", [(none, .condBr (.const 1) ⟨4⟩ ⟨6⟩)]),
  ("be", [(some "c", .other "my op" [.location "l", .const (-1)]), (none, .br ⟨5⟩)]),
  ("il", [(none, .br ⟨3⟩)]),
  ("ie", [(none, .br ⟨7⟩)]),
  ("ol", [(none, .br ⟨1⟩)]),
  ("oe", [(none, .ret none)])]

/-- The steps of this run split both the entry and the outer exit and interchange the loops twice;
the last step fails. -/
theorem run_wellFormed_counted :
    let steps := [Step.interchange 0 1, .isolatePreheader 0, .interchange 0 1, .interchange 7 3]
    let w' := run ⟨counted, .zero⟩ steps
    Program.read countedText = .ok ⟨[counted]⟩ ∧
      w'.stats.interchanges = 2 ∧ w'.stats.materialized = 2 ∧
      w'.func.WellFormed ∧ w'.func.entry? = counted.entry? ∧
      ∀ i, ∀ op ∈ w'.func.op? i, ∀ j, .value j ∈ op.operands →
        (w'.func.resultName? j).isSome = true := by
  have hread : Program.read countedText = .ok ⟨[counted]⟩ := by decide +kernel
  have hrun := run_wellFormed (w := ⟨counted, .zero⟩) hread (List.mem_singleton_self _)
  exact ⟨hread, by decide +kernel, by decide +kernel, hrun _⟩

/-- The outcome of a run on what was read from a text has a text, which reads back as the outcome
with its ids in order. -/
theorem read_print_run {text : String} (h : Func.read text = .ok w.func) (steps : List Step) :
    ∃ text', (w.run steps).func.print? = some text' ∧
      Func.read text' = .ok (w.run steps).func.renumbered := by
  obtain ⟨hrun, -⟩ := legible_run steps (Func.legible_of_read h)
  exact ⟨_, hrun.print?_eq, hrun.read_text⟩

/-- After an interchange the ids are not in order, so what is read back is not the outcome
itself. -/
theorem read_print_run_counted :
    let g := (run ⟨counted, .zero⟩ [.interchange 0 1]).func
    Func.read countedText = .ok counted ∧ g.renumbered ≠ g ∧
      ∃ text', g.print? = some text' ∧ Func.read text' = .ok g.renumbered := by
  have hread : Func.read countedText = .ok counted := by decide +kernel
  exact ⟨hread, by decide +kernel, read_print_run (w := ⟨counted, .zero⟩) hread _⟩

end Workspace

end LoopSwap
