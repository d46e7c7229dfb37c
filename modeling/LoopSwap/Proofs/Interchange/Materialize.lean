/-
**What an interchange splits before it relinks.**

An outer preheader that is the entry is split before its terminator, and an outer exit that does not
end in an unconditional branch is split at its start.  In the graph, each split cuts a node outside
the loops in two, so that the blocks of the plan, with the block that was split off in the place of
the outer preheader, still form a nest.

Main definitions:

* `LoopSwap.Func.splitEntry?`, `LoopSwap.Func.splitExit?` — the two splits;
* `LoopSwap.Plan.made` — the blocks that are split off;
* `LoopSwap.Opened` — a graph in which a node may have been cut.

Main results:

* `LoopSwap.Workspace.materialize_eq` — with a plan, splitting does not fail;
* `LoopSwap.Workspace.interchange_of_refused`, `LoopSwap.Workspace.interchange_of_planned` — an
  interchange without a plan, and with one;
* `LoopSwap.Workspace.interchange_eq` — with a plan, an interchange succeeds, and what it does;
* `LoopSwap.Planned.exchange` — what is relinked after the splits;
* `LoopSwap.Workspace.exists_planned` — a successful interchange has a plan.
-/

import LoopSwap.Proofs.Interchange.Exchange

set_option relaxedAutoImplicit false
set_option autoImplicit false

namespace LoopSwap

/-! ### Splitting -/

/-- Splits the block `q` before its terminator if it is the entry.  With the function comes the
block that takes the place of `q`. -/
def Func.splitEntry? (f : Func) (q : BlockId) : Option (Func × BlockId) :=
  if f.entry? = some q then f.split? q ((f.blockInsts q).length - 1) else some (f, q)

/-- Splits the block `x` at its start if it does not end in an unconditional branch.  With the
function comes the block that `x` goes on with. -/
def Func.splitExit? (f : Func) (x : BlockId) : Option (Func × BlockId) :=
  match (f.exitOp? x).bind Operation.continuation? with
  | some t => some (f, t)
  | none => f.split? x 0

namespace Func

variable {f f' : Func} {b n : BlockId}

theorem parted_splitEntry? (hf : f.Flowing) (h : f.splitEntry? b = some (f', n)) :
    f.Parted f' b := by
  unfold splitEntry? at h
  split at h
  · have hpos := List.length_pos_iff.2 (hf.blockInsts_ne_nil (hf.split?_mem h))
    exact Or.inr ⟨_, n, Nat.sub_lt hpos Nat.one_pos, h⟩
  · cases h
    exact Or.inl rfl

theorem parted_splitExit? (hf : f.Flowing) (h : f.splitExit? b = some (f', n)) :
    f.Parted f' b := by
  unfold splitExit? at h
  split at h
  · cases h
    exact Or.inl rfl
  · have hpos := List.length_pos_iff.2 (hf.blockInsts_ne_nil (hf.split?_mem h))
    exact Or.inr ⟨0, n, hpos, h⟩

end Func

/-- The blocks that are split off for a plan, if `q` is the outer preheader and `c` the block that
the outer exit goes on with after the splits. -/
def Plan.made (p : Plan) (q c : BlockId) : List BlockId :=
  (if p.preheaderPred = none then [q] else []) ++ if p.continuation = none then [c] else []

/-- What is relinked for a plan. -/
def Plan.relinking (p : Plan) (q c : BlockId) : Relinking :=
  ⟨p, q, p.preheaderPred.getD p.outerPreheader, c⟩

/-- `g'` is `g`, in which the node `c` is cut in two if `made` is not empty. -/
def Opened {α : Type} (g g' : FlowGraph α) (c n : α) (made : List α) : Prop :=
  g' = g ∧ made = [] ∨ Cut g g' c n ∧ made = [n]

namespace Opened

variable {α : Type} {g g' : FlowGraph α} {c n a b : α} {made : List α} {P : α → Prop}

theorem listed_iff (h : Opened g g' c n made) : a ∈ g'.listed ↔ a ∈ made ∨ a ∈ g.listed := by
  rcases h with ⟨rfl, rfl⟩ | ⟨hc, rfl⟩
  · simp
  · rw [hc.listed, List.mem_singleton]

theorem entry (h : Opened g g' c n made) : g'.entry = g.entry := by
  rcases h with ⟨rfl, -⟩ | ⟨hc, -⟩
  · rfl
  · exact hc.entry

/-- Only the edges of the node that is cut are not what they were. -/
theorem edge_iff (h : Opened g g' c n made) (hac : a ≠ c) (ha : a ∈ g.listed) :
    g'.Edge a b ↔ g.Edge a b := by
  rcases h with ⟨rfl, -⟩ | ⟨hc, -⟩
  · exact Iff.rfl
  · exact hc.edge_of_ne hac (hc.ne ha)

theorem reachable_iff (h : Opened g g' c n made) (hcr : g.Reachable c) :
    g'.Reachable a ↔ a ∈ made ∨ g.Reachable a := by
  rcases h with ⟨rfl, rfl⟩ | ⟨hc, rfl⟩
  · simp
  · rw [hc.reachable_iff, List.mem_singleton]
    constructor
    · rintro (⟨han, -⟩ | ⟨-, ha⟩)
      · exact Or.inl han
      · exact Or.inr ha
    · rintro (han | ha)
      · exact Or.inl ⟨han, hcr⟩
      · exact Or.inr ⟨hc.ne ha.listed, ha⟩

/-- Ways between old nodes are the same before and after. -/
theorem reachVia_iff (h : Opened g g' c n made) (hn : P n) (ha : a ∈ g.listed)
    (hb : b ∈ g.listed) : ReachVia g'.Edge P a b ↔ ReachVia g.Edge P a b := by
  rcases h with ⟨rfl, -⟩ | ⟨hc, -⟩
  · exact Iff.rfl
  · constructor
    · intro hab
      rcases hc.reachVia_old hab (hc.ne ha) with ⟨-, hold⟩ | ⟨hbn, -⟩
      · exact hold
      · exact absurd hbn (hc.ne hb)
    · exact fun hab => hc.reachVia hab hn

end Opened

/-! ### The splits of a plan -/

namespace Planned

variable {f f₁ f₂ : Func} {outer inner : Nat} {l m : Loop} {p : Plan} {q c : BlockId}

theorem exists_splitEntry? (hf : f.Flowing) (h : Planned f outer inner l m p) :
    ∃ f₁ q, f.splitEntry? p.outerPreheader = some (f₁, q) := by
  unfold Func.splitEntry?
  split
  · have hmem := (h.nest hf).outer.preheader_reachable.listed
    obtain ⟨⟨f₁, q⟩, hsplit⟩ := hf.exists_split? hmem ((f.blockInsts p.outerPreheader).length - 1)
    exact ⟨f₁, q, hsplit⟩
  · exact ⟨f, _, rfl⟩

/-- The split of the entry. -/
theorem splitEntry (hf : f.Flowing) (h : Planned f outer inner l m p)
    (h₁ : f.splitEntry? p.outerPreheader = some (f₁, q)) :
    f₁.Flowing ∧ f₁.exitOp? p.outerExit = f.exitOp? p.outerExit ∧
      (f₁ = f ∧ q = p.outerPreheader ∧ p.preheaderPred ≠ none ∨
        Cut f.graph f₁.graph p.outerPreheader q ∧ p.preheaderPred = none) := by
  unfold Func.splitEntry? at h₁
  rcases h.preheaderPred_cases hf with ⟨hentry, hnone⟩ | ⟨hentry, a, hsome, -⟩
  · rw [if_pos hentry] at h₁
    have hmem := hf.split?_mem h₁
    have hpos := List.length_pos_iff.2 (hf.blockInsts_ne_nil hmem)
    have hcut : (f.blockInsts p.outerPreheader).length - 1 <
        (f.blockInsts p.outerPreheader).length := Nat.sub_lt hpos Nat.one_pos
    have hexit : p.outerExit ≠ q := hf.split?_ne h₁ (h.nest hf).outer.exit_reachable.listed
    refine ⟨hf.split? h₁ hcut, ?_, Or.inr ⟨hf.cut h₁ hcut, hnone⟩⟩
    exact Func.exitOp?_split?_of_ne hf.toIntact h₁ (h.nest hf).outerExit_ne_outerPreheader hexit
  · rw [if_neg hentry] at h₁
    cases h₁
    refine ⟨hf, rfl, Or.inl ⟨rfl, rfl, ?_⟩⟩
    rw [hsome]
    exact Option.some_ne_none a

/-- The second split goes by what was found before the first one. -/
theorem splitExit?_eq (hf : f.Flowing) (h : Planned f outer inner l m p)
    (h₁ : f.splitEntry? p.outerPreheader = some (f₁, q)) :
    f₁.splitExit? p.outerExit =
      match p.continuation with
      | some t => some (f₁, t)
      | none => f₁.split? p.outerExit 0 := by
  obtain ⟨-, hexit, -⟩ := h.splitEntry hf h₁
  obtain ⟨op, hop, hcont⟩ := h.exitOp
  rw [Func.splitExit?, hexit, hop, Option.bind_some, ← hcont]

theorem exists_splitExit? (hf : f.Flowing) (h : Planned f outer inner l m p)
    (h₁ : f.splitEntry? p.outerPreheader = some (f₁, q)) :
    ∃ f₂ c, f₁.splitExit? p.outerExit = some (f₂, c) := by
  obtain ⟨hf₁, hexit, -⟩ := h.splitEntry hf h₁
  obtain ⟨op, hop, -⟩ := h.exitOp
  rw [h.splitExit?_eq hf h₁]
  split
  · exact ⟨_, _, rfl⟩
  · have hmem : p.outerExit ∈ f₁.layout := by
      have hterm : (f₁.exitOp? p.outerExit).isSome = true := by
        rw [hexit, hop]
        rfl
      obtain ⟨t, ht⟩ := Option.isSome_iff_exists.1 hterm
      obtain ⟨i, hi, -⟩ := Option.bind_eq_some_iff.1 ht
      exact hf₁.mem_layout_of_mem_blockInsts (Func.mem_blockInsts_of_terminator? hi)
    obtain ⟨⟨f₂, c⟩, hsplit⟩ := hf₁.exists_split? hmem 0
    exact ⟨f₂, c, hsplit⟩

/-- The split of the outer exit. -/
theorem splitExit (hf : f.Flowing) (h : Planned f outer inner l m p)
    (h₁ : f.splitEntry? p.outerPreheader = some (f₁, q))
    (h₂ : f₁.splitExit? p.outerExit = some (f₂, c)) :
    f₂.Flowing ∧ (∀ b, f₂.graph.Edge p.outerExit b ↔ b = c) ∧
      (f₂ = f₁ ∧ p.continuation = some c ∨
        Cut f₁.graph f₂.graph p.outerExit c ∧ p.continuation = none) := by
  obtain ⟨hf₁, hexit, -⟩ := h.splitEntry hf h₁
  obtain ⟨op, hop, hcont⟩ := h.exitOp
  rw [h.splitExit?_eq hf h₁] at h₂
  cases hc : p.continuation with
  | some t =>
      rw [hc] at h₂ hcont
      cases h₂
      refine ⟨hf₁, fun b => ?_, Or.inl ⟨rfl, rfl⟩⟩
      have hbr : op = .br c := by
        cases op <;> simp_all [Operation.continuation?]
      rw [hf₁.edge_iff, Func.successors, hexit, hop, hbr]
      simp [Operation.successors]
  | none =>
      rw [hc] at h₂
      have hpos := List.length_pos_iff.2 (hf₁.blockInsts_ne_nil (hf₁.split?_mem h₂))
      have hcut := hf₁.cut h₂ hpos
      exact ⟨hf₁.split? h₂ hpos, fun b => hcut.edge_self, Or.inr ⟨hcut, rfl⟩⟩

/-- The entry may be cut in two. -/
theorem openedEntry (hf : f.Flowing) (h : Planned f outer inner l m p)
    (h₁ : f.splitEntry? p.outerPreheader = some (f₁, q)) :
    Opened f.graph f₁.graph p.outerPreheader q (if p.preheaderPred = none then [q] else []) := by
  obtain ⟨-, -, ⟨rfl, -, hsome⟩ | ⟨hcut, hnone⟩⟩ := h.splitEntry hf h₁
  · exact Or.inl ⟨rfl, if_neg hsome⟩
  · exact Or.inr ⟨hcut, if_pos hnone⟩

/-- The outer exit may be cut in two. -/
theorem openedExit (hf : f.Flowing) (h : Planned f outer inner l m p)
    (h₁ : f.splitEntry? p.outerPreheader = some (f₁, q))
    (h₂ : f₁.splitExit? p.outerExit = some (f₂, c)) :
    Opened f₁.graph f₂.graph p.outerExit c (if p.continuation = none then [c] else []) := by
  obtain ⟨-, -, ⟨rfl, hsome⟩ | ⟨hcut, hnone⟩⟩ := h.splitExit hf h₁ h₂
  · refine Or.inl ⟨rfl, if_neg ?_⟩
    rw [hsome]
    exact Option.some_ne_none c
  · exact Or.inr ⟨hcut, if_pos hnone⟩

/-- The blocks of a plan after the first split. -/
theorem nest_splitEntry (hf : f.Flowing) (h : Planned f outer inner l m p)
    (h₁ : f.splitEntry? p.outerPreheader = some (f₁, q)) :
    Nest f₁.graph (· ∈ l.blocks) (· ∈ m.blocks) q p := by
  obtain ⟨-, -, ⟨rfl, rfl, -⟩ | ⟨hcut, -⟩⟩ := h.splitEntry hf h₁
  · exact h.nest hf
  · have hnest := (h.nest hf).cut hcut (h.nest hf).outer.preheader_not_mem
    rw [if_pos rfl] at hnest
    exact hnest

/-- The blocks after the splits are those before and those that are split off. -/
theorem mem_layout_split_iff (hf : f.Flowing) (h : Planned f outer inner l m p)
    (h₁ : f.splitEntry? p.outerPreheader = some (f₁, q))
    (h₂ : f₁.splitExit? p.outerExit = some (f₂, c)) {b : BlockId} :
    b ∈ f₂.layout ↔ b ∈ p.made q c ∨ b ∈ f.layout := by
  have hb₁ := (h.openedEntry hf h₁).listed_iff (a := b)
  have hb₂ := (h.openedExit hf h₁ h₂).listed_iff (a := b)
  rw [Plan.made, List.mem_append]
  constructor
  · intro hb
    rcases hb₂.1 hb with hb | hb
    · exact Or.inl (Or.inr hb)
    · exact (hb₁.1 hb).imp_left Or.inl
  · rintro ((hb | hb) | hb)
    · exact hb₂.2 (Or.inr (hb₁.2 (Or.inl hb)))
    · exact hb₂.2 (Or.inl hb)
    · exact hb₂.2 (Or.inr (hb₁.2 (Or.inr hb)))

/-- What is reached after the splits is what was reached before, and the parts split off. -/
theorem reachable_split_iff (hf : f.Flowing) (h : Planned f outer inner l m p)
    (h₁ : f.splitEntry? p.outerPreheader = some (f₁, q))
    (h₂ : f₁.splitExit? p.outerExit = some (f₂, c)) {b : BlockId} :
    f₂.graph.Reachable b ↔ f.graph.Reachable b ∨ b ∈ p.made q c := by
  have hentry := h.openedEntry hf h₁
  have hnest := h.nest_splitEntry hf h₁
  rw [(h.openedExit hf h₁ h₂).reachable_iff hnest.outer.exit_reachable,
    hentry.reachable_iff (h.nest hf).outer.preheader_reachable, Plan.made, List.mem_append]
  constructor
  · rintro (hc | hq | hb)
    · exact Or.inr (Or.inr hc)
    · exact Or.inr (Or.inl hq)
    · exact Or.inl hb
  · rintro (hb | hq | hc)
    · exact Or.inr (Or.inr hb)
    · exact Or.inr (Or.inl hq)
    · exact Or.inl hc

/-- What is relinked after the splits. -/
theorem exchange (hf : f.Flowing) (h : Planned f outer inner l m p)
    (h₁ : f.splitEntry? p.outerPreheader = some (f₁, q))
    (h₂ : f₁.splitExit? p.outerExit = some (f₂, c)) :
    Exchange f₂.graph (· ∈ l.blocks) (· ∈ m.blocks) (p.relinking q c) := by
  have hnest := h.nest_splitEntry hf h₁
  have hopen := h.openedExit hf h₁ h₂
  obtain ⟨-, hexit, hsplit⟩ := h.splitExit hf h₁ h₂
  have hpred := h.preheaderPred_cases hf
  refine ⟨?_, hexit, fun hne => ?_, fun heq hc => ?_⟩
  · rcases hsplit with ⟨rfl, -⟩ | ⟨hcut, -⟩
    · exact hnest
    · have hcutnest := hnest.cut hcut hnest.outer.exit_not_mem
      rw [if_neg hnest.outerExit_ne_outerPreheader.symm] at hcutnest
      exact hcutnest
  · -- the edge is there after the first split, and the second one does not touch it
    have hedge : f₁.graph.Edge (p.relinking q c).preheaderPred q := by
      obtain ⟨-, -, ⟨rfl, rfl, hsome⟩ | ⟨hcut, hnone⟩⟩ := h.splitEntry hf h₁
      · rcases hpred with ⟨-, hnone⟩ | ⟨-, a, ha, hiff⟩
        · exact absurd hnone hsome
        · rw [Plan.relinking, ha]
          exact (hiff a).2 rfl
      · rw [Plan.relinking, hnone]
        exact hcut.edge_self.2 rfl
    exact (hopen.edge_iff hne hedge.1).2 hedge
  · rcases hpred with ⟨-, hnone⟩ | ⟨hentry, a, ha, hiff⟩
    · rw [Plan.relinking, hnone] at heq
      exact absurd heq.symm (h.nest hf).outerExit_ne_outerPreheader
    · obtain rfl : a = p.outerExit := by
        rw [Plan.relinking, ha] at heq
        exact heq
      obtain ⟨-, -, ⟨rfl, rfl, -⟩ | ⟨-, hnone⟩⟩ := h.splitEntry hf h₁
      · have hedge := (hiff _).2 rfl
        rcases hsplit with ⟨rfl, -⟩ | ⟨hcut, -⟩
        · exact absurd ((hexit _).1 hedge).symm hc
        · exact ⟨hcut.edge_new.2 hedge, fun x hx => hcut.edge_to_new.1 hx⟩
      · rw [ha] at hnone
        cases hnone

end Planned

/-! ### Interchanges -/

namespace Workspace

variable {w w' : Workspace} {outer inner : Nat} {l m : Loop} {p : Plan}

/-- A preheader that is the entry is split off it. -/
theorem isolatePreheader_eq_split {n : LoopForest} {i : Nat} {q s : BlockId} {f : Func}
    (hl : n.loop? i = some l) (hp : l.preheader = some q) (he : w.func.entry? = some q)
    (hs : w.func.split? q ((w.func.blockInsts q).length - 1) = some (f, s)) :
    n.isolatePreheader w i =
      .ok (s, n.replacePreheader q s, ⟨f, w.stats.addMaterialized⟩) := by
  unfold LoopForest.isolatePreheader
  simp only [hl, hp, require_some, ok_bind, he, ne_eq, not_true_eq_false, if_false, hs]
  rfl

/-- A preheader that is isolated was not the entry, and nothing is done, or it is split off the
entry. -/
theorem isolatePreheader_cases {n n' : LoopForest} {i : Nat} {q : BlockId}
    (h : n.isolatePreheader w i = .ok (q, n', w')) :
    ∃ l p, n.loop? i = some l ∧ l.preheader = some p ∧
      (w.func.entry? ≠ some p ∧ q = p ∧ n' = n ∧ w' = w ∨
        w.func.entry? = some p ∧ ∃ f,
          w.func.split? p ((w.func.blockInsts p).length - 1) = some (f, q) ∧
          n' = n.replacePreheader p q ∧ w' = ⟨f, w.stats.addMaterialized⟩) := by
  unfold LoopForest.isolatePreheader at h
  obtain ⟨l, hl, h⟩ := bind_eq_ok.1 h
  obtain ⟨p, hp, h⟩ := bind_eq_ok.1 h
  rw [require_eq_ok_iff] at hl hp
  refine ⟨l, p, hl, hp, ?_⟩
  split at h
  · next hne =>
      cases h
      exact Or.inl ⟨hne.symm, rfl, rfl, rfl⟩
  · next he =>
      have hentry := (not_not.1 he).symm
      split at h
      · cases h
      · next f s hsplit =>
          cases h
          exact Or.inr ⟨hentry, f, hsplit, rfl, rfl⟩

/-- With a plan, the splits of an interchange do not fail. -/
theorem materialize_eq (hf : w.func.Flowing) (h : Planned w.func outer inner l m p) :
    ∃ f₁ q f₂ c stats, w.func.splitEntry? p.outerPreheader = some (f₁, q) ∧
      f₁.splitExit? p.outerExit = some (f₂, c) ∧
      w.materialize w.func.loops p outer = (⟨f₂, stats⟩, .ok (p.relinking q c, p.made q c)) := by
  obtain ⟨f₁, q, h₁⟩ := h.exists_splitEntry? hf
  obtain ⟨f₂, c, h₂⟩ := h.exists_splitExit? hf h₁
  have hexit := h₂
  rw [h.splitExit?_eq hf h₁] at hexit
  have hentry := h₁
  unfold Func.splitEntry? at hentry
  rcases h.preheaderPred with ⟨he, hnone⟩ | ⟨he, a, -, hsome⟩
  · rw [if_pos he] at hentry
    have hisolate := isolatePreheader_eq_split h.outerLoop h.outerConnections.1 he hentry
    cases hc : p.continuation with
    | some t =>
        rw [hc] at hexit
        cases hexit
        refine ⟨f₁, q, f₁, _, w.stats.addMaterialized, h₁, h₂, ?_⟩
        simp only [materialize, hnone, hisolate, hc, Plan.relinking, Plan.made]
        rfl
    | none =>
        rw [hc] at hexit
        refine ⟨f₁, q, f₂, c, w.stats.addMaterialized.addMaterialized, h₁, h₂, ?_⟩
        simp only [materialize, hnone, hisolate, hc, hexit, Plan.relinking, Plan.made]
        rfl
  · rw [if_neg he] at hentry
    cases hentry
    cases hc : p.continuation with
    | some t =>
        rw [hc] at hexit
        cases hexit
        refine ⟨_, _, _, _, w.stats, h₁, h₂, ?_⟩
        simp only [materialize, hsome, hc, Plan.relinking, Plan.made]
        rfl
    | none =>
        rw [hc] at hexit
        refine ⟨_, _, f₂, c, w.stats.addMaterialized, h₁, h₂, ?_⟩
        simp only [materialize, hsome, hc, hexit, Plan.relinking, Plan.made]
        rfl

theorem relink_eq (w : Workspace) (r : Relinking) (made : List BlockId) (outer inner : Nat) :
    (w.relink r made outer inner).1.func = r.apply w.func ∧
      (w.relink r made outer inner).2.materialized = made := by
  unfold relink Relinking.apply
  dsimp only
  generalize Func.retargetAll _ _ = result
  exact ⟨rfl, rfl⟩

/-- Without a plan an interchange is refused, and the loops that were found are counted. -/
theorem interchange_of_refused {e : LoopError}
    (h : w.func.loops.plan w.func outer inner = .error e) :
    w.interchange outer inner = (w.findLoops.2, .error e) := by
  unfold interchange
  simp only [findLoops, h]

/-- With a plan an interchange splits, which does not fail, and then relinks. -/
theorem interchange_of_planned (hf : w.func.Flowing) (h : Planned w.func outer inner l m p) :
    ∃ f₁ q f₂ c stats, w.func.splitEntry? p.outerPreheader = some (f₁, q) ∧
      f₁.splitExit? p.outerExit = some (f₂, c) ∧
      w.findLoops.2.materialize w.func.loops p outer =
        (⟨f₂, stats⟩, .ok (p.relinking q c, p.made q c)) ∧
      w.interchange outer inner =
        ((relink ⟨f₂, stats⟩ (p.relinking q c) (p.made q c) outer inner).1,
          .ok (relink ⟨f₂, stats⟩ (p.relinking q c) (p.made q c) outer inner).2) := by
  obtain ⟨f₁, q, f₂, c, stats, h₁, h₂, hmat⟩ := materialize_eq (w := w.findLoops.2) hf h
  have hplan : w.func.loops.plan w.func outer inner = .ok p := h.plan_eq
  refine ⟨f₁, q, f₂, c, stats, h₁, h₂, hmat, ?_⟩
  unfold interchange
  simp only [findLoops] at hmat
  simp only [findLoops, hplan, hmat]

/-- With a plan, an interchange succeeds, and this is what it does. -/
theorem interchange_eq (hf : w.func.Flowing) (h : Planned w.func outer inner l m p) :
    ∃ f₁ q f₂ c stats, w.func.splitEntry? p.outerPreheader = some (f₁, q) ∧
      f₁.splitExit? p.outerExit = some (f₂, c) ∧
      w.findLoops.2.materialize w.func.loops p outer =
        (⟨f₂, stats⟩, .ok (p.relinking q c, p.made q c)) ∧
      ∃ w' done, w.interchange outer inner = (w', .ok done) ∧
        w'.func = (p.relinking q c).apply f₂ ∧ done.materialized = p.made q c := by
  obtain ⟨f₁, q, f₂, c, stats, h₁, h₂, hmat, heq⟩ := interchange_of_planned hf h
  have hfunc := relink_eq ⟨f₂, stats⟩ (p.relinking q c) (p.made q c) outer inner
  exact ⟨f₁, q, f₂, c, stats, h₁, h₂, hmat, _, _, heq, hfunc.1, hfunc.2⟩

/-- A successful interchange has a plan, and this is what it does. -/
theorem exists_planned {done : Interchanged} (hf : w.func.Flowing)
    (h : w.interchange outer inner = (w', .ok done)) :
    ∃ l m p f₁ q f₂ c, Planned w.func outer inner l m p ∧
      w.func.splitEntry? p.outerPreheader = some (f₁, q) ∧
      f₁.splitExit? p.outerExit = some (f₂, c) ∧
      w'.func = (p.relinking q c).apply f₂ ∧ done.materialized = p.made q c := by
  cases hplan : w.func.loops.plan w.func outer inner with
  | error e =>
      rw [interchange_of_refused hplan] at h
      cases h
  | ok p =>
      obtain ⟨l, m, hp⟩ := plan_eq_ok_iff.1 hplan
      obtain ⟨f₁, q, f₂, c, -, h₁, h₂, -, w'', done', heq, hfunc, hmade⟩ := interchange_eq hf hp
      rw [heq] at h
      cases h
      exact ⟨l, m, p, f₁, q, f₂, c, hp, h₁, h₂, hfunc, hmade⟩

end Workspace

end LoopSwap
