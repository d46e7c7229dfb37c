/-
**What a plan says.**

A plan is made exactly if every block it names is there and the three edges of perfect nesting are
(`Planned`).  For a flowing function the blocks of a plan form a nest, with the blocks of the two
loops as the regions.

Main definitions:

* `LoopSwap.Planned` — what has to be found for a plan.

Main results:

* `LoopSwap.plan_eq_ok_iff` — when a plan is made, and which one;
* `LoopSwap.Planned.nest` — the blocks of a plan form a nest;
* `LoopSwap.Planned.preheaderPred_cases` — how the outer preheader is reached.
-/

import LoopSwap.Proofs.Interchange.Nest

set_option relaxedAutoImplicit false
set_option autoImplicit false

namespace LoopSwap

/-! ### The checks -/

theorem require_eq_ok_iff {α : Type} {i : Nat} {role : LoopRole} {o : Option α} {a : α} :
    require i role o = .ok a ↔ o = some a := by
  cases o <;> simp [require]

namespace Func

variable {f : Func} {a b : BlockId}

theorem exitOp_eq_ok_iff {op : Operation} : f.exitOp b = .ok op ↔ f.exitOp? b = some op := by
  unfold Func.exitOp
  cases hblock : f.block? b with
  | none =>
      have hnone : f.exitOp? b = none := by
        simp [exitOp?, terminator?, blockInsts, hblock]
      simp [hnone]
  | some block =>
      cases hop : f.exitOp? b with
      | none => simp
      | some op => simp

/-- No block is lexically after itself. -/
theorem next?_ne (hf : f.layout.Nodup) (h : f.next? a = some b) : b ≠ a := by
  obtain ⟨k, hk, hnext⟩ := Option.bind_eq_some_iff.1 h
  rintro rfl
  have hself := (idxOf?_eq_some_iff_getElem? hf).1 hk
  have hplace := place_unique hf hself hnext
  omega

theorem uniquePredecessor?_eq_some_iff :
    f.uniquePredecessor? b = some a ↔ f.predecessors b = [a] := sole?_eq_some_iff

end Func

/-- An edge of perfect nesting is there if the check succeeds. -/
theorem checkEdge_eq_ok_iff {f : Func} {a b : BlockId} {e : LoopError} :
    checkEdge f a b e = .ok () ↔ b ∈ f.successors a := by
  rw [Func.mem_successors_iff]
  unfold checkEdge
  constructor
  · intro h
    obtain ⟨found, hfound, hif⟩ := bind_eq_ok.1 h
    obtain ⟨op, hop, -, hmem⟩ := leadsTo_eq_ok_iff.1 hfound
    cases found with
    | false => cases hif
    | true => exact ⟨op, Func.exitOp_eq_ok_iff.1 hop, of_decide_eq_true hmem⟩
  · rintro ⟨op, hop, hmem⟩
    have hbranch : op.isBranch = true := Operation.isBranch_iff.2 (List.ne_nil_of_mem hmem)
    have hfound : leadsTo f a b = .ok true :=
      leadsTo_eq_ok_iff.2 ⟨op, Func.exitOp_eq_ok_iff.2 hop, hbranch, decide_eq_true hmem⟩
    rw [hfound]
    rfl

theorem connections_eq_ok_iff {l : Loop} {i : Nat} {c : BlockId × BlockId × BlockId} :
    l.connections i = .ok c ↔
      l.preheader = some c.1 ∧ l.latch = some c.2.1 ∧ l.exit = some c.2.2 := by
  obtain ⟨p, t, x⟩ := c
  unfold Loop.connections
  simp only [bind_eq_ok, require_eq_ok_iff]
  constructor
  · rintro ⟨_, hp, _, ht, _, hx, heq⟩
    cases heq
    exact ⟨hp, ht, hx⟩
  · rintro ⟨hp, ht, hx⟩
    exact ⟨p, hp, t, ht, x, hx, rfl⟩

/-! ### Plans -/

/-- What has to be found for a plan: the two loops, one within the other, their connections, the
two ends of the inner body, the way to the outer preheader, and the edges of perfect nesting. -/
structure Planned (f : Func) (outer inner : Nat) (l m : Loop) (p : Plan) : Prop where
  outerLoop : f.loops.loop? outer = some l
  innerLoop : f.loops.loop? inner = some m
  within : outer ≠ inner ∧ f.loops.isWithin inner outer = true
  headers : l.header = p.outerHeader ∧ m.header = p.innerHeader
  outerConnections : l.preheader = some p.outerPreheader ∧ l.latch = some p.outerLatch ∧
    l.exit = some p.outerExit
  innerConnections : m.preheader = some p.innerPreheader ∧ m.latch = some p.innerLatch ∧
    m.exit = some p.innerExit
  bodyEntry : m.bodyEntry? f = some p.bodyEntry
  bodyEnd : m.latchPredecessor? f = some p.bodyEnd ∧ p.bodyEnd ≠ m.header
  preheaderPred : f.entry? = some p.outerPreheader ∧ p.preheaderPred = none ∨
    f.entry? ≠ some p.outerPreheader ∧
      ∃ a, l.preheaderPredecessor? f = some a ∧ p.preheaderPred = some a
  headerEdge : p.innerPreheader ∈ f.successors p.outerHeader
  bodyEdge : p.bodyEntry ∈ f.successors p.innerHeader
  exitEdge : p.outerLatch ∈ f.successors p.innerExit
  exitOp : ∃ op, f.exitOp? p.outerExit = some op ∧ p.continuation = op.continuation?

/-- A plan that is made names what has to be found. -/
theorem exists_planned_of_plan {f : Func} {outer inner : Nat} {p : Plan}
    (h : f.loops.plan f outer inner = .ok p) : ∃ l m, Planned f outer inner l m p := by
  unfold LoopForest.plan at h
  obtain ⟨l, hl, h⟩ := bind_eq_ok.1 h
  obtain ⟨m, hm, h⟩ := bind_eq_ok.1 h
  rw [require_eq_ok_iff] at hl hm
  split at h
  · cases h
  · next hcond =>
      obtain ⟨c, hc, h⟩ := bind_eq_ok.1 h
      obtain ⟨d, hd, h⟩ := bind_eq_ok.1 h
      obtain ⟨be, hbe, h⟩ := bind_eq_ok.1 h
      obtain ⟨bend, hbend, h⟩ := bind_eq_ok.1 h
      rw [require_eq_ok_iff] at hbe hbend
      rw [connections_eq_ok_iff] at hc hd
      rw [Option.filter_eq_some_iff, decide_eq_true_eq] at hbend
      obtain ⟨hne, hwithin⟩ := not_or.1 hcond
      -- the checks that are left do not depend on how the preheader is reached
      have hrest : ∀ pred, (do
          checkEdge f l.header d.1 (.notPerfectlyNested outer inner .headerToPreheader)
          checkEdge f m.header be (.notPerfectlyNested outer inner .headerToBody)
          checkEdge f d.2.2 c.2.1 (.notPerfectlyNested outer inner .exitToLatch)
          let op ← f.exitOp c.2.2
          pure (Plan.mk c.1 l.header c.2.1 c.2.2 d.1 m.header d.2.1 d.2.2 be bend pred
            op.continuation?)) = Except.ok p →
          (f.entry? = some c.1 ∧ pred = none ∨ f.entry? ≠ some c.1 ∧
            ∃ a, l.preheaderPredecessor? f = some a ∧ pred = some a) →
          Planned f outer inner l m p := by
        intro pred h hpred
        obtain ⟨_, hheader, h⟩ := bind_eq_ok.1 h
        obtain ⟨_, hbody, h⟩ := bind_eq_ok.1 h
        obtain ⟨_, hexit, h⟩ := bind_eq_ok.1 h
        obtain ⟨op, hop, h⟩ := bind_eq_ok.1 h
        cases h
        exact ⟨hl, hm, ⟨hne, by simpa using hwithin⟩, ⟨rfl, rfl⟩, hc, hd, hbe, hbend, hpred,
          checkEdge_eq_ok_iff.1 hheader, checkEdge_eq_ok_iff.1 hbody,
          checkEdge_eq_ok_iff.1 hexit, op, Func.exitOp_eq_ok_iff.1 hop, rfl⟩
      dsimp only at h
      split at h
      · next hentry => exact ⟨l, m, hrest none h (Or.inl ⟨hentry, rfl⟩)⟩
      · next hentry =>
          obtain ⟨a, ha, h⟩ := bind_eq_ok.1 h
          exact ⟨l, m, hrest (some a) h (Or.inr ⟨hentry, a, require_eq_ok_iff.1 ha, rfl⟩)⟩

/-- If everything is found, the plan is made. -/
theorem Planned.plan_eq {f : Func} {outer inner : Nat} {l m : Loop} {p : Plan}
    (h : Planned f outer inner l m p) : f.loops.plan f outer inner = .ok p := by
  unfold LoopForest.plan
  obtain ⟨op, hop, hcont⟩ := h.exitOp
  have hcond : ¬ (outer = inner ∨ f.loops.isWithin inner outer = false) := by
    simp [h.within.1, h.within.2]
  have hc : l.connections outer = .ok (p.outerPreheader, p.outerLatch, p.outerExit) :=
    connections_eq_ok_iff.2 h.outerConnections
  have hd : m.connections inner = .ok (p.innerPreheader, p.innerLatch, p.innerExit) :=
    connections_eq_ok_iff.2 h.innerConnections
  have hbend : (m.latchPredecessor? f).filter (fun b => b ≠ m.header) = some p.bodyEnd :=
    Option.filter_eq_some_iff.2 ⟨h.bodyEnd.1, decide_eq_true h.bodyEnd.2⟩
  have hheader := h.headerEdge
  have hbody := h.bodyEdge
  rw [← h.headers.1] at hheader
  rw [← h.headers.2] at hbody
  simp only [h.outerLoop, h.innerLoop, require_some, ok_bind, if_neg hcond, hc, hd, h.bodyEntry,
    hbend, Func.exitOp_eq_ok_iff.2 hop, checkEdge_eq_ok_iff.2 hheader,
    checkEdge_eq_ok_iff.2 hbody, checkEdge_eq_ok_iff.2 h.exitEdge]
  rcases h.preheaderPred with ⟨hentry, hnone⟩ | ⟨hentry, a, ha, hsome⟩
  · rw [if_pos hentry, h.headers.1, h.headers.2, ← hcont, ← hnone]
    rfl
  · rw [if_neg hentry, ha, h.headers.1, h.headers.2, ← hcont]
    show Except.ok (Plan.mk _ _ _ _ _ _ _ _ _ _ (some a) _) = Except.ok p
    rw [← hsome]

/-- When a plan is made, and which one. -/
theorem plan_eq_ok_iff {f : Func} {outer inner : Nat} {p : Plan} :
    f.loops.plan f outer inner = .ok p ↔ ∃ l m, Planned f outer inner l m p := by
  constructor
  · exact exists_planned_of_plan
  · rintro ⟨l, m, h⟩
    exact h.plan_eq

namespace Planned

variable {f : Func} {outer inner : Nat} {l m : Loop} {p : Plan}

theorem nested (h : Planned f outer inner l m p) : m.NestedIn l :=
  Func.nestedIn_of_isWithin h.outerLoop h.within.2 m h.innerLoop

/-- The outer preheader is the entry, or one block leads to it. -/
theorem preheaderPred_cases (hf : f.Flowing) (h : Planned f outer inner l m p) :
    f.entry? = some p.outerPreheader ∧ p.preheaderPred = none ∨
      f.entry? ≠ some p.outerPreheader ∧ ∃ q, p.preheaderPred = some q ∧
        ∀ a, f.graph.Edge a p.outerPreheader ↔ a = q := by
  rcases h.preheaderPred with hnone | ⟨hentry, q, hq, hsome⟩
  · exact Or.inl hnone
  · refine Or.inr ⟨hentry, q, hsome, fun a => ?_⟩
    rw [Loop.preheaderPredecessor?, h.outerConnections.1, Option.bind_some,
      Func.uniquePredecessor?_eq_some_iff] at hq
    rw [hf.edge_iff_mem_predecessors, hq, List.mem_singleton]

/-- The body of the inner loop starts right after the inner header. -/
theorem bodyEntry_next (h : Planned f outer inner l m p) :
    f.next? p.innerHeader = some p.bodyEntry ∧ p.bodyEntry ∈ m.blocks := by
  have hentry := h.bodyEntry
  rw [Loop.bodyEntry?, Option.filter_eq_some_iff, decide_eq_true_eq, h.headers.2] at hentry
  exact hentry

/-- The blocks of a plan form a nest. -/
theorem nest (hf : f.Flowing) (h : Planned f outer inner l m p) :
    Nest f.graph (· ∈ l.blocks) (· ∈ m.blocks) p.outerPreheader p := by
  have hl := Func.describes_loop? h.outerLoop
  have hm := Func.describes_loop? h.innerLoop
  obtain ⟨hlp, hlt, hlx⟩ := h.outerConnections
  obtain ⟨hmp, hmt, hmx⟩ := h.innerConnections
  have houter := hl.region hf hlp hlt hlx
  have hinner := hm.region hf hmp hmt hmx
  rw [h.headers.1] at houter
  rw [h.headers.2] at hinner
  obtain ⟨hnext, hmem⟩ := h.bodyEntry_next
  have hend := h.bodyEnd.1
  rw [Loop.latchPredecessor?, hmt, Option.bind_some, Func.uniquePredecessor?_eq_some_iff] at hend
  refine ⟨houter, hinner, h.nested.blocks_subset hm hl, ?_, hf.edge_iff.2 h.headerEdge,
    hf.edge_iff.2 h.bodyEdge, hf.edge_iff.2 h.exitEdge, hmem, ?_, fun a => ?_, ?_, ?_, ?_⟩
  · rw [← h.headers.1]
    exact h.nested.header_not_mem hm hl
  · exact f.next?_ne hf.nodup_layout hnext
  · rw [hf.edge_iff_mem_predecessors, hend, List.mem_singleton]
  · rw [← h.headers.2]
    exact h.bodyEnd.2
  · intro a b ha hb
    rcases h.preheaderPred_cases hf with ⟨hentry, -⟩ | ⟨-, q, -, hq⟩
    · exact absurd hentry (hf.entry_ne ha)
    · exact ((hq a).1 ha).trans ((hq b).1 hb).symm
  · obtain ⟨e, he, hl, -⟩ := FlowGraph.Reachable.iff_reachVia.1 houter.preheader_reachable
    exact ⟨e, he, hl, fun a ha => hf.entry_ne ha he⟩

end Planned

end LoopSwap
