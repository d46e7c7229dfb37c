/-
**How many edges an interchange changes.**

An interchange reports how many of its six changes have found their edge.  A change that finds its
edge leaves the edges of other blocks alone, and one that does not find it leaves all edges alone;
so the changes that take effect are counted, and no others.  They are all six, unless the outer
preheader is entered from the outer exit.  Then either the outer exit is split, and the edge into
the preheader starts in the part that was split off, where it is not looked for, or that edge is the
one on which the outer exit goes on, and it is changed only once.

Main results:

* `LoopSwap.Func.Intact.count_retargetAll` — changes that find their edges are all counted;
* `LoopSwap.Func.Intact.count_retargetAll_lost` — a change among them that finds none is not;
* `LoopSwap.Exchange.count_edges` — an interchange counts the changes that take effect;
* `LoopSwap.Workspace.interchange_retargeted` — how many these are.
-/

import LoopSwap.Proofs.Interchange.Reach

set_option relaxedAutoImplicit false
set_option autoImplicit false

namespace LoopSwap

/-! ### Counting changes -/

namespace Func

variable {f : Func} {a b old new : BlockId} {es es' : List (BlockId × BlockId × BlockId)}

theorem count_retargetAll_append (es es' : List (BlockId × BlockId × BlockId)) :
    ∀ f : Func, (f.retargetAll (es ++ es')).2 =
      (f.retargetAll es).2 + ((f.retargetAll es).1.retargetAll es').2 := by
  induction es with
  | nil => exact fun f => (Nat.zero_add _).symm
  | cons e es ih =>
      intro f
      have hrest := ih (f.retarget e.1 e.2.1 e.2.2).1
      show (if _ then 1 else 0) + ((f.retarget e.1 e.2.1 e.2.2).1.retargetAll (es ++ es')).2 = _
      rw [hrest, ← Nat.add_assoc]
      rfl

/-- A retargeting reports a change exactly if the block led to the old target. -/
theorem snd_retarget_iff : (f.retarget b old new).2 = true ↔ old ∈ f.successors b := by
  rw [mem_successors_iff, exitOp?]
  unfold retarget
  cases f.terminator? b with
  | none => simp
  | some t =>
      show (f.op? t).any _ = true ↔ ∃ op, f.op? t = some op ∧ old ∈ op.targets
      cases f.op? t with
      | none => simp
      | some op => simp

/-- The number of changes reported for one change and the rest. -/
theorem count_retargetAll_cons (e : BlockId × BlockId × BlockId) :
    (f.retargetAll (e :: es)).2 = (if e.2.1 ∈ f.successors e.1 then 1 else 0) +
      ((f.retarget e.1 e.2.1 e.2.2).1.retargetAll es).2 := by
  show (if (f.retarget e.1 e.2.1 e.2.2).2 = true then 1 else 0) +
    ((f.retarget e.1 e.2.1 e.2.2).1.retargetAll es).2 = _
  rw [if_congr snd_retarget_iff rfl rfl]

namespace Intact

/-- An edge that no change is about is still there after the changes. -/
theorem mem_successors_retargetAll_of_kept (hf : f.Intact)
    (es : List (BlockId × BlockId × BlockId)) (hes : ∀ e ∈ es, e.1 = a → e.2.1 ≠ b)
    (h : b ∈ f.successors a) : b ∈ (f.retargetAll es).1.successors a := by
  rw [mem_successors_retargetAll hf es]
  refine ⟨b, h, ?_⟩
  induction es with
  | nil => rfl
  | cons e es ih =>
      have hno : ¬ (e.1 = a ∧ b = e.2.1) := fun hcond =>
        hes e List.mem_cons_self hcond.1 hcond.2.symm
      show redirect es a (if e.1 = a ∧ b = e.2.1 then e.2.2 else b) = b
      rw [if_neg hno]
      exact ih fun e he => hes e (List.mem_cons_of_mem _ he)

/-- Changes that find their edges and have different sources are all counted. -/
theorem count_retargetAll (hnodup : (es.map (·.1)).Nodup) :
    ∀ {f : Func}, f.Intact → (∀ e ∈ es, e.2.1 ∈ f.successors e.1) →
      (f.retargetAll es).2 = es.length := by
  induction es with
  | nil => exact fun _ _ => rfl
  | cons e es ih =>
      intro f hf hes
      rw [List.map_cons, List.nodup_cons] at hnodup
      have hrest : ((f.retarget e.1 e.2.1 e.2.2).1.retargetAll es).2 = es.length := by
        refine ih hnodup.2 (hf.retarget _ _ _) fun e' he' => ?_
        refine hf.mem_successors_retargetAll_of_kept [e] (fun x hx hsource => ?_)
          (hes e' (List.mem_cons_of_mem _ he'))
        rw [List.mem_singleton.1 hx] at hsource
        exact absurd (List.mem_map.2 ⟨e', he', hsource.symm⟩) hnodup.1
      rw [count_retargetAll_cons, if_pos (hes e List.mem_cons_self), hrest, List.length_cons,
        Nat.add_comm]

/-- A change among them that does not find its edge, when it is its turn, is not counted and takes
no other edge away. -/
theorem count_retargetAll_lost (hf : f.Intact) (es es' : List (BlockId × BlockId × BlockId))
    {e : BlockId × BlockId × BlockId}
    (hnodup : ((es ++ es').map (·.1)).Nodup) (hes : ∀ e' ∈ es ++ es', e'.2.1 ∈ f.successors e'.1)
    (hlost : e.2.1 ∉ (f.retargetAll es).1.successors e.1) :
    (f.retargetAll (es ++ e :: es')).2 = (es ++ es').length := by
  rw [List.map_append] at hnodup
  obtain ⟨hfirst, hsecond, hapart⟩ := List.nodup_append.1 hnodup
  have hmid : (f.retargetAll es).1.Intact := hf.retargetAll es
  have hcount : (f.retargetAll es).2 = es.length :=
    count_retargetAll hfirst hf fun e' he' => hes e' (List.mem_append_left _ he')
  have hrest : (((f.retargetAll es).1.retarget e.1 e.2.1 e.2.2).1.retargetAll es').2 =
      es'.length := by
    refine count_retargetAll hsecond (hmid.retarget _ _ _) fun e' he' => ?_
    have hstill : e'.2.1 ∈ (f.retargetAll es).1.successors e'.1 := by
      refine hf.mem_successors_retargetAll_of_kept es (fun x hx hsource => ?_)
        (hes e' (List.mem_append_right _ he'))
      exact absurd hsource
        (hapart _ (List.mem_map.2 ⟨x, hx, rfl⟩) _ (List.mem_map.2 ⟨e', he', rfl⟩))
    refine hmid.mem_successors_retargetAll_of_kept [e] (fun x hx hsource htarget => ?_)
      hstill
    rw [List.mem_singleton.1 hx] at hsource htarget
    exact hlost (by rw [hsource, htarget]; exact hstill)
  rw [count_retargetAll_append, hcount, count_retargetAll_cons, if_neg hlost, hrest,
    List.length_append, Nat.zero_add]

end Intact

end Func

/-! ### The changes of an interchange -/

namespace Relinking

/-- One of the six changes has no effect if the outer preheader is entered from the outer exit. -/
theorem length_effective (r : Relinking) :
    r.effective.length = if r.preheaderPred = r.plan.outerExit then 5 else 6 := by
  unfold effective
  split
  · split <;> rfl
  · rfl

end Relinking

namespace Exchange

variable {f : Func} {O I : BlockId → Prop} {r : Relinking}

/-- The outer exit no longer leads to the continuation once the edge into the outer preheader has
been changed, if that was the same edge. -/
theorem continuation_lost {g : Func} (hg : g.Intact) (h : Exchange f.graph O I r)
    (hsucc : ∀ a t, t ∈ g.successors a → f.graph.Edge a t)
    (hpp : r.preheaderPred = r.plan.outerExit) (hc : r.continuation = r.preheader) :
    r.continuation ∉ (g.retargetAll (r.edges.take 4)).1.successors r.plan.outerExit := by
  rw [Func.mem_successors_retargetAll hg]
  rintro ⟨t, ht, heq⟩
  have hmem : (r.plan.outerExit, r.preheader, r.plan.innerPreheader) ∈ r.edges.take 4 := by
    rw [← hpp]
    exact List.mem_cons_self
  have hnodup := h.effective_spec.1
  rw [Relinking.effective_of_shared hpp hc, List.map_append] at hnodup
  have htp : t = r.preheader := ((h.exit_iff t).1 (hsucc _ _ ht)).trans hc
  rw [redirect_of_mem (List.nodup_append.1 hnodup).1 hmem, if_pos htp] at heq
  exact h.continuation_not_outer (heq ▸ h.nest.innerPreheader_mem)

/-- An interchange counts the changes that take effect. -/
theorem count_edges (hf : f.Flowing) (h : Exchange f.graph O I r) :
    ((r.reorder f).retargetAll r.edges).2 = r.effective.length := by
  have horder := r.reordered hf.toIntact h.movers_ne_entry
  have hintact := hf.toIntact.reordered horder
  obtain ⟨hnodup, hedge⟩ := h.effective_spec
  have hfound : ∀ e ∈ r.effective, e.2.1 ∈ (r.reorder f).successors e.1 := by
    intro e he
    rw [horder.successors]
    exact hf.edge_iff.1 (hedge e he)
  by_cases hpp : r.preheaderPred = r.plan.outerExit
  · by_cases hc : r.continuation = r.preheader
    · rw [Relinking.effective_of_shared hpp hc] at hnodup hfound ⊢
      have hlost : r.continuation ∉
          ((r.reorder f).retargetAll (r.edges.take 4)).1.successors r.plan.outerExit := by
        refine h.continuation_lost hintact (fun a t ht => ?_) hpp hc
        rw [horder.successors] at ht
        exact hf.edge_iff.2 ht
      exact hintact.count_retargetAll_lost (r.edges.take 4) (r.edges.drop 5) hnodup hfound hlost
    · rw [Relinking.effective_of_stale hpp hc] at hnodup hfound ⊢
      refine hintact.count_retargetAll_lost [] r.edges.tail hnodup hfound fun hmem => ?_
      have hmem : r.preheader ∈ (r.reorder f).successors r.preheaderPred := hmem
      rw [horder.successors, hpp] at hmem
      exact hc ((h.exit_iff _).1 (hf.edge_iff.2 hmem)).symm
  · rw [Relinking.effective_of_ne hpp] at hnodup hfound ⊢
    exact Func.Intact.count_retargetAll hnodup hintact hfound

end Exchange

/-! ### Interchanges -/

namespace Workspace

variable {w w' : Workspace} {outer inner : Nat} {l m : Loop} {p : Plan} {f₁ f₂ : Func}
  {q c : BlockId} {done : Interchanged}

/-- An interchange reports what its changes have counted, made one after the other behind the
moves. -/
theorem retargeted_eq (hf : w.func.Flowing) (hp : Planned w.func outer inner l m p)
    (h₁ : w.func.splitEntry? p.outerPreheader = some (f₁, q))
    (h₂ : f₁.splitExit? p.outerExit = some (f₂, c))
    (h : w.interchange outer inner = (w', .ok done)) :
    done.retargeted =
      (((p.relinking q c).reorder f₂).retargetAll (p.relinking q c).edges).2 := by
  obtain ⟨_, _, _, _, stats, h₁', h₂', -, heq⟩ := interchange_of_planned hf hp
  obtain ⟨rfl, rfl⟩ := Prod.ext_iff.1 (Option.some.inj (h₁.symm.trans h₁'))
  obtain ⟨rfl, rfl⟩ := Prod.ext_iff.1 (Option.some.inj (h₂.symm.trans h₂'))
  rw [heq, Prod.mk.injEq, Except.ok.injEq] at h
  rw [← h.2, relink]

/-- **How many edges an interchange changes.**  They are the six that it is meant to change, unless
the outer preheader is entered from the outer exit: then they are five. -/
theorem interchange_retargeted (hf : w.func.WellFormed)
    (h : w.interchange outer inner = (w', .ok done)) :
    ∃ p, w.func.loops.plan w.func outer inner = .ok p ∧
      done.retargeted = if p.preheaderPred = some p.outerExit then 5 else 6 := by
  have hflow := hf.toFlowing
  obtain ⟨l, m, p, f₁, q, f₂, c, hp, h₁, h₂, -⟩ := exists_planned hflow h
  obtain ⟨hflow₂, -, -⟩ := hp.splitExit hflow h₁ h₂
  have hcount := (hp.exchange hflow h₁ h₂).count_edges hflow₂
  refine ⟨p, hp.plan_eq, ?_⟩
  rw [retargeted_eq hflow hp h₁ h₂ h, hcount, Relinking.length_effective]
  exact if_congr (hp.preheaderPred_eq_iff hflow) rfl rfl

/-- The nest that is the whole body of a loop is entered from its exit. -/
theorem interchange_retargeted_loopedNest :
    Func.loopedNest.WellFormed ∧
      ∃ w' done, (⟨Func.loopedNest, .zero⟩ : Workspace).interchange 1 2 = (w', .ok done) ∧
        done.retargeted = 5 := by
  have hf : Func.loopedNest.WellFormed := by decide +kernel
  have hplan : Func.loopedNest.loops.plan Func.loopedNest 1 2 =
      .ok ⟨⟨2⟩, ⟨3⟩, ⟨9⟩, ⟨1⟩, ⟨4⟩, ⟨5⟩, ⟨7⟩, ⟨8⟩, ⟨6⟩, ⟨6⟩, some ⟨1⟩, none⟩ := by decide +kernel
  have hdone : ((⟨Func.loopedNest, .zero⟩ : Workspace).interchange 1 2).2 =
      .ok ⟨1, 2, [⟨11⟩], 10, 5⟩ := by decide +kernel
  have hrun : (⟨Func.loopedNest, .zero⟩ : Workspace).interchange 1 2 =
      (_, .ok ⟨1, 2, [⟨11⟩], 10, 5⟩) := Prod.ext rfl hdone
  refine ⟨hf, _, _, hrun, ?_⟩
  obtain ⟨p, hp, hcount⟩ := interchange_retargeted hf hrun
  obtain rfl := Except.ok.inj (hplan.symm.trans hp)
  exact hcount

end Workspace

end LoopSwap
