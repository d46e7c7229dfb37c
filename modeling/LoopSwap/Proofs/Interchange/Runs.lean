/-
**The layout after an interchange.**

Each of the eight moves puts a block right before another one.  A later move could separate the two
again: by moving one of them, by putting a block between them, or because it goes by what stands
after the outer exit at that time.  None does.  The headers and the preheaders are in place after
four moves, and the four others move latches and exits only, before blocks that follow none of
these.  So the blocks come to stand in three runs.  The blocks that are not moved keep their order,
and the two headers, which the first two moves exchange, stand in the other order.

Main definitions:

* `LoopSwap.Plan.moved` — the blocks that are moved.

Main results:

* `LoopSwap.Relinking.isInfix_innerHeader`, `LoopSwap.Relinking.isInfix_outerHeader`,
  `LoopSwap.Relinking.isInfix_backs` — the three runs;
* `LoopSwap.Workspace.interchange_runs` — the layout after an interchange.
-/

import LoopSwap.Proofs.Interchange.Reorder
import LoopSwap.Proofs.Interchange.Twice

set_option relaxedAutoImplicit false
set_option autoImplicit false

namespace LoopSwap

/-- The blocks that are moved for a plan, if `q` is the outer preheader. -/
def Plan.moved (p : Plan) (q : BlockId) : List BlockId :=
  [p.outerHeader, p.innerHeader, q, p.innerPreheader, p.outerLatch, p.innerLatch, p.outerExit,
    p.innerExit]

/-! ### The moves -/

namespace Relinking

variable {r : Relinking} {f : Func} {p : BlockId → Bool}

/-- Where no corner shows, no move does. -/
theorem filter_reorder_kept (hp : ∀ b ∈ r.corners.list, p b = false) :
    (r.reorder f).layout.filter p = f.layout.filter p := by
  rw [Corners.list_eq, List.forall_mem_cons, List.forall_mem_cons] at hp
  obtain ⟨ho, hi, hlinks⟩ := hp
  rw [filter_reorder hlinks]
  exact (Func.filter_moveBefore ho).trans (Func.filter_moveBefore hi)

/-- The last four moves put the latches and the exits in a row. -/
theorem isInfix_backs (hl : f.layout.Nodup) (hmem : ∀ b ∈ r.backs, b ∈ f.layout)
    (hnodup : r.backs.Nodup) :
    [r.plan.outerLatch, r.plan.outerExit, r.plan.innerLatch, r.plan.innerExit].IsInfix
      (r.moveBacks f).layout := by
  simp only [backs, List.forall_mem_cons] at hmem
  obtain ⟨hol, hil, hoe, hie, -⟩ := hmem
  simp only [backs, List.nodup_cons, List.mem_cons, List.not_mem_nil, or_false, not_or] at hnodup
  obtain ⟨⟨holil, holoe, holie⟩, ⟨hiloe, hilie⟩, hoeie, -⟩ := hnodup
  -- wherever the inner exit is, each of the three others is put before the one to come after it
  have hlast : ∀ {g : Func}, g.layout.Perm f.layout →
      [r.plan.outerLatch, r.plan.outerExit, r.plan.innerLatch, r.plan.innerExit].IsInfix
        (((g.moveBefore r.plan.innerLatch r.plan.innerExit).moveBefore r.plan.outerExit
          r.plan.innerLatch).moveBefore r.plan.outerLatch r.plan.outerExit).layout := by
    intro g hg
    have hg₁ := (g.perm_moveBefore r.plan.innerLatch r.plan.innerExit).trans hg
    have hg₂ := (Func.perm_moveBefore _ r.plan.outerExit r.plan.innerLatch).trans hg₁
    have hg₃ := (Func.perm_moveBefore _ r.plan.outerLatch r.plan.outerExit).trans hg₂
    have h₁ := Func.follows_moveBefore_self hilie (hg.mem_iff.2 hil) (hg.mem_iff.2 hie)
    have h₂ := Func.follows_moveBefore_self (Ne.symm hiloe) (hg₁.mem_iff.2 hoe) (hg₁.mem_iff.2 hil)
    have h₃ := Func.follows_moveBefore_self holoe (hg₂.mem_iff.2 hol) (hg₂.mem_iff.2 hoe)
    have h₁' := Func.follows_moveBefore (Func.follows_moveBefore h₁ (Ne.symm hiloe) hoeie hilie)
      holil holie hoeie
    have h₂' := Func.follows_moveBefore h₂ holoe holil (Ne.symm hiloe)
    have hnodup := hg₃.nodup_iff.2 hl
    exact h₃.cons_isInfix hnodup (h₂'.cons_isInfix hnodup h₁'.isInfix)
  dsimp only [moveBacks]
  split
  · exact hlast (Func.perm_moveBefore _ _ _)
  · exact hlast (Func.perm_moveToEnd _ _)

section

variable (hl : f.layout.Nodup) (hmem : ∀ b ∈ r.fronts, b ∈ f.layout)
  (hnodup : r.corners.list.Nodup)

include hl hmem hnodup

/-- The inner preheader comes to stand before the inner header. -/
theorem isInfix_innerHeader :
    [r.plan.innerPreheader, r.plan.innerHeader].IsInfix (r.reorder f).layout := by
  rw [corners_eq] at hnodup
  have hdisjoint := List.disjoint_of_nodup_append hnodup
  have hfronts : r.fronts.Nodup := hnodup.of_append_left
  simp only [fronts, List.forall_mem_cons] at hmem
  obtain ⟨-, hih, -, hiph, -⟩ := hmem
  simp only [fronts, List.nodup_cons, List.mem_cons, List.not_mem_nil, or_false,
    not_or] at hfronts
  obtain ⟨⟨hohih, -⟩, ⟨hihq, hihiph⟩, hqiph, -⟩ := hfronts
  have hperm := r.perm_moveHeaders f
  have hthree : Follows ((r.moveHeaders f).moveBefore r.plan.innerPreheader
      r.plan.innerHeader).layout r.plan.innerPreheader r.plan.innerHeader :=
    Func.follows_moveBefore_self (Ne.symm hihiph) (hperm.mem_iff.2 hiph) (hperm.mem_iff.2 hih)
  have hfour : Follows (r.moveFronts f).layout r.plan.innerPreheader r.plan.innerHeader :=
    Func.follows_moveBefore hthree hqiph (Ne.symm hihq) hohih
  exact (follows_moveBacks ((r.perm_moveFronts f).nodup_iff.2 hl) hfour
    (hdisjoint (by simp [fronts])) (hdisjoint (by simp [fronts]))).isInfix

/-- The outer preheader comes to stand before the outer header, and this one before the inner
body. -/
theorem isInfix_outerHeader (hnext : f.next? r.plan.innerHeader = some r.plan.bodyEntry)
    (hbody : r.plan.bodyEntry ∉ r.corners.list) :
    [r.preheader, r.plan.outerHeader, r.plan.bodyEntry].IsInfix (r.reorder f).layout := by
  have ho : r.plan.outerHeader ∈ f.layout := hmem _ List.mem_cons_self
  have hlast : Follows (r.reorder f).layout r.plan.outerHeader r.plan.bodyEntry :=
    (Func.next?_eq_some_iff ((r.perm_reorder f).nodup_iff.2 hl)).1
      (next?_reorder hl hnext ho hnodup hbody)
  rw [corners_eq] at hnodup
  have hdisjoint := List.disjoint_of_nodup_append hnodup
  have hfronts : r.fronts.Nodup := hnodup.of_append_left
  simp only [fronts, List.nodup_cons, List.mem_cons, List.not_mem_nil, or_false,
    not_or] at hfronts
  obtain ⟨⟨-, hohq, -⟩, -⟩ := hfronts
  have hperm := (Func.perm_moveBefore _ r.plan.innerPreheader r.plan.innerHeader).trans
    (r.perm_moveHeaders f)
  have hfour : Follows (r.moveFronts f).layout r.preheader r.plan.outerHeader :=
    Func.follows_moveBefore_self (Ne.symm hohq) (hperm.mem_iff.2 (hmem _ (by simp [fronts])))
      (hperm.mem_iff.2 ho)
  have hfirst := follows_moveBacks ((r.perm_moveFronts f).nodup_iff.2 hl) hfour
    (hdisjoint (by simp [fronts])) (hdisjoint (by simp [fronts]))
  exact hfirst.cons_isInfix ((r.perm_reorder f).nodup_iff.2 hl) hlast.isInfix

/-- If the outer header stood before the inner one, it comes to stand after it. -/
theorem sublist_headers (hnext : f.next? r.plan.innerHeader = some r.plan.bodyEntry)
    (hbody : r.plan.bodyEntry ∉ r.corners.list)
    (h : [r.plan.outerHeader, r.plan.innerHeader].Sublist f.layout) :
    [r.plan.innerHeader, r.plan.outerHeader].Sublist (r.reorder f).layout := by
  have ho : r.plan.outerHeader ∈ f.layout := hmem _ List.mem_cons_self
  -- only the first two moves show among the headers, and these exchange them
  have hfronts : [r.plan.innerHeader, r.plan.outerHeader].Sublist (r.moveHeaders f).layout := by
    have hmap := h.map (Equiv.swap r.plan.outerHeader r.plan.innerHeader)
    rw [← layout_moveHeaders hl hnext ho hnodup hbody] at hmap
    simpa using hmap
  have hlinks : ∀ b ∈ r.corners.links,
      decide (b ∈ [r.plan.innerHeader, r.plan.outerHeader]) = false := by
    rw [Corners.list_eq, List.nodup_cons, List.nodup_cons] at hnodup
    intro b hb
    simp only [List.mem_cons, List.not_mem_nil, or_false, decide_eq_false_iff_not, not_or]
    refine ⟨?_, ?_⟩
    · rintro rfl
      exact hnodup.2.1 hb
    · rintro rfl
      exact hnodup.1 (List.mem_cons_of_mem _ hb)
  have hshown := hfronts.filter fun b => decide (b ∈ [r.plan.innerHeader, r.plan.outerHeader])
  rw [← filter_reorder hlinks] at hshown
  have hheaders : [r.plan.innerHeader, r.plan.outerHeader].filter
      (fun b => decide (b ∈ [r.plan.innerHeader, r.plan.outerHeader])) =
        [r.plan.innerHeader, r.plan.outerHeader] :=
    List.filter_eq_self.2 fun b hb => decide_eq_true hb
  rw [hheaders] at hshown
  exact hshown.trans List.filter_sublist

end

end Relinking

/-! ### Interchanges -/

namespace Workspace

variable {w w' : Workspace} {outer inner : Nat} {done : Interchanged}

/-- The layout after an interchange, which has a plan `p`, if the inner exit is not the outer latch.
The block `q` is the outer preheader, or the part that is split off it. -/
theorem interchange_runs (hf : w.func.WellFormed)
    (h : w.interchange outer inner = (w', .ok done)) :
    ∃ p, w.func.loops.plan w.func outer inner = .ok p ∧ (p.innerExit ≠ p.outerLatch →
      ∃ f q, w.func.splitEntry? p.outerPreheader = some (f, q) ∧
        [p.innerPreheader, p.innerHeader].IsInfix w'.func.layout ∧
        [q, p.outerHeader, p.bodyEntry].IsInfix w'.func.layout ∧
        [p.outerLatch, p.outerExit, p.innerLatch, p.innerExit].IsInfix w'.func.layout ∧
        (w'.func.layout.filter fun b => b ∈ w.func.layout ∧ b ∉ p.moved q) =
          w.func.layout.filter (· ∉ p.moved q) ∧
        ([p.outerHeader, p.innerHeader].Sublist w.func.layout →
          [p.innerHeader, p.outerHeader].Sublist w'.func.layout)) := by
  have hflow := hf.toFlowing
  obtain ⟨l, m, p, f₁, q, f₂, c, hp, h₁, h₂, hfunc, -⟩ := exists_planned hflow h
  refine ⟨p, hp.plan_eq, fun hne => ?_⟩
  obtain ⟨hf₁, -, -⟩ := hp.splitEntry hflow h₁
  obtain ⟨hf₂, -, -⟩ := hp.splitExit hflow h₁ h₂
  have hx := hp.exchange hflow h₁ h₂
  have hnodup : (p.relinking q c).corners.list.Nodup := hx.corners_nodup hne
  have hbody : p.bodyEntry ∉ (p.relinking q c).corners.list :=
    hx.not_mem_corners hx.nest.bodyEntry_inner hx.nest.bodyEntry_ne hx.nest.bodyEntry_ne_innerLatch
  have hmem := hx.corners_listed
  have hnext := hp.next?_split hflow h₁ h₂
  have hl := hf₂.nodup_layout
  have hperm := (p.relinking q c).perm_moveFronts f₂
  have hcorners := hmem
  rw [Relinking.corners_eq, List.forall_mem_append] at hcorners
  obtain ⟨hfronts, hbacks⟩ := hcorners
  -- the splits do not show among the old blocks
  have hold : ∀ {s : BlockId → Bool}, (∀ a, a ∉ w.func.layout → s a = false) →
      f₂.layout.filter s = w.func.layout.filter s := by
    intro s hs
    have hfirst := Func.parted_splitEntry? hflow h₁
    rw [(Func.parted_splitExit? hf₁ h₂).filter_layout hf₁ fun a ha => hs a fun hmem =>
      ha (hfirst.mem_layout hmem)]
    exact hfirst.filter_layout hflow hs
  have hsub : w.func.layout.Sublist f₂.layout := by
    have hall := hold (s := fun a => decide (a ∈ w.func.layout)) fun a ha => decide_eq_false ha
    rw [List.filter_eq_self.2 fun a ha => decide_eq_true ha] at hall
    exact hall ▸ List.filter_sublist
  rw [hfunc, Relinking.layout_apply]
  refine ⟨f₁, q, h₁, Relinking.isInfix_innerHeader (r := p.relinking q c) hl hfronts hnodup,
    Relinking.isInfix_outerHeader (r := p.relinking q c) hl hfronts hnodup hnext hbody, ?_, ?_,
    fun hbefore => ?_⟩
  · rw [Relinking.reorder_eq]
    refine Relinking.isInfix_backs (hperm.nodup_iff.2 hl)
      (fun b hb => hperm.mem_iff.2 (hbacks b hb)) ?_
    exact (Relinking.corners_eq _ ▸ hnodup).of_append_right
  · have hkept : ∀ b ∈ (p.relinking q c).corners.list,
        decide (b ∈ w.func.layout ∧ b ∉ p.moved q) = false := fun b hb =>
      decide_eq_false fun hcond => hcond.2 hb
    rw [Relinking.filter_reorder_kept hkept, hold fun a ha => decide_eq_false fun hcond =>
      ha hcond.1]
    exact List.filter_congr fun b hb => decide_eq_decide.2 (and_iff_right hb)
  · exact Relinking.sublist_headers (r := p.relinking q c) hl hfronts hnodup hnext hbody
      (hbefore.trans hsub)

/-- The counted nest with its blocks in another order. -/
def jumbled : Func :=
  { counted with layout := [⟨0⟩, ⟨8⟩, ⟨7⟩, ⟨1⟩, ⟨3⟩, ⟨4⟩, ⟨6⟩, ⟨2⟩, ⟨5⟩] }

/-- Block 9 is split off the entry and takes the place of the outer preheader. -/
theorem interchange_runs_jumbled : jumbled.WellFormed ∧
    ∃ w' done, interchange ⟨jumbled, .zero⟩ 0 1 = (w', .ok done) ∧
      [⟨2⟩, ⟨3⟩].IsInfix w'.func.layout ∧ [⟨9⟩, ⟨1⟩, ⟨4⟩].IsInfix w'.func.layout ∧
      [⟨7⟩, ⟨8⟩, ⟨5⟩, ⟨6⟩].IsInfix w'.func.layout ∧ [⟨3⟩, ⟨1⟩].Sublist w'.func.layout := by
  have hf : jumbled.WellFormed := by decide
  have hplan : jumbled.loops.plan jumbled 0 1 = .ok
      ⟨⟨0⟩, ⟨1⟩, ⟨7⟩, ⟨8⟩, ⟨2⟩, ⟨3⟩, ⟨5⟩, ⟨6⟩, ⟨4⟩, ⟨4⟩, none, none⟩ := by decide +kernel
  have hdone : (interchange ⟨jumbled, .zero⟩ 0 1).2.isOk = true := by decide +kernel
  have hentry : (jumbled.splitEntry? ⟨0⟩).map (·.2) = some ⟨9⟩ := by decide +kernel
  cases h : interchange ⟨jumbled, .zero⟩ 0 1 with
  | mk w' result =>
      rw [h] at hdone
      cases result with
      | error e => cases hdone
      | ok done =>
          obtain ⟨p, hp, hruns⟩ := interchange_runs (w := ⟨jumbled, .zero⟩) hf h
          obtain rfl := Except.ok.inj (hplan.symm.trans hp)
          obtain ⟨f, q, hq, hpre, hheader, hexits, -, horder⟩ := hruns (by decide)
          obtain rfl : q = ⟨9⟩ := by
            rw [hq] at hentry
            exact Option.some.inj hentry
          exact ⟨hf, w', done, rfl, hpre, hheader, hexits, horder (by decide)⟩

end Workspace

end LoopSwap
