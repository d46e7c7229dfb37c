/-
**The lines that errors point to.**

An error met while reading is reported at the place where the reader stops, and one met while
resolving names at an instruction, which was read at a place of the text.  So lines are counted from
1 on, and none is after the last line feed.

One report has no place to point to: a label that stands a second time is reported at the first
instruction below it.  If there is none, the line is 0.

Main definitions:

* `LoopSwap.DraftFunc.repeated?` — the block whose label stands a second time;
* `LoopSwap.Cursor.BareRepeat` — the error of such a label with nothing below it.

Main results:

* `LoopSwap.Scope.blames_resolveBlocks`, `LoopSwap.line_of_checkDistinct` — the two passes that
  resolve names;
* `LoopSwap.Program.line_of_read` — the line of an error is a line of the text, unless it is that of
  a repeated label with nothing below it.
-/

import LoopSwap.Proofs.Code.Place

set_option relaxedAutoImplicit false
set_option autoImplicit false

namespace LoopSwap

/-! ### Names and operands -/

namespace Scope

theorem blames_resolveOperand (s : Scope) (line : Nat) (o : DraftOperand) :
    Blames (· = line) (s.resolveOperand line o) := by
  cases o with
  | value name =>
      rw [resolveOperand]
      split
      · exact .ok _
      · exact .error (by simp [ReadError.line?])
  | block name => exact .error (by simp [ReadError.line?])
  | _ => exact .ok _

theorem blames_resolveOperands (s : Scope) (line : Nat) (os : List DraftOperand) :
    Blames (· = line) (s.resolveOperands line os) := by
  induction os with
  | nil => exact .ok _
  | cons o os ih =>
      refine (blames_resolveOperand s line o).bind fun o' _ => ?_
      exact ih.bind fun os' _ => .ok _

theorem blames_resolveTarget (s : Scope) (line : Nat) (o : DraftOperand) :
    Blames (· = line) (s.resolveTarget line o) := by
  cases o with
  | block name =>
      rw [resolveTarget]
      split
      · exact .ok _
      · exact .error (by simp [ReadError.line?])
  | _ => exact .error (by simp [ReadError.line?])

/-- What is wrong with an instruction is reported in the line of the instruction. -/
theorem blames_resolveOp (s : Scope) (inst : DraftInst) :
    Blames (· = inst.line) (s.resolveOp inst) := by
  have hoperand := blames_resolveOperand s inst.line
  have hoperands := blames_resolveOperands s inst.line
  have htarget := blames_resolveTarget s inst.line
  unfold resolveOp
  -- each opcode looks its operands up, or complains of the opcode or of their number
  split
  all_goals
    repeat first
      | exact .ok _
      | exact .error (by simp [ReadError.line?])
      | refine (hoperand _).bind fun _ _ => ?_
      | refine (hoperands _).bind fun _ _ => ?_
      | refine (htarget _).bind fun _ _ => ?_

theorem blames_resolveInsts (s : Scope) (block : String) (insts : List DraftInst) :
    Blames (fun n => ∃ inst ∈ insts, inst.line = n) (s.resolveInsts block insts) := by
  induction insts with
  | nil => exact .ok _
  | cons inst insts ih =>
      have hfirst := (blames_resolveOp s inst).mono (T := fun n =>
        ∃ inst' ∈ inst :: insts, inst'.line = n) fun n hn => ⟨inst, List.mem_cons_self, hn.symm⟩
      refine hfirst.bind fun op _ => ?_
      split
      · exact .error (by simp [ReadError.line?])
      · refine (ih.mono ?_).bind fun rest _ => .ok _
        rintro n ⟨inst', hmem, hline⟩
        exact ⟨inst', List.mem_cons_of_mem _ hmem, hline⟩

theorem blames_resolveBlocks (s : Scope) (blocks : List DraftBlock) :
    Blames (fun n => ∃ block ∈ blocks, ∃ inst ∈ block.insts, inst.line = n)
      (s.resolveBlocks blocks) := by
  induction blocks with
  | nil => exact .ok _
  | cons block blocks ih =>
      rw [resolveBlocks]
      split
      · exact .error (by simp [ReadError.line?])
      · refine ((blames_resolveInsts s block.name block.insts).mono ?_).bind fun insts _ => ?_
        · rintro n hn
          exact ⟨block, List.mem_cons_self, hn⟩
        · refine (ih.mono ?_).bind fun rest _ => .ok _
          rintro n ⟨block', hmem, hline⟩
          exact ⟨block', List.mem_cons_of_mem _ hmem, hline⟩

end Scope

/-! ### Names given twice -/

/-- The first block whose label is one of the given names or that of a block before it. -/
def firstRepeated? (names : List String) : List DraftBlock → Option DraftBlock
  | [] => none
  | block :: rest =>
    if block.name ∈ names then some block else firstRepeated? (block.name :: names) rest

/-- The first block that has the label of a block before it. -/
def DraftFunc.repeated? (draft : DraftFunc) : Option DraftBlock := firstRepeated? [] draft.blocks

theorem blames_collectValues (insts : List DraftInst) : ∀ seen,
    Blames (fun n => ∃ inst ∈ insts, inst.line = n) (collectValues seen insts) := by
  induction insts with
  | nil =>
      intro seen
      exact .ok _
  | cons inst insts ih =>
      intro seen
      have hrest : ∀ seen, Blames (fun n => ∃ inst' ∈ inst :: insts, inst'.line = n)
          (collectValues seen insts) := by
        intro seen
        refine (ih seen).mono ?_
        rintro n ⟨inst', hmem, hline⟩
        exact ⟨inst', List.mem_cons_of_mem _ hmem, hline⟩
      rw [collectValues]
      cases inst.name with
      | none => exact hrest seen
      | some name =>
          dsimp only
          split
          · exact .error (by simp [ReadError.line?])
          · exact hrest _

/-- A name that is given twice is reported in the line of an instruction, or it is the label of the
first block with the label of another one. -/
theorem line_of_checkDistinct {blocks : List DraftBlock} : ∀ {names values : List String}
    {e : ReadError}, checkDistinct names values blocks = .error e →
      (∀ n ∈ e.line?, ∃ block ∈ blocks, ∃ inst ∈ block.insts, inst.line = n) ∨
        ∃ block, firstRepeated? names blocks = some block ∧
          e = .duplicate block.line .block block.name := by
  induction blocks with
  | nil =>
      intro names values e h
      cases h
  | cons block blocks ih =>
      intro names values e h
      rw [checkDistinct] at h
      split at h
      · next hmem =>
          cases h
          exact Or.inr ⟨block, if_pos hmem, rfl⟩
      · next hnew =>
          rw [firstRepeated?, if_neg hnew]
          cases hcollect : collectValues values block.insts with
          | error e' =>
              rw [hcollect] at h
              cases h
              refine Or.inl ?_
              intro n hn
              exact ⟨block, List.mem_cons_self, blames_collectValues _ _ e hcollect n hn⟩
          | ok values' =>
              rw [hcollect] at h
              rcases ih h with hlines | hrepeat
              · refine Or.inl ?_
                intro n hn
                obtain ⟨block', hmem, hline⟩ := hlines n hn
                exact ⟨block', List.mem_cons_of_mem _ hmem, hline⟩
              · exact Or.inr hrepeat

theorem mem_of_firstRepeated? {blocks : List DraftBlock} {block : DraftBlock} :
    ∀ {names : List String}, firstRepeated? names blocks = some block → block ∈ blocks := by
  induction blocks with
  | nil =>
      intro names h
      cases h
  | cons b blocks ih =>
      intro names h
      rw [firstRepeated?] at h
      split at h
      · cases h
        exact List.mem_cons_self
      · exact List.mem_cons_of_mem _ (ih h)

/-- The error of a draft points to an instruction of the draft, if it points to a line, or it is
that of a repeated label with nothing below it. -/
theorem DraftFunc.line_of_resolve {draft : DraftFunc} {e : ReadError}
    (h : draft.resolve = .error e) :
    (∀ n ∈ e.line?, ∃ block ∈ draft.blocks, ∃ inst ∈ block.insts, inst.line = n) ∨
      ∃ block, draft.repeated? = some block ∧ block.insts = [] ∧
        e = .duplicate block.line .block block.name := by
  unfold resolve at h
  cases hcheck : checkDistinct [] [] draft.blocks with
  | ok u =>
      rw [hcheck] at h
      have hblames := (Scope.blames_resolveBlocks draft.scope draft.blocks).bind
        (g := fun blocks => .ok (Func.ofBlocks draft.name blocks)) fun _ _ => .ok _
      exact Or.inl (hblames e h)
  | error e' =>
      rw [hcheck] at h
      cases h
      rcases line_of_checkDistinct hcheck with hlines | ⟨block, hrepeat, rfl⟩
      · exact Or.inl hlines
      · cases hinsts : block.insts with
        | nil => exact Or.inr ⟨block, hrepeat, hinsts, rfl⟩
        | cons inst insts =>
            refine Or.inl ?_
            rintro n ⟨⟩
            refine ⟨block, mem_of_firstRepeated? hrepeat, inst, hinsts ▸ List.mem_cons_self, ?_⟩
            simp [DraftBlock.line, hinsts]

/-! ### Programs -/

/-- The error is that of a function that is read from `c` on, in which a label stands a second time
and nothing stands below it there. -/
def Cursor.BareRepeat (c : Cursor) (e : ReadError) : Prop :=
  ∃ d draft d' block, c.Leads d ∧ d.readFunc = .ok (draft, d') ∧ draft.resolve = .error e ∧
    draft.repeated? = some block ∧ block.insts = [] ∧ e = .duplicate block.line .block block.name

/-- Functions are read from lines of the text, apart from repeated labels with nothing below. -/
theorem line_of_readFuncs {seen : List String} {c : Cursor} {e : ReadError}
    (h : readFuncs seen c = .error e) : (∀ n ∈ e.line?, c.Covers n) ∨ c.BareRepeat e := by
  fun_induction readFuncs seen c with
  | case1 => cases h
  | case2 seen c hne e' hread =>
      cases h
      refine Or.inl ?_
      intro n hn
      exact c.leads_skipLines.covers_of_covers ((Cursor.stays_readFunc _).covers e hread n hn)
  | case3 seen c hne draft c₁ hread e' hresolve =>
      cases h
      have hlines := ((Cursor.stays_readFunc _).leads draft c₁ hread).2
      rcases draft.line_of_resolve hresolve with hinsts | ⟨block, hrepeat, hempty, he⟩
      · refine Or.inl ?_
        intro n hn
        obtain ⟨block, hblock, inst, hinst, rfl⟩ := hinsts n hn
        exact c.leads_skipLines.covers_of_covers (hlines block hblock inst hinst)
      · exact Or.inr ⟨_, draft, c₁, block, c.leads_skipLines, hread, hresolve, hrepeat, hempty, he⟩
  | case4 seen c hne draft c₁ hread f hf hmem =>
      cases h
      refine Or.inl ?_
      rintro n ⟨⟩
      have hleads := ((Cursor.stays_readFunc _).leads draft c₁ hread).1
      exact (c.leads_skipLines.trans hleads).covers
  | case5 seen c hne draft c₁ hread f hf hnew e' hrest ih =>
      cases h
      have hleads := c.leads_skipLines.trans ((Cursor.stays_readFunc _).leads draft c₁ hread).1
      rcases ih hrest with hlines | ⟨d, draft', d', block, hd, hfault⟩
      · refine Or.inl ?_
        intro n hn
        exact hleads.covers_of_covers (hlines n hn)
      · exact Or.inr ⟨d, draft', d', block, hleads.trans hd, hfault⟩
  | case6 => cases h

namespace Program

/-- **Errors point to lines of the text.**  The line that an error carries is at most one more than
the number of line feeds; and it is at least one, unless the error is that of a label that stands a
second time in its function with nothing below it: that error carries the line 0. -/
theorem line_of_read {text : String} {e : ReadError} {n : Nat} (h : read text = .error e)
    (hn : e.line? = some n) :
    n ≤ text.toList.count '\n' + 1 ∧ (n = 0 ↔ (Cursor.start text).BareRepeat e) := by
  have hfuncs : readFuncs [] (.start text) = .error e := by
    unfold read at h
    cases hfuncs : readFuncs [] (.start text) with
    | error e' =>
        rw [hfuncs] at h
        cases h
        rfl
    | ok fs =>
        rw [hfuncs] at h
        cases h
  -- the line of a bare label is 0, so the two kinds of errors exclude each other
  have hzero : (Cursor.start text).BareRepeat e → n = 0 := by
    rintro ⟨d, draft, d', block, -, -, -, -, hempty, rfl⟩
    cases hn
    simp [DraftBlock.line, hempty]
  rcases line_of_readFuncs hfuncs with hlines | hbare
  · obtain ⟨hlow, hhigh⟩ := (hlines n hn).bounds
    simp only [Cursor.start] at hlow hhigh
    refine ⟨by omega, fun h₀ => ?_, hzero⟩
    omega
  · refine ⟨?_, fun _ => hbare, hzero⟩
    rw [hzero hbare]
    omega

/-- A label that stands twice, in the second and in the third line. -/
def bareText : String := "f() \x7b\na:\na:\n\x7d\n"

/-- The second label of that text is reported in line 0. -/
theorem line_of_read_bareText :
    read bareText = .error (.duplicate 0 .block "a") ∧
      (ReadError.duplicate 0 .block "a").line? = some 0 ∧
      (Cursor.start bareText).BareRepeat (.duplicate 0 .block "a") := by
  have hread : read bareText = .error (.duplicate 0 .block "a") := by decide +kernel
  have hline := line_of_read hread rfl
  exact ⟨hread, rfl, hline.2.1 rfl⟩

end Program

end LoopSwap
