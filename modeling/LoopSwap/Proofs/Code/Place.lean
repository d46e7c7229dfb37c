/-
**Places in a text.**

A cursor counts the line feeds that it has passed, so its line is that of its place in the text.
No reader steps over a line feed uncounted: signs, names and literals have none in them, and a
comment ends before the next one.  So every reader that succeeds stops at a place further on in its
text, with the line of that place (`Cursor.Leads`), and one that fails points to the line of such a
place.  The lines that a draft records for its instructions are lines of places as well.

Main definitions:

* `LoopSwap.Blames` — which lines an error may point to;
* `LoopSwap.Cursor.Leads`, `LoopSwap.Cursor.Covers` — the places, and the lines, from a cursor on;
* `LoopSwap.Cursor.Stays` — a reader that only goes on in its text and points to lines from there
  on.

Main results:

* `LoopSwap.Cursor.Stays.bind` — one reader after the other;
* `LoopSwap.Cursor.Covers.bounds` — how many lines there are from a place on;
* `LoopSwap.Cursor.stays_readOperands`, `LoopSwap.Cursor.stays_readInst`,
  `LoopSwap.Cursor.stays_readBlocks`, `LoopSwap.Cursor.stays_readFunc` — the readers, one by one.
-/

import LoopSwap.Proofs.Code.Comments

set_option relaxedAutoImplicit false
set_option autoImplicit false

namespace LoopSwap

open Text

variable {α β : Type}

/-! ### Errors that point to a line -/

/-- If it fails, the error points to no line or to one in `S`. -/
def Blames (S : Nat → Prop) (x : Except ReadError α) : Prop :=
  ∀ e, x = .error e → ∀ n ∈ e.line?, S n

namespace Blames

variable {S T : Nat → Prop} {x : Except ReadError α} {g : α → Except ReadError β}

theorem ok (a : α) : Blames S (.ok a) := by
  intro e h
  cases h

theorem error {e : ReadError} (h : ∀ n ∈ e.line?, S n) :
    Blames S (.error e : Except ReadError α) := by
  intro e' he
  cases he
  exact h

theorem mono (h : Blames S x) (hST : ∀ n, S n → T n) : Blames T x := by
  intro e he n hn
  exact hST n (h e he n hn)

/-- A sequence of two steps points to the lines that its steps point to. -/
theorem bind (hx : Blames S x) (hg : ∀ a, x = .ok a → Blames S (g a)) : Blames S (x >>= g) := by
  cases x with
  | error e =>
      intro e' he
      cases he
      exact hx e rfl
  | ok a => exact hg a rfl

end Blames

namespace Cursor

variable {c d d' : Cursor} {e : Expected} {s x : Char} {n : Nat}

/-! ### Places and their lines -/

/-- `d` is a place from `c` on, and the line feeds in between have been counted. -/
def Leads (c d : Cursor) : Prop := ∃ cs, c.rest = cs ++ d.rest ∧ d.line = c.line + cs.count '\n'

/-- The line of a place from `c` on. -/
def Covers (c : Cursor) (n : Nat) : Prop := ∃ d, c.Leads d ∧ d.line = n

namespace Leads

theorem refl (c : Cursor) : c.Leads c := ⟨[], rfl, rfl⟩

theorem trans (h : c.Leads d) (h' : d.Leads d') : c.Leads d' := by
  obtain ⟨cs, hrest, hline⟩ := h
  obtain ⟨cs', hrest', hline'⟩ := h'
  refine ⟨cs ++ cs', by simp [hrest, hrest'], ?_⟩
  rw [hline', hline, List.count_append, Nat.add_assoc]

/-- A step over characters none of which is a line feed. -/
theorem of_append {cs rest : List Char} (h : '\n' ∉ cs) (hrest : c.rest = cs ++ rest) :
    c.Leads ⟨rest, c.line⟩ :=
  ⟨cs, hrest, by simp [List.count_eq_zero.2 h]⟩

theorem of_cons {rest : List Char} (h : x ≠ '\n') (hrest : c.rest = x :: rest) :
    c.Leads ⟨rest, c.line⟩ :=
  ⟨[x], hrest, by simp [h]⟩

theorem newline {rest : List Char} {line : Nat} : Leads ⟨'\n' :: rest, line⟩ ⟨rest, line + 1⟩ :=
  ⟨['\n'], rfl, rfl⟩

theorem covers (h : c.Leads d) : c.Covers d.line := ⟨d, h, rfl⟩

theorem covers_of_covers (h : c.Leads d) (hn : d.Covers n) : c.Covers n := by
  obtain ⟨d', hd', rfl⟩ := hn
  exact (h.trans hd').covers

end Leads

/-- The lines from a place on are counted by the line feeds that are left. -/
theorem Covers.bounds (h : c.Covers n) : c.line ≤ n ∧ n ≤ c.line + c.rest.count '\n' := by
  obtain ⟨d, ⟨cs, hrest, hline⟩, rfl⟩ := h
  rw [hrest, hline, List.count_append]
  omega

/-! ### Readers -/

/-- A reader at `c` stops at a place from `c` on, with a result that satisfies `P`, or points to a
line from `c` on. -/
structure Stays (c : Cursor) (P : α → Prop) (r : Except ReadError (α × Cursor)) : Prop where
  leads : ∀ a d, r = .ok (a, d) → c.Leads d ∧ P a
  covers : Blames c.Covers r

namespace Stays

variable {P : α → Prop} {Q : β → Prop} {r : Except ReadError (α × Cursor)}
  {g : α × Cursor → Except ReadError (β × Cursor)}

theorem ok {a : α} (hd : c.Leads d) (ha : P a) : c.Stays P (.ok (a, d)) := by
  refine ⟨?_, Blames.ok _⟩
  rintro a' d' ⟨⟩
  exact ⟨hd, ha⟩

theorem error {e : ReadError} (h : ∀ n ∈ e.line?, c.Covers n) :
    c.Stays P (.error e : Except ReadError (α × Cursor)) := by
  refine ⟨?_, Blames.error h⟩
  rintro a d ⟨⟩

/-- A reader that stops right here. -/
theorem fail (P : α → Prop) (c : Cursor) (e : Expected) : c.Stays P (c.fail e) := by
  refine error ?_
  rintro n ⟨⟩
  exact (Leads.refl c).covers

/-- A reader that starts further on. -/
theorem later (hcd : c.Leads d) (h : d.Stays P r) : c.Stays P r := by
  refine ⟨?_, h.covers.mono fun n hn => hcd.covers_of_covers hn⟩
  intro a d' hr
  obtain ⟨hd', ha⟩ := h.leads a d' hr
  exact ⟨hcd.trans hd', ha⟩

/-- One reader after the other. -/
theorem bind (hr : c.Stays P r) (hg : ∀ a d, c.Leads d → P a → d.Stays Q (g (a, d))) :
    c.Stays Q (r >>= g) := by
  cases r with
  | error e => exact error (hr.covers e rfl)
  | ok p =>
      obtain ⟨a, d⟩ := p
      obtain ⟨hd, ha⟩ := hr.leads a d rfl
      exact .later hd (hg a d hd ha)

end Stays

/-! ### Signs, names and literals -/

theorem leads_skipFrom (newlines : Bool) (l : List Char) : ∀ (comment : Bool) (line : Nat),
    Leads ⟨l, line⟩ (skipFrom newlines comment line l) := by
  induction l with
  | nil =>
      intro comment line
      exact .refl _
  | cons x xs ih =>
      intro comment line
      by_cases hx : x = '\n'
      · subst hx
        cases newlines with
        | true => exact Leads.newline.trans (ih false (line + 1))
        | false => exact .refl _
      · have hstep : Leads ⟨x :: xs, line⟩ ⟨xs, line⟩ := .of_cons hx rfl
        simp only [skipFrom, if_neg hx]
        split
        · exact hstep.trans (ih true line)
        · split
          · exact hstep.trans (ih false line)
          · exact .refl _

theorem leads_skipInLine (c : Cursor) : c.Leads c.skipInLine := leads_skipFrom _ _ _ _

theorem leads_skipLines (c : Cursor) : c.Leads c.skipLines := leads_skipFrom _ _ _ _

theorem leads_of_take? (h : c.take? s = some d) (hs : s ≠ '\n') : c.Leads d := by
  unfold take? at h
  split at h
  · cases h
  · next x xs hrest =>
      split at h
      · next hx =>
          cases h
          exact .of_cons hs (hx ▸ hrest)
      · cases h

/-- A sign, and what comes after it. -/
theorem stays_expect {Q : β → Prop} {g : Cursor → Except ReadError (β × Cursor)} (c : Cursor)
    (e : Expected) (hs : s ≠ '\n') (hg : ∀ d, c.Leads d → d.Stays Q (g d)) :
    c.Stays Q (c.expect s e >>= g) := by
  unfold expect
  split
  · next d hd =>
      have hcd := c.leads_skipLines.trans (leads_of_take? hd hs)
      exact .later hcd (hg d hcd)
  · exact .later c.leads_skipLines (.fail Q _ e)

/-- Characters of names are no line feeds. -/
theorem newline_not_mem_takeWhile (cs : List Char) : '\n' ∉ cs.takeWhile isNameChar := by
  intro hmem
  have htrue := List.all_eq_true.1 List.all_takeWhile _ hmem
  exact absurd htrue (by decide)

theorem leads_dropWhile (c : Cursor) : c.Leads ⟨c.rest.dropWhile isNameChar, c.line⟩ :=
  .of_append (newline_not_mem_takeWhile _) List.takeWhile_append_dropWhile.symm

theorem stays_readName (c : Cursor) (e : Expected) : c.Stays (fun _ => True) (c.readName e) := by
  refine .later c.leads_skipInLine ?_
  unfold readName
  split
  · exact .fail _ _ e
  · exact .ok (leads_dropWhile _) trivial

theorem stays_readWord (c : Cursor) (e : Expected) : c.Stays (fun _ => True) (c.readWord e) := by
  unfold readWord
  split
  · exact stays_readName c e
  · exact .later c.leads_skipInLine (.fail _ _ e)

theorem stays_readLiteral (c : Cursor) : c.Stays (fun _ => True) c.readLiteral := by
  unfold readLiteral
  dsimp only
  split
  · have hdigits : '\n' ∉ literalChars c.rest :=
      not_mem_literalChars (by decide) (by decide) c.rest
    exact .ok (.of_append hdigits (literalChars_append_drop _).symm) trivial
  · refine .error ?_
    rintro n ⟨⟩
    exact (Leads.refl _).covers

/-! ### Operands and instructions -/

/-- A name after a sign. -/
theorem stays_signed {Q : β → Prop} {g : String × Cursor → Except ReadError (β × Cursor)}
    {xs : List Char} (hrest : c.skipInLine.rest = x :: xs) (hx : x ≠ '\n')
    (hg : ∀ (name : String) (d : Cursor), d.Stays Q (g (name, d))) :
    c.Stays Q (readName ⟨xs, c.skipInLine.line⟩ e >>= g) := by
  have hsign : c.skipInLine.Leads ⟨xs, c.skipInLine.line⟩ := .of_cons hx hrest
  refine .later (c.leads_skipInLine.trans hsign) ((stays_readName _ e).bind ?_)
  exact fun name d _ _ => hg name d

theorem stays_readOperand (c : Cursor) : c.Stays (fun _ => True) c.readOperand := by
  unfold readOperand
  split
  · next hrest => exact stays_signed hrest (by decide) fun _ d => .ok (.refl d) trivial
  · next hrest => exact stays_signed hrest (by decide) fun _ d => .ok (.refl d) trivial
  · next hrest => exact stays_signed hrest (by decide) fun _ d => .ok (.refl d) trivial
  · split
    · refine .later c.leads_skipInLine ((stays_readLiteral _).bind ?_)
      intro value d _ _
      exact .ok (.refl d) trivial
    · exact .later c.leads_skipInLine (.fail _ _ _)
  · exact .later c.leads_skipInLine (.fail _ _ _)

theorem stays_readOperands (c : Cursor) : c.Stays (fun _ => True) c.readOperands := by
  induction hn : c.rest.length using Nat.strongRecOn generalizing c with
  | ind n ih =>
      rw [readOperands_eq]
      have hfirst := stays_readOperand c
      cases hread : c.readOperand with
      | error e =>
          rw [hread] at hfirst
          exact .error (hfirst.covers e rfl)
      | ok p =>
          obtain ⟨o, c₁⟩ := p
          have hc₁ := (hfirst.leads o c₁ hread).1.trans c₁.leads_skipInLine
          dsimp only [ok_bind]
          cases hcomma : c₁.skipInLine.take? ',' with
          | none => exact .ok hc₁ trivial
          | some c₂ =>
              have hlt : c₂.rest.length < n := by
                have := readOperand_lt hread
                have := take?_lt hcomma
                have := skipInLine_length_le c₁
                omega
              refine .later (hc₁.trans (leads_of_take? hcomma (by decide)))
                ((ih _ hlt c₂ rfl).bind ?_)
              intro os d _ _
              exact .ok (.refl d) trivial

theorem leads_readWords (c : Cursor) : c.Leads c.readWords.2 := by
  fun_induction readWords c with
  | case1 c h => exact c.leads_skipInLine
  | case2 c x xs h hx ws c' hw ih =>
      have hword : c.skipInLine.Leads ⟨xs.dropWhile isNameChar, c.skipInLine.line⟩ := by
        have hdrop := c.skipInLine.leads_dropWhile
        rwa [h, List.dropWhile_cons_of_pos (isNameChar_of_isLetter hx)] at hdrop
      rw [hw] at ih
      exact (c.leads_skipInLine.trans hword).trans ih
  | case3 c x xs h hx => exact c.leads_skipInLine

theorem stays_readResult (c : Cursor) : c.Stays (fun _ => True) c.readResult := by
  unfold readResult
  split
  · exact .ok (.refl c) trivial
  · next c₁ h₁ =>
      refine .later (leads_of_take? h₁ (by decide)) ((stays_readName c₁ _).bind ?_)
      intro name c₂ _ _
      refine stays_expect c₂ _ (by decide) ?_
      intro c₃ _
      exact .ok (.refl c₃) trivial

theorem stays_readArguments (c : Cursor) : c.Stays (fun _ => True) c.readArguments := by
  unfold readArguments
  split
  · exact .ok c.leads_skipInLine trivial
  · exact stays_readOperands c

/-- An instruction records the line of the place where it starts. -/
theorem stays_readInst (c : Cursor) : c.Stays (fun inst => c.Covers inst.line) c.readInst := by
  have hstart := c.leads_skipLines
  unfold readInst
  refine .later hstart ((stays_readResult _).bind ?_)
  intro name c₁ _ _
  refine (stays_readWord c₁ _).bind ?_
  intro word c₂ _ _
  refine .later c₂.leads_readWords ((stays_readArguments _).bind ?_)
  intro operands c₄ _ _
  dsimp only
  split
  · exact .ok c₄.leads_skipInLine hstart.covers
  · exact .later c₄.leads_skipInLine (.fail _ _ _)

/-! ### Blocks and functions -/

/-- Instructions record lines from the place on where the first one is looked for. -/
theorem stays_readInsts (c : Cursor) :
    c.Stays (fun insts => ∀ inst ∈ insts, c.Covers inst.line) c.readInsts := by
  induction hn : c.rest.length using Nat.strongRecOn generalizing c with
  | ind n ih =>
      rw [readInsts_eq]
      split
      · exact .ok c.leads_skipLines (by simp)
      · have hfirst := stays_readInst c
        cases hread : c.readInst with
        | error e => exact .error (hfirst.covers e hread)
        | ok p =>
            obtain ⟨inst, c₁⟩ := p
            obtain ⟨hc₁, hline⟩ := hfirst.leads inst c₁ hread
            have hlt : c₁.rest.length < n := hn ▸ readInst_lt hread
            refine .later hc₁ ((ih _ hlt c₁ rfl).bind ?_)
            intro insts d _ hlines
            refine .ok (.refl d) ?_
            intro inst' hmem
            rcases List.mem_cons.1 hmem with rfl | hmem
            · exact hline
            · exact hc₁.covers_of_covers (hlines inst' hmem)

theorem stays_readBlock (c : Cursor) :
    c.Stays (fun block => ∀ inst ∈ block.insts, c.Covers inst.line) c.readBlock := by
  unfold readBlock
  refine .later c.leads_skipLines ((stays_readName _ _).bind ?_)
  intro name c₁ hc₁ _
  refine stays_expect c₁ _ (by decide) ?_
  intro c₂ hc₂
  refine (stays_readInsts c₂).bind ?_
  intro insts d _ hlines
  refine .ok (.refl d) ?_
  intro inst hmem
  exact ((c.leads_skipLines.trans hc₁).trans hc₂).covers_of_covers (hlines inst hmem)

theorem stays_readBlocks (c : Cursor) :
    c.Stays (fun blocks => ∀ block ∈ blocks, ∀ inst ∈ block.insts, c.Covers inst.line)
      c.readBlocks := by
  induction hn : c.rest.length using Nat.strongRecOn generalizing c with
  | ind n ih =>
      rw [readBlocks_eq]
      split
      · next c₁ h₁ => exact .ok (c.leads_skipLines.trans (leads_of_take? h₁ (by decide))) (by simp)
      · split
        · exact .later c.leads_skipLines (.fail _ _ _)
        · have hfirst := stays_readBlock c
          cases hread : c.readBlock with
          | error e => exact .error (hfirst.covers e hread)
          | ok p =>
              obtain ⟨block, c₁⟩ := p
              obtain ⟨hc₁, hline⟩ := hfirst.leads block c₁ hread
              have hlt : c₁.rest.length < n := hn ▸ readBlock_lt hread
              refine .later hc₁ ((ih _ hlt c₁ rfl).bind ?_)
              intro blocks d _ hlines
              refine .ok (.refl d) ?_
              intro block' hmem inst hinst
              rcases List.mem_cons.1 hmem with rfl | hmem
              · exact hline inst hinst
              · exact hc₁.covers_of_covers (hlines block' hmem inst hinst)

theorem stays_readFunc (c : Cursor) :
    c.Stays (fun draft => ∀ block ∈ draft.blocks, ∀ inst ∈ block.insts, c.Covers inst.line)
      c.readFunc := by
  unfold readFunc
  refine (stays_readWord c _).bind ?_
  intro name c₁ hc₁ _
  refine stays_expect c₁ _ (by decide) ?_
  intro c₂ hc₂
  refine stays_expect c₂ _ (by decide) ?_
  intro c₃ hc₃
  refine stays_expect c₃ _ (by decide) ?_
  intro c₄ hc₄
  refine (stays_readBlocks c₄).bind ?_
  intro blocks d _ hlines
  refine .ok (.refl d) ?_
  intro block hblock inst hinst
  exact (((hc₁.trans hc₂).trans hc₃).trans hc₄).covers_of_covers (hlines block hblock inst hinst)

end Cursor

end LoopSwap
