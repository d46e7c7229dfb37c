/-
**Drafts, written and read back.**

A draft has a text of its own, in the layout in which functions are written.  If its names, words
and opcodes can be told apart from what stands around them, the draft is *legible*, and its text
reads back as the draft, with the lines that the text gives to the instructions.

Main definitions:

* `LoopSwap.DraftInst.code`, `LoopSwap.DraftBlock.code`, `LoopSwap.DraftFunc.code` — the text of a
  draft;
* `LoopSwap.DraftFunc.Legible` — a draft that can be written and read back;
* `LoopSwap.DraftFunc.placed` — the draft with the lines that its text gives to its instructions.

Main results:

* `LoopSwap.Cursor.readInst_code`, `LoopSwap.Cursor.readInsts_code`,
  `LoopSwap.Cursor.readBlocks_code`, `LoopSwap.Cursor.readFunc_code` — a legible draft is read back.
-/

import LoopSwap.Code.Draft
import LoopSwap.Code.Printer
import LoopSwap.Proofs.Code.Token

set_option relaxedAutoImplicit false
set_option autoImplicit false

namespace LoopSwap

open Text

/-! ### The text of a draft -/

/-- An operand as it is written. -/
def DraftOperand.code : DraftOperand → String
  | .value name => "%" ++ name
  | .block name => "^" ++ name
  | .const v => Func.literalText v
  | .location name => "@" ++ name

/-- The operands after an opcode: each after a blank, with commas between. -/
def DraftOperand.listCode : List DraftOperand → String
  | [] => ""
  | [o] => " " ++ o.code
  | o :: os => " " ++ o.code ++ "," ++ listCode os

/-- The line of an instruction. -/
def DraftInst.code (inst : DraftInst) : String :=
  "  " ++ Func.resultCode inst.name ++ inst.opcode ++ DraftOperand.listCode inst.operands ++ "\n"

/-- The lines of a block. -/
def DraftBlock.code (block : DraftBlock) : String :=
  block.name ++ ":\n" ++ String.join (block.insts.map DraftInst.code)

/-- The text of a draft. -/
def DraftFunc.code (draft : DraftFunc) : String :=
  draft.name ++ "() \x7b\n" ++ String.join (draft.blocks.map DraftBlock.code) ++ "\x7d\n"

/-! ### Legible drafts -/

/-- The name of the operand is one, if it has a name. -/
def DraftOperand.Legible : DraftOperand → Prop
  | .value name | .block name | .location name => IsName name
  | .const _ => True

/-- The result name is a name, the opcode consists of words, and the operands are legible. -/
structure DraftInst.Legible (inst : DraftInst) : Prop where
  name : ∀ n ∈ inst.name, IsName n
  opcode : IsOpcode inst.opcode
  operands : ∀ o ∈ inst.operands, o.Legible

/-- The label is a name, and the instructions are legible. -/
structure DraftBlock.Legible (block : DraftBlock) : Prop where
  name : IsName block.name
  insts : ∀ inst ∈ block.insts, inst.Legible

/-- The name is a word, and the blocks are legible. -/
structure DraftFunc.Legible (draft : DraftFunc) : Prop where
  name : IsWord draft.name
  blocks : ∀ block ∈ draft.blocks, block.Legible

/-! ### Lines -/

/-- Instructions one below the other, the first in line `line`. -/
def placeInsts (line : Nat) : List DraftInst → List DraftInst
  | [] => []
  | inst :: insts => { inst with line := line } :: placeInsts (line + 1) insts

/-- Blocks one below the other, the first label in line `line`. -/
def placeBlocks (line : Nat) : List DraftBlock → List DraftBlock
  | [] => []
  | block :: blocks =>
    ⟨block.name, placeInsts (line + 1) block.insts⟩ ::
      placeBlocks (line + 1 + block.insts.length) blocks

/-- The draft with the lines that its text gives to its instructions, if it starts in line
`line`. -/
def DraftFunc.placed (line : Nat) (draft : DraftFunc) : DraftFunc :=
  ⟨draft.name, placeBlocks (line + 1) draft.blocks⟩

/-- What does not look at lines is the same of every instruction. -/
theorem map_placeInsts {γ : Type} {g : DraftInst → γ}
    (hg : ∀ inst line, g { inst with line := line } = g inst) (insts : List DraftInst) :
    ∀ line, (placeInsts line insts).map g = insts.map g := by
  induction insts with
  | nil => intro line; rfl
  | cons inst insts ih =>
      intro line
      rw [placeInsts, List.map_cons, List.map_cons, ih, hg]

theorem map_flatMap_placeBlocks {γ : Type} {g : DraftInst → γ}
    (hg : ∀ inst line, g { inst with line := line } = g inst) (blocks : List DraftBlock) :
    ∀ line, ((placeBlocks line blocks).flatMap (·.insts)).map g =
      (blocks.flatMap (·.insts)).map g := by
  induction blocks with
  | nil => intro line; rfl
  | cons block blocks ih =>
      intro line
      rw [placeBlocks, List.flatMap_cons, List.flatMap_cons, List.map_append, List.map_append, ih,
        map_placeInsts hg]

theorem map_name_placeBlocks (blocks : List DraftBlock) :
    ∀ line, (placeBlocks line blocks).map (·.name) = blocks.map (·.name) := by
  induction blocks with
  | nil => intro line; rfl
  | cons block blocks ih =>
      intro line
      rw [placeBlocks, List.map_cons, List.map_cons, ih]

namespace Cursor

variable {c : Char} {cs rest : List Char} {line : Nat}

/-! ### The readers as plain sequences -/

theorem readOperands_eq (c : Cursor) : c.readOperands = (do
    let (o, c₁) ← c.readOperand
    match c₁.skipInLine.take? ',' with
    | none => return ([o], c₁.skipInLine)
    | some c₂ =>
      let (os, c₃) ← c₂.readOperands
      return (o :: os, c₃)) := by
  rw [readOperands]
  cases c.readOperand with
  | error e => rfl
  | ok r =>
      obtain ⟨o, c₁⟩ := r
      dsimp only [ok_bind]
      cases c₁.skipInLine.take? ',' with
      | none => rfl
      | some c₂ =>
          dsimp only
          cases c₂.readOperands <;> rfl

theorem readWords_eq (c : Cursor) : c.readWords =
    match c.skipInLine.rest with
    | [] => ([], c.skipInLine)
    | x :: xs =>
      if isLetter x then
        let (ws, c') := readWords ⟨xs.dropWhile isNameChar, c.skipInLine.line⟩
        (String.ofList (x :: xs.takeWhile isNameChar) :: ws, c')
      else ([], c.skipInLine) := by
  rw [readWords]
  cases c.skipInLine.rest with
  | nil => rfl
  | cons x xs => rfl

theorem readInsts_eq (c : Cursor) : c.readInsts =
    if c.skipLines.atBlockEnd then .ok ([], c.skipLines)
    else do
      let (inst, c₁) ← c.readInst
      let (insts, c₂) ← c₁.readInsts
      return (inst :: insts, c₂) := by
  rw [readInsts]
  split
  · rfl
  · cases c.readInst with
    | error e => rfl
    | ok r =>
        dsimp only [ok_bind]
        cases r.2.readInsts <;> rfl

theorem readBlocks_eq (c : Cursor) : c.readBlocks =
    match c.skipLines.take? '\x7d' with
    | some c₁ => .ok ([], c₁)
    | none =>
      if c.skipLines.rest = [] then c.skipLines.fail (.sign '\x7d')
      else do
        let (block, c₁) ← c.readBlock
        let (blocks, c₂) ← c₁.readBlocks
        return (block :: blocks, c₂) := by
  rw [readBlocks]
  cases c.skipLines.take? '\x7d' with
  | some c₁ => rfl
  | none =>
      dsimp only
      split
      · rfl
      · cases c.readBlock with
        | error e => rfl
        | ok r =>
            dsimp only [ok_bind]
            cases r.2.readBlocks <;> rfl

/-! ### Skipping twice -/

/-- Nothing is left to skip after skipping. -/
theorem skipFrom_skipFrom (newlines : Bool) (l : List Char) : ∀ (comment : Bool) (line : Nat),
    skipFrom newlines false (skipFrom newlines comment line l).line
      (skipFrom newlines comment line l).rest = skipFrom newlines comment line l := by
  induction l with
  | nil => intro comment line; rfl
  | cons c cs ih =>
      intro comment line
      rw [skipFrom]
      split
      · next hc =>
          split
          · exact ih _ _
          · next hn =>
              show skipFrom newlines false line (c :: cs) = _
              rw [skipFrom, if_pos hc, if_neg hn]
      · next hc =>
          split
          · exact ih _ _
          · next hcomment =>
              split
              · exact ih _ _
              · next hblank =>
                  have hstart : ¬ (false || decide (c = ';')) = true := by
                    intro h
                    exact hcomment (by simp_all)
                  show skipFrom newlines false line (c :: cs) = _
                  rw [skipFrom, if_neg hc, if_neg hstart, if_neg hblank]

@[simp] theorem skipInLine_skipInLine (c : Cursor) : c.skipInLine.skipInLine = c.skipInLine :=
  skipFrom_skipFrom false c.rest false c.line

@[simp] theorem skipLines_skipLines (c : Cursor) : c.skipLines.skipLines = c.skipLines :=
  skipFrom_skipFrom true c.rest false c.line

theorem readWord_skipInLine (c : Cursor) (e : Expected) :
    c.skipInLine.readWord e = c.readWord e := by
  simp only [readWord, readName, skipInLine_skipInLine]

theorem readOperand_skipInLine (c : Cursor) : c.skipInLine.readOperand = c.readOperand := by
  simp only [readOperand, skipInLine_skipInLine]

theorem readOperands_skipInLine (c : Cursor) : c.skipInLine.readOperands = c.readOperands := by
  rw [readOperands_eq, readOperands_eq c, readOperand_skipInLine]

theorem readArguments_skipInLine (c : Cursor) : c.skipInLine.readArguments = c.readArguments := by
  have hend : c.skipInLine.atLineEnd = c.atLineEnd := by
    rw [atLineEnd, skipInLine_skipInLine]
    rfl
  rw [readArguments, readArguments, hend, skipInLine_skipInLine, readOperands_skipInLine]

/-! ### Operands -/

/-- A literal starts with a digit or a minus sign. -/
theorem exists_literalText_eq_cons (v : Int64) : ∃ c cs, (Func.literalText v).toList = c :: cs ∧
    (c = '-' ∨ c.isDigit = true) := by
  obtain ⟨ds, hne, hds, h | h⟩ := literalText_toList v
  · cases ds with
    | nil => exact absurd rfl hne
    | cons d ds => exact ⟨d, ds, h, Or.inr (hds d List.mem_cons_self)⟩
  · exact ⟨'-', ds, h, Or.inl rfl⟩

/-- An operand starts with a sign or a digit. -/
theorem exists_code_eq_cons (o : DraftOperand) : ∃ c cs, o.code.toList = c :: cs ∧ Solid c ∧
    isLetter c = false ∧ c ≠ '\x7d' ∧ c ≠ ':' := by
  cases o with
  | value name =>
      refine ⟨'%', name.toList, ?_, by decide⟩
      simp [DraftOperand.code]
  | block name =>
      refine ⟨'^', name.toList, ?_, by decide⟩
      simp [DraftOperand.code]
  | location name =>
      refine ⟨'@', name.toList, ?_, by decide⟩
      simp [DraftOperand.code]
  | const value =>
      obtain ⟨c, cs, hcode, rfl | hdigit⟩ := exists_literalText_eq_cons value
      · exact ⟨'-', cs, hcode, by decide⟩
      · have hname := isNameChar_of_isDigit hdigit
        exact ⟨c, cs, hcode, solid_of_isNameChar hname, isLetter_eq_false_of_isDigit hdigit,
          ne_of_isNameChar hname (by decide), ne_of_isNameChar hname (by decide)⟩

/-- An operand is read as it is written. -/
theorem readOperand_code {o : DraftOperand} (ho : o.Legible) (hrest : Stops rest) :
    readOperand ⟨o.code.toList ++ rest, line⟩ = .ok (o, ⟨rest, line⟩) := by
  have hname : ∀ {s : String} {e : Expected}, IsName s →
      readName ⟨s.toList ++ rest, line⟩ e = .ok (s, ⟨rest, line⟩) := fun hs =>
    readName_append hs hrest
  obtain ⟨c, cs, hcode, hsolid, -, -⟩ := exists_code_eq_cons o
  have hskip : skipInLine ⟨o.code.toList ++ rest, line⟩ = ⟨o.code.toList ++ rest, line⟩ := by
    rw [hcode]
    exact skipInLine_solid hsolid
  unfold readOperand
  rw [hskip]
  cases o with
  | value name =>
      simp only [DraftOperand.code, String.toList_append]
      show (readName ⟨name.toList ++ rest, line⟩ .valueName >>= _) = _
      rw [hname ho, ok_bind]
      rfl
  | block name =>
      simp only [DraftOperand.code, String.toList_append]
      show (readName ⟨name.toList ++ rest, line⟩ .blockName >>= _) = _
      rw [hname ho, ok_bind]
      rfl
  | location name =>
      simp only [DraftOperand.code, String.toList_append]
      show (readName ⟨name.toList ++ rest, line⟩ .locationName >>= _) = _
      rw [hname ho, ok_bind]
      rfl
  | const value =>
      obtain ⟨d, ds, hliteral, hfirst⟩ := exists_literalText_eq_cons value
      have hread : readLiteral ⟨(Func.literalText value).toList ++ rest, line⟩ =
          .ok (value, ⟨rest, line⟩) := readLiteral_append value hrest
      have hsign : ∀ x : Char, x ≠ '-' → x.isDigit = false → d ≠ x := by
        rintro x hminus hdigit rfl
        rcases hfirst with h | h
        · exact hminus h
        · rw [hdigit] at h
          cases h
      simp only [DraftOperand.code]
      rw [hliteral, List.cons_append] at hread ⊢
      split
      · next heq => exact absurd (List.cons.inj heq).1 (hsign '%' (by decide) (by decide))
      · next heq => exact absurd (List.cons.inj heq).1 (hsign '^' (by decide) (by decide))
      · next heq => exact absurd (List.cons.inj heq).1 (hsign '@' (by decide) (by decide))
      · next x xs heq =>
          cases heq
          have hcond : (decide (d = '-') || d.isDigit) = true := by
            rcases hfirst with rfl | h
            · rfl
            · rw [h, Bool.or_true]
          rw [if_pos hcond, hread, ok_bind]
          rfl
      · next heq => cases heq

theorem readOperands_space : readOperands ⟨' ' :: cs, line⟩ = readOperands ⟨cs, line⟩ := by
  rw [readOperands_eq, readOperands_eq ⟨cs, line⟩]
  rfl

theorem toList_listCode_single (o : DraftOperand) :
    (DraftOperand.listCode [o]).toList = ' ' :: o.code.toList := by
  simp [DraftOperand.listCode]

theorem toList_listCode_cons (o o' : DraftOperand) (os : List DraftOperand) :
    (DraftOperand.listCode (o :: o' :: os)).toList =
      ' ' :: o.code.toList ++ ',' :: (DraftOperand.listCode (o' :: os)).toList := by
  simp [DraftOperand.listCode]

/-- The operands of an instruction are read as they are written. -/
theorem readOperands_listCode {os : List DraftOperand} : ∀ o : DraftOperand,
    (∀ x ∈ o :: os, x.Legible) →
    readOperands ⟨(DraftOperand.listCode (o :: os)).toList ++ '\n' :: rest, line⟩ =
      .ok (o :: os, ⟨'\n' :: rest, line⟩) := by
  induction os with
  | nil =>
      intro o hlegible
      rw [toList_listCode_single, List.cons_append, readOperands_space, readOperands_eq,
        readOperand_code (hlegible o List.mem_cons_self) (stops_cons (by decide))]
      rfl
  | cons o' os ih =>
      intro o hlegible
      have hlast := ih o' fun x hx => hlegible x (List.mem_cons_of_mem _ hx)
      rw [toList_listCode_cons, List.cons_append, List.cons_append, readOperands_space,
        List.append_assoc, List.cons_append, readOperands_eq,
        readOperand_code (hlegible o List.mem_cons_self) (stops_cons (by decide))]
      show (readOperands ⟨_, line⟩ >>= _) = _
      rw [hlast]
      rfl

/-! ### Instructions -/

/-- Words after each other, each after a blank. -/
def wordsCode (ws : List String) : List Char := ws.flatMap fun w => ' ' :: w.toList

theorem toList_intercalate_words (ws : List String) : ∀ w : String,
    (" ".intercalate (w :: ws)).toList = w.toList ++ wordsCode ws := by
  induction ws with
  | nil =>
      intro w
      rw [String.intercalate_singleton, wordsCode, List.flatMap_nil, List.append_nil]
  | cons w' ws ih =>
      intro w
      rw [String.intercalate_cons_cons, String.toList_append, String.toList_append, ih w']
      simp [wordsCode]

theorem stops_wordsCode (ws : List String) (hrest : Stops rest) : Stops (wordsCode ws ++ rest) := by
  cases ws with
  | nil => exact hrest
  | cons w ws => exact stops_cons (by decide)

/-- The words of an opcode are read as they are written, if no word follows. -/
theorem readWords_wordsCode {ws : List String} (hws : ∀ w ∈ ws, IsWord w) (hrest : Stops rest)
    (hnext : ∀ c ∈ (skipInLine ⟨rest, line⟩).rest.head?, isLetter c = false) :
    readWords ⟨wordsCode ws ++ rest, line⟩ = (ws, skipInLine ⟨rest, line⟩) := by
  induction ws with
  | nil =>
      rw [wordsCode, List.flatMap_nil, List.nil_append, readWords_eq]
      split
      · rfl
      · next x xs hskip =>
          have hx := hnext x (by rw [hskip]; rfl)
          rw [if_neg (by simp [hx])]
  | cons w ws ih =>
      have hw := hws w List.mem_cons_self
      have hstop := stops_wordsCode ws hrest
      have hcode : wordsCode (w :: ws) ++ rest = ' ' :: (w.toList ++ (wordsCode ws ++ rest)) := by
        simp [wordsCode]
      have hrec := ih fun x hx => hws x (List.mem_cons_of_mem _ hx)
      rw [hcode, readWords_eq, skipInLine_space, skipInLine_name hw.toIsName]
      obtain ⟨x, xs, hl, hx, hxs⟩ := hw.exists_cons
      simp only [hl, List.cons_append, hx, if_true, hstop.takeWhile hxs, hstop.dropWhile hxs, hrec]
      rw [← hl, String.ofList_toList]

/-- Operands start with a blank and a sign or a digit. -/
theorem exists_listCode_eq_cons (o : DraftOperand) (os : List DraftOperand) : ∃ c cs,
    (DraftOperand.listCode (o :: os)).toList = ' ' :: c :: cs ∧ Solid c ∧ isLetter c = false ∧
      c ≠ '\x7d' ∧ c ≠ ':' := by
  obtain ⟨c, cs, hcode, hc⟩ := exists_code_eq_cons o
  cases os with
  | nil => exact ⟨c, cs, by rw [toList_listCode_single, hcode], hc⟩
  | cons o' os =>
      refine ⟨c, cs ++ ',' :: (DraftOperand.listCode (o' :: os)).toList, ?_, hc⟩
      rw [toList_listCode_cons, hcode]
      rfl

/-- After the words of an opcode comes neither a word nor a colon. -/
theorem listCode_no_word (os : List DraftOperand) (rest : List Char) (line : Nat) :
    Stops ((DraftOperand.listCode os).toList ++ '\n' :: rest) ∧
    ∀ c ∈ (skipInLine ⟨(DraftOperand.listCode os).toList ++ '\n' :: rest, line⟩).rest.head?,
      isLetter c = false ∧ c ≠ ':' := by
  cases os with
  | nil =>
      refine ⟨stops_cons (by decide), fun c hc => ?_⟩
      cases hc
      decide
  | cons o os =>
      obtain ⟨c, cs, hcode, hsolid, hletter, -, hcolon⟩ := exists_listCode_eq_cons o os
      rw [hcode, List.cons_append, List.cons_append, skipInLine_space, skipInLine_solid hsolid]
      refine ⟨stops_cons (by decide), fun x hx => ?_⟩
      cases hx
      exact ⟨hletter, hcolon⟩

/-- The operands of an instruction, of which there may be none, are read as they are written. -/
theorem readArguments_listCode {os : List DraftOperand} (hos : ∀ o ∈ os, o.Legible)
    (rest : List Char) (line : Nat) :
    readArguments ⟨(DraftOperand.listCode os).toList ++ '\n' :: rest, line⟩ =
      .ok (os, ⟨'\n' :: rest, line⟩) := by
  cases os with
  | nil => rfl
  | cons o os =>
      have hend : atLineEnd
          ⟨(DraftOperand.listCode (o :: os)).toList ++ '\n' :: rest, line⟩ = false := by
        obtain ⟨c, cs, hcode, hsolid, -, hbrace, -⟩ := exists_listCode_eq_cons o os
        rw [atLineEnd, hcode, List.cons_append, List.cons_append, skipInLine_space,
          skipInLine_solid hsolid]
        simp [hsolid.ne_newline, hbrace]
      rw [readArguments, hend, if_neg Bool.false_ne_true, readOperands_listCode o hos]

theorem toList_resultCode_some (n : String) :
    (Func.resultCode (some n)).toList = '%' :: n.toList ++ " = ".toList := by
  simp [Func.resultCode]

/-- An instruction starts with its result name or its opcode. -/
theorem skipLines_resultCode {name : Option String} {w : String} (hw : IsWord w) :
    skipLines ⟨(Func.resultCode name).toList ++ (w.toList ++ rest), line⟩ =
      ⟨(Func.resultCode name).toList ++ (w.toList ++ rest), line⟩ := by
  cases name with
  | none =>
      show skipLines ⟨w.toList ++ rest, line⟩ = ⟨w.toList ++ rest, line⟩
      exact skipLines_name hw.toIsName
  | some n =>
      rw [toList_resultCode_some]
      exact skipLines_solid (by decide)

/-- The result name of an instruction is read as it is written. -/
theorem readResult_resultCode {name : Option String} (hname : ∀ n ∈ name, IsName n) {w : String}
    (hw : IsWord w) (rest : List Char) (line : Nat) :
    ∃ c, readResult ⟨(Func.resultCode name).toList ++ (w.toList ++ rest), line⟩ = .ok (name, c) ∧
      c.skipInLine = ⟨w.toList ++ rest, line⟩ := by
  cases name with
  | none =>
      refine ⟨⟨w.toList ++ rest, line⟩, ?_, skipInLine_name hw.toIsName⟩
      obtain ⟨x, xs, hl, hx, -⟩ := hw.toIsName.exists_cons
      rw [hl]
      show readResult ⟨x :: (xs ++ rest), line⟩ = _
      rw [readResult, take?_cons_of_ne (ne_of_isNameChar hx (by decide))]
      rfl
  | some n =>
      refine ⟨⟨' ' :: (w.toList ++ rest), line⟩, ?_, ?_⟩
      · have hcode : (Func.resultCode (some n)).toList ++ (w.toList ++ rest) =
            '%' :: (n.toList ++ ' ' :: '=' :: ' ' :: (w.toList ++ rest)) := by
          simp [toList_resultCode_some]
        rw [hcode, readResult, take?_cons]
        dsimp only
        rw [readName_append (hname n rfl) (stops_cons (by decide)), ok_bind]
        dsimp only
        rw [expect_space, expect_cons (by decide)]
        rfl
      · rw [skipInLine_space, skipInLine_name hw.toIsName]

/-- The line of an instruction: its result name, the first word of its opcode, the other words,
and what follows them. -/
theorem exists_inst_code {inst : DraftInst} (h : inst.Legible) (rest : List Char) (line : Nat) :
    ∃ w ws after, IsWord w ∧ (∀ x ∈ ws, IsWord x) ∧ inst.opcode = " ".intercalate (w :: ws) ∧
      inst.code.toList ++ rest =
        ' ' :: ' ' :: ((Func.resultCode inst.name).toList ++
          (w.toList ++ (wordsCode ws ++ after))) ∧
      Stops after ∧
      (∀ c ∈ (skipInLine ⟨after, line⟩).rest.head?, isLetter c = false ∧ c ≠ ':') ∧
      readArguments ⟨after, line⟩ = .ok (inst.operands, ⟨'\n' :: rest, line⟩) := by
  obtain ⟨w, ws, hw, hws, hopcode⟩ := h.opcode
  obtain ⟨hstops, hnext⟩ := listCode_no_word inst.operands rest line
  have hargs := readArguments_listCode h.operands rest line
  refine ⟨w, ws, _, hw, hws, hopcode, ?_, hstops, hnext, hargs⟩
  have hchars : inst.opcode.toList = w.toList ++ wordsCode ws := by
    rw [hopcode, toList_intercalate_words]
  simp [DraftInst.code, hchars]

/-- An instruction is read as it is written. -/
theorem readInst_code {inst : DraftInst} (h : inst.Legible) :
    readInst ⟨inst.code.toList ++ rest, line⟩ =
      .ok ({ inst with line := line }, ⟨'\n' :: rest, line⟩) := by
  obtain ⟨w, ws, after, hw, hws, hopcode, hcode, hstops, hnext, hargs⟩ :=
    exists_inst_code h rest line
  obtain ⟨c, hresult, hc⟩ := readResult_resultCode h.name hw (wordsCode ws ++ after) line
  rw [readInst, hcode, skipLines_space, skipLines_space, skipLines_resultCode hw, hresult, ok_bind]
  dsimp only
  rw [← readWord_skipInLine, hc, readWord_append hw (stops_wordsCode ws hstops), ok_bind]
  dsimp only
  rw [readWords_wordsCode hws hstops fun c hc => (hnext c hc).1]
  dsimp only
  rw [readArguments_skipInLine, hargs, ok_bind, ← hopcode]
  rfl

/-! ### Blocks -/

/-- The block is over: by a closing brace or by the label of the next block. -/
def EndsBlock (rest : List Char) : Prop :=
  ∀ line, skipLines ⟨rest, line⟩ = ⟨rest, line⟩ ∧ atBlockEnd ⟨rest, line⟩ = true

theorem endsBlock_brace (cs : List Char) : EndsBlock ('\x7d' :: cs) := fun _ => ⟨rfl, rfl⟩

theorem endsBlock_label {s : String} (hs : IsName s) (cs : List Char) :
    EndsBlock (s.toList ++ ':' :: cs) := by
  intro line
  refine ⟨skipLines_name hs, ?_⟩
  have hstops : Stops (':' :: cs) := stops_cons (by decide)
  have hlabel : atLabel ⟨s.toList ++ ':' :: cs, line⟩ = true := by
    rw [atLabel, hstops.takeWhile hs.all, hstops.dropWhile hs.all]
    split
    · next hnil => exact absurd hnil hs.ne_nil
    · rw [skipInLine_solid (by decide)]
      rfl
  obtain ⟨x, xs, hl, hx, -⟩ := hs.exists_cons
  rw [hl, List.cons_append] at hlabel ⊢
  have hsign : x ≠ '%' := ne_of_isNameChar hx (by decide)
  rw [atBlockEnd]
  simp [hsign, hlabel]

/-- A block is not over before an instruction. -/
theorem not_atBlockEnd_code {inst : DraftInst} (h : inst.Legible) :
    atBlockEnd (skipLines ⟨inst.code.toList ++ rest, line⟩) = false := by
  obtain ⟨w, ws, after, hw, hws, -, hcode, hstops, hnext, -⟩ := exists_inst_code h rest line
  rw [hcode, skipLines_space, skipLines_space, skipLines_resultCode hw]
  cases hname : inst.name with
  | some n =>
      rw [toList_resultCode_some]
      rfl
  | none =>
      -- the first word is not followed by a colon
      have hcolon : (skipInLine ⟨wordsCode ws ++ after, line⟩).rest.head? ≠ some ':' := by
        cases ws with
        | nil =>
            intro heq
            exact (hnext ':' heq).2 rfl
        | cons w' ws =>
            have hw' := hws w' List.mem_cons_self
            have hchars : wordsCode (w' :: ws) ++ after =
                ' ' :: (w'.toList ++ (wordsCode ws ++ after)) := by
              simp [wordsCode]
            obtain ⟨x, xs, hl, hx, -⟩ := hw'.toIsName.exists_cons
            rw [hchars, skipInLine_space, skipInLine_name hw'.toIsName, hl]
            intro heq
            cases heq
            exact absurd hx (by decide)
      have hlabel : atLabel ⟨w.toList ++ (wordsCode ws ++ after), line⟩ = false := by
        have hstops' := stops_wordsCode ws hstops
        rw [atLabel, hstops'.takeWhile hw.all, hstops'.dropWhile hw.all]
        split
        · rfl
        · simp [hcolon]
      obtain ⟨x, xs, hl, hx, -⟩ := hw.toIsName.exists_cons
      show atBlockEnd ⟨w.toList ++ (wordsCode ws ++ after), line⟩ = false
      rw [hl, List.cons_append] at hlabel ⊢
      have hbrace : x ≠ '\x7d' := ne_of_isNameChar hx (by decide)
      rw [atBlockEnd]
      simp [hbrace, hlabel]

theorem readInst_newline : readInst ⟨'\n' :: cs, line⟩ = readInst ⟨cs, line + 1⟩ := rfl

/-- The instructions of a block are read as they are written, up to the end of the block. -/
theorem readInsts_code {insts : List DraftInst} (h : ∀ inst ∈ insts, inst.Legible)
    (hend : EndsBlock rest) : ∀ line,
    readInsts ⟨'\n' :: ((String.join (insts.map DraftInst.code)).toList ++ rest), line⟩ =
      .ok (placeInsts (line + 1) insts, ⟨rest, line + 1 + insts.length⟩) := by
  induction insts with
  | nil =>
      intro line
      obtain ⟨hskip, hover⟩ := hend (line + 1)
      have hchars :
          (String.join (([] : List DraftInst).map DraftInst.code)).toList ++ rest = rest := by
        simp
      rw [hchars, readInsts_eq, skipLines_newline, hskip, if_pos hover]
      rfl
  | cons inst insts ih =>
      intro line
      have hinst := h inst List.mem_cons_self
      have hchars : (String.join ((inst :: insts).map DraftInst.code)).toList ++ rest =
          inst.code.toList ++ ((String.join (insts.map DraftInst.code)).toList ++ rest) := by
        simp [String.toList_join]
      rw [hchars, readInsts_eq, skipLines_newline, not_atBlockEnd_code hinst,
        if_neg Bool.false_ne_true, readInst_newline, readInst_code hinst, ok_bind]
      dsimp only
      have hline : line + 1 + 1 + insts.length = line + 1 + (inst :: insts).length := by
        rw [List.length_cons]
        omega
      rw [ih fun x hx => h x (List.mem_cons_of_mem _ hx), ok_bind, hline]
      rfl

theorem block_code_append (block : DraftBlock) (rest : List Char) :
    block.code.toList ++ rest = block.name.toList ++
      ':' :: '\n' :: ((String.join (block.insts.map DraftInst.code)).toList ++ rest) := by
  simp [DraftBlock.code]

/-- A block is read as it is written, up to its end. -/
theorem readBlock_code {block : DraftBlock} (h : block.Legible) (hend : EndsBlock rest)
    (line : Nat) :
    readBlock ⟨block.code.toList ++ rest, line⟩ =
      .ok (⟨block.name, placeInsts (line + 1) block.insts⟩,
        ⟨rest, line + 1 + block.insts.length⟩) := by
  rw [readBlock, block_code_append, skipLines_name h.name,
    readName_append h.name (stops_cons (by decide)), ok_bind]
  dsimp only
  rw [expect_cons (by decide), ok_bind, readInsts_code h.insts hend, ok_bind]
  rfl

/-! ### Functions -/

theorem readBlocks_newline : readBlocks ⟨'\n' :: cs, line⟩ = readBlocks ⟨cs, line + 1⟩ := by
  rw [readBlocks_eq, readBlocks_eq ⟨cs, line + 1⟩]
  rfl

theorem blocks_code_append (block : DraftBlock) (blocks : List DraftBlock) (rest : List Char) :
    (String.join ((block :: blocks).map DraftBlock.code)).toList ++ rest =
      block.code.toList ++ ((String.join (blocks.map DraftBlock.code)).toList ++ rest) := by
  simp [String.toList_join]

/-- The blocks that follow, or the brace after them, end a block. -/
theorem endsBlock_blocks {blocks : List DraftBlock} (h : ∀ block ∈ blocks, block.Legible)
    (rest : List Char) :
    EndsBlock ((String.join (blocks.map DraftBlock.code)).toList ++ '\x7d' :: rest) := by
  cases blocks with
  | nil => exact endsBlock_brace rest
  | cons block blocks =>
      rw [blocks_code_append, block_code_append]
      exact endsBlock_label (h block List.mem_cons_self).name _

/-- The blocks of a function are read as they are written, up to the closing brace. -/
theorem readBlocks_code {blocks : List DraftBlock} (h : ∀ block ∈ blocks, block.Legible)
    (rest : List Char) : ∀ line, ∃ line',
      readBlocks ⟨(String.join (blocks.map DraftBlock.code)).toList ++ '\x7d' :: rest, line⟩ =
        .ok (placeBlocks line blocks, ⟨rest, line'⟩) := by
  induction blocks with
  | nil =>
      intro line
      refine ⟨line, ?_⟩
      rw [readBlocks_eq]
      rfl
  | cons block blocks ih =>
      intro line
      have hblock := h block List.mem_cons_self
      have hblocks : ∀ x ∈ blocks, x.Legible := fun x hx => h x (List.mem_cons_of_mem _ hx)
      obtain ⟨line', hrest⟩ := ih hblocks (line + 1 + block.insts.length)
      refine ⟨line', ?_⟩
      -- the text goes on with the label, which is neither the brace nor the end
      obtain ⟨x, xs, hl, hx, -⟩ := hblock.name.exists_cons
      have hbrace : x ≠ '\x7d' := ne_of_isNameChar hx (by decide)
      have hread := readBlock_code hblock (endsBlock_blocks hblocks rest) line
      rw [blocks_code_append]
      generalize (String.join (blocks.map DraftBlock.code)).toList ++ '\x7d' :: rest = after
        at hrest hread ⊢
      have hskip : skipLines ⟨block.code.toList ++ after, line⟩ =
          ⟨block.code.toList ++ after, line⟩ := by
        rw [block_code_append]
        exact skipLines_name hblock.name
      have htake : take? ⟨block.code.toList ++ after, line⟩ '\x7d' = none := by
        rw [block_code_append, hl]
        exact take?_cons_of_ne hbrace
      have hne : block.code.toList ++ after ≠ [] := by
        rw [block_code_append, hl]
        exact List.cons_ne_nil _ _
      rw [readBlocks_eq, hskip, htake]
      dsimp only
      rw [if_neg hne, hread, ok_bind]
      dsimp only
      rw [hrest, ok_bind]
      rfl

/-- A legible draft is read back, with the lines that its text gives to its instructions. -/
theorem readFunc_code {draft : DraftFunc} (h : draft.Legible) (rest : List Char) (line : Nat) :
    ∃ line', readFunc ⟨draft.code.toList ++ rest, line⟩ =
      .ok (draft.placed line, ⟨'\n' :: rest, line'⟩) := by
  obtain ⟨line', hblocks⟩ := readBlocks_code h.blocks ('\n' :: rest) (line + 1)
  have hchars : draft.code.toList ++ rest =
      draft.name.toList ++ '(' :: ')' :: ' ' :: '\x7b' :: '\n' ::
        ((String.join (draft.blocks.map DraftBlock.code)).toList ++ '\x7d' :: '\n' :: rest) := by
    simp [DraftFunc.code]
  refine ⟨line', ?_⟩
  rw [readFunc, hchars, readWord_append h.name (stops_cons (by decide)), ok_bind]
  dsimp only
  rw [expect_cons (by decide), ok_bind, expect_cons (by decide), ok_bind, expect_space,
    expect_cons (by decide), ok_bind, readBlocks_newline, hblocks, ok_bind]
  rfl

end Cursor

end LoopSwap
