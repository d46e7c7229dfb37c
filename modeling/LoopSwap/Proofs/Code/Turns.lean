/-
**The loops of reading by bytes.**

A loop that reads one thing after the other follows the reader of the whole list.  Its turns are
written down for cursors as well: what one turn adds to what has been read, or that it was the last
one.  Every turn but the last takes something away from what is left of the text, because what it
reads is not empty, and this is all that the rule for loops needs.  What is read of a function, of a
block and of an instruction before the first turn of a loop is its *head*.

Main definitions:

* `LoopSwap.Cursor.wordTurn`, `LoopSwap.Cursor.operandTurn`, `LoopSwap.Cursor.instTurn`,
  `LoopSwap.Cursor.blockTurn`, `LoopSwap.Cursor.funcTurn` — the turns of the loops;
* `LoopSwap.Scan.funcHead`, `LoopSwap.Scan.blockHead`, `LoopSwap.Scan.instHead` — the heads.

Main results:

* `LoopSwap.Cursor.instTurn_lt` and those beside it — a turn takes something away;
* `LoopSwap.Scan.follows_atBlockEnd` — looking ahead for a label;
* `LoopSwap.Scan.follows_readInst`, `LoopSwap.Scan.follows_readBlock`,
  `LoopSwap.Scan.follows_readFunc`, `LoopSwap.Scan.follows_readProgram` — what the scans of
  instructions, blocks, functions and programs follow.
-/

import LoopSwap.Proofs.Code.Scanner

set_option relaxedAutoImplicit false
set_option autoImplicit false

namespace LoopSwap

open Text

/-! ### Turns and heads, by cursors -/

namespace Cursor

/-- One more word of an opcode, if there is one. -/
def wordTurn (opcode : String) (c : Cursor) : Except ReadError ((String ⊕ String) × Cursor) :=
  if c.skipInLine.rest.head?.any isLetter then do
    let (word, d) ← c.readWord .operation
    return (.inl (opcode ++ " " ++ word), d)
  else .ok (.inr opcode, c.skipInLine)

/-- One more operand, and the comma behind it if more of them follow. -/
def operandTurn (operands : List DraftOperand) (c : Cursor) :
    Except ReadError ((List DraftOperand ⊕ List DraftOperand) × Cursor) := do
  let (o, d) ← c.readOperand
  match d.skipInLine.take? ',' with
  | some d' => return (.inl (operands ++ [o]), d')
  | none => return (.inr (operands ++ [o]), d.skipInLine)

/-- One more instruction of a block, if the block is not over. -/
def instTurn (insts : List DraftInst) (c : Cursor) :
    Except ReadError ((List DraftInst ⊕ List DraftInst) × Cursor) :=
  if c.skipLines.atBlockEnd then .ok (.inr insts, c.skipLines)
  else do
    let (inst, d) ← c.readInst
    return (.inl (insts ++ [inst]), d)

/-- One more block of a function, or the brace that closes it. -/
def blockTurn (blocks : List DraftBlock) (c : Cursor) :
    Except ReadError ((List DraftBlock ⊕ List DraftBlock) × Cursor) :=
  match c.skipLines.take? '\x7d' with
  | some d => .ok (.inr blocks, d)
  | none =>
    if c.skipLines.rest = [] then c.skipLines.fail (.sign '\x7d')
    else do
      let (block, d) ← c.readBlock
      return (.inl (blocks ++ [block]), d)

/-- One more function, if the text is not over. -/
def funcTurn (functions : List Func) (c : Cursor) :
    Except ReadError ((List Func ⊕ List Func) × Cursor) :=
  if c.rest = [] then .ok (.inr functions, c)
  else do
    let (draft, d) ← c.readFunc
    let f ← draft.resolve
    if ((Program.mk functions).find? f.name).isSome then
      .error (.duplicate d.line .function f.name)
    else return (.inl (functions ++ [f]), d.skipLines)

/-- The name of a function, and the signs that stand before its first block. -/
def funcHead (c : Cursor) : Except ReadError (String × Cursor) := do
  let (name, c₁) ← c.readWord .functionName
  let c₂ ← c₁.expect '(' (.sign '(')
  let c₃ ← c₂.expect ')' (.sign ')')
  let c₄ ← c₃.expect '\x7b' (.sign '\x7b')
  return (name, c₄)

/-- The label of a block, and the colon behind it. -/
def blockHead (c : Cursor) : Except ReadError (String × Cursor) := do
  let (name, c₁) ← c.skipLines.readName .blockLabel
  let c₂ ← c₁.expect ':' .labelColon
  return (name, c₂)

/-- The line of an instruction, the name that its result gets, and the first word of its opcode. -/
def instHead (c : Cursor) : Except ReadError ((Nat × Option String × String) × Cursor) := do
  let (name, c₁) ← c.skipLines.readResult
  let (word, c₂) ← c₁.readWord .operation
  return ((c.skipLines.line, name, word), c₂)

theorem readFunc_eq (c : Cursor) : c.readFunc = (do
    let (name, d) ← c.funcHead
    let (blocks, d') ← d.readBlocks
    return (⟨name, blocks⟩, d')) := by
  simp only [readFunc, funcHead, bind_assoc, pure_bind]

theorem readBlock_eq (c : Cursor) : c.readBlock = (do
    let (name, d) ← c.blockHead
    let (insts, d') ← d.readInsts
    return (⟨name, insts⟩, d')) := by
  simp only [readBlock, blockHead, bind_assoc, pure_bind]

theorem readInst_eq (c : Cursor) : c.readInst = (do
    let ((line, name, word), d) ← c.instHead
    let (operands, d') ← d.readWords.2.readArguments
    if d'.atLineEnd then
      return (⟨line, name, " ".intercalate (word :: d.readWords.1), operands⟩, d'.skipInLine)
    else d'.skipInLine.fail .lineEnd) := by
  simp only [readInst, instHead, bind_assoc, pure_bind]

variable {c d : Cursor}

/-! Every turn that is not the last one takes something away; with operands and blocks the last one
does as well. -/

theorem wordTurn_lt {opcode opcode' : String} (h : c.wordTurn opcode = .ok (.inl opcode', d)) :
    d.rest.length < c.rest.length := by
  unfold wordTurn at h
  split at h
  · obtain ⟨⟨word, d'⟩, hword, hok⟩ := bind_eq_ok.1 h
    cases hok
    exact readWord_lt hword
  · cases h

theorem operandTurn_lt {operands : List DraftOperand} {o : List DraftOperand ⊕ List DraftOperand}
    (h : c.operandTurn operands = .ok (o, d)) : d.rest.length < c.rest.length := by
  obtain ⟨⟨o, d'⟩, hread, h⟩ := bind_eq_ok.1 h
  have hoperand := readOperand_lt hread
  have hskip := skipInLine_length_le d'
  dsimp only at h
  split at h
  · next d'' hcomma =>
      cases h
      have := take?_lt hcomma
      omega
  · cases h
    omega

theorem instTurn_lt {insts insts' : List DraftInst}
    (h : c.instTurn insts = .ok (.inl insts', d)) : d.rest.length < c.rest.length := by
  unfold instTurn at h
  split at h
  · cases h
  · obtain ⟨⟨inst, d'⟩, hread, hok⟩ := bind_eq_ok.1 h
    cases hok
    exact readInst_lt hread

theorem blockTurn_lt {blocks : List DraftBlock} {o : List DraftBlock ⊕ List DraftBlock}
    (h : c.blockTurn blocks = .ok (o, d)) : d.rest.length < c.rest.length := by
  unfold blockTurn at h
  split at h
  · next hbrace =>
      cases h
      exact Nat.lt_of_lt_of_le (take?_lt hbrace) (skipLines_length_le c)
  · split at h
    · cases h
    · obtain ⟨⟨block, d'⟩, hread, hok⟩ := bind_eq_ok.1 h
      cases hok
      exact readBlock_lt hread

theorem funcTurn_lt {functions functions' : List Func}
    (h : c.funcTurn functions = .ok (.inl functions', d)) : d.rest.length < c.rest.length := by
  unfold funcTurn at h
  split at h
  · cases h
  · obtain ⟨⟨draft, d'⟩, hread, h⟩ := bind_eq_ok.1 h
    obtain ⟨f, -, h⟩ := bind_eq_ok.1 h
    have hfunc := readFunc_lt hread
    have hskip := skipLines_length_le d'
    split at h
    · cases h
    · cases h
      omega

end Cursor

namespace Scan

section Loops

variable (text : String) {c d : Cursor}

/-! ### Heads -/

/-- Reads a function up to its first block. -/
def funcHead : Scan String := do
  let name ← readWord text .functionName
  expect text '(' (.sign '(')
  expect text ')' (.sign ')')
  expect text '\x7b' (.sign '\x7b')
  return name

/-- Reads a block up to its first instruction. -/
def blockHead : Scan String := do
  skipSpace text true
  let name ← readName text .blockLabel
  expect text ':' .labelColon
  return name

/-- Reads an instruction up to the first word of its opcode. -/
def instHead : Scan (Nat × Option String × String) := do
  skipSpace text true
  let start ← here
  let name ← readResult text
  let word ← readWord text .operation
  return (start.line, name, word)

theorem readFunc_eq : readFunc text = (do
    let name ← funcHead text
    let blocks ← loop (blockTurn text) []
    ofExcept (DraftFunc.resolve ⟨name, blocks⟩)) := by
  simp only [readFunc, funcHead, bind_assoc, pure_bind]

theorem readBlock_eq : readBlock text = (do
    let name ← blockHead text
    let insts ← loop (instTurn text) []
    return ⟨name, insts⟩) := by
  simp only [readBlock, blockHead, bind_assoc, pure_bind]

theorem readInst_eq : readInst text = (do
    let (line, name, word) ← instHead text
    let opcode ← loop (wordTurn text) word
    let operands ← readArguments text
    if ← atLineEnd text then return ⟨line, name, opcode, operands⟩
    else unexpected text .lineEnd) := by
  simp only [readInst, instHead, bind_assoc, pure_bind]

/-! ### Following the readers of lists -/

theorem follows_wordTurn (opcode : String) (c : Cursor) :
    Follows text (wordTurn text opcode) c (c.wordTurn opcode) := by
  refine (follows_skipInLine text c).bind_ok ((Follows.current _).bind_ok ?_)
  refine Follows.ite (fun _ => ?_) fun _ => .pure _ _
  have hword := follows_readWord text .operation c.skipInLine
  rw [Cursor.readWord_skipInLine] at hword
  exact hword.bind fun word d _ => .pure _ d

/-- The words of an opcode, put behind the first one. -/
theorem follows_readWords (opcode : String) (c : Cursor) :
    Follows text (loop (wordTurn text) opcode) c
      (.ok (" ".intercalate (opcode :: c.readWords.1), c.readWords.2)) := by
  refine Follows.loop (T := fun s c => c.wordTurn s)
    (R := fun s c => .ok (" ".intercalate (s :: c.readWords.1), c.readWords.2))
    (follows_wordTurn text) (fun s c s' d => Cursor.wordTurn_lt) ?_ opcode c
  intro opcode c
  rw [Cursor.wordTurn, Cursor.readWords_eq]
  cases hrest : c.skipInLine.rest with
  | nil => rfl
  | cons x xs =>
      rw [List.head?_cons, Option.any_some]
      dsimp only
      split
      · next hx =>
          have hword : c.readWord .operation = .ok (String.ofList (x :: xs.takeWhile isNameChar),
              ⟨xs.dropWhile isNameChar, c.skipInLine.line⟩) := by
            have hname := isNameChar_of_isLetter hx
            rw [Cursor.readWord, hrest, List.head?_cons, Option.any_some, if_pos hx,
              Cursor.readName, hrest, List.takeWhile_cons_of_pos hname,
              List.dropWhile_cons_of_pos hname]
          rw [hword]
          rfl
      · rfl

theorem follows_operandTurn (operands : List DraftOperand) (c : Cursor) :
    Follows text (operandTurn text operands) c (c.operandTurn operands) := by
  refine (follows_readOperand text c).bind ?_
  intro o d _
  have hcomma := follows_tryRead_inLine text (s := ',') (by decide) d
  dsimp only
  cases htake : d.skipInLine.take? ',' with
  | none =>
      rw [htake] at hcomma
      exact hcomma.bind_ok (.pure _ _)
  | some d' =>
      rw [htake] at hcomma
      exact hcomma.bind_ok (.pure _ _)

/-- A list that has been read, put behind what was read before. -/
def behind {α : Type} (as : List α) (r : Except ReadError (List α × Cursor)) :
    Except ReadError (List α × Cursor) := r.map fun p => (as ++ p.1, p.2)

theorem behind_nil {α : Type} (r : Except ReadError (List α × Cursor)) : behind [] r = r := by
  cases r <;> rfl

/-- What is read first comes first. -/
theorem behind_bind {α : Type} (as : List α) (a : α) (r : Except ReadError (List α × Cursor)) :
    behind as (r >>= fun p => .ok (a :: p.1, p.2)) = behind (as ++ [a]) r := by
  cases r with
  | error e => rfl
  | ok p => simp [behind, Except.map, Bind.bind, Except.bind]

/-- Nothing comes behind the last one. -/
theorem behind_ok_nil {α : Type} (as : List α) (c : Cursor) :
    behind as (.ok ([], c)) = .ok (as, c) := by
  simp [behind, Except.map]

theorem follows_readOperands (operands : List DraftOperand) (c : Cursor) :
    Follows text (loop (operandTurn text) operands) c (behind operands c.readOperands) := by
  refine Follows.loop (T := fun s c => c.operandTurn s) (R := fun s c => behind s c.readOperands)
    (follows_operandTurn text) (fun s c s' d => Cursor.operandTurn_lt) ?_ operands c
  intro operands c
  rw [Cursor.operandTurn, Cursor.readOperands_eq]
  cases c.readOperand with
  | error e => rfl
  | ok p =>
      obtain ⟨o, d⟩ := p
      dsimp only [ok_bind]
      cases d.skipInLine.take? ',' with
      | none => rfl
      | some d' => exact behind_bind operands o d'.readOperands

theorem follows_readResult (c : Cursor) :
    Follows text (readResult text) c c.skipLines.readResult := by
  have hsign := follows_tryRead_lines text (s := '%') (by decide) c
  rw [Cursor.readResult]
  cases htake : c.skipLines.take? '%' with
  | none =>
      rw [htake] at hsign
      exact hsign.bind_ok (.pure _ _)
  | some d =>
      rw [htake] at hsign
      refine hsign.bind_ok ((follows_readName text .valueName d).bind ?_)
      intro name d' _
      exact follows_expect_bind text (by decide) _ d' fun d'' _ => .pure (some name) d''

theorem follows_readArguments (c : Cursor) :
    Follows text (readArguments text) c c.readArguments := by
  refine (follows_atLineEnd text c).bind_ok ?_
  rw [Cursor.readArguments]
  refine Follows.ite (fun _ => .pure _ _) fun _ => ?_
  have hoperands := follows_readOperands text [] c.skipInLine
  rwa [behind_nil, Cursor.readOperands_skipInLine] at hoperands

theorem follows_instHead (c : Cursor) : Follows text (instHead text) c c.instHead := by
  refine (follows_skipLines text c).bind_ok ((Follows.here _).bind_ok ?_)
  have hresult := follows_readResult text c.skipLines
  rw [Cursor.skipLines_skipLines] at hresult
  refine hresult.bind ?_
  intro name c₁ _
  exact (follows_readWord text _ c₁).bind fun word c₂ _ => .pure _ c₂

theorem follows_readInst (c : Cursor) : Follows text (readInst text) c c.readInst := by
  rw [readInst_eq, Cursor.readInst_eq]
  refine (follows_instHead text c).bind ?_
  rintro ⟨line, name, word⟩ d _
  refine (follows_readWords text word d).bind_ok ?_
  refine (follows_readArguments text _).bind ?_
  intro operands d' _
  refine (follows_atLineEnd text d').bind_ok ?_
  exact Follows.ite (fun _ => .pure _ _) fun _ => follows_unexpected text _ _

/-! ### Following the readers of blocks -/

/-- Where lines have been skipped, nothing is left to skip on the line. -/
theorem skipInLine_skipLines (c : Cursor) : c.skipLines.skipInLine = c.skipLines := by
  have hstop : ∀ (l : List Char) (comment : Bool) (line : Nat),
      Cursor.skipInLine (Cursor.skipFrom true comment line l) =
        Cursor.skipFrom true comment line l := by
    intro l
    induction l with
    | nil => exact fun comment line => rfl
    | cons x xs ih =>
        intro comment line
        rw [Cursor.skipFrom]
        split
        · exact ih false (line + 1)
        · next hline =>
            split
            · exact ih true line
            · next hcomment =>
                split
                · exact ih false line
                · next hblank =>
                    refine Cursor.skipInLine_solid ⟨hline, ?_, by simpa using hblank⟩
                    rintro rfl
                    simp at hcomment
  exact hstop c.rest false c.line

/-- Reading a name ahead and looking for a colon finds out whether a label comes next. -/
theorem follows_atLabel (hc : c.skipInLine = c) : Follows text (do
    let found ← lookahead text do
      let _ ← readName text .blockLabel
      skipSpace text false
      current text
    return decide (found = some (some ':'))) c (.ok (c.atLabel, c)) := by
  have hahead : Follows text (do
      let _ ← readName text .blockLabel
      skipSpace text false
      current text) c (do
      let (_, d) ← c.readName .blockLabel
      .ok (d.skipInLine.rest.head?, d.skipInLine)) :=
    (follows_readName text _ c).bind fun _ d _ => (follows_skipInLine text d).bind_ok (.current _)
  have hlabel : decide (((c.readName .blockLabel >>= fun p =>
      .ok (p.2.skipInLine.rest.head?, p.2.skipInLine) :
        Except ReadError (Option Char × Cursor)).toOption.map (·.1)) = some (some ':')) =
      c.atLabel := by
    rw [Cursor.readName, hc, Cursor.atLabel]
    cases c.rest.takeWhile isNameChar with
    | nil => rfl
    | cons x xs => exact decide_eq_decide.2 Option.some_inj
  refine (Follows.lookahead hahead).bind_ok ?_
  rw [← hlabel]
  exact .pure _ c

theorem follows_atBlockEnd (c : Cursor) :
    Follows text (atBlockEnd text) c (.ok (c.skipLines.atBlockEnd, c.skipLines)) := by
  refine (follows_skipLines text c).bind_ok ((Follows.current _).bind_ok ?_)
  rw [Cursor.atBlockEnd]
  have hahead := follows_atLabel text (skipInLine_skipLines c)
  cases c.skipLines.rest with
  | nil => exact .pure _ _
  | cons x xs =>
      rw [List.head?_cons]
      dsimp only
      split
      · next hx =>
          rw [hx]
          exact .pure _ _
      · split
        · next hx =>
            rw [hx]
            exact .pure _ _
        · next hbrace hsign =>
            simpa [hbrace, hsign] using hahead

theorem follows_instTurn (insts : List DraftInst) (c : Cursor) :
    Follows text (instTurn text insts) c (c.instTurn insts) := by
  refine (follows_atBlockEnd text c).bind_ok ?_
  refine Follows.ite (fun _ => .pure _ _) fun _ => ?_
  have hinst := follows_readInst text c.skipLines
  have hskip : c.skipLines.readInst = c.readInst := by
    rw [Cursor.readInst, Cursor.skipLines_skipLines, ← Cursor.readInst]
  rw [hskip] at hinst
  exact hinst.bind fun inst d _ => .pure _ d

theorem follows_readInsts (insts : List DraftInst) (c : Cursor) :
    Follows text (loop (instTurn text) insts) c (behind insts c.readInsts) := by
  refine Follows.loop (T := fun s c => c.instTurn s) (R := fun s c => behind s c.readInsts)
    (follows_instTurn text) (fun s c s' d => Cursor.instTurn_lt) ?_ insts c
  intro insts c
  rw [Cursor.instTurn, Cursor.readInsts_eq]
  split
  · exact behind_ok_nil insts c.skipLines
  · cases c.readInst with
    | error e => rfl
    | ok p => exact behind_bind insts p.1 p.2.readInsts

theorem follows_blockHead (c : Cursor) : Follows text (blockHead text) c c.blockHead := by
  refine (follows_skipLines text c).bind_ok ((follows_readName text _ _).bind ?_)
  intro name c₁ _
  exact follows_expect_bind text (by decide) _ c₁ fun c₂ _ => .pure name c₂

theorem follows_readBlock (c : Cursor) : Follows text (readBlock text) c c.readBlock := by
  rw [readBlock_eq, Cursor.readBlock_eq]
  refine (follows_blockHead text c).bind ?_
  intro name d _
  have hinsts := follows_readInsts text [] d
  rw [behind_nil] at hinsts
  exact hinsts.bind fun insts d' _ => .pure _ d'

theorem follows_blockTurn (blocks : List DraftBlock) (c : Cursor) :
    Follows text (blockTurn text blocks) c (c.blockTurn blocks) := by
  have hbrace := follows_tryRead_lines text (s := '\x7d') (by decide) c
  rw [Cursor.blockTurn]
  cases htake : c.skipLines.take? '\x7d' with
  | some d =>
      rw [htake] at hbrace
      exact hbrace.bind_ok (.pure _ _)
  | none =>
      rw [htake] at hbrace
      refine hbrace.bind_ok ((Follows.atEnd _).bind_ok ?_)
      have hblock := follows_readBlock text c.skipLines
      have hskip : c.skipLines.readBlock = c.readBlock := by
        rw [Cursor.readBlock, Cursor.skipLines_skipLines, ← Cursor.readBlock]
      rw [hskip] at hblock
      refine Follows.ite_decide (fun _ => follows_unexpected text _ _) fun _ => ?_
      exact hblock.bind fun block d _ => .pure _ d

theorem follows_readBlocks (blocks : List DraftBlock) (c : Cursor) :
    Follows text (loop (blockTurn text) blocks) c (behind blocks c.readBlocks) := by
  refine Follows.loop (T := fun s c => c.blockTurn s) (R := fun s c => behind s c.readBlocks)
    (follows_blockTurn text) (fun s c s' d => Cursor.blockTurn_lt) ?_ blocks c
  intro blocks c
  rw [Cursor.blockTurn, Cursor.readBlocks_eq]
  cases c.skipLines.take? '\x7d' with
  | some d => exact behind_ok_nil blocks d
  | none =>
      dsimp only
      split
      · rfl
      · cases c.readBlock with
        | error e => rfl
        | ok p => exact behind_bind blocks p.1 p.2.readBlocks

/-! ### Following the readers of functions and programs -/

theorem follows_funcHead (c : Cursor) : Follows text (funcHead text) c c.funcHead := by
  refine (follows_readWord text _ c).bind ?_
  intro name c₁ _
  refine follows_expect_bind text (by decide) _ c₁ ?_
  intro c₂ _
  refine follows_expect_bind text (by decide) _ c₂ ?_
  intro c₃ _
  exact follows_expect_bind text (by decide) _ c₃ fun c₄ _ => .pure name c₄

theorem follows_readFunc (c : Cursor) : Follows text (readFunc text) c (do
    let (draft, d) ← c.readFunc
    let f ← draft.resolve
    return (f, d)) := by
  rw [readFunc_eq, Cursor.readFunc_eq]
  simp only [bind_assoc, pure_bind]
  refine (follows_funcHead text c).bind ?_
  intro name d _
  have hblocks := follows_readBlocks text [] d
  rw [behind_nil] at hblocks
  refine hblocks.bind ?_
  intro blocks d' _
  exact .ofExcept _ d'

theorem follows_funcTurn (functions : List Func) (c : Cursor) :
    Follows text (funcTurn text functions) c (c.funcTurn functions) := by
  refine (Follows.atEnd c).bind_ok (Follows.ite_decide (fun _ => .pure _ c) fun _ => ?_)
  have hread : (do
      let (draft, d) ← c.readFunc
      let f ← draft.resolve
      if ((Program.mk functions).find? f.name).isSome then
        .error (.duplicate d.line .function f.name)
      else return (.inl (functions ++ [f]), d.skipLines)) =
      (do
        let (draft, d) ← c.readFunc
        let f ← draft.resolve
        return (f, d)) >>= fun p =>
        if ((Program.mk functions).find? p.1.name).isSome then
          (.error (.duplicate p.2.line .function p.1.name) :
            Except ReadError ((List Func ⊕ List Func) × Cursor))
        else .ok (.inl (functions ++ [p.1]), p.2.skipLines) := by
    simp only [bind_assoc, pure_bind]
    rfl
  rw [hread]
  refine (follows_readFunc text c).bind ?_
  intro f d _
  refine Follows.ite (fun _ => ?_) fun _ => (follows_skipLines text d).bind_ok (.pure _ _)
  exact (Follows.here d).bind_ok (.report _ d)

/-- The functions that are read one by one are those of the text, each with a name that has not been
seen before. -/
theorem follows_readFuncs {seen : List String} {functions : List Func} (c : Cursor)
    (hseen : ∀ n, n ∈ seen ↔ n ∈ functions.map (·.name)) :
    ∃ r, Follows text (loop (funcTurn text) functions) c.skipLines r ∧
      r.map (·.1) = (readFuncs seen c).map (functions ++ ·) := by
  -- `readFuncs` does not say where it ends, so the rule for loops has no reader to compare with,
  -- and the turns are followed one after the other
  induction hn : c.rest.length using Nat.strongRecOn generalizing seen functions c with
  | ind n ih =>
      have hturn := follows_funcTurn text functions c.skipLines
      rw [Cursor.funcTurn] at hturn
      rw [readFuncs, loop_eq]
      split
      · next hend =>
          rw [if_pos hend] at hturn
          exact ⟨_, hturn.bind_ok (.pure _ _), by simp [Except.map]⟩
      · next hend =>
          rw [if_neg hend] at hturn
          split
          · next e hread =>
              rw [hread] at hturn
              exact ⟨_, hturn.bind_error, rfl⟩
          · next draft d hread =>
              rw [hread] at hturn
              dsimp only [ok_bind] at hturn
              cases hresolve : draft.resolve with
              | error e =>
                  rw [hresolve] at hturn
                  exact ⟨_, hturn.bind_error, rfl⟩
              | ok f =>
                  rw [hresolve] at hturn
                  have hname : ((Program.mk functions).find? f.name).isSome = true ↔
                      f.name ∈ seen := by
                    rw [hseen, Program.find?, List.find?_isSome, List.mem_map]
                    simp
                  dsimp only [ok_bind] at hturn ⊢
                  by_cases hold : f.name ∈ seen
                  · rw [if_pos (hname.2 hold)] at hturn
                    rw [if_pos hold]
                    exact ⟨_, hturn.bind_error, rfl⟩
                  · rw [if_neg (mt hname.1 hold)] at hturn
                    rw [if_neg hold]
                    have hlt : d.rest.length < n := by
                      have := Cursor.readFunc_lt hread
                      have := Cursor.skipLines_length_le c
                      omega
                    have hseen' : ∀ n, n ∈ f.name :: seen ↔
                        n ∈ (functions ++ [f]).map (·.name) := by
                      simp [hseen, or_comm]
                    obtain ⟨r, hr, hmap⟩ := ih _ hlt d hseen' rfl
                    refine ⟨r, hturn.bind_ok hr, hmap.trans ?_⟩
                    cases readFuncs (f.name :: seen) d <;> simp [Except.map]

/-- Read by its bytes, a text is the program that it is. -/
theorem follows_readProgram (text : String) : ∃ r,
    Follows text (readProgram text) (.start text) r ∧ r.map (·.1) = Program.read text := by
  have hnone : ∀ n, n ∈ ([] : List String) ↔ n ∈ ([] : List Func).map (·.name) := by simp
  obtain ⟨r, hr, hmap⟩ := follows_readFuncs text (.start text) hnone
  refine ⟨r >>= fun p => .ok (⟨p.1⟩, p.2), ?_, ?_⟩
  · exact (follows_skipLines text _).bind_ok (hr.bind fun functions d _ => .pure _ d)
  · have hread : readFuncs [] (.start text) = r.map (·.1) := by
      rw [hmap]
      cases readFuncs [] (.start text) <;> rfl
    rw [Program.read, hread]
    cases r <;> rfl

end Loops

end Scan

end LoopSwap
