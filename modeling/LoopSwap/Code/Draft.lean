/-
**Drafts: loop code whose operands are still names.**

A name may be used before it is defined, so a text is read in two steps.  The first, here, turns
the characters into a draft, in which operands and targets are the names that were written; the
second, `LoopSwap.Code.Resolve`, replaces the names by ids.

The text is free in its layout except that an instruction ends with its line.  A line is a label if
it is a name before a colon; bare words after an opcode belong to the opcode.

Main definitions:

* `LoopSwap.DraftOperand`, `LoopSwap.DraftInst`, `LoopSwap.DraftBlock`, `LoopSwap.DraftFunc` — the
  drafts;
* `LoopSwap.Cursor.readOperand`, `LoopSwap.Cursor.readInst`, `LoopSwap.Cursor.readBlock`,
  `LoopSwap.Cursor.readFunc` — their readers.

Main results:

* `LoopSwap.Cursor.readOperand_lt`, `LoopSwap.Cursor.readInst_lt`, `LoopSwap.Cursor.readBlock_lt`,
  `LoopSwap.Cursor.readFunc_lt` — every reader takes at least one character, so every repetition
  of one ends.
-/

import LoopSwap.Code.Cursor
import LoopSwap.Sequence

set_option relaxedAutoImplicit false
set_option autoImplicit false

namespace LoopSwap

open Text

/-! ### Drafts -/

/-- An operand as it is written. -/
inductive DraftOperand where
  | value (name : String)
  | block (name : String)
  | const (value : Int64)
  | location (name : String)
  deriving DecidableEq

/-- An instruction as it is written, and the line it starts on.  The words of its opcode are
joined by single blanks. -/
structure DraftInst where
  line : Nat
  name : Option String
  opcode : String
  operands : List DraftOperand
  deriving DecidableEq

/-- A label and the instructions below it. -/
structure DraftBlock where
  name : String
  insts : List DraftInst
  deriving DecidableEq

/-- A function name and the blocks between its braces. -/
structure DraftFunc where
  name : String
  blocks : List DraftBlock
  deriving DecidableEq

namespace Cursor

/-! ### Operands -/

/-- Reads one operand on this line. -/
def readOperand (c : Cursor) : Except ReadError (DraftOperand × Cursor) :=
  match c.skipInLine.rest with
  | '%' :: cs => do
    let (name, c') ← readName ⟨cs, c.skipInLine.line⟩ .valueName
    return (.value name, c')
  | '^' :: cs => do
    let (name, c') ← readName ⟨cs, c.skipInLine.line⟩ .blockName
    return (.block name, c')
  | '@' :: cs => do
    let (name, c') ← readName ⟨cs, c.skipInLine.line⟩ .locationName
    return (.location name, c')
  | x :: _ =>
    if x = '-' || x.isDigit then do
      let (value, c') ← c.skipInLine.readLiteral
      return (.const value, c')
    else c.skipInLine.fail .operand
  | [] => c.skipInLine.fail .operand

theorem readOperand_lt {c c' : Cursor} {o : DraftOperand} (h : c.readOperand = .ok (o, c')) :
    c'.rest.length < c.rest.length := by
  have hskip := skipInLine_length_le c
  have hname : ∀ {x : Char} {cs : List Char} {e : Expected} {g : String → DraftOperand},
      c.skipInLine.rest = x :: cs →
      (do let (name, c') ← readName ⟨cs, c.skipInLine.line⟩ e; return (g name, c') :
        Except ReadError (DraftOperand × Cursor)) = .ok (o, c') →
      c'.rest.length < c.rest.length := by
    intro x cs e g hrest hread
    obtain ⟨⟨name, d⟩, hd, hok⟩ := bind_eq_ok.1 hread
    cases hok
    have := readName_lt hd
    rw [hrest, List.length_cons] at hskip
    simp only at this
    omega
  unfold readOperand at h
  split at h
  · next hrest => exact hname hrest h
  · next hrest => exact hname hrest h
  · next hrest => exact hname hrest h
  · split at h
    · obtain ⟨⟨value, d⟩, hd, hok⟩ := bind_eq_ok.1 h
      cases hok
      exact Nat.lt_of_lt_of_le (readLiteral_lt hd) hskip
    · cases h
  · cases h

/-- Reads one or more operands on this line, with commas between. -/
def readOperands (c : Cursor) : Except ReadError (List DraftOperand × Cursor) :=
  match _h : c.readOperand with
  | .error e => .error e
  | .ok (o, c₁) =>
    match _h' : c₁.skipInLine.take? ',' with
    | none => .ok ([o], c₁.skipInLine)
    | some c₂ =>
      match readOperands c₂ with
      | .error e => .error e
      | .ok (os, c₃) => .ok (o :: os, c₃)
termination_by c.rest.length
decreasing_by
  have h₁ := readOperand_lt _h
  have h₂ := take?_lt _h'
  have h₃ := skipInLine_length_le c₁
  omega

theorem readOperands_lt {c c' : Cursor} {os : List DraftOperand}
    (h : c.readOperands = .ok (os, c')) : c'.rest.length < c.rest.length := by
  fun_induction readOperands c generalizing os c' with
  | case1 => cases h
  | case2 c o c₁ h₁ h₂ =>
      cases h
      exact Nat.lt_of_le_of_lt (skipInLine_length_le _) (readOperand_lt h₁)
  | case3 => cases h
  | case4 c o c₁ h₁ c₂ h₂ os₂ c₃ h₃ ih =>
      cases h
      have hlt := ih h₃
      have hlt₁ := readOperand_lt h₁
      have hlt₂ := take?_lt h₂
      have hle := skipInLine_length_le c₁
      omega

/-! ### Instructions -/

/-- Whether the line, past white space, is over: by a line feed, a closing brace, or the end of
the text. -/
def atLineEnd (c : Cursor) : Bool :=
  match c.skipInLine.rest with
  | [] => true
  | x :: _ => x = '\n' || x = '\x7d'

/-- Reads the bare words that follow on this line. -/
def readWords (c : Cursor) : List String × Cursor :=
  match _h : c.skipInLine.rest with
  | [] => ([], c.skipInLine)
  | x :: xs =>
    if isLetter x then
      let (ws, c') := readWords ⟨xs.dropWhile isNameChar, c.skipInLine.line⟩
      (String.ofList (x :: xs.takeWhile isNameChar) :: ws, c')
    else ([], c.skipInLine)
termination_by c.rest.length
decreasing_by
  have h₁ := skipInLine_length_le c
  have h₂ := takeWhile_add_dropWhile_length isNameChar xs
  rw [_h, List.length_cons] at h₁
  omega

theorem readWords_length_le (c : Cursor) : c.readWords.2.rest.length ≤ c.rest.length := by
  fun_induction readWords c with
  | case1 c h => exact skipInLine_length_le c
  | case2 c x xs h hx ws c' hw ih =>
      have h₁ := skipInLine_length_le c
      have h₂ := takeWhile_add_dropWhile_length isNameChar xs
      rw [h, List.length_cons] at h₁
      rw [hw] at ih
      simp only at ih ⊢
      omega
  | case3 c x xs h hx => exact skipInLine_length_le c

/-- Reads the name that the result gets, if the instruction starts with one. -/
def readResult (c : Cursor) : Except ReadError (Option String × Cursor) :=
  match c.take? '%' with
  | none => .ok (none, c)
  | some c₁ => do
    let (name, c₂) ← c₁.readName .valueName
    let c₃ ← c₂.expect '=' .valueEquals
    return (some name, c₃)

/-- Reads the operands of an instruction, of which there may be none. -/
def readArguments (c : Cursor) : Except ReadError (List DraftOperand × Cursor) :=
  if c.atLineEnd then .ok ([], c.skipInLine) else c.readOperands

/-- Reads one instruction, which has to end with its line. -/
def readInst (c : Cursor) : Except ReadError (DraftInst × Cursor) := do
  let line := c.skipLines.line
  let (name, c₁) ← c.skipLines.readResult
  let (word, c₂) ← c₁.readWord .operation
  let (words, c₃) := c₂.readWords
  let (operands, c₄) ← c₃.readArguments
  if c₄.atLineEnd then
    return (⟨line, name, " ".intercalate (word :: words), operands⟩, c₄.skipInLine)
  else c₄.skipInLine.fail .lineEnd

theorem readResult_length_le {c c' : Cursor} {name : Option String}
    (h : c.readResult = .ok (name, c')) : c'.rest.length ≤ c.rest.length := by
  unfold readResult at h
  split at h
  · cases h
    exact Nat.le_refl _
  · next c₁ h₁ =>
      obtain ⟨⟨n, c₂⟩, h₂, h⟩ := bind_eq_ok.1 h
      obtain ⟨c₃, h₃, hok⟩ := bind_eq_ok.1 h
      cases hok
      have := take?_lt h₁
      have := readName_lt h₂
      have := expect_lt h₃
      omega

theorem readArguments_length_le {c c' : Cursor} {os : List DraftOperand}
    (h : c.readArguments = .ok (os, c')) : c'.rest.length ≤ c.rest.length := by
  unfold readArguments at h
  split at h
  · cases h
    exact skipInLine_length_le c
  · exact Nat.le_of_lt (readOperands_lt h)

theorem readInst_lt {c c' : Cursor} {inst : DraftInst} (h : c.readInst = .ok (inst, c')) :
    c'.rest.length < c.rest.length := by
  unfold readInst at h
  obtain ⟨⟨name, c₁⟩, h₁, h⟩ := bind_eq_ok.1 h
  obtain ⟨⟨word, c₂⟩, h₂, h⟩ := bind_eq_ok.1 h
  obtain ⟨⟨os, c₄⟩, h₄, h⟩ := bind_eq_ok.1 h
  simp only at h₄ h
  have hle₁ := readResult_length_le h₁
  have hlt₂ := readWord_lt h₂
  have hle₃ := readWords_length_le c₂
  have hle₄ := readArguments_length_le h₄
  have hskip := skipLines_length_le c
  have hskip₄ := skipInLine_length_le c₄
  split at h
  · cases h
    omega
  · cases h

/-! ### Blocks -/

/-- Whether a name and then a colon come next, on this line. -/
def atLabel (c : Cursor) : Bool :=
  match c.rest.takeWhile isNameChar with
  | [] => false
  | _ => (skipInLine ⟨c.rest.dropWhile isNameChar, c.line⟩).rest.head? = some ':'

/-- Whether the instructions of a block are over: by the end of the text, a closing brace, or the
label of the next block. -/
def atBlockEnd (c : Cursor) : Bool :=
  match c.rest with
  | [] => true
  | x :: _ => x = '\x7d' || (x ≠ '%' && c.atLabel)

/-- Reads instructions up to the end of the block. -/
def readInsts (c : Cursor) : Except ReadError (List DraftInst × Cursor) :=
  if c.skipLines.atBlockEnd then .ok ([], c.skipLines)
  else
    match _h : c.readInst with
    | .error e => .error e
    | .ok (inst, c₁) =>
      match readInsts c₁ with
      | .error e => .error e
      | .ok (insts, c₂) => .ok (inst :: insts, c₂)
termination_by c.rest.length
decreasing_by exact readInst_lt _h

theorem readInsts_length_le {c c' : Cursor} {insts : List DraftInst}
    (h : c.readInsts = .ok (insts, c')) : c'.rest.length ≤ c.rest.length := by
  fun_induction readInsts c generalizing insts c' with
  | case1 c hend =>
      cases h
      exact skipLines_length_le c
  | case2 => cases h
  | case3 => cases h
  | case4 c hend inst c₁ h₁ insts₂ c₂ h₂ ih =>
      cases h
      exact Nat.le_of_lt (Nat.lt_of_le_of_lt (ih h₂) (readInst_lt h₁))

/-- Reads a label and the instructions below it. -/
def readBlock (c : Cursor) : Except ReadError (DraftBlock × Cursor) := do
  let (name, c₁) ← c.skipLines.readName .blockLabel
  let c₂ ← c₁.expect ':' .labelColon
  let (insts, c₃) ← c₂.readInsts
  return (⟨name, insts⟩, c₃)

theorem readBlock_lt {c c' : Cursor} {block : DraftBlock} (h : c.readBlock = .ok (block, c')) :
    c'.rest.length < c.rest.length := by
  unfold readBlock at h
  obtain ⟨⟨name, c₁⟩, h₁, h⟩ := bind_eq_ok.1 h
  obtain ⟨c₂, h₂, h⟩ := bind_eq_ok.1 h
  obtain ⟨⟨insts, c₃⟩, h₃, hok⟩ := bind_eq_ok.1 h
  cases hok
  have := skipLines_length_le c
  have := readName_lt h₁
  have := expect_lt h₂
  have := readInsts_length_le h₃
  omega

/-- Reads blocks up to the closing brace of the function, and the brace. -/
def readBlocks (c : Cursor) : Except ReadError (List DraftBlock × Cursor) :=
  match c.skipLines.take? '\x7d' with
  | some c₁ => .ok ([], c₁)
  | none =>
    if c.skipLines.rest = [] then c.skipLines.fail (.sign '\x7d')
    else
      match _h : c.readBlock with
      | .error e => .error e
      | .ok (block, c₁) =>
        match readBlocks c₁ with
        | .error e => .error e
        | .ok (blocks, c₂) => .ok (block :: blocks, c₂)
termination_by c.rest.length
decreasing_by exact readBlock_lt _h

theorem readBlocks_lt {c c' : Cursor} {blocks : List DraftBlock}
    (h : c.readBlocks = .ok (blocks, c')) : c'.rest.length < c.rest.length := by
  fun_induction readBlocks c generalizing blocks c' with
  | case1 c c₁ h₁ =>
      cases h
      exact Nat.lt_of_lt_of_le (take?_lt h₁) (skipLines_length_le c)
  | case2 => cases h
  | case3 => cases h
  | case4 => cases h
  | case5 c hbrace hne block c₁ h₁ blocks₂ c₂ h₂ ih =>
      cases h
      exact Nat.lt_trans (ih h₂) (readBlock_lt h₁)

/-! ### Functions -/

/-- Reads one function. -/
def readFunc (c : Cursor) : Except ReadError (DraftFunc × Cursor) := do
  let (name, c₁) ← c.readWord .functionName
  let c₂ ← c₁.expect '(' (.sign '(')
  let c₃ ← c₂.expect ')' (.sign ')')
  let c₄ ← c₃.expect '\x7b' (.sign '\x7b')
  let (blocks, c₅) ← c₄.readBlocks
  return (⟨name, blocks⟩, c₅)

theorem readFunc_lt {c c' : Cursor} {func : DraftFunc} (h : c.readFunc = .ok (func, c')) :
    c'.rest.length < c.rest.length := by
  unfold readFunc at h
  obtain ⟨⟨name, c₁⟩, h₁, h⟩ := bind_eq_ok.1 h
  obtain ⟨c₂, h₂, h⟩ := bind_eq_ok.1 h
  obtain ⟨c₃, h₃, h⟩ := bind_eq_ok.1 h
  obtain ⟨c₄, h₄, h⟩ := bind_eq_ok.1 h
  obtain ⟨⟨blocks, c₅⟩, h₅, hok⟩ := bind_eq_ok.1 h
  cases hok
  have := readWord_lt h₁
  have := expect_lt h₂
  have := expect_lt h₃
  have := expect_lt h₄
  have := readBlocks_lt h₅
  omega

end Cursor

end LoopSwap
