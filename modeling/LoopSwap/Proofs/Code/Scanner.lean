/-
**Reading a text by its bytes.**

Programs are read here as by a reader that keeps a number of bytes and a line number, looks at one
character at a time, and repeats what it has to repeat without knowing that it will end: white space
and comments, the characters of names and numbers, the words of an opcode, operands, instructions,
blocks and functions.  To see whether a block is over it reads a name ahead and goes back.  Reader
by reader it follows the readers of cursors; here this is shown for white space, signs, names,
literals and operands.

Main definitions:

* `LoopSwap.Scan.skipSpace`, `LoopSwap.Scan.readName`, `LoopSwap.Scan.readWord`,
  `LoopSwap.Scan.readLiteral` — white space and tokens;
* `LoopSwap.Scan.wordTurn`, `LoopSwap.Scan.operandTurn`, `LoopSwap.Scan.instTurn`,
  `LoopSwap.Scan.blockTurn`, `LoopSwap.Scan.funcTurn` — one turn of each of the loops;
* `LoopSwap.Scan.atBlockEnd` — looking ahead for a label;
* `LoopSwap.Scan.readProgram` — reading a whole text.

Main results:

* `LoopSwap.Scan.follows_skipSpace`, `LoopSwap.Scan.follows_readName`,
  `LoopSwap.Scan.follows_readLiteral`, `LoopSwap.Scan.follows_readOperand` — what the scans of
  tokens follow.
-/

import LoopSwap.Code.Program
import LoopSwap.Proofs.Code.Comments
import LoopSwap.Proofs.Code.Spot

set_option relaxedAutoImplicit false
set_option autoImplicit false

namespace LoopSwap

open Text

namespace Scan

/-! ### White space and signs -/

section Readers

variable {α : Type} (text : String)

/-- A step over the next character if it is of a kind. -/
def skipTurn (p : Char → Bool) (_ : Unit) : Scan (Unit ⊕ Unit) := do
  match ← current text with
  | some x =>
    if p x then
      advance text
      return .inl ()
    else return .inr ()
  | none => return .inr ()

/-- Skips characters of a kind. -/
def skipWhile (p : Char → Bool) : Scan Unit := loop (skipTurn text p) ()

/-- A step over a comment or over one character of white space. -/
def spaceTurn (newlines : Bool) (_ : Unit) : Scan (Unit ⊕ Unit) := do
  match ← current text with
  | some x =>
    if x = ';' then
      skipWhile text (· ≠ '\n')
      return .inl ()
    else if isBlank x then
      if x = '\n' && !newlines then return .inr ()
      else
        advance text
        return .inl ()
    else return .inr ()
  | none => return .inr ()

/-- Skips white space and comments, over line feeds only if `newlines` says so. -/
def skipSpace (newlines : Bool) : Scan Unit := loop (spaceTurn text newlines) ()

/-- Reports what is here instead of what is expected. -/
def unexpected (expected : Expected) : Scan α := do
  let next ← current text
  let p ← here
  match next with
  | some x => report (.unexpected p.line expected (if x = '\n' then .endOfLine else .char x))
  | none => report (.unexpected p.line expected .endOfInput)

/-- Steps over the sign `s` if it comes next. -/
def tryRead (s : Char) (newlines : Bool) : Scan Bool := do
  skipSpace text newlines
  if (← current text) = some s then
    advance text
    return true
  else return false

/-- Steps over the sign `s`, which has to come next. -/
def expect (s : Char) (expected : Expected) : Scan Unit := do
  if ← tryRead text s true then return () else unexpected text expected

/-! ### Tokens -/

/-- Reads a name. -/
def readName (expected : Expected) : Scan String := do
  skipSpace text false
  let start ← here
  skipWhile text isNameChar
  let stop ← here
  if start.pos = stop.pos then unexpected text expected
  else return String.ofList (← slice text start.pos stop.pos)

/-- Reads a name that starts with a letter. -/
def readWord (expected : Expected) : Scan String := do
  skipSpace text false
  if (← current text).any isLetter then readName text expected else unexpected text expected

/-- Skips a minus sign, if there is one, and digits. -/
def skipLiteral : Scan Unit := do
  let next ← current text
  (if next = some '-' then advance text else return ())
  skipWhile text Char.isDigit

/-- Reads a literal. -/
def readLiteral : Scan Int64 := do
  skipSpace text false
  let start ← here
  skipLiteral text
  let stop ← here
  let chars ← slice text start.pos stop.pos
  match literal? chars with
  | some value => return value
  | none => report (.unexpected stop.line .literal (.word (String.ofList chars)))

/-! ### Instructions -/

/-- Whether the line is over. -/
def atLineEnd : Scan Bool := do
  skipSpace text false
  match ← current text with
  | none => return true
  | some x => return x = '\n' || x = '\x7d'

/-- Reads one operand. -/
def readOperand : Scan DraftOperand := do
  skipSpace text false
  match ← current text with
  | some '%' =>
    advance text
    return .value (← readName text .valueName)
  | some '^' =>
    advance text
    return .block (← readName text .blockName)
  | some '@' =>
    advance text
    return .location (← readName text .locationName)
  | some x =>
    if x = '-' || x.isDigit then return .const (← readLiteral text) else unexpected text .operand
  | none => unexpected text .operand

/-- Reads one more word of an opcode, if there is one. -/
def wordTurn (opcode : String) : Scan (String ⊕ String) := do
  skipSpace text false
  if (← current text).any isLetter then
    let word ← readWord text .operation
    return .inl (opcode ++ " " ++ word)
  else return .inr opcode

/-- Reads one more operand, and the comma behind it if more of them follow. -/
def operandTurn (operands : List DraftOperand) :
    Scan (List DraftOperand ⊕ List DraftOperand) := do
  let o ← readOperand text
  if ← tryRead text ',' false then return .inl (operands ++ [o]) else return .inr (operands ++ [o])

/-- Reads the name that the result of an instruction gets, if there is one. -/
def readResult : Scan (Option String) := do
  if ← tryRead text '%' true then
    let name ← readName text .valueName
    expect text '=' .valueEquals
    return some name
  else return none

/-- Reads the operands of an instruction, of which there may be none. -/
def readArguments : Scan (List DraftOperand) := do
  if ← atLineEnd text then return [] else loop (operandTurn text) []

/-- Reads one instruction. -/
def readInst : Scan DraftInst := do
  skipSpace text true
  let start ← here
  let name ← readResult text
  let word ← readWord text .operation
  let opcode ← loop (wordTurn text) word
  let operands ← readArguments text
  if ← atLineEnd text then return ⟨start.line, name, opcode, operands⟩
  else unexpected text .lineEnd

/-! ### Blocks and functions -/

/-- Whether the instructions of a block are over.  A label is a name with a colon behind it, so the
scan has to look ahead for one. -/
def atBlockEnd : Scan Bool := do
  skipSpace text true
  match ← current text with
  | none => return true
  | some x =>
    if x = '\x7d' then return true
    else if x = '%' then return false
    else
      let found ← lookahead text do
        let _ ← readName text .blockLabel
        skipSpace text false
        current text
      return found = some (some ':')

/-- Reads one more instruction of a block, if the block is not over. -/
def instTurn (insts : List DraftInst) : Scan (List DraftInst ⊕ List DraftInst) := do
  if ← atBlockEnd text then return .inr insts
  else return .inl (insts ++ [← readInst text])

/-- Reads a label and the instructions below it. -/
def readBlock : Scan DraftBlock := do
  skipSpace text true
  let name ← readName text .blockLabel
  expect text ':' .labelColon
  let insts ← loop (instTurn text) []
  return ⟨name, insts⟩

/-- Reads one more block of a function, or the brace that closes it. -/
def blockTurn (blocks : List DraftBlock) : Scan (List DraftBlock ⊕ List DraftBlock) := do
  if ← tryRead text '\x7d' true then return .inr blocks
  else if ← atEnd text then unexpected text (.sign '\x7d')
  else return .inl (blocks ++ [← readBlock text])

/-- Reads one function and looks up its names. -/
def readFunc : Scan Func := do
  let name ← readWord text .functionName
  expect text '(' (.sign '(')
  expect text ')' (.sign ')')
  expect text '\x7b' (.sign '\x7b')
  let blocks ← loop (blockTurn text) []
  ofExcept (DraftFunc.resolve ⟨name, blocks⟩)

/-- Reads one more function, if the text is not over. -/
def funcTurn (functions : List Func) : Scan (List Func ⊕ List Func) := do
  if ← atEnd text then return .inr functions
  else
    let f ← readFunc text
    if ((Program.mk functions).find? f.name).isSome then
      report (.duplicate (← here).line .function f.name)
    else
      skipSpace text true
      return .inl (functions ++ [f])

/-- Reads a program. -/
def readProgram : Scan Program := do
  skipSpace text true
  return ⟨← loop (funcTurn text) []⟩

end Readers

end Scan

/-! ### Skipping turn by turn -/

namespace Cursor

/-- A step over the next character if it is of a kind in which there is no line feed. -/
def skipTurn (p : Char → Bool) (c : Cursor) : Except ReadError ((Unit ⊕ Unit) × Cursor) :=
  match c.rest with
  | [] => .ok (.inr (), c)
  | x :: xs => if p x then .ok (.inl (), ⟨xs, c.line⟩) else .ok (.inr (), c)

/-- A step over a comment or over one character of white space. -/
def spaceTurn (newlines : Bool) (c : Cursor) : Except ReadError ((Unit ⊕ Unit) × Cursor) :=
  match c.rest with
  | [] => .ok (.inr (), c)
  | x :: xs =>
    if x = ';' then .ok (.inl (), ⟨xs.dropWhile (· ≠ '\n'), c.line⟩)
    else if isBlank x then
      if x = '\n' && !newlines then .ok (.inr (), c)
      else .ok (.inl (), ⟨xs, if x = '\n' then c.line + 1 else c.line⟩)
    else .ok (.inr (), c)

variable {c d : Cursor}

theorem skipTurn_lt {p : Char → Bool} (h : c.skipTurn p = .ok (.inl (), d)) :
    d.rest.length < c.rest.length := by
  unfold skipTurn at h
  split at h
  · cases h
  · next hrest =>
      split at h
      · cases h
        simp [hrest]
      · cases h

theorem spaceTurn_lt {newlines : Bool} (h : c.spaceTurn newlines = .ok (.inl (), d)) :
    d.rest.length < c.rest.length := by
  unfold spaceTurn at h
  split at h
  · cases h
  · next x xs hrest =>
      have hlen : (xs.dropWhile (· ≠ '\n')).length ≤ xs.length :=
        (List.dropWhile_suffix _).length_le
      rw [hrest, List.length_cons]
      split at h
      · cases h
        exact Nat.lt_succ_of_le hlen
      · split at h
        · split at h
          · cases h
          · cases h
            exact Nat.lt_succ_self _
        · cases h

end Cursor

namespace Scan

/-! ### Following the readers of tokens -/

section Tokens

variable {α β : Type} (text : String) {c d : Cursor} {p : Char → Bool} {s : Char}

theorem follows_skipTurn (hp : p '\n' = false) (c : Cursor) :
    Follows text (skipTurn text p ()) c (c.skipTurn p) := by
  refine (Follows.current c).bind_ok ?_
  rw [Cursor.skipTurn]
  cases hrest : c.rest with
  | nil => exact .pure _ c
  | cons x xs =>
      refine Follows.ite (fun hx => ?_) fun _ => .pure _ c
      have hline : x ≠ '\n' := by
        rintro rfl
        rw [hp] at hx
        cases hx
      have hnext : Follows text (advance text) c _ := Follows.advance hrest
      rw [if_neg hline] at hnext
      exact hnext.bind_ok (.pure _ _)

theorem follows_skipWhile (hp : p '\n' = false) (c : Cursor) :
    Follows text (skipWhile text p) c (.ok ((), ⟨c.rest.dropWhile p, c.line⟩)) := by
  refine Follows.loop (T := fun _ c => c.skipTurn p)
    (R := fun _ c => .ok ((), ⟨c.rest.dropWhile p, c.line⟩))
    (fun _ => follows_skipTurn text hp) (fun _ _ _ _ => Cursor.skipTurn_lt) ?_ () c
  rintro ⟨⟩ ⟨rest, line⟩
  cases rest with
  | nil => rfl
  | cons x xs =>
      rw [List.dropWhile_cons, Cursor.skipTurn]
      dsimp only
      split <;> rfl

theorem follows_spaceTurn (newlines : Bool) (c : Cursor) :
    Follows text (spaceTurn text newlines ()) c (c.spaceTurn newlines) := by
  refine (Follows.current c).bind_ok ?_
  rw [Cursor.spaceTurn]
  cases hrest : c.rest with
  | nil => exact .pure _ c
  | cons x xs =>
      rw [List.head?_cons]
      dsimp only
      split
      · next hx =>
          have hskip := follows_skipWhile text (p := (· ≠ '\n')) (by decide) c
          rw [hrest, List.dropWhile_cons_of_pos (by simp [hx])] at hskip
          exact hskip.bind_ok (.pure _ _)
      · split
        · split
          · exact .pure _ c
          · exact (Follows.advance hrest).bind_ok (.pure _ _)
        · exact .pure _ c

theorem follows_skipSpace (newlines : Bool) (c : Cursor) :
    Follows text (skipSpace text newlines) c
      (.ok ((), Cursor.skipFrom newlines false c.line c.rest)) := by
  refine Follows.loop (T := fun _ c => c.spaceTurn newlines)
    (R := fun _ c => .ok ((), Cursor.skipFrom newlines false c.line c.rest))
    (fun _ => follows_spaceTurn text newlines) (fun _ _ _ _ => Cursor.spaceTurn_lt) ?_ () c
  rintro ⟨⟩ ⟨rest, line⟩
  cases rest with
  | nil => rfl
  | cons x xs =>
      rw [Cursor.spaceTurn]
      dsimp only
      rw [Cursor.skipFrom]
      by_cases hline : x = '\n'
      · subst hline
        cases newlines <;> rfl
      · rw [if_neg hline, if_neg hline]
        by_cases hcomment : x = ';'
        · rw [if_pos hcomment, if_pos (by simp [hcomment]), Cursor.skipFrom_comment]
          rfl
        · rw [if_neg hcomment, if_neg (by simp [hcomment])]
          split
          · rw [if_neg (by simp [hline])]
            rfl
          · rfl

theorem follows_skipInLine (c : Cursor) :
    Follows text (skipSpace text false) c (.ok ((), c.skipInLine)) := follows_skipSpace text false c

theorem follows_skipLines (c : Cursor) :
    Follows text (skipSpace text true) c (.ok ((), c.skipLines)) := follows_skipSpace text true c

theorem follows_unexpected (e : Expected) (c : Cursor) :
    Follows text (unexpected text e : Scan α) c (c.fail e) := by
  refine (Follows.current c).bind_ok ((Follows.here c).bind_ok ?_)
  rw [Cursor.fail]
  cases c.rest <;> exact .report _ c

/-- A sign, or nothing if it does not come next. -/
theorem follows_tryRead (hs : s ≠ '\n') (newlines : Bool) (c : Cursor) :
    Follows text (tryRead text s newlines) c
      (match (Cursor.skipFrom newlines false c.line c.rest).take? s with
      | some d => .ok (true, d)
      | none => .ok (false, Cursor.skipFrom newlines false c.line c.rest)) := by
  refine (follows_skipSpace text newlines c).bind_ok ?_
  generalize Cursor.skipFrom newlines false c.line c.rest = d
  refine (Follows.current d).bind_ok ?_
  rw [Cursor.take?]
  cases hrest : d.rest with
  | nil => exact .pure _ d
  | cons x xs =>
      simp only [List.head?_cons, Option.some.injEq]
      split
      · next hx =>
          have hstep : Follows text (advance text) d _ := Follows.advance hrest
          rw [if_neg (hx ▸ hs)] at hstep
          exact hstep.bind_ok (.pure _ _)
      · exact .pure _ d

theorem follows_tryRead_inLine (hs : s ≠ '\n') (c : Cursor) : Follows text (tryRead text s false) c
    (match c.skipInLine.take? s with
    | some d => .ok (true, d)
    | none => .ok (false, c.skipInLine)) := follows_tryRead text hs false c

theorem follows_tryRead_lines (hs : s ≠ '\n') (c : Cursor) : Follows text (tryRead text s true) c
    (match c.skipLines.take? s with
    | some d => .ok (true, d)
    | none => .ok (false, c.skipLines)) := follows_tryRead text hs true c

/-- A sign that has to come next. -/
theorem follows_expect (hs : s ≠ '\n') (e : Expected) (c : Cursor) :
    Follows text (expect text s e) c ((c.expect s e).map fun d => ((), d)) := by
  have hsign := follows_tryRead_lines text hs c
  rw [Cursor.expect]
  cases htake : c.skipLines.take? s with
  | none =>
      rw [htake] at hsign
      exact hsign.bind_ok (follows_unexpected text e c.skipLines)
  | some d =>
      rw [htake] at hsign
      exact hsign.bind_ok (.pure () d)

/-- What is done behind a sign that has to come next. -/
theorem follows_expect_bind {f : Unit → Scan β} {g : Cursor → Except ReadError (β × Cursor)}
    (hs : s ≠ '\n') (e : Expected) (c : Cursor)
    (hf : ∀ d, c.expect s e = .ok d → Follows text (f ()) d (g d)) :
    Follows text (expect text s e >>= f) c (c.expect s e >>= g) := by
  have hsign := follows_expect text hs e c
  have hseq : ((c.expect s e).map fun d => ((), d)) >>= (fun p => g p.2) = c.expect s e >>= g := by
    cases c.expect s e <;> rfl
  rw [← hseq]
  refine hsign.bind ?_
  rintro ⟨⟩ d hd
  cases hexpect : c.expect s e with
  | error e' => rw [hexpect] at hd; cases hd
  | ok d' =>
      rw [hexpect] at hd
      cases hd
      exact hf d hexpect

theorem follows_readName (e : Expected) (c : Cursor) :
    Follows text (readName text e) c (c.readName e) := by
  refine .assuming fun hc => (follows_skipInLine text c).bind_ok ((Follows.here _).bind_ok ?_)
  refine (follows_skipWhile text (by decide) _).bind_ok ((Follows.here _).bind_ok ?_)
  have hskip : c.skipInLine.rest <:+ text.toList :=
    ((follows_skipInLine text c).suffix_of_ok hc).trans hc
  have hfront : c.skipInLine.rest = c.skipInLine.rest.takeWhile isNameChar ++
      c.skipInLine.rest.dropWhile isNameChar := List.takeWhile_append_dropWhile.symm
  have hpos :
      (Cursor.spot text ⟨c.skipInLine.rest.dropWhile isNameChar, c.skipInLine.line⟩).pos = _ :=
    Cursor.pos_spot_of_append hskip hfront
  rw [Cursor.readName]
  cases hword : c.skipInLine.rest.takeWhile isNameChar with
  | nil =>
      rw [hword] at hfront
      have hsame : (⟨c.skipInLine.rest.dropWhile isNameChar, c.skipInLine.line⟩ : Cursor) =
          c.skipInLine := congrArg (Cursor.mk · c.skipInLine.line) hfront.symm
      rw [hsame, if_pos rfl]
      exact follows_unexpected text e c.skipInLine
  | cons x xs =>
      have hlen : String.utf8Len (c.skipInLine.rest.takeWhile isNameChar) ≠ 0 := by
        rw [hword, Ne, String.utf8Len_eq_zero]
        exact List.cons_ne_nil x xs
      rw [if_neg (by omega)]
      rw [hword] at hfront
      exact (Follows.slice hskip hfront).bind_ok (.pure _ _)

theorem follows_readWord (e : Expected) (c : Cursor) :
    Follows text (readWord text e) c (c.readWord e) := by
  refine (follows_skipInLine text c).bind_ok ((Follows.current _).bind_ok ?_)
  rw [Cursor.readWord]
  split
  · have hname := follows_readName text e c.skipInLine
    rwa [Cursor.readName, Cursor.skipInLine_skipInLine, ← Cursor.readName] at hname
  · exact follows_unexpected text e c.skipInLine

/-- What is left behind the characters of a literal. -/
theorem drop_literalChars (cs : List Char) : cs.drop (Cursor.literalChars cs).length =
    (if cs.head? = some '-' then cs.tail else cs).dropWhile Char.isDigit := by
  have hdrop := Cursor.literalChars_append_drop cs
  refine List.append_cancel_left (hdrop.trans ?_)
  unfold Cursor.literalChars
  split
  · exact (congrArg ('-' :: ·) List.takeWhile_append_dropWhile).symm
  · next hminus =>
      rw [if_neg]
      · exact List.takeWhile_append_dropWhile.symm
      · intro hhead
        obtain ⟨xs, rfl⟩ := List.head?_eq_some_iff.1 hhead
        exact hminus xs rfl

theorem follows_skipLiteral (c : Cursor) : Follows text (skipLiteral text) c
    (.ok ((), ⟨c.rest.drop (Cursor.literalChars c.rest).length, c.line⟩)) := by
  rw [drop_literalChars]
  refine (Follows.current c).bind_ok ?_
  split
  · next hminus =>
      obtain ⟨xs, hrest⟩ := List.head?_eq_some_iff.1 hminus
      rw [hrest]
      exact (Follows.advance hrest).bind_ok (follows_skipWhile text (by decide) _)
  · exact (Follows.pure () c).bind_ok (follows_skipWhile text (by decide) c)

theorem follows_readLiteral (c : Cursor) :
    Follows text (readLiteral text) c c.skipInLine.readLiteral := by
  refine .assuming fun hc => (follows_skipInLine text c).bind_ok ((Follows.here _).bind_ok ?_)
  refine (follows_skipLiteral text _).bind_ok ((Follows.here _).bind_ok ?_)
  have hskip : c.skipInLine.rest <:+ text.toList :=
    ((follows_skipInLine text c).suffix_of_ok hc).trans hc
  refine (Follows.slice hskip (Cursor.literalChars_append_drop _).symm).bind_ok ?_
  rw [Cursor.readLiteral]
  cases literal? (Cursor.literalChars c.skipInLine.rest) with
  | some value => exact .pure value _
  | none => exact .report _ _

/-! ### Following the readers of instructions -/

theorem follows_atLineEnd (c : Cursor) :
    Follows text (atLineEnd text) c (.ok (c.atLineEnd, c.skipInLine)) := by
  refine (follows_skipInLine text c).bind_ok ((Follows.current _).bind_ok ?_)
  rw [Cursor.atLineEnd]
  cases c.skipInLine.rest <;> exact .pure _ _

/-- A name behind a sign. -/
theorem follows_signed {g : String → DraftOperand} {x : Char} {xs : List Char}
    (hrest : c.rest = x :: xs) (hx : x ≠ '\n') (e : Expected) :
    Follows text (do advance text; return g (← readName text e)) c (do
      let (name, d) ← Cursor.readName ⟨xs, c.line⟩ e
      return (g name, d)) := by
  have hstep : Follows text (advance text) c _ := Follows.advance hrest
  rw [if_neg hx] at hstep
  exact hstep.bind_ok ((follows_readName text e _).bind fun name d _ => .pure (g name) d)

/-- An operand that does not start with one of the signs is a literal. -/
theorem readOperand_of_ne {x : Char} {xs : List Char} (hrest : c.skipInLine.rest = x :: xs)
    (hvalue : x ≠ '%') (hblock : x ≠ '^') (hlocation : x ≠ '@') :
    c.readOperand =
      if x = '-' || x.isDigit then (do
        let (value, d) ← c.skipInLine.readLiteral
        return (.const value, d))
      else c.skipInLine.fail .operand := by
  rw [Cursor.readOperand]
  split
  · next heq => exact absurd (List.cons.inj (hrest.symm.trans heq)).1 hvalue
  · next heq => exact absurd (List.cons.inj (hrest.symm.trans heq)).1 hblock
  · next heq => exact absurd (List.cons.inj (hrest.symm.trans heq)).1 hlocation
  · next heq =>
      cases hrest.symm.trans heq
      rfl
  · next heq => cases hrest.symm.trans heq

theorem follows_readOperand (c : Cursor) : Follows text (readOperand text) c c.readOperand := by
  refine (follows_skipInLine text c).bind_ok ((Follows.current _).bind_ok ?_)
  split
  · next hhead =>
      obtain ⟨xs, hrest⟩ := List.head?_eq_some_iff.1 hhead
      rw [Cursor.readOperand, hrest]
      exact follows_signed text hrest (by decide) _
  · next hhead =>
      obtain ⟨xs, hrest⟩ := List.head?_eq_some_iff.1 hhead
      rw [Cursor.readOperand, hrest]
      exact follows_signed text hrest (by decide) _
  · next hhead =>
      obtain ⟨xs, hrest⟩ := List.head?_eq_some_iff.1 hhead
      rw [Cursor.readOperand, hrest]
      exact follows_signed text hrest (by decide) _
  · next x hvalue hblock hlocation hhead =>
      obtain ⟨xs, hrest⟩ := List.head?_eq_some_iff.1 hhead
      rw [readOperand_of_ne hrest hvalue hblock hlocation]
      refine Follows.ite (fun _ => ?_) fun _ => follows_unexpected text _ _
      have hliteral := follows_readLiteral text c.skipInLine
      rw [Cursor.skipInLine_skipInLine] at hliteral
      exact hliteral.bind fun value d _ => .pure (DraftOperand.const value) d
  · next hhead =>
      rw [Cursor.readOperand, List.head?_eq_none_iff.1 hhead]
      exact follows_unexpected text _ _

end Tokens

end Scan

end LoopSwap
