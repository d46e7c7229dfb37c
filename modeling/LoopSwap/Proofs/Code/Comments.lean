/-
**Comments are white space.**

A comment can start wherever white space may stand, and also where nothing else may: behind a sign,
between a name and its colon, at the end of the text.  In all these places it is skipped before the
next character is looked at, and it never swallows the line feed that ends it.  So taking all
comments out of a text changes neither what is read from it nor the error, and no line number.

The proof goes through the readers one by one.  Each of them does the same on what is left of the
text as on what is left of it without comments, and stops at corresponding places (`Cursor.plain`).
Where a reader looks at the next character without skipping first, the character is not the start of
a comment, since somebody has skipped before (`Cursor.Clear`).

Main definitions:

* `LoopSwap.Text.dropComments`, `LoopSwap.withoutComments` — a text without its comments;
* `LoopSwap.Cursor.plain` — the same place in the text without comments.

Main results:

* `LoopSwap.Cursor.skipFrom_dropComments` — skipping makes up for the comments;
* `LoopSwap.Cursor.readInst_plain`, `LoopSwap.Cursor.readFunc_plain` — the readers on a text without
  comments;
* `LoopSwap.Program.read_withoutComments` — a text reads as it does without comments.
-/

import LoopSwap.Proofs.Code.RoundTrip

set_option relaxedAutoImplicit false
set_option autoImplicit false

namespace LoopSwap

open Text

/-! ### Texts without comments -/

namespace Text

/-- The text without its comments, each of which goes from a semicolon up to the next line feed, or
to the end of the text. -/
def dropComments : List Char → List Char
  | [] => []
  | c :: cs =>
    if c = ';' then dropComments (cs.dropWhile (· ≠ '\n'))
    else c :: dropComments cs
termination_by cs => cs.length
decreasing_by
  · have := (List.dropWhile_suffix (l := cs) (· ≠ '\n')).length_le
    simp only [List.length_cons]
    omega
  · simp

variable {c : Char} {cs : List Char} {p : Char → Bool}

@[simp] theorem dropComments_nil : dropComments [] = [] := by
  rw [dropComments]

theorem dropComments_comment :
    dropComments (';' :: cs) = dropComments (cs.dropWhile (· ≠ '\n')) := by
  rw [dropComments, if_pos rfl]

theorem dropComments_cons (h : c ≠ ';') : dropComments (c :: cs) = c :: dropComments cs := by
  rw [dropComments, if_neg h]

/-- What has no semicolon in it stays. -/
theorem dropComments_append {u v : List Char} (h : ';' ∉ u) :
    dropComments (u ++ v) = u ++ dropComments v := by
  induction u with
  | nil => rfl
  | cons c u ih =>
      obtain ⟨hc, hu⟩ := not_or.1 (mt List.mem_cons.2 h)
      rw [List.cons_append, dropComments_cons (Ne.symm hc), ih hu, List.cons_append]

/-- A line feed ends a comment, if there is one. -/
theorem dropWhile_newline (cs : List Char) :
    cs.dropWhile (· ≠ '\n') = [] ∨ ∃ rest, cs.dropWhile (· ≠ '\n') = '\n' :: rest := by
  induction cs with
  | nil => exact Or.inl rfl
  | cons c cs ih =>
      by_cases hc : c = '\n'
      · refine Or.inr ⟨cs, ?_⟩
        rw [List.dropWhile_cons_of_neg (by simp [hc]), hc]
      · rwa [List.dropWhile_cons_of_pos (by simp [hc])]

/-- A comment is not taken for characters that are neither a semicolon nor a line feed. -/
theorem takeWhile_afterComment (hnewline : p '\n' = false) :
    (cs.dropWhile (· ≠ '\n')).takeWhile p = [] ∧
      (cs.dropWhile (· ≠ '\n')).dropWhile p = cs.dropWhile (· ≠ '\n') := by
  rcases dropWhile_newline cs with h | ⟨rest, h⟩
  · rw [h]
    exact ⟨rfl, rfl⟩
  · rw [h, List.takeWhile_cons_of_neg (by simp [hnewline]),
      List.dropWhile_cons_of_neg (by simp [hnewline])]
    exact ⟨rfl, rfl⟩

/-- The characters of a kind at the start of a text stand before all comments. -/
theorem takeWhile_dropComments (hcomment : p ';' = false) (hnewline : p '\n' = false) :
    (dropComments cs).takeWhile p = cs.takeWhile p := by
  fun_induction dropComments cs with
  | case1 => rfl
  | case2 cs ih =>
      rw [ih, (takeWhile_afterComment hnewline).1, List.takeWhile_cons_of_neg (by simp [hcomment])]
  | case3 c cs hc ih =>
      rw [List.takeWhile_cons, List.takeWhile_cons, ih]

theorem dropWhile_dropComments (hcomment : p ';' = false) (hnewline : p '\n' = false) :
    (dropComments cs).dropWhile p = dropComments (cs.dropWhile p) := by
  fun_induction dropComments cs with
  | case1 => simp
  | case2 cs ih =>
      rw [ih, (takeWhile_afterComment hnewline).2, List.dropWhile_cons_of_neg (by simp [hcomment]),
        dropComments_comment]
  | case3 c cs hc ih =>
      rw [List.dropWhile_cons, List.dropWhile_cons, ih]
      split
      · rfl
      · rw [dropComments_cons hc]

end Text

/-- The text without its comments. -/
def withoutComments (text : String) : String := String.ofList (dropComments text.toList)

example : withoutComments "f ; no; name\n;;\n(); end" = "f \n\n()" := by cbv

namespace Cursor

variable {α : Type} {c : Cursor} {e : Expected} {s : Char}

/-- The same place in the text without comments. -/
def plain (c : Cursor) : Cursor := ⟨dropComments c.rest, c.line⟩

@[simp] theorem rest_plain (c : Cursor) : c.plain.rest = dropComments c.rest := rfl

@[simp] theorem line_plain (c : Cursor) : c.plain.line = c.line := rfl

theorem plain_start (text : String) : start (withoutComments text) = (start text).plain := by
  rw [start, withoutComments, String.toList_ofList]
  rfl

/-- The outcome of a reader, with the place where it stops in the text without comments. -/
def plainly (r : Except ReadError (α × Cursor)) : Except ReadError (α × Cursor) :=
  r.map fun a => (a.1, a.2.plain)

/-! ### Skipping -/

/-- What is skipped in a comment is the rest of its line. -/
theorem skipFrom_comment (newlines : Bool) (line : Nat) (cs : List Char) :
    skipFrom newlines true line cs =
      skipFrom newlines false line (cs.dropWhile (· ≠ '\n')) := by
  induction cs with
  | nil => rfl
  | cons c cs ih =>
      by_cases hc : c = '\n'
      · rw [List.dropWhile_cons_of_neg (by simp [hc]), skipFrom, skipFrom, if_pos hc, if_pos hc]
      · rw [List.dropWhile_cons_of_pos (by simp [hc]), skipFrom, if_neg hc, if_pos (by simp), ih]

/-- Skipping makes up for the comments. -/
theorem skipFrom_dropComments (newlines : Bool) (line : Nat) (cs : List Char) :
    skipFrom newlines false line (dropComments cs) = (skipFrom newlines false line cs).plain := by
  fun_induction dropComments cs generalizing line with
  | case1 => simp [skipFrom, plain]
  | case2 cs ih =>
      rw [ih, ← skipFrom_comment]
      rfl
  | case3 c cs hc ih =>
      have hstop : (⟨c :: dropComments cs, line⟩ : Cursor) = plain ⟨c :: cs, line⟩ := by
        rw [plain, dropComments_cons hc]
      have hstart : ¬ (false || decide (c = ';')) = true := by simp [hc]
      rw [skipFrom, skipFrom]
      by_cases hnewline : c = '\n'
      · rw [if_pos hnewline, if_pos hnewline]
        split
        · exact ih _
        · exact hstop
      · rw [if_neg hnewline, if_neg hnewline, if_neg hstart, if_neg hstart]
        split
        · exact ih _
        · exact hstop

@[simp] theorem skipInLine_plain (c : Cursor) : c.plain.skipInLine = c.skipInLine.plain :=
  skipFrom_dropComments false c.line c.rest

@[simp] theorem skipLines_plain (c : Cursor) : c.plain.skipLines = c.skipLines.plain :=
  skipFrom_dropComments true c.line c.rest

/-- No comment starts here. -/
def Clear (c : Cursor) : Prop := c.rest.head? ≠ some ';'

theorem clear_skipFrom (newlines : Bool) (cs : List Char) : ∀ (comment : Bool) (line : Nat),
    (skipFrom newlines comment line cs).Clear := by
  induction cs with
  | nil => simp [skipFrom, Clear]
  | cons c cs ih =>
      intro comment line
      rw [skipFrom]
      split
      · next hc =>
          split
          · exact ih _ _
          · simp [Clear, hc]
      · split
        · exact ih _ _
        · next hc =>
            split
            · exact ih _ _
            · simp_all [Clear]

theorem clear_skipInLine (c : Cursor) : c.skipInLine.Clear := clear_skipFrom _ _ _ _

theorem clear_skipLines (c : Cursor) : c.skipLines.Clear := clear_skipFrom _ _ _ _

namespace Clear

/-- Where no comment starts, the text goes on with the same character without comments. -/
theorem cases (h : c.Clear) : c.rest = [] ∧ c.plain.rest = [] ∨
    ∃ x xs, x ≠ ';' ∧ c.rest = x :: xs ∧ c.plain.rest = x :: dropComments xs := by
  cases hrest : c.rest with
  | nil => simp [hrest]
  | cons x xs =>
      have hx : x ≠ ';' := by
        rintro rfl
        exact h (by rw [hrest]; rfl)
      refine Or.inr ⟨x, xs, hx, rfl, ?_⟩
      rw [rest_plain, hrest, dropComments_cons hx]

theorem head?_plain (h : c.Clear) : c.plain.rest.head? = c.rest.head? := by
  rcases h.cases with ⟨hrest, hplain⟩ | ⟨x, xs, -, hrest, hplain⟩ <;> rw [hrest, hplain]
  rfl

theorem plain_eq_nil_iff (h : c.Clear) : c.plain.rest = [] ↔ c.rest = [] := by
  rw [← List.head?_eq_none_iff, h.head?_plain, List.head?_eq_none_iff]

/-! ### Signs -/

/-- A reader that stops here finds the same. -/
theorem fail_plain (h : c.Clear) : (c.plain.fail e : Except ReadError α) = c.fail e := by
  have hfound : Found.ofNext c.plain.rest = Found.ofNext c.rest := by
    rcases h.cases with ⟨hrest, hplain⟩ | ⟨x, xs, -, hrest, hplain⟩ <;> rw [hrest, hplain]
    rfl
  rw [fail, fail, hfound, line_plain]

theorem take?_plain (h : c.Clear) : c.plain.take? s = (c.take? s).map plain := by
  unfold take?
  rcases h.cases with ⟨hrest, hplain⟩ | ⟨x, xs, -, hrest, hplain⟩
  · rw [hrest, hplain]
    rfl
  · rw [hrest, hplain]
    dsimp only
    split <;> rfl

end Clear

theorem expect_plain (c : Cursor) (s : Char) (e : Expected) :
    c.plain.expect s e = (c.expect s e).map plain := by
  have hclear := c.clear_skipLines
  unfold expect
  rw [skipLines_plain, hclear.take?_plain]
  cases c.skipLines.take? s with
  | some d => rfl
  | none => exact hclear.fail_plain

/-! ### Names, words and literals -/

theorem takeWhile_isNameChar_dropComments (cs : List Char) :
    (dropComments cs).takeWhile isNameChar = cs.takeWhile isNameChar :=
  takeWhile_dropComments (by decide) (by decide)

theorem dropWhile_isNameChar_dropComments (cs : List Char) :
    (dropComments cs).dropWhile isNameChar = dropComments (cs.dropWhile isNameChar) :=
  dropWhile_dropComments (by decide) (by decide)

theorem readName_plain (c : Cursor) (e : Expected) :
    c.plain.readName e = plainly (c.readName e) := by
  unfold readName
  rw [skipInLine_plain, rest_plain, takeWhile_isNameChar_dropComments,
    dropWhile_isNameChar_dropComments]
  split
  · exact c.clear_skipInLine.fail_plain
  · rfl

theorem readWord_plain (c : Cursor) (e : Expected) :
    c.plain.readWord e = plainly (c.readWord e) := by
  have hclear := c.clear_skipInLine
  unfold readWord
  rw [skipInLine_plain, hclear.head?_plain, hclear.fail_plain, readName_plain]
  split <;> rfl

/-- The characters of a literal stand before all comments. -/
theorem Clear.literalChars_plain (h : c.Clear) :
    literalChars c.plain.rest = literalChars c.rest := by
  have hdigits : ∀ cs : List Char,
      (dropComments cs).takeWhile Char.isDigit = cs.takeWhile Char.isDigit := fun cs =>
    takeWhile_dropComments (by decide) (by decide)
  rcases h.cases with ⟨hrest, hplain⟩ | ⟨x, xs, hx, hrest, hplain⟩
  · rw [hrest, hplain]
  · rw [hrest, hplain]
    by_cases hminus : x = '-'
    · rw [hminus]
      exact congrArg ('-' :: ·) (hdigits xs)
    · have hsign : ∀ ys, literalChars (x :: ys) = (x :: ys).takeWhile Char.isDigit := by
        intro ys
        unfold literalChars
        split
        · next heq => exact absurd (List.cons.inj heq).1 hminus
        · rfl
      rw [hsign, hsign, ← dropComments_cons hx, hdigits]

theorem literalChars_append_drop (cs : List Char) :
    literalChars cs ++ cs.drop (literalChars cs).length = cs := by
  rw [← List.prefix_iff_eq_append]
  unfold literalChars
  split
  · exact (List.prefix_cons_inj _).2 (List.takeWhile_prefix _)
  · exact List.takeWhile_prefix _

/-- A literal is made of digits and a minus sign. -/
theorem not_mem_literalChars {x : Char} (hdigit : x.isDigit = false) (hminus : x ≠ '-')
    (cs : List Char) : x ∉ literalChars cs := by
  have hdigits : ∀ cs : List Char, x ∉ cs.takeWhile Char.isDigit := by
    intro cs hmem
    have htrue := List.all_eq_true.1 List.all_takeWhile _ hmem
    rw [hdigit] at htrue
    cases htrue
  unfold literalChars
  split
  · simpa [hminus] using hdigits _
  · exact hdigits _

theorem Clear.readLiteral_plain (h : c.Clear) :
    c.plain.readLiteral = plainly c.readLiteral := by
  have hrest : c.plain.rest.drop (literalChars c.rest).length =
      dropComments (c.rest.drop (literalChars c.rest).length) := by
    have happend := dropComments_append (v := c.rest.drop (literalChars c.rest).length)
      (not_mem_literalChars (x := ';') (by decide) (by decide) c.rest)
    rw [literalChars_append_drop] at happend
    rw [rest_plain, happend, List.drop_left]
  unfold readLiteral
  simp only [h.literalChars_plain, hrest]
  split <;> rfl

/-! ### Operands -/

theorem readOperand_plain (c : Cursor) : c.plain.readOperand = plainly c.readOperand := by
  have hclear := c.clear_skipInLine
  have hname : ∀ (xs : List Char) (e : Expected) (g : String → DraftOperand),
      (do let r ← readName (plain ⟨xs, c.skipInLine.line⟩) e; return (g r.1, r.2) :
        Except ReadError (DraftOperand × Cursor)) =
      plainly (do let r ← readName ⟨xs, c.skipInLine.line⟩ e; return (g r.1, r.2)) := by
    intro xs e g
    rw [readName_plain]
    exact map_bind_eq fun _ _ => rfl
  unfold readOperand
  rw [skipInLine_plain, hclear.readLiteral_plain, hclear.fail_plain]
  rcases hclear.cases with ⟨hrest, hplain⟩ | ⟨x, xs, -, hrest, hplain⟩
  · rw [hrest, hplain]
    rfl
  · rw [hrest, hplain]
    by_cases hvalue : x = '%'
    · rw [hvalue]
      exact hname xs .valueName .value
    by_cases hblock : x = '^'
    · rw [hblock]
      exact hname xs .blockName .block
    by_cases hlocation : x = '@'
    · rw [hlocation]
      exact hname xs .locationName .location
    · simp only
      split
      · exact map_bind_eq fun _ _ => rfl
      · rfl

theorem readOperands_plain (c : Cursor) : c.plain.readOperands = plainly c.readOperands := by
  rw [readOperands_eq, readOperands_eq c, readOperand_plain]
  refine map_bind_eq fun a ha => ?_
  dsimp only
  rw [skipInLine_plain, a.2.clear_skipInLine.take?_plain]
  cases hcomma : a.2.skipInLine.take? ',' with
  | none => rfl
  | some d =>
      show (d.plain.readOperands >>= _) = _
      rw [readOperands_plain d]
      exact map_bind_eq fun _ _ => rfl
termination_by c.rest.length
decreasing_by
  have h₁ := readOperand_lt ha
  have h₂ := take?_lt hcomma
  have h₃ := skipInLine_length_le a.2
  omega

/-! ### Instructions -/

theorem atLineEnd_plain (c : Cursor) : c.plain.atLineEnd = c.atLineEnd := by
  unfold atLineEnd
  rw [skipInLine_plain]
  rcases c.clear_skipInLine.cases with ⟨hrest, hplain⟩ | ⟨x, xs, -, hrest, hplain⟩ <;>
    rw [hrest, hplain]

theorem readWords_plain (c : Cursor) :
    c.plain.readWords = (c.readWords.1, c.readWords.2.plain) := by
  rw [readWords_eq, readWords_eq c, skipInLine_plain]
  rcases c.clear_skipInLine.cases with ⟨hrest, hplain⟩ | ⟨x, xs, -, hrest, hplain⟩
  · rw [hrest, hplain]
  · rw [hrest, hplain]
    dsimp only
    split
    · have hwords := readWords_plain ⟨xs.dropWhile isNameChar, c.skipInLine.line⟩
      rw [takeWhile_isNameChar_dropComments, dropWhile_isNameChar_dropComments]
      rw [plain] at hwords
      rw [line_plain, hwords]
    · rfl
termination_by c.rest.length
decreasing_by
  have h₁ := skipInLine_length_le c
  have h₂ := takeWhile_add_dropWhile_length isNameChar xs
  rw [hrest, List.length_cons] at h₁
  omega

theorem Clear.readResult_plain (h : c.Clear) : c.plain.readResult = plainly c.readResult := by
  unfold readResult
  rw [h.take?_plain]
  cases c.take? '%' with
  | none => rfl
  | some d =>
      show (d.plain.readName .valueName >>= _) = _
      rw [readName_plain]
      refine map_bind_eq fun a _ => ?_
      show (a.2.plain.expect '=' .valueEquals >>= _) = _
      rw [expect_plain]
      exact map_bind_eq fun _ _ => rfl

theorem readArguments_plain (c : Cursor) : c.plain.readArguments = plainly c.readArguments := by
  unfold readArguments
  rw [atLineEnd_plain, skipInLine_plain, readOperands_plain]
  split <;> rfl

theorem readInst_plain (c : Cursor) : c.plain.readInst = plainly c.readInst := by
  unfold readInst
  rw [skipLines_plain, c.clear_skipLines.readResult_plain]
  refine map_bind_eq fun name _ => ?_
  show (name.2.plain.readWord .operation >>= _) = _
  rw [readWord_plain]
  refine map_bind_eq fun word _ => ?_
  show (word.2.plain.readWords.2.readArguments >>= _) = _
  rw [readWords_plain, readArguments_plain]
  refine map_bind_eq ?_
  rintro ⟨operands, d⟩ -
  dsimp only
  rw [atLineEnd_plain, skipInLine_plain, d.clear_skipInLine.fail_plain]
  split <;> rfl

/-! ### Blocks -/

theorem atLabel_plain (c : Cursor) : c.plain.atLabel = c.atLabel := by
  have hcolon : (skipInLine ⟨dropComments (c.rest.dropWhile isNameChar), c.line⟩).rest.head? =
      (skipInLine ⟨c.rest.dropWhile isNameChar, c.line⟩).rest.head? := by
    have hclear := clear_skipInLine ⟨c.rest.dropWhile isNameChar, c.line⟩
    rw [← hclear.head?_plain, ← skipInLine_plain]
    rfl
  unfold atLabel
  rw [rest_plain, takeWhile_isNameChar_dropComments, dropWhile_isNameChar_dropComments,
    line_plain, hcolon]

theorem Clear.atBlockEnd_plain (h : c.Clear) : c.plain.atBlockEnd = c.atBlockEnd := by
  unfold atBlockEnd
  rw [atLabel_plain]
  rcases h.cases with ⟨hrest, hplain⟩ | ⟨x, xs, -, hrest, hplain⟩ <;> rw [hrest, hplain]

theorem readInsts_plain (c : Cursor) : c.plain.readInsts = plainly c.readInsts := by
  rw [readInsts_eq, readInsts_eq c, skipLines_plain, c.clear_skipLines.atBlockEnd_plain,
    readInst_plain]
  split
  · rfl
  · refine map_bind_eq fun inst hinst => ?_
    show (inst.2.plain.readInsts >>= _) = _
    rw [readInsts_plain inst.2]
    exact map_bind_eq fun _ _ => rfl
termination_by c.rest.length
decreasing_by exact readInst_lt hinst

theorem readBlock_plain (c : Cursor) : c.plain.readBlock = plainly c.readBlock := by
  unfold readBlock
  rw [skipLines_plain, readName_plain]
  refine map_bind_eq fun name _ => ?_
  show (name.2.plain.expect ':' .labelColon >>= _) = _
  rw [expect_plain]
  refine map_bind_eq fun d _ => ?_
  rw [readInsts_plain]
  exact map_bind_eq fun _ _ => rfl

theorem readBlocks_plain (c : Cursor) : c.plain.readBlocks = plainly c.readBlocks := by
  have hclear := c.clear_skipLines
  rw [readBlocks_eq, readBlocks_eq c, skipLines_plain, hclear.take?_plain, hclear.fail_plain,
    readBlock_plain]
  cases c.skipLines.take? '\x7d' with
  | some d => rfl
  | none =>
      dsimp only [Option.map_none]
      by_cases hend : c.skipLines.rest = []
      · rw [if_pos hend, if_pos (hclear.plain_eq_nil_iff.2 hend)]
        rfl
      · rw [if_neg hend, if_neg (mt hclear.plain_eq_nil_iff.1 hend)]
        refine map_bind_eq fun block hblock => ?_
        show (block.2.plain.readBlocks >>= _) = _
        rw [readBlocks_plain block.2]
        exact map_bind_eq fun _ _ => rfl
termination_by c.rest.length
decreasing_by exact readBlock_lt hblock

/-! ### Functions -/

theorem readFunc_plain (c : Cursor) : c.plain.readFunc = plainly c.readFunc := by
  unfold readFunc
  rw [readWord_plain]
  refine map_bind_eq fun name _ => ?_
  show (name.2.plain.expect '(' (.sign '(') >>= _) = _
  rw [expect_plain]
  refine map_bind_eq fun d₁ _ => ?_
  rw [expect_plain]
  refine map_bind_eq fun d₂ _ => ?_
  rw [expect_plain]
  refine map_bind_eq fun d₃ _ => ?_
  rw [readBlocks_plain]
  exact map_bind_eq fun _ _ => rfl

end Cursor

/-- The functions of a text are those of the text without comments, and so is the first error. -/
theorem readFuncs_plain (seen : List String) (c : Cursor) :
    readFuncs seen c.plain = readFuncs seen c := by
  have hclear := c.clear_skipLines
  rw [readFuncs_eq, readFuncs_eq seen c, Cursor.skipLines_plain, Cursor.readFunc_plain]
  by_cases hend : c.skipLines.rest = []
  · rw [if_pos hend, if_pos (hclear.plain_eq_nil_iff.2 hend)]
  · rw [if_neg hend, if_neg (mt hclear.plain_eq_nil_iff.1 hend)]
    cases hfunc : c.skipLines.readFunc with
    | error e => rfl
    | ok r =>
        show (r.1.resolve >>= _) = (r.1.resolve >>= _)
        congr 1
        funext f
        show (if f.name ∈ seen then _ else readFuncs (f.name :: seen) r.2.plain >>= _) = _
        rw [readFuncs_plain (f.name :: seen) r.2]
        rfl
termination_by c.rest.length
decreasing_by
  have h₁ := Cursor.readFunc_lt hfunc
  have h₂ := Cursor.skipLines_length_le c
  omega

/-- **Comments are white space.**  A text and the text without its comments are read as the same
program, or are refused with the same error. -/
theorem Program.read_withoutComments (text : String) :
    Program.read (withoutComments text) = Program.read text := by
  rw [Program.read, Program.read, Cursor.plain_start, readFuncs_plain]

end LoopSwap
