/-
**Reading characters.**

A cursor is what is left of a text and the number of the line it is on.  A comment runs from a
semicolon to the end of its line and counts as white space.  Only a line feed ends a line; the
readers of words and literals stop before it.

Main definitions:

* `LoopSwap.Cursor` — a place in a text;
* `LoopSwap.Cursor.skipInLine`, `LoopSwap.Cursor.skipLines` — past white space and comments;
* `LoopSwap.Cursor.take?`, `LoopSwap.Cursor.expect` — over one sign;
* `LoopSwap.Cursor.readName`, `LoopSwap.Cursor.readWord`, `LoopSwap.Cursor.readLiteral` — the
  tokens.

Main results:

* `LoopSwap.Cursor.readName_lt`, `LoopSwap.Cursor.readLiteral_lt` — a token takes at least one
  character.
-/

import LoopSwap.Code.ReadError
import LoopSwap.Text.Blank
import LoopSwap.Text.Decimal
import LoopSwap.Text.Letter
import LoopSwap.Text.Numeral

set_option relaxedAutoImplicit false
set_option autoImplicit false

namespace LoopSwap

open Text

/-- The characters of names: letters, numerals, the underscore and the point. -/
def isNameChar (c : Char) : Bool := isLetter c || isNumeral c || c = '_' || c = '.'

/-- A letter may stand in a name. -/
theorem isNameChar_of_isLetter {c : Char} (h : isLetter c = true) : isNameChar c = true := by
  simp [isNameChar, h]

/-- A place in a text: what is left of it, and the number of the line, counted from 1. -/
structure Cursor where
  rest : List Char
  line : Nat

namespace Cursor

/-- The start of a text. -/
def start (text : String) : Cursor := ⟨text.toList, 1⟩

/-! ### White space -/

/-- Skips white space and comments, over line feeds only if `newlines` says so; `comment` says
whether the text begins inside a comment. -/
def skipFrom (newlines comment : Bool) (line : Nat) : List Char → Cursor
  | [] => ⟨[], line⟩
  | c :: cs =>
      if c = '\n' then
        if newlines then skipFrom newlines false (line + 1) cs else ⟨c :: cs, line⟩
      else if comment || c = ';' then skipFrom newlines true line cs
      else if isBlank c then skipFrom newlines false line cs
      else ⟨c :: cs, line⟩

/-- Skips white space and comments up to the end of the line. -/
def skipInLine (c : Cursor) : Cursor := skipFrom false false c.line c.rest

/-- Skips white space and comments over any number of lines. -/
def skipLines (c : Cursor) : Cursor := skipFrom true false c.line c.rest

theorem skipFrom_length_le (newlines : Bool) (l : List Char) : ∀ (comment : Bool) (line : Nat),
    (skipFrom newlines comment line l).rest.length ≤ l.length := by
  induction l with
  | nil => intro comment line; simp [skipFrom]
  | cons c cs ih =>
      intro comment line
      simp only [skipFrom]
      repeat' split
      all_goals first
        | exact Nat.le_refl _
        | exact Nat.le_succ_of_le (ih _ _)

theorem skipInLine_length_le (c : Cursor) : c.skipInLine.rest.length ≤ c.rest.length :=
  skipFrom_length_le _ _ _ _

theorem skipLines_length_le (c : Cursor) : c.skipLines.rest.length ≤ c.rest.length :=
  skipFrom_length_le _ _ _ _

/-! ### Signs -/

/-- The error of a reader that stops here. -/
def fail {α : Type} (c : Cursor) (expected : Expected) : Except ReadError α :=
  .error (.unexpected c.line expected (.ofNext c.rest))

/-- Steps over the sign `s`, which is no line feed, if it comes next. -/
def take? (c : Cursor) (s : Char) : Option Cursor :=
  match c.rest with
  | [] => none
  | x :: xs => if x = s then some ⟨xs, c.line⟩ else none

/-- Steps over the sign `s`, with any white space and comments before it. -/
def expect (c : Cursor) (s : Char) (expected : Expected) : Except ReadError Cursor :=
  match c.skipLines.take? s with
  | some c' => .ok c'
  | none => c.skipLines.fail expected

theorem take?_lt {c c' : Cursor} {s : Char} (h : c.take? s = some c') :
    c'.rest.length < c.rest.length := by
  unfold take? at h
  split at h
  · cases h
  · next x xs hrest =>
      split at h
      · cases h
        simp [hrest]
      · cases h

theorem expect_lt {c c' : Cursor} {s : Char} {expected : Expected}
    (h : c.expect s expected = .ok c') : c'.rest.length < c.rest.length := by
  unfold expect at h
  split at h
  · next d hd =>
      cases h
      exact Nat.lt_of_lt_of_le (take?_lt hd) (skipLines_length_le c)
  · cases h

/-! ### Names and words -/

/-- Reads a name on this line: one or more name characters. -/
def readName (c : Cursor) (expected : Expected) : Except ReadError (String × Cursor) :=
  match c.skipInLine.rest.takeWhile isNameChar with
  | [] => c.skipInLine.fail expected
  | name =>
    .ok (String.ofList name, ⟨c.skipInLine.rest.dropWhile isNameChar, c.skipInLine.line⟩)

/-- Reads a name on this line that starts with a letter. -/
def readWord (c : Cursor) (expected : Expected) : Except ReadError (String × Cursor) :=
  if c.skipInLine.rest.head?.any isLetter then c.readName expected
  else c.skipInLine.fail expected

theorem takeWhile_add_dropWhile_length {α : Type} (p : α → Bool) (l : List α) :
    (l.takeWhile p).length + (l.dropWhile p).length = l.length := by
  rw [← List.length_append, List.takeWhile_append_dropWhile]

theorem readName_lt {c c' : Cursor} {expected : Expected} {name : String}
    (h : c.readName expected = .ok (name, c')) : c'.rest.length < c.rest.length := by
  have hlen := takeWhile_add_dropWhile_length isNameChar c.skipInLine.rest
  have hskip := skipInLine_length_le c
  unfold readName at h
  split at h
  · cases h
  · next hne =>
      cases h
      have : 0 < (c.skipInLine.rest.takeWhile isNameChar).length :=
        List.length_pos_iff.2 hne
      simp only
      omega

theorem readWord_lt {c c' : Cursor} {expected : Expected} {name : String}
    (h : c.readWord expected = .ok (name, c')) : c'.rest.length < c.rest.length := by
  unfold readWord at h
  split at h
  · exact readName_lt h
  · cases h

/-! ### Literals -/

/-- The characters of a literal at the start of a text: digits after an optional minus sign. -/
def literalChars : List Char → List Char
  | '-' :: cs => '-' :: cs.takeWhile Char.isDigit
  | cs => cs.takeWhile Char.isDigit

/-- Reads a literal that starts right here. -/
def readLiteral (c : Cursor) : Except ReadError (Int64 × Cursor) :=
  let chars := literalChars c.rest
  match literal? chars with
  | some value => .ok (value, ⟨c.rest.drop chars.length, c.line⟩)
  | none => .error (.unexpected c.line .literal (.word (String.ofList chars)))

theorem literal?_nil : literal? [] = none := by
  simp [literal?, nat?]

theorem literalChars_length_le (l : List Char) : (literalChars l).length ≤ l.length := by
  unfold literalChars
  split
  · next cs =>
      have := takeWhile_add_dropWhile_length Char.isDigit cs
      simp only [List.length_cons]
      omega
  · have := takeWhile_add_dropWhile_length Char.isDigit l
    omega

theorem readLiteral_lt {c c' : Cursor} {value : Int64} (h : c.readLiteral = .ok (value, c')) :
    c'.rest.length < c.rest.length := by
  unfold readLiteral at h
  simp only at h
  split at h
  · next v hv =>
      cases h
      have hne : literalChars c.rest ≠ [] := by
        intro hnil
        rw [hnil, literal?_nil] at hv
        cases hv
      have hpos := List.length_pos_iff.2 hne
      have hle := literalChars_length_le c.rest
      simp only [List.length_drop]
      omega
  · cases h

end Cursor

end LoopSwap
