/-
**Text without terminal controls.**

A text that is not written to a terminal is written without the control characters and the control
sequences that only a terminal understands.  Tab, line feed, form feed and carriage return stay, as
does everything above ASCII.

A sequence begins with the escape character, goes on as its second character says, and need not be
finished: the next escape character begins another one, and the two cancelling characters end it.
Blank controls inside an escape or a control sequence are written, and so is the run of characters
that follows one of them; where the run ends, the sequence goes on, unless a character above ASCII
was in the run.

Main definitions:

* `LoopSwap.Text.isShown` — whether a character outside of sequences is written;
* `LoopSwap.Text.ControlState`, `LoopSwap.Text.ControlState.next` — how far a sequence has come;
* `LoopSwap.Text.withoutControls` — a text without terminal controls.

Main results:

* `LoopSwap.Text.isShown_of_mem_withoutControls` — nothing else is left;
* `LoopSwap.Text.withoutControls_of_isShown` — a text without controls is left as it is.
-/

import LoopSwap.Text.Ranges

set_option relaxedAutoImplicit false
set_option autoImplicit false

namespace LoopSwap

namespace Text

/-! ### Characters -/

/-- The control characters that are white space: tab, line feed, form feed, carriage return. -/
def isBlankControl (c : Char) : Bool := inRanges [(0x9, 0xA), (0xC, 0xD)] c

/-- Whether `c` is written where it stands outside of every sequence. -/
def isShown (c : Char) : Bool := isBlankControl c || inRanges [(0x20, 0x7E), (0x80, 0x10FFFF)] c

/-- Whether `c` ends every sequence: the controls cancel and substitute. -/
def isCancel (c : Char) : Bool := c = '\x18' || c = '\x1a'

/-- Whether `c` ends a string.  The terminator is the byte 0x9C, wherever it stands in the UTF-8
encoding of a character. -/
def endsString (c : Char) : Bool :=
  decide (0x80 ≤ c.toNat) && decide (0x9C ∈ String.utf8EncodeChar c)

/-! ### Sequences -/

/-- How far a sequence has come. -/
inductive ControlState where
  /-- Outside of every sequence. -/
  | text
  /-- After the escape character. -/
  | escape
  /-- In an escape sequence of more than two characters. -/
  | escapeMore
  /-- In a control sequence. -/
  | control
  /-- At the start of a device control string. -/
  | device
  /-- In the parameters of a device control string. -/
  | deviceParameter
  /-- Behind the parameters of a device control string. -/
  | deviceMore
  /-- In a string. -/
  | string
  /-- In a command to the operating system. -/
  | command
  deriving DecidableEq

namespace ControlState

/-- Whether blank controls are written in this state. -/
def writesBlanks : ControlState → Bool
  | text | escape | escapeMore | control => true
  | device | deviceParameter | deviceMore | string | command => false

/-- The state behind a character that is not written. -/
def next (s : ControlState) (c : Char) : ControlState :=
  match s with
  | text => text
  | escape =>
    if c = 'P' then device
    else if c = '[' then control
    else if c = ']' then command
    else if c = 'X' || c = '^' || c = '_' then string
    else if inRanges [(0x20, 0x2F)] c then escapeMore
    else if inRanges [(0x30, 0x7E)] c then text
    else escape
  | escapeMore => if inRanges [(0x30, 0x7E)] c then text else escapeMore
  | control => if inRanges [(0x40, 0x7E)] c then text else control
  | device =>
    if inRanges [(0x20, 0x2F)] c then deviceMore
    else if inRanges [(0x30, 0x3F)] c then deviceParameter
    else if inRanges [(0x40, 0x7E)] c then string
    else device
  | deviceParameter =>
    if inRanges [(0x20, 0x2F)] c then deviceMore
    else if inRanges [(0x3C, 0x7E)] c then string
    else deviceParameter
  | deviceMore => if inRanges [(0x30, 0x7E)] c then string else deviceMore
  | string => if endsString c then text else string
  | command => if c = '\x07' then text else command

/-- What is written of a text that is read from state `s` on.  In a run of written characters
(`running`) what counts is only whether a character is shown; `s` is where the run began. -/
def written (running : Bool) (s : ControlState) : List Char → List Char
  | [] => []
  | c :: cs =>
    if c = '\x1b' then written false escape cs
    else if isCancel c then written false text cs
    else if running || s = text || (s.writesBlanks && isBlankControl c) then
      if isShown c then c :: written true (if c.toNat < 0x80 then s else text) cs
      else written false s cs
    else written false (s.next c) cs

theorem isShown_of_mem_written {running : Bool} {s : ControlState} {cs : List Char} {c : Char}
    (h : c ∈ written running s cs) : isShown c = true := by
  induction cs generalizing running s with
  | nil => simp [written] at h
  | cons a cs ih =>
    unfold written at h
    split at h
    · exact ih h
    split at h
    · exact ih h
    split at h
    · split at h
      · next ha =>
        rcases List.mem_cons.1 h with rfl | h
        · exact ha
        · exact ih h
      · exact ih h
    · exact ih h

theorem written_text_of_isShown {cs : List Char} (running : Bool)
    (h : ∀ c ∈ cs, isShown c = true) : written running text cs = cs := by
  induction cs generalizing running with
  | nil => rfl
  | cons a cs ih =>
    have ha := h a (by simp)
    have escape_ne : a ≠ '\x1b' := by
      rintro rfl
      exact absurd ha (by decide)
    have cancel_ne : isCancel a = false := by
      rw [← Bool.not_eq_true]
      intro hc
      simp only [isCancel, Bool.or_eq_true, decide_eq_true_eq] at hc
      rcases hc with rfl | rfl <;> exact absurd ha (by decide)
    simp [written, escape_ne, cancel_ne, ha, ih true fun c hc => h c (by simp [hc])]

end ControlState

/-! ### Texts -/

/-- The text without terminal controls. -/
def withoutControls (text : String) : String :=
  String.ofList (ControlState.written false .text text.toList)

/-- Every character that is left can be shown. -/
theorem isShown_of_mem_withoutControls {text : String} {c : Char}
    (h : c ∈ (withoutControls text).toList) : isShown c = true := by
  rw [withoutControls, String.toList_ofList] at h
  exact ControlState.isShown_of_mem_written h

/-- A text of characters that can be shown is left as it is. -/
theorem withoutControls_of_isShown {text : String} (h : ∀ c ∈ text.toList, isShown c = true) :
    withoutControls text = text := by
  rw [withoutControls, ControlState.written_text_of_isShown false h, String.ofList_toList]

end Text

end LoopSwap
