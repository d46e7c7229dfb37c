/-
**Quoted text.**

A text is quoted for a reader of error reports: between double quotes, with backslash escapes for
the quote, the backslash and the common controls, and the code point in hexadecimal for every
other character that cannot be shown on its own.

Main definitions:

* `LoopSwap.Text.escapeChar` — a character inside the quotes;
* `LoopSwap.Text.quoted` — a text with its quotes.

Main results:

* `LoopSwap.Text.escapeChar_ne_nil` — no character is lost.
-/

import LoopSwap.Text.Extender
import LoopSwap.Text.Printable

set_option relaxedAutoImplicit false
set_option autoImplicit false

namespace LoopSwap

namespace Text

/-- The escape that gives a character by its code point. -/
def codePointEscape (c : Char) : List Char :=
  ['\\', 'u', '\x7b'] ++ Nat.toDigits 16 c.toNat ++ ['\x7d']

/-- A character inside the quotes. -/
def escapeChar (c : Char) : List Char :=
  if c = '\x00' then ['\\', '0']
  else if c = '\t' then ['\\', 't']
  else if c = '\r' then ['\\', 'r']
  else if c = '\n' then ['\\', 'n']
  else if c = '\\' then ['\\', '\\']
  else if c = '"' then ['\\', '"']
  else if isExtender c || !isPrintable c then codePointEscape c
  else [c]

/-- A text between double quotes. -/
def quoted (text : String) : String :=
  "\"" ++ String.ofList (text.toList.flatMap escapeChar) ++ "\""

theorem escapeChar_ne_nil (c : Char) : escapeChar c ≠ [] := by
  unfold escapeChar codePointEscape
  repeat' split
  all_goals simp

end Text

end LoopSwap
