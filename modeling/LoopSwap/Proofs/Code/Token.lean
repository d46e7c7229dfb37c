/-
**Tokens, written and read back.**

A name is read up to the first character that is none of its own, so a name before such a character
is read as it is written; the same goes for words and literals.  This needs little of the character
classes: no character of a name is white space, none of the signs may stand in a name, and a digit
may.

Main definitions:

* `LoopSwap.IsName`, `LoopSwap.IsWord`, `LoopSwap.IsOpcode` — the texts that are read as one name,
  as one word, and as one opcode;
* `LoopSwap.Solid` — a character that is not skipped;
* `LoopSwap.Stops` — a text that goes on with something else than a name character.

Main results:

* `LoopSwap.isBlank_eq_false_of_isNameChar` — a name has no white space in it;
* `LoopSwap.Cursor.readName_append`, `LoopSwap.Cursor.readWord_append`,
  `LoopSwap.Cursor.readLiteral_append` — what is written is read back;
* `LoopSwap.Cursor.isName_of_readName`, `LoopSwap.Cursor.isWord_of_readWord` — what is read can be
  written.
-/

import LoopSwap.Code.Cursor
import LoopSwap.Code.Query

set_option relaxedAutoImplicit false
set_option autoImplicit false

namespace LoopSwap

open Text

/-! ### Characters -/

namespace Text

/-- A character is not in ranges that are apart. -/
theorem inRanges_eq_false_of_apart {rs ss : List (Nat × Nat)} {c : Char}
    (h : ∀ r ∈ rs, ∀ s ∈ ss, r.2 < s.1 ∨ s.2 < r.1) (hc : inRanges ss c = true) :
    inRanges rs c = false := by
  rw [← Bool.not_eq_true]
  intro hr
  obtain ⟨r, hmem, hlo, hhi⟩ := inRanges_iff.1 hr
  obtain ⟨s, hmem', hlo', hhi'⟩ := inRanges_iff.1 hc
  rcases h r hmem s hmem' with hlt | hlt <;> omega

theorem blankRanges_letterRanges :
    ∀ r ∈ blankRanges, ∀ s ∈ letterRanges, r.2 < s.1 ∨ s.2 < r.1 := by decide +kernel

theorem blankRanges_numeralRanges :
    ∀ r ∈ blankRanges, ∀ s ∈ numeralRanges, r.2 < s.1 ∨ s.2 < r.1 := by decide +kernel

/-- The white space of ASCII is below all letters and digits. -/
theorem isBlank_eq_false_of_ascii {c : Char} (hlt : c.toNat < 0x80) (hc : 0x20 < c.toNat) :
    isBlank c = false := by
  have h₁ : c.toNat ≠ 0x20 := by omega
  have h₂ : ¬ c.toNat ≤ 0xD := by omega
  simp [isBlank, hlt, h₁, h₂]

theorem lt_toNat_of_isDigit {c : Char} (h : c.isDigit = true) :
    0x30 ≤ c.toNat ∧ c.toNat ≤ 0x39 := by
  simp only [Char.isDigit, Bool.and_eq_true, decide_eq_true_eq, ge_iff_le, UInt32.le_iff_toNat_le]
    at h
  exact h

theorem lt_toNat_of_isAlpha {c : Char} (h : c.isAlpha = true) : 0x41 ≤ c.toNat := by
  rcases Bool.or_eq_true_iff.1 h with hupper | hlower
  · have hle : 'A'.val ≤ c.val := (of_decide_eq_true hupper).1
    exact UInt32.le_iff_toNat_le.1 hle
  · have hle : 'a'.val ≤ c.val := of_decide_eq_true (Bool.and_eq_true_iff.1 hlower).1
    exact Nat.le_trans (by decide) (UInt32.le_iff_toNat_le.1 hle)

/-- No letter is white space. -/
theorem isBlank_eq_false_of_isLetter {c : Char} (h : isLetter c = true) : isBlank c = false := by
  by_cases hlt : c.toNat < 0x80
  · rw [isLetter_of_ascii hlt] at h
    exact isBlank_eq_false_of_ascii hlt (Nat.lt_of_lt_of_le (by decide) (lt_toNat_of_isAlpha h))
  · rw [isLetter, if_neg hlt] at h
    rw [isBlank, if_neg hlt]
    exact inRanges_eq_false_of_apart blankRanges_letterRanges h

/-- No numeral is white space. -/
theorem isBlank_eq_false_of_isNumeral {c : Char} (h : isNumeral c = true) : isBlank c = false := by
  by_cases hlt : c.toNat < 0x80
  · rw [isNumeral_of_ascii hlt] at h
    exact isBlank_eq_false_of_ascii hlt (Nat.lt_of_lt_of_le (by decide) (lt_toNat_of_isDigit h).1)
  · rw [isNumeral, if_neg hlt] at h
    rw [isBlank, if_neg hlt]
    exact inRanges_eq_false_of_apart blankRanges_numeralRanges h

/-- No digit is a letter. -/
theorem isLetter_eq_false_of_isDigit {c : Char} (h : c.isDigit = true) : isLetter c = false := by
  obtain ⟨-, hle⟩ := lt_toNat_of_isDigit h
  rw [isLetter_of_ascii (by omega), ← Bool.not_eq_true]
  intro halpha
  have := lt_toNat_of_isAlpha halpha
  omega

end Text

/-- A digit may stand in a name. -/
theorem isNameChar_of_isDigit {c : Char} (h : c.isDigit = true) : isNameChar c = true := by
  obtain ⟨-, hle⟩ := lt_toNat_of_isDigit h
  have hnumeral : isNumeral c = true := by
    rw [isNumeral_of_ascii (by omega), h]
  simp [isNameChar, hnumeral]

/-- A name has no white space in it. -/
theorem isBlank_eq_false_of_isNameChar {c : Char} (h : isNameChar c = true) :
    isBlank c = false := by
  simp only [isNameChar, Bool.or_eq_true, decide_eq_true_eq] at h
  rcases h with ((h | h) | rfl) | rfl
  · exact isBlank_eq_false_of_isLetter h
  · exact isBlank_eq_false_of_isNumeral h
  · decide
  · decide

/-- A character that is skipped in no line: neither white space nor the start of a comment. -/
structure Solid (c : Char) : Prop where
  ne_newline : c ≠ '\n'
  ne_comment : c ≠ ';'
  not_blank : isBlank c = false

instance (c : Char) : Decidable (Solid c) :=
  decidable_of_iff (c ≠ '\n' ∧ c ≠ ';' ∧ isBlank c = false)
    ⟨fun h => ⟨h.1, h.2.1, h.2.2⟩, fun h => ⟨h.1, h.2, h.3⟩⟩

theorem ne_of_isNameChar {c x : Char} (h : isNameChar c = true) (hx : isNameChar x = false) :
    c ≠ x := by
  rintro rfl
  rw [h] at hx
  cases hx

theorem solid_of_isNameChar {c : Char} (h : isNameChar c = true) : Solid c :=
  ⟨ne_of_isNameChar h (by decide), ne_of_isNameChar h (by decide),
    isBlank_eq_false_of_isNameChar h⟩

/-! ### Names, words and opcodes -/

/-- One or more name characters. -/
structure IsName (s : String) : Prop where
  ne_nil : s.toList ≠ []
  all : ∀ c ∈ s.toList, isNameChar c = true

/-- A name that starts with a letter. -/
structure IsWord (s : String) : Prop extends IsName s where
  head : ∀ c ∈ s.toList.head?, isLetter c = true

/-- One or more words, with single blanks between. -/
def IsOpcode (s : String) : Prop :=
  ∃ w ws, IsWord w ∧ (∀ x ∈ ws, IsWord x) ∧ s = " ".intercalate (w :: ws)

instance (s : String) : Decidable (IsName s) :=
  decidable_of_iff (s.toList ≠ [] ∧ s.toList.all isNameChar = true)
    ⟨fun h => ⟨h.1, List.all_eq_true.1 h.2⟩, fun h => ⟨h.1, List.all_eq_true.2 h.2⟩⟩

instance (s : String) : Decidable (IsWord s) :=
  decidable_of_iff (IsName s ∧ s.toList.head?.all isLetter = true)
    ⟨fun h => ⟨h.1, (Option.all_eq_true _ _).1 h.2⟩,
      fun h => ⟨h.1, (Option.all_eq_true _ _).2 h.2⟩⟩

theorem IsWord.isOpcode {s : String} (h : IsWord s) : IsOpcode s :=
  ⟨s, [], h, List.forall_mem_nil _, (String.intercalate_singleton).symm⟩

theorem IsName.exists_cons {s : String} (h : IsName s) : ∃ x xs, s.toList = x :: xs ∧
    isNameChar x = true ∧ ∀ c ∈ xs, isNameChar c = true := by
  obtain ⟨hne, hall⟩ := h
  cases hl : s.toList with
  | nil => exact absurd hl hne
  | cons x xs =>
      rw [hl, List.forall_mem_cons] at hall
      exact ⟨x, xs, rfl, hall⟩

theorem IsWord.exists_cons {s : String} (h : IsWord s) : ∃ x xs, s.toList = x :: xs ∧
    isLetter x = true ∧ ∀ c ∈ xs, isNameChar c = true := by
  obtain ⟨x, xs, hl, -, hxs⟩ := h.toIsName.exists_cons
  exact ⟨x, xs, hl, h.head x (by rw [hl]; rfl), hxs⟩

theorem IsName.append {s : String} (hs : IsName s) {t : String}
    (ht : ∀ c ∈ t.toList, isNameChar c = true) : IsName (s ++ t) := by
  refine ⟨?_, fun c hc => ?_⟩
  · rw [String.toList_append]
    exact List.append_ne_nil_of_left_ne_nil hs.ne_nil _
  · rw [String.toList_append] at hc
    rcases List.mem_append.1 hc with hc | hc
    · exact hs.all c hc
    · exact ht c hc

/-- The text goes on with something else than a name character. -/
def Stops (rest : List Char) : Prop := ∀ c ∈ rest.head?, isNameChar c = false

theorem stops_cons {c : Char} {cs : List Char} (hc : isNameChar c = false) : Stops (c :: cs) := by
  intro x hx
  cases hx
  exact hc

theorem Stops.takeWhile {s rest : List Char} (h : Stops rest)
    (hs : ∀ c ∈ s, isNameChar c = true) : (s ++ rest).takeWhile isNameChar = s := by
  rw [List.takeWhile_append_of_pos hs]
  cases rest with
  | nil => rw [List.takeWhile_nil, List.append_nil]
  | cons c cs => rw [List.takeWhile_cons_of_neg (by simp [h c rfl]), List.append_nil]

theorem Stops.dropWhile {s rest : List Char} (h : Stops rest)
    (hs : ∀ c ∈ s, isNameChar c = true) : (s ++ rest).dropWhile isNameChar = rest := by
  rw [List.dropWhile_append_of_pos hs]
  cases rest with
  | nil => rfl
  | cons c cs => rw [List.dropWhile_cons_of_neg (by simp [h c rfl])]

namespace Cursor

variable {c : Char} {cs rest : List Char} {s : String} {line : Nat} {e : Expected}

/-! ### Skipping -/

theorem skipFrom_solid (newlines : Bool) (hc : Solid c) :
    skipFrom newlines false line (c :: cs) = ⟨c :: cs, line⟩ := by
  rw [skipFrom, if_neg hc.ne_newline, if_neg (by simp [hc.ne_comment]),
    if_neg (by simp [hc.not_blank])]

theorem skipInLine_solid (hc : Solid c) : skipInLine ⟨c :: cs, line⟩ = ⟨c :: cs, line⟩ :=
  skipFrom_solid false hc

theorem skipLines_solid (hc : Solid c) : skipLines ⟨c :: cs, line⟩ = ⟨c :: cs, line⟩ :=
  skipFrom_solid true hc

theorem skipLines_newline : skipLines ⟨'\n' :: cs, line⟩ = skipLines ⟨cs, line + 1⟩ := rfl

theorem skipInLine_space : skipInLine ⟨' ' :: cs, line⟩ = skipInLine ⟨cs, line⟩ := rfl

theorem skipLines_space : skipLines ⟨' ' :: cs, line⟩ = skipLines ⟨cs, line⟩ := rfl

/-- A name is not skipped. -/
theorem skipFrom_name (newlines : Bool) (hs : IsName s) :
    skipFrom newlines false line (s.toList ++ rest) = ⟨s.toList ++ rest, line⟩ := by
  obtain ⟨x, xs, hl, hx, -⟩ := hs.exists_cons
  rw [hl]
  exact skipFrom_solid newlines (solid_of_isNameChar hx)

theorem skipInLine_name (hs : IsName s) :
    skipInLine ⟨s.toList ++ rest, line⟩ = ⟨s.toList ++ rest, line⟩ := skipFrom_name false hs

theorem skipLines_name (hs : IsName s) :
    skipLines ⟨s.toList ++ rest, line⟩ = ⟨s.toList ++ rest, line⟩ := skipFrom_name true hs

/-! ### Signs -/

theorem take?_cons : take? ⟨c :: cs, line⟩ c = some ⟨cs, line⟩ := if_pos rfl

theorem take?_cons_of_ne {x : Char} (h : x ≠ c) : take? ⟨x :: cs, line⟩ c = none := if_neg h

theorem expect_cons (hc : Solid c) : expect ⟨c :: cs, line⟩ c e = .ok ⟨cs, line⟩ := by
  rw [expect, skipLines_solid hc, take?_cons]

theorem expect_space : expect ⟨' ' :: cs, line⟩ c e = expect ⟨cs, line⟩ c e := by
  rw [expect, expect, skipLines_space]

/-! ### Names and words -/

/-- A name is read as it is written. -/
theorem readName_append (hs : IsName s) (hrest : Stops rest) :
    readName ⟨s.toList ++ rest, line⟩ e = .ok (s, ⟨rest, line⟩) := by
  have htake := hrest.takeWhile hs.all
  have hdrop := hrest.dropWhile hs.all
  unfold readName
  rw [skipInLine_name hs]
  simp only [htake, hdrop]
  split
  · next hnil => exact absurd hnil hs.ne_nil
  · rw [String.ofList_toList]

/-- A word is read as it is written. -/
theorem readWord_append (hs : IsWord s) (hrest : Stops rest) :
    readWord ⟨s.toList ++ rest, line⟩ e = .ok (s, ⟨rest, line⟩) := by
  obtain ⟨x, xs, hl, hx, -⟩ := hs.exists_cons
  unfold readWord
  rw [skipInLine_name hs.toIsName, if_pos, readName_append hs.toIsName hrest]
  rw [hl]
  exact hx

/-- What is read as a name is a name. -/
theorem isName_of_readName {d d' : Cursor} (h : d.readName e = .ok (s, d')) : IsName s := by
  unfold readName at h
  split at h
  · cases h
  · next hne =>
      cases h
      refine ⟨?_, fun c hc => ?_⟩
      · rwa [String.toList_ofList]
      · rw [String.toList_ofList] at hc
        exact List.all_eq_true.1 List.all_takeWhile c hc

/-- What is read as a word is a word. -/
theorem isWord_of_readWord {d d' : Cursor} (h : d.readWord e = .ok (s, d')) : IsWord s := by
  unfold readWord at h
  split at h
  · next hhead =>
      refine ⟨isName_of_readName h, fun c hc => ?_⟩
      unfold readName at h
      split at h
      · cases h
      · next hne =>
          cases h
          rw [String.toList_ofList] at hc
          -- the first character of the name is the first character of the text
          cases hl : d.skipInLine.rest with
          | nil => rw [hl] at hhead; cases hhead
          | cons x xs =>
              rw [hl] at hhead
              rw [hl, List.takeWhile_cons_of_pos (isNameChar_of_isLetter hhead)] at hc
              cases hc
              exact hhead
  · cases h

/-! ### Literals -/

theorem isDigit_eq_false_of_stops (h : Stops rest) : ∀ c ∈ rest.head?, c.isDigit = false := by
  intro c hc
  rw [← Bool.not_eq_true]
  intro hdigit
  have hname := h c hc
  rw [isNameChar_of_isDigit hdigit] at hname
  cases hname

theorem takeWhile_isDigit_append {ds : List Char} (hds : ∀ c ∈ ds, c.isDigit = true)
    (hrest : Stops rest) : (ds ++ rest).takeWhile Char.isDigit = ds := by
  rw [List.takeWhile_append_of_pos hds]
  cases rest with
  | nil => rw [List.takeWhile_nil, List.append_nil]
  | cons c cs =>
      rw [List.takeWhile_cons_of_neg (by simp [isDigit_eq_false_of_stops hrest c rfl]),
        List.append_nil]

/-- The decimal text of a literal: digits, after a minus sign if it is negative. -/
theorem literalText_toList (v : Int64) : ∃ ds : List Char, ds ≠ [] ∧
    (∀ c ∈ ds, c.isDigit = true) ∧
    ((Func.literalText v).toList = ds ∨ (Func.literalText v).toList = '-' :: ds) := by
  have hdigit : ∀ n : Nat, ∀ c ∈ Nat.toDigits 10 n, c.isDigit = true := fun n c hc =>
    Nat.isDigit_of_mem_toDigits (by decide) (by decide) hc
  unfold Func.literalText
  rcases v.toInt with n | n
  · refine ⟨Nat.toDigits 10 n, Nat.toDigits_ne_nil, hdigit n, Or.inl ?_⟩
    show (Nat.repr n).toList = _
    rw [Nat.toList_repr]
  · refine ⟨Nat.toDigits 10 (n + 1), Nat.toDigits_ne_nil, hdigit _, Or.inr ?_⟩
    show ("-" ++ Nat.repr (n + 1)).toList = _
    rw [String.toList_append, Nat.toList_repr]
    rfl

/-- The characters of a literal are those that are written. -/
theorem literalChars_literalText (v : Int64) (hrest : Stops rest) :
    literalChars ((Func.literalText v).toList ++ rest) = (Func.literalText v).toList := by
  obtain ⟨ds, hne, hds, h | h⟩ := literalText_toList v
  · rw [h]
    unfold literalChars
    split
    · next cs heq =>
        -- digits do not start with a minus sign
        cases ds with
        | nil => exact absurd rfl hne
        | cons d ds =>
            cases heq
            exact absurd (hds '-' List.mem_cons_self) (by decide)
    · exact takeWhile_isDigit_append hds hrest
  · rw [h, List.cons_append]
    exact congrArg ('-' :: ·) (takeWhile_isDigit_append hds hrest)

/-- A literal is read as it is written. -/
theorem readLiteral_append (v : Int64) (hrest : Stops rest) :
    readLiteral ⟨(Func.literalText v).toList ++ rest, line⟩ = .ok (v, ⟨rest, line⟩) := by
  have hvalue : literal? (Func.literalText v).toList = some v := literal?_toString v
  unfold readLiteral
  simp only [literalChars_literalText v hrest, hvalue, List.drop_left]

end Cursor

end LoopSwap
