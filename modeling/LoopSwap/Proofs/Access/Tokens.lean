/-
**Index texts are read back.**

Nothing stands between the tokens of an index text, and a minus sign may be the sign of a
subtraction as well as of an integer.  Still the text determines its tokens: an operand starts the
text and follows each sign of an operation, and only there an integer may have a sign of its own; a
name ends at the first character that is none of a name, an integer at the first one that is no
digit, and the signs of operations are neither.  So the tokens are found from left to right, with
one look at the next character.

Main definitions:

* `LoopSwap.IndexToken.first?` — the operand that a text starts with;
* `LoopSwap.IndexToken.split?` — the tokens of a text.

Main results:

* `LoopSwap.IndexTree.split?_text` — an expression is read back from its text, whatever comes next;
* `LoopSwap.Func.Arithmetic.exists_tokens` — the index text of an arithmetic operand is split into
  the tokens of its expression, and operands with one text have the same tokens.
-/

import LoopSwap.Proofs.Access.Expression

set_option relaxedAutoImplicit false
set_option autoImplicit false

namespace LoopSwap

open Text

variable {cs rest : List Char} {t : IndexToken}

/-! ### The signs -/

/-- What comes after an operand: the end of the text, or the sign of an operation. -/
def AtSign (rest : List Char) : Prop := ∀ c ∈ rest.head?, c ∈ signs

/-- No sign may stand in a name. -/
theorem isNameChar_eq_false_of_mem_signs {c : Char} (hc : c ∈ signs) : isNameChar c = false := by
  simp only [signs, List.mem_cons, List.not_mem_nil, or_false] at hc
  rcases hc with rfl | rfl | rfl | rfl <;> decide

theorem AtSign.stops (h : AtSign rest) : Stops rest :=
  fun c hc => isNameChar_eq_false_of_mem_signs (h c hc)

theorem atSign_nil : AtSign [] := fun _ hc => nomatch hc

theorem atSign_cons {c : Char} (hc : c ∈ signs) : AtSign (c :: rest) := by
  intro x hx
  cases hx
  exact hc

/-! ### Splitting -/

namespace IndexToken

/-- The operand that the text starts with, and what is left: a name if the text starts with a
letter, and an integer otherwise. -/
def first? (cs : List Char) : Option (IndexToken × List Char) :=
  if cs.head?.any isLetter then
    some (.name (String.ofList (cs.takeWhile isNameChar)), cs.dropWhile isNameChar)
  else
    (literal? (Cursor.literalChars cs)).map fun value =>
      (.int value, cs.drop (Cursor.literalChars cs).length)

/-- An operand takes at least one character. -/
theorem first?_lt (h : first? cs = some (t, rest)) : rest.length < cs.length := by
  unfold first? at h
  split at h
  · next hletter =>
      cases h
      cases cs with
      | nil => cases hletter
      | cons c cs =>
          rw [List.dropWhile_cons_of_pos (isNameChar_of_isLetter hletter)]
          exact Nat.lt_succ_of_le (List.dropWhile_suffix _).length_le
  · obtain ⟨value, hvalue, heq⟩ := Option.map_eq_some_iff.1 h
    cases heq
    have hne : Cursor.literalChars cs ≠ [] := by
      intro hnil
      rw [hnil, Cursor.literal?_nil] at hvalue
      cases hvalue
    have hpos := List.length_pos_iff.2 hne
    have hle := Cursor.literalChars_length_le cs
    rw [List.length_drop]
    omega

/-- The tokens of a text from left to right: an operand, and then as often as there is more, the
sign of an operation and an operand. -/
def split? (cs : List Char) : Option (List IndexToken) :=
  match _h : first? cs with
  | none => none
  | some (t, []) => some [t]
  | some (t, c :: rest) =>
    if c ∈ signs then (split? rest).map fun ts => t :: .sign c :: ts else none
termination_by cs.length
decreasing_by exact Nat.lt_of_succ_lt (first?_lt _h)

/-- The tokens of a text of which the first ones are known and the end is left. -/
def splitAfter? (ts : List IndexToken) : List Char → Option (List IndexToken)
  | [] => some ts
  | c :: rest => if c ∈ signs then (split? rest).map fun us => ts ++ .sign c :: us else none

theorem split?_eq_splitAfter? (h : first? cs = some (t, rest)) :
    split? cs = splitAfter? [t] rest := by
  rw [split?]
  split
  · next h' => rw [h'] at h; cases h
  · next h' => rw [h'] at h; cases h; rfl
  · next h' => rw [h'] at h; cases h; rfl

theorem splitAfter?_append (ts us : List IndexToken) (rest : List Char) :
    splitAfter? (ts ++ us) rest = (splitAfter? us rest).map (ts ++ ·) := by
  cases rest with
  | nil => rfl
  | cons c rest =>
      by_cases hc : c ∈ signs
      · simp [splitAfter?, hc, Function.comp_def]
      · simp [splitAfter?, hc]

/-- A word is read as it is written. -/
theorem first?_word {s : String} (hs : IsWord s) (hrest : Stops rest) :
    first? (s.toList ++ rest) = some (.name s, rest) := by
  obtain ⟨x, xs, hl, hx, -⟩ := hs.exists_cons
  have hhead : (s.toList ++ rest).head?.any isLetter = true := by
    rw [hl]
    exact hx
  rw [first?, if_pos hhead, hrest.takeWhile hs.all, hrest.dropWhile hs.all, String.ofList_toList]

theorem isLetter_minus : isLetter '-' = false := by decide

/-- The text of an integer does not start with a letter. -/
theorem head?_literalText_any (value : Int64) :
    ((Func.literalText value).toList ++ rest).head?.any isLetter = false := by
  obtain ⟨ds, hne, hds, h | h⟩ := Cursor.literalText_toList value
  · cases ds with
    | nil => exact absurd rfl hne
    | cons d ds =>
        rw [h]
        exact isLetter_eq_false_of_isDigit (hds d List.mem_cons_self)
  · rw [h]
    exact isLetter_minus

/-- An integer is read as it is written. -/
theorem first?_literalText (value : Int64) (hrest : Stops rest) :
    first? ((Func.literalText value).toList ++ rest) = some (.int value, rest) := by
  have hvalue : literal? (Func.literalText value).toList = some value := literal?_toString value
  rw [first?, head?_literalText_any, if_neg Bool.false_ne_true,
    Cursor.literalChars_literalText value hrest, hvalue, Option.map_some, List.drop_left]

end IndexToken

open IndexToken

/-- **An expression is read back from its text**, whatever comes after it. -/
theorem IndexTree.split?_text {t : IndexTree} (ht : t.Spelled) (hrest : AtSign rest) :
    split? (t.text.toList ++ rest) = splitAfter? t.tokens rest := by
  -- the right operand is followed by what follows the whole, the left one by the sign
  induction t generalizing rest with
  | name s =>
      rw [text_name]
      exact split?_eq_splitAfter? (first?_word ht hrest.stops)
  | int value =>
      rw [text_int]
      exact split?_eq_splitAfter? (first?_literalText value hrest.stops)
  | node lhs sign rhs ihl ihr =>
      obtain ⟨hl, hsign, hr⟩ := ht
      have htext : (node lhs sign rhs).text.toList ++ rest =
          lhs.text.toList ++ sign :: (rhs.text.toList ++ rest) := by
        simp [String.toList_append]
      calc split? ((node lhs sign rhs).text.toList ++ rest)
          = splitAfter? lhs.tokens (sign :: (rhs.text.toList ++ rest)) := by
            rw [htext, ihl hl (atSign_cons hsign)]
        _ = (split? (rhs.text.toList ++ rest)).map fun ts => lhs.tokens ++ .sign sign :: ts :=
            if_pos hsign
        _ = (splitAfter? rhs.tokens rest).map ((lhs.tokens ++ [.sign sign]) ++ ·) := by
            rw [ihr hr hrest]
            simp
        _ = splitAfter? (node lhs sign rhs).tokens rest := by
            rw [← splitAfter?_append, tokens, List.append_assoc, List.singleton_append]

/-- The text of an expression alone is split into the tokens of the expression. -/
theorem IndexTree.split?_toList {t : IndexTree} (ht : t.Spelled) :
    split? t.text.toList = some t.tokens := by
  have h := split?_text ht atSign_nil
  rw [List.append_nil] at h
  exact h

/-! ### The texts of operands -/

namespace Func

variable {f : Func} {o : Operand}

/-- **The index text of an arithmetic operand loses nothing**: the operand stands for one
expression, and its text is split into the operands and the signs of this expression in their
order.  So every arithmetic operand that has the same text, of whatever function, stands for an
expression with the same operands and signs. -/
theorem Arithmetic.exists_tokens (h : f.Arithmetic o) :
    ∃ t s, (∀ t', f.Unfolds o t' ↔ t' = t) ∧ f.indexText? o = some s ∧
      IndexToken.split? s.toList = some t.tokens ∧
      ∀ (g : Func) (o' : Operand), g.Arithmetic o' → g.indexText? o' = some s →
        ∀ t', g.Unfolds o' t' → t'.tokens = t.tokens := by
  obtain ⟨t, ht, hspelled, htext⟩ := h.exists_unfolds
  refine ⟨t, t.text, fun t' => ⟨fun ht' => ht'.unique ht, ?_⟩, htext,
    IndexTree.split?_toList hspelled, ?_⟩
  · rintro rfl
    exact ht
  · intro g o' h' htext' t' ht'
    obtain ⟨t'', ht'', hspelled'', htext''⟩ := h'.exists_unfolds
    obtain rfl := ht'.unique ht''
    have hsame : t'.text = t.text := Option.some.inj (htext''.symm.trans htext')
    apply Option.some.inj
    rw [← IndexTree.split?_toList hspelled'', hsame, IndexTree.split?_toList hspelled]

/-- A quotient of a difference by itself, and a subtraction of a negative integer in it. -/
def doubledText : String :=
  "f() \x7b\nentry: %x = load @i\n %d = sub %x, -4\n %q = sdiv %d, %d\n ret\n\x7d"

/-- The function of that text. -/
def doubled : Func := .ofBlocks "f" [
  ("entry", [(some "x", .load (.location "i")),
    (some "d", .binary .sub (.value ⟨0⟩) (.const (-4))),
    (some "q", .binary .sdiv (.value ⟨1⟩) (.value ⟨1⟩)), (none, .ret none)])]

/-- That function has an operand with a subtraction of a negative integer, twice. -/
theorem exists_tokens_doubled :
    Program.read doubledText = .ok ⟨[doubled]⟩ ∧ doubled.Arithmetic (.value ⟨2⟩) ∧
      doubled.indexText? (.value ⟨2⟩) = some "i--4/i--4" ∧
      IndexToken.split? "i--4/i--4".toList = some [.name "i", .sign '-', .int (-4), .sign '/',
        .name "i", .sign '-', .int (-4)] := by
  have hread : Program.read doubledText = .ok ⟨[doubled]⟩ := by decide +kernel
  have harith : doubled.Arithmetic (.value ⟨2⟩) := .of_before (by decide) (by decide)
  have htext : doubled.indexText? (.value ⟨2⟩) = some "i--4/i--4" := by decide +kernel
  have hd : doubled.Unfolds (.value ⟨1⟩) (.node (.name "i") '-' (.int (-4))) :=
    .binary rfl rfl (.load rfl rfl) (.literal _)
  have hq : doubled.Unfolds (.value ⟨2⟩)
      (.node (.node (.name "i") '-' (.int (-4))) '/' (.node (.name "i") '-' (.int (-4)))) :=
    .binary rfl rfl hd hd
  obtain ⟨t, s, hunique, hs, hsplit, -⟩ := harith.exists_tokens
  obtain rfl := (hunique _).1 hq
  obtain rfl := Option.some.inj (hs.symm.trans htext)
  exact ⟨hread, harith, htext, hsplit⟩

end Func

end LoopSwap
