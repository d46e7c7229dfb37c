/-
**Numbers in decimal.**

Two forms of number are read.  A *literal* is a 64-bit signed integer with an optional minus sign.
An *index* is a 64-bit unsigned integer with an optional plus sign; a text that is no index is
refused with the reason, and the reason is the first one met from left to right.

Main definitions:

* `LoopSwap.Text.nat?` — the value of a non-empty run of digits;
* `LoopSwap.Text.literal?` — the value of a signed literal;
* `LoopSwap.Text.index` — the value of an index, or its `IndexFault`.

Main results:

* `LoopSwap.Text.nat?_toDigits`, `LoopSwap.Text.literal?_toString` — what is written is read back;
* `LoopSwap.Text.indexFrom_lt` — an index fits in 64 bits.
-/

set_option relaxedAutoImplicit false
set_option autoImplicit false

namespace LoopSwap

namespace Text

/-! ### Literals -/

/-- The value of a non-empty run of digits. -/
def nat? (digits : List Char) : Option Nat :=
  if digits ≠ [] ∧ digits.all Char.isDigit then some (Nat.ofDigitChars 10 digits 0) else none

/-- The value of an integer literal that fits in 64 bits: digits after an optional minus sign. -/
def literal? : List Char → Option Int64
  | '-' :: digits => (nat? digits).bind fun n =>
      if n ≤ Int64.size / 2 then some (Int64.ofInt (-(n : Int))) else none
  | digits => (nat? digits).bind fun n =>
      if n < Int64.size / 2 then some (Int64.ofInt n) else none

/-- The digits of a number read back as the number. -/
@[simp] theorem nat?_toDigits (n : Nat) : nat? (Nat.toDigits 10 n) = some n := by
  have hdigit : (Nat.toDigits 10 n).all Char.isDigit = true :=
    List.all_eq_true.2 fun c hc =>
      Nat.isDigit_of_mem_toDigits (by decide : 0 < 10) (by decide) hc
  simp [nat?, Nat.toDigits_ne_nil, hdigit, Nat.ofDigitChars_ten_toDigits]

/-- A number of digits does not start with a minus sign. -/
theorem toDigits_head_ne_minus (n : Nat) (rest : List Char) :
    Nat.toDigits 10 n ≠ '-' :: rest := by
  intro h
  have : ('-' : Char).isDigit = true :=
    Nat.isDigit_of_mem_toDigits (by decide : 0 < 10) (by decide) (h ▸ List.mem_cons_self)
  exact absurd this (by decide)

theorem literal?_toDigits {n : Nat} (h : n < Int64.size / 2) :
    literal? (Nat.toDigits 10 n) = some (Int64.ofInt n) := by
  unfold literal?
  split
  · next rest heq => exact absurd heq (toDigits_head_ne_minus n rest)
  · rw [nat?_toDigits, Option.bind_some, if_pos h]

theorem literal?_minus_toDigits {n : Nat} (h : n ≤ Int64.size / 2) :
    literal? ('-' :: Nat.toDigits 10 n) = some (Int64.ofInt (-(n : Int))) := by
  simp only [literal?, nat?_toDigits, Option.bind_some, if_pos h]

/-- The decimal text of a 64-bit integer reads back as the integer. -/
theorem literal?_toString (v : Int64) : literal? (toString v.toInt).toList = some v := by
  have hlo := v.le_toInt
  have hhi := v.toInt_lt
  have hsize : Int64.size / 2 = 9223372036854775808 := rfl
  rcases hv : v.toInt with n | n
  · have hn : n < Int64.size / 2 := by rw [hv] at hhi; simp at hhi; omega
    have htext : (toString (Int.ofNat n)).toList = Nat.toDigits 10 n := by
      show (Nat.repr n).toList = _
      simp [Nat.repr_eq_ofList_toDigits]
    rw [htext, literal?_toDigits hn, ← Int64.ofInt_toInt v, hv]
    rfl
  · have hn : n + 1 ≤ Int64.size / 2 := by rw [hv] at hlo; omega
    have htext : (toString (Int.negSucc n)).toList = '-' :: Nat.toDigits 10 (n + 1) := by
      show ("-" ++ Nat.repr (n + 1)).toList = _
      simp [Nat.repr_eq_ofList_toDigits]
    rw [htext, literal?_minus_toDigits hn, ← Int64.ofInt_toInt v, hv]
    rfl

/-! ### Indices -/

/-- Why a text is no index. -/
inductive IndexFault where
  | empty | invalidDigit | tooLarge
  deriving DecidableEq

/-- The wording of a fault. -/
def IndexFault.message : IndexFault → String
  | empty => "cannot parse integer from empty string"
  | invalidDigit => "invalid digit found in string"
  | tooLarge => "number too large to fit in target type"

/-- The number that continues `acc` with the given digits. -/
def indexFrom (acc : Nat) : List Char → Except IndexFault Nat
  | [] => .ok acc
  | c :: cs =>
      if c.isDigit then
        let n := acc * 10 + (c.toNat - '0'.toNat)
        if n < UInt64.size then indexFrom n cs else .error .tooLarge
      else .error .invalidDigit

/-- The value of an unsigned 64-bit number: digits after an optional plus sign. -/
def index : List Char → Except IndexFault Nat
  | [] => .error .empty
  | ['+'] => .error .invalidDigit
  | '+' :: digits => indexFrom 0 digits
  | digits => indexFrom 0 digits

theorem indexFrom_lt {digits : List Char} : ∀ {acc n : Nat}, acc < UInt64.size →
    indexFrom acc digits = .ok n → n < UInt64.size := by
  induction digits with
  | nil =>
      intro acc n hacc h
      cases h
      exact hacc
  | cons c cs ih =>
      intro acc n _ h
      simp only [indexFrom] at h
      split at h
      · split at h
        · next hlt => exact ih hlt h
        · cases h
      · cases h

end Text

end LoopSwap
