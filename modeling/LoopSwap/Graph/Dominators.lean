/-
**Dominators by iteration.**

The reachable nodes are numbered in reverse postorder, so the entry is 0.  The table of immediate
dominators gives for each number another one; it starts with the entry alone, which stands for
itself, and is swept in order until a sweep changes nothing.  A row becomes the meeting point of
the rows of its predecessors that are already filled.

Every walk along the table goes from a number to a smaller one, and every sweep that changes
something makes the table smaller.  A step that would not is refused: then the answer is `none`.

Main definitions:

* `LoopSwap.DomTable` — immediate dominators by number;
* `LoopSwap.DomTable.meet?` — the meeting point of two numbers;
* `LoopSwap.DomTable.sweep?`, `LoopSwap.DomTable.settle?` — the iteration;
* `LoopSwap.DomTable.above?` — whether one number is met on the way from another to the entry.
-/

set_option relaxedAutoImplicit false
set_option autoImplicit false

namespace LoopSwap

/-- The immediate dominators by number; `none` where nothing is known yet. -/
abbrev DomTable := Array (Option Nat)

namespace DomTable

/-- The table of `n` numbers in which only the entry is known. -/
def initial (n : Nat) : DomTable := (Array.replicate n none).setIfInBounds 0 (some 0)

/-- The known immediate dominator of a number. -/
def up? (t : DomTable) (k : Nat) : Option Nat := t[k]?.join

/-- Where the ways from two numbers to the entry meet: the larger of two different numbers goes
up. -/
def meet? (t : DomTable) (a b : Nat) : Option Nat :=
  if a = b then some a
  else if b < a then
    match t.up? a with
    | some a' => if a' < a then meet? t a' b else none
    | none => none
  else
    match t.up? b with
    | some b' => if b' < b then meet? t a b' else none
    | none => none
termination_by a + b

/-- Where the ways from all of the given numbers meet. -/
def meetAll? (t : DomTable) (a : Nat) : List Nat → Option Nat
  | [] => some a
  | b :: bs =>
    match t.meet? a b with
    | some c => t.meetAll? c bs
    | none => none

/-- The table with row `k` taken from the predecessors that are known. -/
def updateRow? (t : DomTable) (k : Nat) (preds : List Nat) : Option DomTable :=
  match preds.filter fun p => (t.up? p).isSome with
  | [] => some t
  | p :: ps => (t.meetAll? p ps).map fun d => t.setIfInBounds k (some d)

/-- One sweep over the rows, each a number and its predecessors. -/
def sweep? (t : DomTable) : List (Nat × List Nat) → Option DomTable
  | [] => some t
  | (k, preds) :: rows =>
    match t.updateRow? k preds with
    | some t' => t'.sweep? rows
    | none => none

/-- The sum of the rows, an unknown one counting as much as the table has rows. -/
def weight (t : DomTable) : Nat := t.toList.foldr (fun row n => row.getD t.size + n) 0

/-- Sweeps until nothing changes. -/
def settle? (rows : List (Nat × List Nat)) (t : DomTable) : Option DomTable :=
  match t.sweep? rows with
  | none => none
  | some t' =>
    if t' = t then some t
    else if t'.weight < t.weight then settle? rows t' else none
termination_by t.weight

/-- Whether `a` is met on the way from `b` to the entry. -/
def above? (t : DomTable) (a b : Nat) : Option Bool :=
  if a = b then some true
  else
    match t.up? b with
    | none => none
    | some b' =>
      if b' = b then some false
      else if b' < b then above? t a b' else none
termination_by b

@[simp] theorem meet?_self (t : DomTable) (a : Nat) : t.meet? a a = some a := by
  unfold meet?
  simp

@[simp] theorem above?_self (t : DomTable) (a : Nat) : t.above? a a = some true := by
  unfold above?
  simp

end DomTable

end LoopSwap
