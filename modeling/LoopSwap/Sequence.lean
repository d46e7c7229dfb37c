/-
**Steps that may fail, one after the other.**

A reader or a check is a sequence of steps, and the first step that fails is the answer.

Main results:

* `LoopSwap.ok_bind`, `LoopSwap.error_bind` — how a sequence goes on after its first step;
* `LoopSwap.bind_eq_ok` — a sequence of two succeeds exactly if both steps do;
* `LoopSwap.map_bind_eq` — two sequences whose steps correspond have outcomes that correspond.
-/

set_option relaxedAutoImplicit false
set_option autoImplicit false

namespace LoopSwap

variable {ε α β : Type}

@[simp] theorem ok_bind (a : α) (g : α → Except ε β) : (Except.ok a >>= g) = g a := rfl

@[simp] theorem error_bind (e : ε) (g : α → Except ε β) :
    (Except.error e >>= g) = Except.error e := rfl

/-- A sequence of two steps succeeds exactly if both do. -/
theorem bind_eq_ok {x : Except ε α} {g : α → Except ε β} {b : β} :
    (x >>= g) = .ok b ↔ ∃ a, x = .ok a ∧ g a = .ok b := by
  cases x with
  | error e => exact ⟨fun h => (nomatch h), fun ⟨_, h, _⟩ => (nomatch h)⟩
  | ok a =>
      refine ⟨fun h => ⟨a, rfl, h⟩, ?_⟩
      rintro ⟨_, ⟨⟩, h⟩
      exact h

/-- A first step with another result, followed by a step that makes up for it. -/
theorem map_bind_eq {α' β' : Type} {x : Except ε α} {u : α → α'} {v : β → β'}
    {g : α → Except ε β} {g' : α' → Except ε β'}
    (h : ∀ a, x = .ok a → g' (u a) = (g a).map v) : (x.map u >>= g') = (x >>= g).map v := by
  cases x with
  | error e => rfl
  | ok a => exact h a rfl

end LoopSwap
