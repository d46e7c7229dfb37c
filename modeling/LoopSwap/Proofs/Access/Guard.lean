/-
**The guard against cycles.**

A writer of index texts does not enter an instruction that it is inside of.  Without this guard, the
text would be found by plain recursion, which need not come back.  What plain recursion comes back
with is given here by derivations, and where there is none it does not come back.

There is a derivation exactly where no cycle of casts and operations can be reached.  There the
guard changes nothing: on the way down the writer is inside of what it came through, and of nothing
else, however often an instruction is used.

Main definitions:

* `LoopSwap.Operation.Silent` — operations for which nothing is written;
* `LoopSwap.Func.PlainText` — the text of an index by plain recursion.

Main results:

* `LoopSwap.Func.PlainText.acyclic` — where plain recursion comes back, no cycle is reached;
* `LoopSwap.IndexWriter.after?_of_plainText` — the writer writes what plain recursion finds;
* `LoopSwap.Func.plainText_iff_indexText?` — where plain recursion comes back, and with what.
-/

import LoopSwap.Proofs.Access.Expression

set_option relaxedAutoImplicit false
set_option autoImplicit false

namespace LoopSwap

/-- The operation is passed over: nothing is written for it. -/
def Operation.Silent : Operation → Prop
  | const _ | load _ | cast _ _ | binary _ _ _ => False
  | _ => True

variable {f : Func} {i : InstId} {op : Operation} {o o' : Operand} {s : String}

theorem Operation.Silent.written_eq_nil (h : op.Silent) : op.written = [] := by
  cases op with
  | cast c value => exact h.elim
  | binary op lhs rhs => exact h.elim
  | _ => rfl

/-! ### Without the guard -/

namespace Func

/-- Plain recursion comes back from an operand with a text. -/
inductive PlainText (f : Func) : Operand → String → Prop
  | const (value : Int64) : PlainText f (.const value) (literalText value)
  | location (name : String) : PlainText f (.location name) ""
  | literal {i : InstId} {value : Int64} : f.op? i = some (.const value) →
      PlainText f (.value i) (literalText value)
  | load {i : InstId} {addr : Operand} {s : String} : f.op? i = some (.load addr) →
      f.operandText? addr = some s → PlainText f (.value i) s
  | cast {i : InstId} {c : CastOp} {value : Operand} {s : String} :
      f.op? i = some (.cast c value) → PlainText f value s → PlainText f (.value i) s
  | binary {i : InstId} {op : BinaryOp} {lhs rhs : Operand} {s t : String} :
      f.op? i = some (.binary op lhs rhs) → PlainText f lhs s → PlainText f rhs t →
      PlainText f (.value i) (s ++ op.symbol?.getD "" ++ t)
  | silent {i : InstId} {op : Operation} : f.op? i = some op → op.Silent →
      PlainText f (.value i) ""

theorem enters_value_iff (hop : f.op? i = some op) : f.Enters (.value i) o ↔ o ∈ op.written := by
  constructor
  · rintro ⟨i', op', heq, hop', hmem⟩
    cases heq
    obtain rfl := Option.some.inj (hop.symm.trans hop')
    exact hmem
  · intro hmem
    exact ⟨i, op, rfl, hop, hmem⟩

/-- Where an operand leads nowhere, there is no cycle. -/
theorem acyclic_of_written_eq_nil (hop : f.op? i = some op) (h : op.written = []) :
    f.Acyclic (.value i) := by
  refine .of_enters fun o' ho' => ?_
  rw [enters_value_iff hop, h] at ho'
  cases ho'

namespace PlainText

/-- Where plain recursion comes back, no cycle is reached. -/
theorem acyclic (h : f.PlainText o s) : f.Acyclic o := by
  induction h with
  | const value =>
      refine .of_enters ?_
      rintro o' ⟨i, op, ⟨⟩, -⟩
  | location name =>
      refine .of_enters ?_
      rintro o' ⟨i, op, ⟨⟩, -⟩
  | literal hop => exact acyclic_of_written_eq_nil hop rfl
  | load hop _ => exact acyclic_of_written_eq_nil hop rfl
  | cast hop _ ih =>
      refine .of_enters fun o' ho' => ?_
      rw [enters_value_iff hop] at ho'
      rw [List.mem_singleton.1 ho']
      exact ih
  | binary hop _ _ ihl ihr =>
      refine .of_enters fun o' ho' => ?_
      rw [enters_value_iff hop] at ho'
      rcases List.mem_pair.1 ho' with rfl | rfl
      · exact ihl
      · exact ihr
  | silent hop hsilent => exact acyclic_of_written_eq_nil hop hsilent.written_eq_nil

end PlainText

end Func

namespace IndexWriter

variable {w w' : IndexWriter}

@[simp] theorem write_empty (w : IndexWriter) : w.write "" = w := by
  simp [write]

theorem afterOp?_silent (h : op.Silent) : w.afterOp? f i op = some w := by
  cases op with
  | const value => exact h.elim
  | load addr => exact h.elim
  | cast c value => exact h.elim
  | binary op lhs rhs => exact h.elim
  | _ => rfl

/-- On the way to an operand from which plain recursion comes back, the writer is not inside of
it. -/
theorem not_mem_path_of_plainText (h : f.PlainText (.value i) s)
    (hpath : ∀ j ∈ w.path, Relation.TransGen f.Enters (.value j) (.value i)) : i ∉ w.path := by
  intro hi
  exact h.acyclic _ .refl (hpath i hi)

/-- Inside of an instruction, the path still leads to what is written next. -/
theorem path_enters (w' : IndexWriter) (hw : w'.path = i :: w.path) (hop : f.op? i = some op)
    (ho : o ∈ op.written)
    (hpath : ∀ j ∈ w.path, Relation.TransGen f.Enters (.value j) (.value i)) :
    ∀ j ∈ w'.path, Relation.TransGen f.Enters (.value j) o := by
  intro j hj
  have hinto : f.Enters (.value i) o := (Func.enters_value_iff hop).2 ho
  rw [hw] at hj
  rcases List.mem_cons.1 hj with rfl | hj
  · exact .single hinto
  · exact (hpath j hj).tail hinto

/-- **The guard changes nothing**: a writer that comes to an operand from outside writes what plain
recursion finds. -/
theorem after?_of_plainText (h : f.PlainText o s)
    (hpath : ∀ j ∈ w.path, Relation.TransGen f.Enters (.value j) o) :
    w.after? f o = some (w.write s) := by
  induction h generalizing w with
  | const value => exact after?_const f w value
  | location name => rw [after?_location, write_empty]
  | literal hop =>
      have hi := not_mem_path_of_plainText (.literal hop) hpath
      rw [after?_value hi hop, afterOp?]
  | load hop hs =>
      have hi := not_mem_path_of_plainText (.load hop hs) hpath
      rw [after?_value hi hop, afterOp?, hs, Option.map_some]
  | @cast i c value s hop hv ih =>
      have hi := not_mem_path_of_plainText (.cast hop hv) hpath
      have hvalue := ih (path_enters (w.enter i) rfl hop List.mem_cons_self hpath)
      rw [after?_value hi hop, afterOp?, hvalue, Option.map_some, leave_write_enter]
  | @binary i op lhs rhs s t hop hl hr ihl ihr =>
      have hi := not_mem_path_of_plainText (.binary hop hl hr) hpath
      have hlhs := ihl (path_enters (w.enter i) rfl hop List.mem_cons_self hpath)
      have hrhs := ihr (path_enters (((w.enter i).write s).write (op.symbol?.getD "")) rfl hop
        (List.mem_cons_of_mem _ List.mem_cons_self) hpath)
      rw [after?_value hi hop, afterOp?, hlhs, Option.bind_some, hrhs, Option.map_some, write_write,
        write_write, leave_write_enter, String.append_assoc]
  | silent hop hsilent =>
      have hi := not_mem_path_of_plainText (.silent hop hsilent) hpath
      rw [after?_value hi hop, afterOp?_silent hsilent, write_empty]

end IndexWriter

namespace Func

/-- Where no cycle is reached, plain recursion comes back. -/
theorem exists_plainText (hf : f.InRange) (ho : f.Knows o) (hacyclic : f.Acyclic o) :
    ∃ s, f.PlainText o s := by
  revert ho
  refine IndexWriter.acyclic_induction f (motive := fun _ o => f.Knows o → ∃ s, f.PlainText o s)
    ?const ?location ?unknown ?enter .empty o hacyclic (fun j hj => nomatch hj)
  case const => exact fun _ value _ => ⟨_, .const value⟩
  case location => exact fun _ name _ => ⟨_, .location name⟩
  case unknown =>
    intro _ i _ hop ho
    have hsome := ho i rfl
    simp [hop] at hsome
  case enter =>
    intro w i _ op hop ih _
    have hknows := hf i op hop
    cases op with
    | const value => exact ⟨_, .literal hop⟩
    | load addr =>
        have htext := (hknows addr List.mem_cons_self).operandText?_isSome
        obtain ⟨s, hs⟩ := Option.isSome_iff_exists.1 htext
        exact ⟨s, .load hop hs⟩
    | cast c value =>
        have hmem : value ∈ (Operation.cast c value).written := List.mem_cons_self
        obtain ⟨s, hs⟩ := ih (w.enter i) value rfl hmem (hknows value List.mem_cons_self)
        exact ⟨s, .cast hop hs⟩
    | binary op lhs rhs =>
        have hl : lhs ∈ [lhs, rhs] := List.mem_cons_self
        have hr : rhs ∈ [lhs, rhs] := List.mem_cons_of_mem _ List.mem_cons_self
        obtain ⟨s, hs⟩ := ih (w.enter i) lhs rfl hl (hknows lhs hl)
        obtain ⟨t, ht⟩ := ih (w.enter i) rhs rfl hr (hknows rhs hr)
        exact ⟨_, .binary hop hs ht⟩
    | _ => exact ⟨"", .silent hop trivial⟩

theorem PlainText.indexText?_eq (h : f.PlainText o s) : f.indexText? o = some s := by
  have hafter : IndexWriter.empty.after? f o = some (IndexWriter.empty.write s) :=
    IndexWriter.after?_of_plainText h fun j hj => nomatch hj
  rw [Func.indexText?_eq, hafter]
  simp [IndexWriter.write, IndexWriter.empty]

/-- **The guard changes nothing where no cycle is reached.**  Plain recursion comes back from an
operand if no cycle of casts and operations is reached from it, and what it comes back with then is
the text of the index.  It never comes back otherwise. -/
theorem plainText_iff_indexText? (hf : f.InRange) (ho : f.Knows o) :
    (f.Acyclic o → ∃ s, f.PlainText o s) ∧
      ∀ s, f.PlainText o s ↔ f.Acyclic o ∧ f.indexText? o = some s := by
  have hback : f.Acyclic o → ∃ s, f.PlainText o s := exists_plainText hf ho
  refine ⟨hback, fun s => ⟨fun h => ⟨h.acyclic, h.indexText?_eq⟩, ?_⟩⟩
  rintro ⟨hacyclic, htext⟩
  obtain ⟨t, ht⟩ := hback hacyclic
  obtain rfl := Option.some.inj (htext.symm.trans ht.indexText?_eq)
  exact ht

/-- A quotient of a difference by itself, and two results each of which is computed from the
other. -/
def tangledText : String :=
  "f() \x7b\nentry: %x = load @i\n %d = sub %x, -4\n %q = sdiv %d, %d\n" ++
    " %a = add %b, 1\n %b = mul %a, %d\n ret\n\x7d"

/-- The function of that text. -/
def tangled : Func := .ofBlocks "f" [
  ("entry", [(some "x", .load (.location "i")),
    (some "d", .binary .sub (.value ⟨0⟩) (.const (-4))),
    (some "q", .binary .sdiv (.value ⟨1⟩) (.value ⟨1⟩)),
    (some "a", .binary .add (.value ⟨4⟩) (.const 1)),
    (some "b", .binary .mul (.value ⟨3⟩) (.value ⟨1⟩)), (none, .ret none)])]

theorem inRange_tangled : tangled.InRange := by
  have hread : Program.read tangledText = .ok ⟨[tangled]⟩ := by decide +kernel
  exact (Program.legible_of_read hread tangled (List.mem_singleton_self _)).inRange

/-- In that function the quotient has its text also without the guard, and the sum has none. -/
theorem plainText_iff_indexText?_tangled :
    tangled.InRange ∧ tangled.Knows (.value ⟨2⟩) ∧ tangled.Knows (.value ⟨3⟩) ∧
      tangled.Acyclic (.value ⟨2⟩) ∧ tangled.PlainText (.value ⟨2⟩) "i--4/i--4" ∧
      ¬ tangled.Acyclic (.value ⟨3⟩) ∧ ∀ s, ¬ tangled.PlainText (.value ⟨3⟩) s := by
  have hquotient : tangled.Knows (.value ⟨2⟩) := by decide
  have hsum : tangled.Knows (.value ⟨3⟩) := by decide
  have hacyclic : tangled.Acyclic (.value ⟨2⟩) := .of_before (n := 3) (by decide) (by decide)
  have hcycle : ¬ tangled.Acyclic (.value ⟨3⟩) := by
    intro h
    have hthere : tangled.Enters (.value ⟨3⟩) (.value ⟨4⟩) :=
      ⟨_, _, rfl, rfl, List.mem_cons_self⟩
    have hback : tangled.Enters (.value ⟨4⟩) (.value ⟨3⟩) :=
      ⟨_, _, rfl, rfl, List.mem_cons_self⟩
    exact h _ .refl (.tail (.single hthere) hback)
  have htext : tangled.indexText? (.value ⟨2⟩) = some "i--4/i--4" := by decide +kernel
  refine ⟨inRange_tangled, hquotient, hsum, hacyclic, ?_, hcycle, ?_⟩
  · exact ((plainText_iff_indexText? inRange_tangled hquotient).2 _).2 ⟨hacyclic, htext⟩
  · intro s hs
    exact hcycle (((plainText_iff_indexText? inRange_tangled hsum).2 s).1 hs).1

end Func

end LoopSwap
