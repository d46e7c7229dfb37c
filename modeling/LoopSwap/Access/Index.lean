/-
**Index expressions as text.**

An index is written by walking from its operand back through the definitions: a cast is passed
over, a load shows the name of what it reads, a constant shows in decimal, and a binary operation
shows its two operands with its sign between.  Everything else shows as nothing.  No parentheses
are written.

Definitions may form a cycle, since a name may be used before it is defined.  The writer therefore
keeps the instructions it is inside of, its *path*, and does not enter one of them again.  When it
comes back from an operand the path is what it was before.

Main definitions:

* `LoopSwap.IndexWriter` — the text so far and the path;
* `LoopSwap.IndexWriter.visit?` — writing one operand;
* `LoopSwap.Func.indexText?` — the text of one operand;
* `LoopSwap.Func.joinedText?` — the text of several, written one after the other.

Main results:

* `LoopSwap.offPath_lt` — entering an instruction leaves fewer to enter.
-/

import LoopSwap.Code.Query

set_option relaxedAutoImplicit false
set_option autoImplicit false

namespace LoopSwap

/-! ### The instructions off the path -/

/-- How many instructions of the function are not on the path. -/
def offPath (f : Func) (path : List InstId) : Nat :=
  (List.range f.insts.size).countP fun k => ⟨k⟩ ∉ path

/-- Entering an instruction leaves fewer to enter. -/
theorem offPath_lt {f : Func} {path : List InstId} {i : InstId} {inst : Inst}
    (hi : f.inst? i = some inst) (hpath : i ∉ path) : offPath f (i :: path) < offPath f path := by
  have hlt : i.index < f.insts.size := by
    have : (f.inst? i).isSome = true := by simp [hi]
    simpa [Func.inst?] using this
  have hmem : i.index ∈ List.range f.insts.size := List.mem_range.2 hlt
  have hsplit : ∀ l : List Nat, i.index ∈ l →
      l.countP (fun k => decide ((⟨k⟩ : InstId) ∉ i :: path)) <
        l.countP (fun k => decide ((⟨k⟩ : InstId) ∉ path)) := by
    intro l
    induction l with
    | nil => intro h; cases h
    | cons k ks ih =>
        intro h
        have hle : ks.countP (fun k => decide ((⟨k⟩ : InstId) ∉ i :: path)) ≤
            ks.countP (fun k => decide ((⟨k⟩ : InstId) ∉ path)) := by
          apply List.countP_mono_left
          intro k _ hk
          simp only [List.mem_cons, not_or, decide_eq_true_eq] at hk ⊢
          exact hk.2
        by_cases hk : k = i.index
        · subst hk
          have hout : ¬ (decide ((⟨i.index⟩ : InstId) ∉ i :: path) = true) := by simp
          have hin : decide ((⟨i.index⟩ : InstId) ∉ path) = true := decide_eq_true hpath
          simp only [List.countP_cons]
          rw [if_neg hout, if_pos hin]
          omega
        · have hne : (⟨k⟩ : InstId) ≠ i := fun heq => hk (by rw [← heq])
          have hks : i.index ∈ ks := (List.mem_cons.1 h).resolve_left (Ne.symm hk)
          have := ih hks
          simp only [List.countP_cons]
          simp only [List.mem_cons, hne, false_or] at this ⊢
          omega
  exact hsplit _ hmem

/-! ### Writing -/

/-- The text written so far, and the instructions the writer is inside of, the innermost first. -/
structure IndexWriter where
  text : String
  path : List InstId

namespace IndexWriter

/-- The writer before anything is written. -/
def empty : IndexWriter := ⟨"", []⟩

/-- Writes a text. -/
def write (w : IndexWriter) (s : String) : IndexWriter := { w with text := w.text ++ s }

/-- Enters an instruction. -/
def enter (w : IndexWriter) (i : InstId) : IndexWriter := { w with path := i :: w.path }

/-- Leaves the innermost instruction. -/
def leave (w : IndexWriter) : IndexWriter := { w with path := w.path.tail }

/-- Writes an operand.  There is no text if an id on the way names no instruction. -/
def visit? (f : Func) (w : IndexWriter) (o : Operand) :
    Option { w' : IndexWriter // w'.path = w.path } :=
  match o with
  | .const value => some ⟨w.write (Func.literalText value), rfl⟩
  | .location _ => some ⟨w, rfl⟩
  | .value i =>
    if hpath : i ∈ w.path then some ⟨w, rfl⟩
    else
      match hi : f.inst? i with
      | none => none
      | some inst =>
        match inst.op with
        | .const value => some ⟨w.write (Func.literalText value), rfl⟩
        | .load addr => (f.operandText? addr).map fun s => ⟨w.write s, rfl⟩
        | .cast _ value =>
          match visit? f (w.enter i) value with
          | none => none
          | some w₁ => some ⟨w₁.1.leave, by simp [leave, enter, w₁.2]⟩
        | .binary op lhs rhs =>
          match visit? f (w.enter i) lhs with
          | none => none
          | some w₁ =>
            match visit? f (w₁.1.write (op.symbol?.getD "")) rhs with
            | none => none
            | some w₂ => some ⟨w₂.1.leave, by simp [leave, enter, write, w₁.2, w₂.2]⟩
        | _ => some ⟨w, rfl⟩
termination_by offPath f w.path
decreasing_by
  · exact offPath_lt hi hpath
  · exact offPath_lt hi hpath
  · simp only [write, w₁.2, enter]
    exact offPath_lt hi hpath

/-- Writes operands one after the other. -/
def visitAll? (f : Func) (w : IndexWriter) : List Operand → Option IndexWriter
  | [] => some w
  | o :: os =>
    match w.visit? f o with
    | none => none
    | some w' => w'.1.visitAll? f os

end IndexWriter

namespace Func

/-- The text of an index. -/
def indexText? (f : Func) (o : Operand) : Option String :=
  (IndexWriter.empty.visit? f o).map fun w => w.1.text

/-- The text of several indices, written by one writer. -/
def joinedText? (f : Func) (os : List Operand) : Option String :=
  (IndexWriter.empty.visitAll? f os).map (·.text)

/-- The texts of several indices, one after the other. -/
def indexTexts? (f : Func) : List Operand → Option String
  | [] => some ""
  | o :: os =>
    match f.indexText? o, f.indexTexts? os with
    | some s, some t => some (s ++ t)
    | _, _ => none

@[simp] theorem indexText?_const (f : Func) (value : Int64) :
    f.indexText? (.const value) = some (literalText value) := by
  simp [indexText?, IndexWriter.visit?, IndexWriter.write, IndexWriter.empty]

@[simp] theorem indexText?_location (f : Func) (name : String) :
    f.indexText? (.location name) = some "" := by
  simp [indexText?, IndexWriter.visit?, IndexWriter.empty]

end Func

end LoopSwap
