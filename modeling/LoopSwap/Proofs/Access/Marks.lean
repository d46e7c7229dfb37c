/-
**One writer for many operands.**

A writer that only puts marks on instructions and takes them off again forgets in which order it
came through the marked ones, and nothing in its recursion gets smaller.  What it does is given
here by derivations.  It does what the writer with a path does, since each visit takes off the
marks that it has put on, and none else.  So it always comes back, and with no mark left.

What a writer writes for an operand depends on its path and not on what it has written before.
Outside of all instructions, that is the text of the index.

Main definitions:

* `LoopSwap.MarkingWriter` — a writer that marks the instructions it is inside of;
* `LoopSwap.MarkingWriter.Visits` — what becomes of it at an operand.

Main results:

* `LoopSwap.IndexWriter.marking_visits_iff` — a writer with marks does what a writer with a path
  does;
* `LoopSwap.IndexWriter.exists_written?` — what is written for an operand depends on the path only;
* `LoopSwap.Func.joinedText?_eq_indexTexts?` — one writer for many operands writes their texts, and
  no mark is left after any of them.
-/

import LoopSwap.Proofs.Access.Guard
import Mathlib.Data.Finset.Basic
import Mathlib.Data.Finset.Dedup

set_option relaxedAutoImplicit false
set_option autoImplicit false

namespace LoopSwap

variable {f : Func} {i : InstId} {op : Operation} {o : Operand} {s : String}

/-! ### Marks -/

/-- The text written so far, and the instructions the writer is inside of, in no order. -/
structure MarkingWriter where
  text : String
  marks : Finset InstId
  deriving DecidableEq

namespace MarkingWriter

/-- The writer before anything is written. -/
def empty : MarkingWriter := ⟨"", ∅⟩

/-- Writes a text. -/
def write (w : MarkingWriter) (s : String) : MarkingWriter := { w with text := w.text ++ s }

/-- Puts a mark on an instruction. -/
def mark (w : MarkingWriter) (i : InstId) : MarkingWriter := { w with marks := insert i w.marks }

/-- Takes the mark off an instruction. -/
def unmark (w : MarkingWriter) (i : InstId) : MarkingWriter := { w with marks := w.marks.erase i }

/-- What becomes of a writer at an operand, if it comes back.  A marked instruction is passed over;
any other one has a mark while the writer is inside of it. -/
inductive Visits (f : Func) : MarkingWriter → Operand → MarkingWriter → Prop
  | const (w : MarkingWriter) (value : Int64) :
      Visits f w (.const value) (w.write (Func.literalText value))
  | location (w : MarkingWriter) (name : String) : Visits f w (.location name) w
  | marked {w : MarkingWriter} {i : InstId} : i ∈ w.marks → Visits f w (.value i) w
  | literal {w : MarkingWriter} {i : InstId} {value : Int64} : i ∉ w.marks →
      f.op? i = some (.const value) →
      Visits f w (.value i) (((w.mark i).write (Func.literalText value)).unmark i)
  | load {w : MarkingWriter} {i : InstId} {addr : Operand} {s : String} : i ∉ w.marks →
      f.op? i = some (.load addr) → f.operandText? addr = some s →
      Visits f w (.value i) (((w.mark i).write s).unmark i)
  | cast {w w₁ : MarkingWriter} {i : InstId} {c : CastOp} {value : Operand} : i ∉ w.marks →
      f.op? i = some (.cast c value) → Visits f (w.mark i) value w₁ →
      Visits f w (.value i) (w₁.unmark i)
  | binary {w w₁ w₂ : MarkingWriter} {i : InstId} {op : BinaryOp} {lhs rhs : Operand} :
      i ∉ w.marks → f.op? i = some (.binary op lhs rhs) → Visits f (w.mark i) lhs w₁ →
      Visits f (w₁.write (op.symbol?.getD "")) rhs w₂ → Visits f w (.value i) (w₂.unmark i)
  | silent {w : MarkingWriter} {i : InstId} {op : Operation} : i ∉ w.marks →
      f.op? i = some op → op.Silent → Visits f w (.value i) ((w.mark i).unmark i)

/-- What becomes of a writer at operands one after the other. -/
inductive VisitsAll (f : Func) : MarkingWriter → List Operand → MarkingWriter → Prop
  | nil (w : MarkingWriter) : VisitsAll f w [] w
  | cons {w w₁ w₂ : MarkingWriter} {o : Operand} {os : List Operand} : Visits f w o w₁ →
      VisitsAll f w₁ os w₂ → VisitsAll f w (o :: os) w₂

variable {w : MarkingWriter}

@[simp] theorem unmark_mark (h : i ∉ w.marks) : (w.mark i).unmark i = w := by
  simp [unmark, mark, h]

@[simp] theorem unmark_write_mark (h : i ∉ w.marks) :
    ((w.mark i).write s).unmark i = w.write s := by
  simp [unmark, mark, write, h]

end MarkingWriter

namespace IndexWriter

variable {w : IndexWriter} {u : MarkingWriter}

/-- The writer that has marks where this one has its path. -/
def marking (w : IndexWriter) : MarkingWriter := ⟨w.text, w.path.toFinset⟩

@[simp] theorem mem_marks_marking : i ∈ w.marking.marks ↔ i ∈ w.path := by
  simp [marking]

theorem marking_write (w : IndexWriter) (s : String) :
    (w.write s).marking = w.marking.write s := rfl

theorem marking_enter (w : IndexWriter) (i : InstId) : (w.enter i).marking = w.marking.mark i := by
  simp [marking, enter, MarkingWriter.mark]

/-- Leaving an instruction takes off its mark. -/
theorem marking_leave {path : List InstId} (hw : w.path = i :: path) (hi : i ∉ path) :
    w.leave.marking = w.marking.unmark i := by
  have hmarks : i ∉ path.toFinset := by simpa using hi
  simp [marking, leave, MarkingWriter.unmark, hw, hmarks]

/-- Where a writer with marks comes back, the writer with the path does the same. -/
theorem exists_after?_of_visits {v : MarkingWriter} (h : v.Visits f o u) :
    ∀ {w : IndexWriter}, w.marking = v → ∃ w', w.after? f o = some w' ∧ w'.marking = u := by
  induction h with
  | const v value =>
      rintro w rfl
      exact ⟨_, after?_const f w value, marking_write w _⟩
  | location v name =>
      rintro w rfl
      exact ⟨w, after?_location f w name, rfl⟩
  | marked hi =>
      rintro w rfl
      exact ⟨w, after?_back f (mem_marks_marking.1 hi), rfl⟩
  | @literal v i value hi hop =>
      rintro w rfl
      have hpath : i ∉ w.path := mt mem_marks_marking.2 hi
      refine ⟨_, after?_value hpath hop, ?_⟩
      rw [MarkingWriter.unmark_write_mark hi, marking_write]
  | @load v i addr s hi hop hs =>
      rintro w rfl
      have hpath : i ∉ w.path := mt mem_marks_marking.2 hi
      refine ⟨w.write s, ?_, ?_⟩
      · rw [after?_value hpath hop, afterOp?, hs, Option.map_some]
      · rw [MarkingWriter.unmark_write_mark hi, marking_write]
  | @cast v v₁ i c value hi hop _ ih =>
      rintro w rfl
      have hpath : i ∉ w.path := mt mem_marks_marking.2 hi
      obtain ⟨w₁, hw₁, rfl⟩ := ih (marking_enter w i)
      refine ⟨w₁.leave, ?_, marking_leave (path_after? hw₁) hpath⟩
      rw [after?_value hpath hop, afterOp?, hw₁, Option.map_some]
  | @binary v v₁ v₂ i op lhs rhs hi hop _ _ ihl ihr =>
      rintro w rfl
      have hpath : i ∉ w.path := mt mem_marks_marking.2 hi
      obtain ⟨w₁, hw₁, rfl⟩ := ihl (marking_enter w i)
      -- the second operand is written with the marks that the first one has left
      obtain ⟨w₂, hw₂, rfl⟩ := ihr (marking_write w₁ _)
      have hinside : w₂.path = i :: w.path := (path_after? hw₂).trans (path_after? hw₁)
      refine ⟨w₂.leave, ?_, marking_leave hinside hpath⟩
      rw [after?_value hpath hop, afterOp?, hw₁, Option.bind_some, hw₂, Option.map_some]
  | @silent v i op hi hop hsilent =>
      rintro w rfl
      have hpath : i ∉ w.path := mt mem_marks_marking.2 hi
      refine ⟨w, ?_, (MarkingWriter.unmark_mark hi).symm⟩
      rw [after?_value hpath hop, afterOp?_silent hsilent]

/-- With ids in range, a writer with marks comes back. -/
theorem exists_visits (hf : f.InRange) (w : IndexWriter) (o : Operand) (ho : f.Knows o) :
    ∃ u, w.marking.Visits f o u := by
  revert ho
  induction w, o using path_induction f with
  | const w value => exact fun _ => ⟨_, .const _ value⟩
  | location w name => exact fun _ => ⟨_, .location _ name⟩
  | back w i hi => exact fun _ => ⟨_, .marked (mem_marks_marking.2 hi)⟩
  | unknown w i hi hop =>
      intro ho
      have hsome := ho i rfl
      simp [hop] at hsome
  | enter w i hi op hop ih =>
      intro _
      have hknows := hf i op hop
      have hmarks : i ∉ w.marking.marks := mt mem_marks_marking.1 hi
      cases op with
      | const value => exact ⟨_, .literal hmarks hop⟩
      | load addr =>
          have htext := (hknows addr List.mem_cons_self).operandText?_isSome
          obtain ⟨s, hs⟩ := Option.isSome_iff_exists.1 htext
          exact ⟨_, .load hmarks hop hs⟩
      | cast c value =>
          obtain ⟨u, hu⟩ := ih (w.enter i) value rfl (hknows value List.mem_cons_self)
          rw [marking_enter] at hu
          exact ⟨_, .cast hmarks hop hu⟩
      | binary op lhs rhs =>
          obtain ⟨u, hu⟩ := ih (w.enter i) lhs rfl (hknows lhs List.mem_cons_self)
          obtain ⟨w₁, hw₁, rfl⟩ := exists_after?_of_visits hu rfl
          obtain ⟨v, hv⟩ := ih (w₁.write (op.symbol?.getD "")) rhs (path_after? hw₁)
            (hknows rhs (List.mem_cons_of_mem _ List.mem_cons_self))
          rw [marking_enter] at hu
          exact ⟨_, .binary hmarks hop hu hv⟩
      | _ => exact ⟨_, .silent hmarks hop trivial⟩

/-- **A writer with marks does what a writer with a path does.** -/
theorem marking_visits_iff (hf : f.InRange) (ho : f.Knows o) :
    w.marking.Visits f o u ↔ ∃ w', w.after? f o = some w' ∧ w'.marking = u := by
  constructor
  · intro h
    exact exists_after?_of_visits h rfl
  · rintro ⟨w', hw', rfl⟩
    obtain ⟨u, hu⟩ := exists_visits hf w o ho
    obtain ⟨w₁, hw₁, rfl⟩ := exists_after?_of_visits hu rfl
    obtain rfl := Option.some.inj (hw'.symm.trans hw₁)
    exact hu

/-! ### One writer for many operands -/

/-- What is written for an operand depends on the path, and not on what is already written. -/
theorem exists_written? (f : Func) (w : IndexWriter) (o : Operand) :
    ∃ s? : Option String, ∀ w' : IndexWriter, w'.path = w.path →
      w'.after? f o = s?.map w'.write := by
  induction w, o using path_induction f with
  | const w value => exact ⟨some (Func.literalText value), fun w' _ => after?_const f w' value⟩
  | location w name =>
      refine ⟨some "", fun w' _ => ?_⟩
      simp [after?_location]
  | back w i hi =>
      refine ⟨some "", fun w' hw' => ?_⟩
      rw [after?_back f (hw' ▸ hi), Option.map_some, write_empty]
  | unknown w i hi hop => exact ⟨none, fun w' hw' => after?_unknown (hw' ▸ hi) hop⟩
  | enter w i hi op hop ih =>
      have hafter : ∀ w' : IndexWriter, w'.path = w.path →
          w'.after? f (.value i) = w'.afterOp? f i op := fun w' hw' =>
        after?_value (hw' ▸ hi) hop
      cases op with
      | const value => exact ⟨some (Func.literalText value), hafter⟩
      | load addr => exact ⟨f.operandText? addr, hafter⟩
      | cast c value =>
          obtain ⟨s?, hs⟩ := ih (w.enter i) value rfl
          refine ⟨s?, fun w' hw' => ?_⟩
          have hinside : (w'.enter i).path = (w.enter i).path := congrArg (i :: ·) hw'
          rw [hafter w' hw', afterOp?, hs _ hinside, Option.map_map]
          rfl
      | binary op lhs rhs =>
          obtain ⟨s?, hs⟩ := ih (w.enter i) lhs rfl
          obtain ⟨t?, ht⟩ := ih (w.enter i) rhs rfl
          refine ⟨s?.bind fun s => t?.map fun t => s ++ (op.symbol?.getD "" ++ t), ?_⟩
          intro w' hw'
          have hinside : (w'.enter i).path = (w.enter i).path := congrArg (i :: ·) hw'
          rw [hafter w' hw', afterOp?, hs _ hinside]
          cases s? with
          | none => rfl
          | some s =>
              -- the text of the first operand does not change the path
              have hsecond := ht (((w'.enter i).write s).write (op.symbol?.getD "")) hinside
              rw [Option.map_some, Option.bind_some, hsecond]
              cases t? <;> simp [String.append_assoc]
      | _ => exact ⟨some "", fun w' hw' => by rw [hafter w' hw', Option.map_some, write_empty]; rfl⟩

/-- Outside of all instructions, a writer writes the text of the index. -/
theorem after?_of_path_eq_nil {w : IndexWriter} (hw : w.path = []) (f : Func) (o : Operand) :
    w.after? f o = (f.indexText? o).map w.write := by
  obtain ⟨s?, hs⟩ := exists_written? f empty o
  have htext : f.indexText? o = s? := by
    rw [Func.indexText?_eq, hs empty rfl, Option.map_map]
    cases s? <;> simp [write, empty]
  rw [htext, hs w hw]

theorem visitAll?_cons (w : IndexWriter) (f : Func) (o : Operand) (os : List Operand) :
    w.visitAll? f (o :: os) = (w.after? f o).bind fun w' => w'.visitAll? f os := by
  rw [visitAll?, after?]
  cases w.visit? f o <;> rfl

/-- So it does for many operands. -/
theorem visitAll?_of_path_eq_nil (f : Func) (os : List Operand) {w : IndexWriter}
    (hw : w.path = []) : w.visitAll? f os = (f.indexTexts? os).map w.write := by
  induction os generalizing w with
  | nil => simp [visitAll?, Func.indexTexts?]
  | cons o os ih =>
      rw [visitAll?_cons, after?_of_path_eq_nil hw, Func.indexTexts?]
      cases f.indexText? o with
      | none => rfl
      | some s =>
          have hrest : (w.write s).visitAll? f os = _ := ih hw
          rw [Option.map_some, Option.bind_some, hrest]
          cases f.indexTexts? os <;> simp

/-- A writer with marks does the same as one with a path at many operands, too. -/
theorem marking_visitsAll_iff (hf : f.InRange) {os : List Operand} (hos : ∀ o ∈ os, f.Knows o) :
    w.marking.VisitsAll f os u ↔ ∃ w', w.visitAll? f os = some w' ∧ w'.marking = u := by
  induction os generalizing w with
  | nil =>
      constructor
      · rintro ⟨⟩
        exact ⟨w, rfl, rfl⟩
      · rintro ⟨w', hw', rfl⟩
        cases hw'
        exact .nil _
  | cons o os ih =>
      have hrest : ∀ o' ∈ os, f.Knows o' := fun o' ho' => hos o' (List.mem_cons_of_mem _ ho')
      have hvisit := fun v => marking_visits_iff (w := w) (u := v) hf (hos o List.mem_cons_self)
      rw [visitAll?_cons]
      constructor
      · rintro (_ | ⟨h, h'⟩)
        obtain ⟨w₁, hw₁, rfl⟩ := (hvisit _).1 h
        rw [hw₁, Option.bind_some]
        exact (ih hrest).1 h'
      · rintro ⟨w', hw', rfl⟩
        obtain ⟨w₁, hw₁, hw'⟩ := Option.bind_eq_some_iff.1 hw'
        exact .cons ((hvisit _).2 ⟨w₁, hw₁, rfl⟩) ((ih hrest).2 ⟨w', hw', rfl⟩)

end IndexWriter

namespace Func

/-- **Operands do not disturb each other.**  One writer writes for many operands what it writes for
each of them, one after the other; it comes back, whatever cycles there are; and after each of the
operands no mark is left. -/
theorem joinedText?_eq_indexTexts? (hf : f.InRange) {os : List Operand}
    (hos : ∀ o ∈ os, f.Knows o) :
    (∃ s, f.indexTexts? os = some s ∧ f.joinedText? os = some s) ∧
      ∀ done, done <+: os → ∃ s, f.indexTexts? done = some s ∧
        ∀ w, MarkingWriter.empty.VisitsAll f done w ↔ w = ⟨s, ∅⟩ := by
  have hwriter : ∀ done, done <+: os → ∃ s, f.indexTexts? done = some s ∧
      IndexWriter.empty.visitAll? f done = some (IndexWriter.empty.write s) := by
    intro done hdone
    have hknows : ∀ o ∈ done, f.Knows o := fun o ho => hos o (hdone.subset ho)
    obtain ⟨s, hs⟩ := Option.isSome_iff_exists.1 (hf.indexTexts?_isSome hknows)
    refine ⟨s, hs, ?_⟩
    rw [IndexWriter.visitAll?_of_path_eq_nil f done rfl, hs, Option.map_some]
  have htext : ∀ s, (IndexWriter.empty.write s).text = s := by
    intro s
    simp [IndexWriter.write, IndexWriter.empty]
  constructor
  · obtain ⟨s, hs, hwritten⟩ := hwriter os List.prefix_rfl
    refine ⟨s, hs, ?_⟩
    rw [joinedText?, hwritten, Option.map_some, htext]
  · intro done hdone
    obtain ⟨s, hs, hwritten⟩ := hwriter done hdone
    refine ⟨s, hs, fun w => ?_⟩
    have hmarking : (IndexWriter.empty.write s).marking = ⟨s, ∅⟩ := by
      rw [IndexWriter.marking, htext]
      rfl
    have hempty : MarkingWriter.empty = IndexWriter.empty.marking := rfl
    rw [hempty, IndexWriter.marking_visitsAll_iff hf fun o ho => hos o (hdone.subset ho), hwritten]
    simp [hmarking, eq_comm]

/-- In a cycle of two definitions, the first one is passed over when the second one comes back to
it, and the other way round if one begins with the second. -/
theorem joinedText?_eq_indexTexts?_tangled :
    tangled.InRange ∧ (∀ o ∈ [.value ⟨3⟩, .value ⟨2⟩, .value ⟨4⟩], tangled.Knows o) ∧
      tangled.joinedText? [.value ⟨3⟩, .value ⟨2⟩, .value ⟨4⟩] =
        some "*i--4+1i--4/i--4+1*i--4" ∧
      ∀ w, MarkingWriter.empty.VisitsAll tangled [.value ⟨3⟩] w ↔ w = ⟨"*i--4+1", ∅⟩ := by
  have hknows : ∀ o ∈ [.value ⟨3⟩, .value ⟨2⟩, .value ⟨4⟩], tangled.Knows o := by decide
  obtain ⟨⟨s, hs, hjoined⟩, hmarks⟩ := joinedText?_eq_indexTexts? inRange_tangled hknows
  obtain ⟨t, ht, hfirst⟩ := hmarks [.value ⟨3⟩] ⟨_, rfl⟩
  have hall : tangled.indexTexts? [.value ⟨3⟩, .value ⟨2⟩, .value ⟨4⟩] =
      some "*i--4+1i--4/i--4+1*i--4" := by decide +kernel
  have hone : tangled.indexTexts? [.value ⟨3⟩] = some "*i--4+1" := by decide +kernel
  obtain rfl := Option.some.inj (hs.symm.trans hall)
  obtain rfl := Option.some.inj (ht.symm.trans hone)
  exact ⟨inRange_tangled, hknows, hjoined, hfirst⟩

end Func

end LoopSwap
