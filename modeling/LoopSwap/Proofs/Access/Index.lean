/-
**What the text of an index depends on.**

The writer of index texts enters an instruction only if that is not on its path, so whatever is
claimed of the writer follows from what it does with one instruction, given the claim for every
writer that is one instruction further in.  It gets stuck only on an id that names no instruction;
and it looks at nothing but the operations and the result names of the instructions it passes.

Main definitions:

* `LoopSwap.IndexWriter.afterOp?` — what a writer does with one instruction;
* `LoopSwap.Func.InRange` — every id that an instruction reads names an instruction.

Main results:

* `LoopSwap.IndexWriter.path_induction` — induction along the path of a writer;
* `LoopSwap.IndexWriter.after?_value` — a writer that enters an instruction does just that;
* `LoopSwap.Func.InRange.indexText?_isSome` — with ids in range, every index has a text;
* `LoopSwap.Func.Extended.indexText?` — edits that keep the instructions keep the texts.
-/

import LoopSwap.Access.Index
import LoopSwap.Proofs.Interchange.Frame

set_option relaxedAutoImplicit false
set_option autoImplicit false

namespace LoopSwap

variable {f g : Func} {i : InstId} {op : Operation} {o : Operand}

/-! ### One instruction -/

namespace IndexWriter

variable {w : IndexWriter}

/-- **Induction along the path**: to prove something of a writer at an instruction that it enters,
one may use it for every writer inside of that instruction. -/
theorem path_induction (f : Func) {motive : IndexWriter → Operand → Prop}
    (const : ∀ w value, motive w (.const value))
    (location : ∀ w name, motive w (.location name))
    (back : ∀ w i, i ∈ w.path → motive w (.value i))
    (unknown : ∀ w i, i ∉ w.path → f.op? i = none → motive w (.value i))
    (enter : ∀ w i, i ∉ w.path → ∀ op, f.op? i = some op →
      (∀ w' o, w'.path = i :: w.path → motive w' o) → motive w (.value i))
    (w : IndexWriter) (o : Operand) : motive w o := by
  induction hn : offPath f w.path using Nat.strongRecOn generalizing w o with
  | ind n ih =>
      cases o with
      | const value => exact const w value
      | location name => exact location w name
      | value i =>
          by_cases hpath : i ∈ w.path
          · exact back w i hpath
          · cases hop : f.op? i with
            | none => exact unknown w i hpath hop
            | some op =>
                refine enter w i hpath op hop fun w' o hw' => ?_
                obtain ⟨inst, hinst, -⟩ := Option.map_eq_some_iff.1 hop
                have hlt : offPath f w'.path < n := by
                  rw [hw', ← hn]
                  exact offPath_lt hinst hpath
                exact ih _ hlt w' o rfl

/-- The writer after an operand, without what is known of its path. -/
def after? (f : Func) (w : IndexWriter) (o : Operand) : Option IndexWriter :=
  (w.visit? f o).map (·.1)

/-- What a writer does with an instruction that it enters. -/
def afterOp? (f : Func) (w : IndexWriter) (i : InstId) : Operation → Option IndexWriter
  | .const value => some (w.write (Func.literalText value))
  | .load addr => (f.operandText? addr).map w.write
  | .cast _ value => ((w.enter i).after? f value).map leave
  | .binary op lhs rhs =>
    ((w.enter i).after? f lhs).bind fun w₁ =>
      ((w₁.write (op.symbol?.getD "")).after? f rhs).map leave
  | _ => some w

theorem after?_const (f : Func) (w : IndexWriter) (value : Int64) :
    w.after? f (.const value) = some (w.write (Func.literalText value)) := by
  rw [after?, visit?, Option.map_some]

theorem after?_location (f : Func) (w : IndexWriter) (name : String) :
    w.after? f (.location name) = some w := by
  rw [after?, visit?, Option.map_some]

theorem after?_back (f : Func) (h : i ∈ w.path) : w.after? f (.value i) = some w := by
  rw [after?, visit?, dif_pos h, Option.map_some]

theorem after?_value (h : i ∉ w.path) (hop : f.op? i = some op) :
    w.after? f (.value i) = w.afterOp? f i op := by
  obtain ⟨inst, hinst, rfl⟩ := Option.map_eq_some_iff.1 hop
  clear hop
  rw [after?, visit?, dif_neg h]
  split
  · next hnone =>
      rw [hnone] at hinst
      cases hinst
  · next inst' hinst' =>
      obtain rfl := Option.some.inj (hinst.symm.trans hinst')
      cases inst.op with
      | load addr =>
          dsimp only [afterOp?]
          cases f.operandText? addr <;> rfl
      | cast op value =>
          dsimp only [afterOp?, after?]
          cases visit? f (w.enter i) value <;> rfl
      | binary op lhs rhs =>
          dsimp only [afterOp?, after?]
          cases visit? f (w.enter i) lhs with
          | none => rfl
          | some w₁ =>
              dsimp only [Option.map_some, Option.bind_some]
              cases visit? f (w₁.1.write (op.symbol?.getD "")) rhs <;> rfl
      | _ => rfl

theorem after?_unknown (h : i ∉ w.path) (hop : f.op? i = none) : w.after? f (.value i) = none := by
  have hinst : f.inst? i = none := Option.map_eq_none_iff.1 hop
  rw [after?, visit?, dif_neg h]
  split
  · rfl
  · next inst hinst' => simp [hinst] at hinst'

/-- After an operand the path is what it was. -/
theorem path_after? {w' : IndexWriter} (h : w.after? f o = some w') : w'.path = w.path := by
  obtain ⟨w₁, -, rfl⟩ := Option.map_eq_some_iff.1 h
  exact w₁.2

end IndexWriter

theorem Func.indexText?_eq (f : Func) (o : Operand) :
    f.indexText? o = (IndexWriter.empty.after? f o).map (·.text) := by
  rw [Func.indexText?, IndexWriter.after?, Option.map_map]
  rfl

/-! ### Every index has a text -/

namespace Func

/-- An operand that is an id names an instruction. -/
def Knows (f : Func) (o : Operand) : Prop := ∀ j, o = .value j → (f.op? j).isSome = true

instance (f : Func) : DecidablePred f.Knows
  | .value i =>
    decidable_of_iff ((f.op? i).isSome = true)
      ⟨fun h _ hj => Operand.value.inj hj ▸ h, fun h => h i rfl⟩
  | .const _ | .location _ => .isTrue fun _ hj => nomatch hj

/-- Every id that an instruction reads names an instruction. -/
def InRange (f : Func) : Prop := ∀ i, ∀ op ∈ f.op? i, ∀ o ∈ op.operands, f.Knows o

theorem Legible.inRange (hf : f.Legible) : f.InRange := by
  rintro i op hop _ hj j rfl
  have hname := hf.value_named i op hop j hj
  obtain ⟨inst, hinst, -⟩ := Option.bind_eq_some_iff.1 (Option.eq_some_of_isSome hname)
  rw [op?, hinst]
  rfl

/-- An operand that names what it refers to has a text of its own. -/
theorem Knows.operandText?_isSome (h : f.Knows o) : (f.operandText? o).isSome = true := by
  cases o with
  | const value => rfl
  | location name => rfl
  | value i =>
      obtain ⟨inst, hinst, -⟩ := Option.map_eq_some_iff.1 (Option.eq_some_of_isSome (h i rfl))
      rw [operandText?, hinst]
      rfl

namespace InRange

/-- With ids in range, a writer does not get stuck. -/
theorem after?_isSome (hf : f.InRange) (w : IndexWriter) (o : Operand) (h : f.Knows o) :
    (w.after? f o).isSome = true := by
  revert h
  induction w, o using IndexWriter.path_induction f with
  | const w value => exact fun _ => by rw [IndexWriter.after?_const]; rfl
  | location w name => exact fun _ => by rw [IndexWriter.after?_location]; rfl
  | back w i hi => exact fun _ => by rw [IndexWriter.after?_back f hi]; rfl
  | unknown w i hi hop => exact fun h => absurd (h i rfl) (by rw [hop]; exact Bool.false_ne_true)
  | enter w i hi op hop ih =>
      intro _
      rw [IndexWriter.after?_value hi hop]
      have hknows := hf i op hop
      cases op with
      | load addr =>
          have htext := Knows.operandText?_isSome (hknows addr List.mem_cons_self)
          rw [IndexWriter.afterOp?, Option.isSome_map]
          exact htext
      | cast op value =>
          rw [IndexWriter.afterOp?, Option.isSome_map]
          exact ih (w.enter i) value rfl (hknows value List.mem_cons_self)
      | binary op lhs rhs =>
          have hlhs := ih (w.enter i) lhs rfl (hknows lhs List.mem_cons_self)
          obtain ⟨w₁, hw₁⟩ := Option.isSome_iff_exists.1 hlhs
          rw [IndexWriter.afterOp?, hw₁, Option.bind_some, Option.isSome_map]
          exact ih _ rhs (IndexWriter.path_after? hw₁)
            (hknows rhs (List.mem_cons_of_mem _ List.mem_cons_self))
      | _ => rfl

theorem indexText?_isSome (hf : f.InRange) (h : f.Knows o) : (f.indexText? o).isSome = true := by
  rw [Func.indexText?_eq, Option.isSome_map]
  exact hf.after?_isSome _ o h

theorem indexTexts?_isSome (hf : f.InRange) {os : List Operand} (h : ∀ o ∈ os, f.Knows o) :
    (f.indexTexts? os).isSome = true := by
  induction os with
  | nil => rfl
  | cons o os ih =>
      obtain ⟨s, hs⟩ := Option.isSome_iff_exists.1 (hf.indexText?_isSome (h o List.mem_cons_self))
      obtain ⟨t, ht⟩ := Option.isSome_iff_exists.1
        (ih fun o' ho' => h o' (List.mem_cons_of_mem _ ho'))
      rw [indexTexts?, hs, ht]
      rfl

end InRange

/-! ### Edits keep the texts -/

namespace Extended

/-- An operand that names what it refers to shows as before. -/
theorem operandText? (h : f.Extended g) (ho : f.Knows o) :
    g.operandText? o = f.operandText? o := by
  cases o with
  | const value => rfl
  | location name => rfl
  | value i =>
      obtain ⟨op, hop⟩ := Option.isSome_iff_exists.1 (ho i rfl)
      obtain ⟨u, hop'⟩ := h.op i op hop
      obtain ⟨inst, hinst, -⟩ := Option.map_eq_some_iff.1 hop
      obtain ⟨inst', hinst', -⟩ := Option.map_eq_some_iff.1 hop'
      have hname := h.resultName? i
      rw [Func.resultName?, Func.resultName?, hinst, hinst'] at hname
      rw [Func.operandText?, Func.operandText?, hinst, hinst', Option.map_some, Option.map_some]
      exact congrArg (fun n => some (n.getD "")) hname

/-- A writer writes the same as before. -/
theorem after? (h : f.Extended g) (hf : f.InRange) (w : IndexWriter) (o : Operand)
    (ho : f.Knows o) : w.after? g o = w.after? f o := by
  revert ho
  induction w, o using IndexWriter.path_induction f with
  | const w value => exact fun _ => by rw [IndexWriter.after?_const, IndexWriter.after?_const]
  | location w name =>
      exact fun _ => by rw [IndexWriter.after?_location, IndexWriter.after?_location]
  | back w i hi => exact fun _ => by rw [IndexWriter.after?_back g hi, IndexWriter.after?_back f hi]
  | unknown w i hi hop => exact fun h => absurd (h i rfl) (by rw [hop]; exact Bool.false_ne_true)
  | enter w i hi op hop ih =>
      intro _
      obtain ⟨u, hop'⟩ := h.op i op hop
      rw [IndexWriter.after?_value hi hop, IndexWriter.after?_value hi hop']
      have hknows := hf i op hop
      -- the writer passes over branches, whatever their targets
      cases op with
      | load addr =>
          have htext := h.operandText? (hknows addr List.mem_cons_self)
          exact congrArg (Option.map w.write) htext
      | cast op value =>
          have hvalue := ih (w.enter i) value rfl (hknows value List.mem_cons_self)
          exact congrArg (Option.map IndexWriter.leave) hvalue
      | binary op lhs rhs =>
          have hlhs := ih (w.enter i) lhs rfl (hknows lhs List.mem_cons_self)
          show ((w.enter i).after? g lhs).bind _ = ((w.enter i).after? f lhs).bind _
          rw [hlhs]
          refine Option.bind_congr fun w₁ hw₁ => congrArg (Option.map IndexWriter.leave) ?_
          exact ih _ rhs (IndexWriter.path_after? hw₁)
            (hknows rhs (List.mem_cons_of_mem _ List.mem_cons_self))
      | _ => rfl

theorem indexText? (h : f.Extended g) (hf : f.InRange) (ho : f.Knows o) :
    g.indexText? o = f.indexText? o := by
  rw [Func.indexText?_eq, Func.indexText?_eq, h.after? hf _ o ho]

theorem indexTexts? (h : f.Extended g) (hf : f.InRange) {os : List Operand}
    (ho : ∀ o ∈ os, f.Knows o) : g.indexTexts? os = f.indexTexts? os := by
  induction os with
  | nil => rfl
  | cons o os ih =>
      rw [Func.indexTexts?, Func.indexTexts?, h.indexText? hf (ho o List.mem_cons_self),
        ih fun o' ho' => ho o' (List.mem_cons_of_mem _ ho')]

end Extended

end Func

end LoopSwap
