/-
**The expression that an index stands for.**

The writer of index texts passes from an operand into the definition of what it names, and from
there into the operands of casts and operations.  If no definition is inside of itself, the writer
never turns back, and what it passes is a tree.  If besides everything on the way is an integer, a
cast, an operation with a sign or a load of something with a name, the tree is an expression with
names and integers at its leaves, and the writer writes the leaves and the signs in their order,
with nothing in between.

Main definitions:

* `LoopSwap.Func.Enters`, `LoopSwap.Func.Acyclic` — the way into definitions, and that it ends;
* `LoopSwap.Func.Arithmetic` — an operand that stands for an expression;
* `LoopSwap.IndexToken`, `LoopSwap.IndexTree` — the pieces of an expression and the expression;
* `LoopSwap.Func.Unfolds` — the expression that an operand stands for.

Main results:

* `LoopSwap.IndexWriter.acyclic_induction` — induction along acyclic definitions;
* `LoopSwap.Func.Unfolds.unique` — an operand stands for one expression;
* `LoopSwap.Func.Arithmetic.of_before` — definitions that only go back are arithmetic;
* `LoopSwap.Func.Arithmetic.exists_unfolds` — the writer writes the tokens of the expression.
-/

import LoopSwap.Proofs.Access.Index
import LoopSwap.Proofs.Code.Token

set_option relaxedAutoImplicit false
set_option autoImplicit false

namespace LoopSwap

/-! ### Into the definitions -/

/-- The operands that are written for an operation. -/
def Operation.written : Operation → List Operand
  | cast _ value => [value]
  | binary _ lhs rhs => [lhs, rhs]
  | _ => []

/-- The operand is no instruction from the `k`-th one on. -/
def Operand.Before (k : Nat) : Operand → Prop
  | value i => i.index < k
  | _ => True

instance (k : Nat) : DecidablePred (Operand.Before k)
  | .value i => Nat.decLt i.index k
  | .const _ | .location _ => .isTrue trivial

namespace Func

/-- `o` names the result of a cast or of an operation on two integers, and `o'` is an operand of
it. -/
def Enters (f : Func) (o o' : Operand) : Prop :=
  ∃ i op, o = .value i ∧ f.op? i = some op ∧ o' ∈ op.written

/-- No definition on the way from `o` is inside of itself. -/
def Acyclic (f : Func) (o : Operand) : Prop :=
  ∀ o', Relation.ReflTransGen f.Enters o o' → ¬ Relation.TransGen f.Enters o' o'

variable {f : Func} {i : InstId} {o o' : Operand}

theorem Acyclic.enters (h : f.Acyclic o) (ho : f.Enters o o') : f.Acyclic o' :=
  fun x hx => h x (.head ho hx)

/-- No cycle is reached from an operand if none is reached from what its definition reads. -/
theorem Acyclic.of_enters (h : ∀ o', f.Enters o o' → f.Acyclic o') : f.Acyclic o := by
  intro x hox hxx
  rcases Relation.ReflTransGen.cases_head hox with rfl | ⟨o', ho', hx⟩
  · -- a cycle through the operand itself comes by what its definition reads
    obtain ⟨o', ho', hback⟩ := Relation.TransGen.head'_iff.1 hxx
    exact h o' ho' o' .refl (.tail' hback ho')
  · exact h o' ho' x hx hxx

/-- No cycle is reached from what stands before the `n`-th instruction if the definitions before
that one only go back. -/
theorem Acyclic.of_before {n : Nat}
    (h : ∀ k < n, ∀ op ∈ f.op? ⟨k⟩, ∀ x ∈ op.written, x.Before k) (ho : o.Before n) :
    f.Acyclic o := by
  induction n using Nat.strongRecOn generalizing o with
  | ind n ih =>
      refine Acyclic.of_enters ?_
      rintro o' ⟨i, op, rfl, hop, hmem⟩
      have hlt : i.index < n := ho
      exact ih i.index hlt (fun k hk => h k (Nat.lt_trans hk hlt)) (h i.index hlt op hop o' hmem)

end Func

namespace IndexWriter

variable {f : Func} {i : InstId}

/-- **Induction along acyclic definitions**: to prove something of a writer at an instruction, one
may use it for every writer inside of that instruction, at the operands that are written there. -/
theorem acyclic_induction (f : Func) {motive : IndexWriter → Operand → Prop}
    (const : ∀ w value, motive w (.const value))
    (location : ∀ w name, motive w (.location name))
    (unknown : ∀ w i, i ∉ w.path → f.op? i = none → motive w (.value i))
    (enter : ∀ w i, i ∉ w.path → ∀ op, f.op? i = some op →
      (∀ w' o, w'.path = i :: w.path → o ∈ op.written → motive w' o) → motive w (.value i))
    (w : IndexWriter) (o : Operand) (ho : f.Acyclic o)
    (hpath : ∀ j ∈ w.path, Relation.TransGen f.Enters (.value j) o) : motive w o := by
  revert ho hpath
  induction w, o using IndexWriter.path_induction f with
  | const w value => exact fun _ _ => const w value
  | location w name => exact fun _ _ => location w name
  | back w i hi =>
      -- the writer would be inside of what it enters
      exact fun ho hpath => absurd (hpath i hi) (ho _ .refl)
  | unknown w i hi hop => exact fun _ _ => unknown w i hi hop
  | enter w i hi op hop ih =>
      intro ho hpath
      refine enter w i hi op hop fun w' o hw' hmem => ?_
      have hinto : f.Enters (.value i) o := ⟨i, op, rfl, hop, hmem⟩
      refine ih w' o hw' (ho.enters hinto) fun j hj => ?_
      rw [hw'] at hj
      rcases List.mem_cons.1 hj with rfl | hj
      · exact .single hinto
      · exact (hpath j hj).tail hinto

@[simp] theorem write_write (w : IndexWriter) (s t : String) :
    (w.write s).write t = w.write (s ++ t) := by
  simp [write, String.append_assoc]

@[simp] theorem leave_write_enter (w : IndexWriter) (s : String) :
    ((w.enter i).write s).leave = w.write s := rfl

end IndexWriter

/-! ### Expressions -/

/-- A piece of an expression: a name or an integer, or the sign between two operands. -/
inductive IndexToken where
  | name (s : String)
  | int (value : Int64)
  | sign (c : Char)
  deriving DecidableEq

/-- The text of a piece. -/
def IndexToken.text : IndexToken → String
  | name s => s
  | int value => Func.literalText value
  | sign c => String.singleton c

/-- An expression. -/
inductive IndexTree where
  | name (s : String)
  | int (value : Int64)
  | node (lhs : IndexTree) (sign : Char) (rhs : IndexTree)
  deriving DecidableEq

/-- The signs of operations. -/
def signs : List Char := ['+', '-', '*', '/']

/-- The arithmetic operations. -/
def BinaryOp.arithmetic : List BinaryOp := [add, sub, mul, udiv, sdiv]

/-- The arithmetic operations have a sign. -/
theorem BinaryOp.exists_sign : ∀ op ∈ arithmetic,
    ∃ c ∈ signs, op.symbol? = some (String.singleton c) := by
  simp [arithmetic, signs, symbol?]

namespace IndexTree

/-- The operands and the signs of an expression from left to right. -/
def tokens : IndexTree → List IndexToken
  | name s => [.name s]
  | int value => [.int value]
  | node lhs sign rhs => lhs.tokens ++ .sign sign :: rhs.tokens

/-- The operands and the signs of an expression, written without anything in between. -/
def text (t : IndexTree) : String := String.join (t.tokens.map IndexToken.text)

/-- The names are words, and the signs are signs of operations. -/
def Spelled : IndexTree → Prop
  | name s => IsWord s
  | int _ => True
  | node lhs sign rhs => lhs.Spelled ∧ sign ∈ signs ∧ rhs.Spelled

@[simp] theorem text_name (s : String) : (name s).text = s := by
  simp [text, tokens, IndexToken.text]

@[simp] theorem text_int (value : Int64) : (int value).text = Func.literalText value := by
  simp [text, tokens, IndexToken.text]

@[simp] theorem text_node (lhs rhs : IndexTree) (sign : Char) :
    (node lhs sign rhs).text = lhs.text ++ (String.singleton sign ++ rhs.text) := by
  simp [text, tokens, IndexToken.text]

end IndexTree

namespace Func

variable {f : Func} {i : InstId} {o o' : Operand} {t t' : IndexTree}

/-! ### Arithmetic operands -/

/-- The operand is a word: the name of a result or of a location. -/
def Named (f : Func) : Operand → Prop
  | .value i => ∃ s ∈ f.resultName? i, IsWord s
  | .const _ => False
  | .location s => IsWord s

/-- The operation is part of an expression. -/
def PlainOp (f : Func) : Operation → Prop
  | .const _ | .cast _ _ => True
  | .binary op _ _ => op ∈ BinaryOp.arithmetic
  | .load addr => f.Named addr
  | _ => False

/-- The operand is an integer or the result of an operation that is part of an expression. -/
def Plain (f : Func) : Operand → Prop
  | .value i => ∃ op ∈ f.op? i, f.PlainOp op
  | .const _ => True
  | .location _ => False

instance (f : Func) : DecidablePred f.Named
  | .value i => inferInstanceAs (Decidable (∃ s ∈ f.resultName? i, IsWord s))
  | .const _ => .isFalse id
  | .location s => inferInstanceAs (Decidable (IsWord s))

instance (f : Func) : DecidablePred f.PlainOp
  | .const _ | .cast _ _ => .isTrue trivial
  | .binary op _ _ => inferInstanceAs (Decidable (op ∈ BinaryOp.arithmetic))
  | .load addr => inferInstanceAs (Decidable (f.Named addr))
  | .store _ _ | .gep _ _ | .br _ | .condBr _ _ _ | .ret _ | .other _ _ => .isFalse id

instance (f : Func) : DecidablePred f.Plain
  | .value i => inferInstanceAs (Decidable (∃ op ∈ f.op? i, f.PlainOp op))
  | .const _ => .isTrue trivial
  | .location _ => .isFalse id

/-- The definitions from the operand on are acyclic, and they are made only of integers, casts,
additions, subtractions, multiplications, divisions, and loads of what has a word for its name. -/
structure Arithmetic (f : Func) (o : Operand) : Prop where
  acyclic : f.Acyclic o
  plain : ∀ o', Relation.ReflTransGen f.Enters o o' → f.Plain o'

/-- An operand is arithmetic if it is part of an expression and every definition reads only what
is part of an expression and stands before it. -/
theorem Arithmetic.of_before
    (h : ∀ k < f.insts.size, ∀ op ∈ f.op? ⟨k⟩, ∀ x ∈ op.written, f.Plain x ∧ x.Before k)
    (ho : f.Plain o) : f.Arithmetic o := by
  have hlt : ∀ {i op}, f.op? i = some op → i.index < f.insts.size := by
    intro i op hop
    obtain ⟨inst, hinst, -⟩ := Option.map_eq_some_iff.1 hop
    obtain ⟨hlt, -⟩ := Array.getElem?_eq_some_iff.1 hinst
    exact hlt
  refine ⟨.of_before (fun k hk op hop x hx => (h k hk op hop x hx).2) ?_, fun x hx => ?_⟩
  · cases o with
    | value i =>
        obtain ⟨op, hop, -⟩ := ho
        exact hlt hop
    | _ => trivial
  · cases hx with
    | refl => exact ho
    | tail _ hinto =>
        obtain ⟨i, op, rfl, hop, hmem⟩ := hinto
        exact (h i.index (hlt hop) op hop x hmem).1

/-- The operand stands for the expression. -/
inductive Unfolds (f : Func) : Operand → IndexTree → Prop
  | literal (value : Int64) : Unfolds f (.const value) (.int value)
  | const {i : InstId} {value : Int64} : f.op? i = some (.const value) →
      Unfolds f (.value i) (.int value)
  | load {i : InstId} {addr : Operand} {s : String} : f.op? i = some (.load addr) →
      f.operandText? addr = some s → Unfolds f (.value i) (.name s)
  | cast {i : InstId} {c : CastOp} {o : Operand} {t : IndexTree} :
      f.op? i = some (.cast c o) → Unfolds f o t → Unfolds f (.value i) t
  | binary {i : InstId} {op : BinaryOp} {l r : Operand} {c : Char} {s t : IndexTree} :
      f.op? i = some (.binary op l r) → op.symbol? = some (String.singleton c) →
      Unfolds f l s → Unfolds f r t → Unfolds f (.value i) (.node s c t)

/-- An operand stands for one expression only. -/
theorem Unfolds.unique (h : f.Unfolds o t) (h' : f.Unfolds o t') : t = t' := by
  induction h generalizing t' with
  | literal value =>
      cases h'
      rfl
  | const hop =>
      cases h' with
      | const hop' =>
          rw [hop] at hop'
          cases hop'
          rfl
      | _ hop' => simp [hop] at hop'
  | load hop hs =>
      cases h' with
      | load hop' hs' =>
          rw [hop] at hop'
          cases hop'
          rw [hs] at hs'
          cases hs'
          rfl
      | _ hop' => simp [hop] at hop'
  | cast hop _ ih =>
      cases h' with
      | cast hop' ht' =>
          rw [hop] at hop'
          cases hop'
          exact ih ht'
      | _ hop' => simp [hop] at hop'
  | binary hop hc _ _ ihl ihr =>
      cases h' with
      | binary hop' hc' hl' hr' =>
          rw [hop] at hop'
          cases hop'
          rw [hc] at hc'
          have hsame := String.singleton_inj.1 (Option.some.inj hc')
          rw [hsame, ihl hl', ihr hr']
      | _ hop' => simp [hop] at hop'

/-- What has a word for its name shows as that word. -/
theorem Named.exists_operandText? (h : f.Named o) : ∃ s, f.operandText? o = some s ∧ IsWord s := by
  cases o with
  | value i =>
      obtain ⟨s, hs, hword⟩ := h
      obtain ⟨inst, hinst, hname⟩ := Option.bind_eq_some_iff.1 hs
      refine ⟨s, ?_, hword⟩
      rw [operandText?, hinst, Option.map_some, hname]
      rfl
  | const value => exact h.elim
  | location s => exact ⟨s, rfl, h⟩

/-- Where the definitions are arithmetic, a writer that comes to an operand from outside writes the
expression that the operand stands for. -/
theorem exists_after? (w : IndexWriter) (ho : f.Acyclic o)
    (hpath : ∀ j ∈ w.path, Relation.TransGen f.Enters (.value j) o)
    (hplain : ∀ o', Relation.ReflTransGen f.Enters o o' → f.Plain o') :
    ∃ t, f.Unfolds o t ∧ t.Spelled ∧ w.after? f o = some (w.write t.text) := by
  revert hplain
  refine IndexWriter.acyclic_induction f (motive := fun w o =>
    (∀ o', Relation.ReflTransGen f.Enters o o' → f.Plain o') →
      ∃ t, f.Unfolds o t ∧ t.Spelled ∧ w.after? f o = some (w.write t.text))
    ?const ?location ?unknown ?enter w o ho hpath
  case const =>
    intro w value _
    refine ⟨.int value, .literal value, trivial, ?_⟩
    rw [IndexWriter.after?_const, IndexTree.text_int]
  case location => exact fun w name hplain => (hplain _ .refl).elim
  case unknown =>
    intro w i hi hop hplain
    obtain ⟨op, hop', -⟩ := hplain _ .refl
    rw [hop] at hop'
    cases hop'
  case enter =>
    intro w i hi op hop ih hplain
    obtain ⟨op', hop', hpart⟩ := hplain _ .refl
    rw [hop] at hop'
    cases hop'
    rw [IndexWriter.after?_value hi hop]
    have hinside : ∀ x ∈ op.written, ∀ o', Relation.ReflTransGen f.Enters x o' → f.Plain o' :=
      fun x hx o' hxo => hplain o' (.head ⟨i, op, rfl, hop, hx⟩ hxo)
    cases op with
    | const value =>
        exact ⟨.int value, .const hop, trivial, by rw [IndexWriter.afterOp?, IndexTree.text_int]⟩
    | load addr =>
        obtain ⟨s, hs, hword⟩ := Named.exists_operandText? hpart
        refine ⟨.name s, .load hop hs, hword, ?_⟩
        rw [IndexWriter.afterOp?, hs, Option.map_some, IndexTree.text_name]
    | cast c value =>
        have hmem : value ∈ (Operation.cast c value).written := List.mem_cons_self
        obtain ⟨t, ht, hspelled, hafter⟩ := ih (w.enter i) value rfl hmem (hinside _ hmem)
        refine ⟨t, .cast hop ht, hspelled, ?_⟩
        rw [IndexWriter.afterOp?, hafter, Option.map_some, IndexWriter.leave_write_enter]
    | binary op lhs rhs =>
        obtain ⟨c, hc, hsymbol⟩ := BinaryOp.exists_sign op hpart
        have hl : lhs ∈ (Operation.binary op lhs rhs).written := List.mem_cons_self
        have hr : rhs ∈ (Operation.binary op lhs rhs).written :=
          List.mem_cons_of_mem _ List.mem_cons_self
        obtain ⟨s, hs, hspelled, hafter⟩ := ih (w.enter i) lhs rfl hl (hinside _ hl)
        obtain ⟨t, ht, hspelled', hafter'⟩ :=
          ih (((w.enter i).write s.text).write (String.singleton c)) rhs rfl hr (hinside _ hr)
        refine ⟨.node s c t, .binary hop hsymbol hs ht, ⟨hspelled, hc, hspelled'⟩, ?_⟩
        rw [IndexWriter.afterOp?, hafter, Option.bind_some, hsymbol, Option.getD_some, hafter',
          Option.map_some, IndexWriter.write_write, IndexWriter.write_write,
          IndexWriter.leave_write_enter, IndexTree.text_node]
    | _ => exact hpart.elim

/-- The text of an arithmetic operand is that of the expression that the operand stands for. -/
theorem Arithmetic.exists_unfolds (h : f.Arithmetic o) :
    ∃ t, f.Unfolds o t ∧ t.Spelled ∧ f.indexText? o = some t.text := by
  obtain ⟨t, ht, hspelled, hafter⟩ :=
    exists_after? .empty h.acyclic (fun _ hj => nomatch hj) h.plain
  refine ⟨t, ht, hspelled, ?_⟩
  rw [indexText?_eq, hafter, Option.map_some]
  simp [IndexWriter.write, IndexWriter.empty]

end Func

end LoopSwap
