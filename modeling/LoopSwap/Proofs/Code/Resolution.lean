/-
**When a draft is resolved.**

Resolving a draft succeeds exactly if its block names are different, its result names are different,
and every block resolves: it ends in its only terminator, and each of its instructions has an opcode
and operands that go together, names that are defined, and no branch to the entry.  An operation
that is resolved is *legal*: its opcode asks for it.

Main definitions:

* `LoopSwap.Operation.opcode`, `LoopSwap.Operation.kind` — the opcode of an operation and what the
  opcode asks for;
* `LoopSwap.Operation.Legal` — an operation that can be written;
* `LoopSwap.Scope.Resolves`, `LoopSwap.Scope.ResolvesBlock` — what the parts of a draft resolve to.

Main results:

* `LoopSwap.checkDistinct_eq_ok_iff` — when all names are different;
* `LoopSwap.Scope.resolvedOp_of_resolveOp` — what is known of an operation that is resolved;
* `LoopSwap.DraftFunc.resolve_eq_ok_iff` — when a draft is resolved.
-/

import LoopSwap.Code.Resolve
import LoopSwap.Proofs.Code.Token
import Mathlib.Data.List.Forall2
import Mathlib.Data.List.Nodup

set_option relaxedAutoImplicit false
set_option autoImplicit false

namespace LoopSwap

/-- Every element of the second list is related to one of the first. -/
theorem exists_of_forall₂ {α β : Type} {R : α → β → Prop} {l : List α} {l' : List β}
    (h : List.Forall₂ R l l') : ∀ b ∈ l', ∃ a ∈ l, R a b := by
  induction h with
  | nil => exact List.forall_mem_nil _
  | @cons a b l l' hab _ ih =>
      refine List.forall_mem_cons.2 ⟨⟨a, List.mem_cons_self, hab⟩, fun x hx => ?_⟩
      obtain ⟨y, hy, hyx⟩ := ih x hx
      exact ⟨y, List.mem_cons_of_mem _ hy, hyx⟩

/-- Related elements that agree in something agree in it along the lists. -/
theorem map_eq_of_forall₂ {α β γ : Type} {R : α → β → Prop} {g : α → γ} {k : β → γ}
    {l : List α} {l' : List β} (h : List.Forall₂ R l l') (hR : ∀ a b, R a b → k b = g a) :
    l'.map k = l.map g := by
  induction h with
  | nil => rfl
  | cons hab _ ih => rw [List.map_cons, List.map_cons, hR _ _ hab, ih]

/-- Only the last of the marks is set. -/
def OnlyLast (marks : List Bool) : Prop :=
  marks.getLast? = some true ∧ ∀ m ∈ marks.dropLast, m = false

/-! ### Different names -/

/-- The result names that instructions define. -/
def valueNames (insts : List DraftInst) : List String := insts.filterMap (·.name)

/-- Collecting succeeds exactly if no name is seen twice, and puts the new names in front. -/
theorem collectValues_eq_ok_iff {insts : List DraftInst} : ∀ {seen values : List String},
    seen.Nodup → (collectValues seen insts = .ok values ↔
      ((valueNames insts).reverse ++ seen).Nodup ∧
        values = (valueNames insts).reverse ++ seen) := by
  induction insts with
  | nil =>
      intro seen values hseen
      simp [collectValues, valueNames, hseen, eq_comm]
  | cons inst insts ih =>
      intro seen values hseen
      rw [collectValues]
      cases hname : inst.name with
      | none =>
          have hnames : valueNames (inst :: insts) = valueNames insts := by
            rw [valueNames, List.filterMap_cons_none hname]
            rfl
          rw [hnames]
          exact ih hseen
      | some name =>
          have hnames : valueNames (inst :: insts) = name :: valueNames insts := by
            rw [valueNames, List.filterMap_cons_some hname]
            rfl
          have hshift : (valueNames (inst :: insts)).reverse ++ seen =
              (valueNames insts).reverse ++ (name :: seen) := by
            rw [hnames, List.reverse_cons, List.append_assoc, List.singleton_append]
          rw [hshift]
          dsimp only
          split
          · next hmem =>
              refine ⟨fun h => (nomatch h), fun h => ?_⟩
              have hnodup := (List.nodup_append.1 h.1).2.1
              exact absurd hmem (List.nodup_cons.1 hnodup).1
          · next hnew => exact ih (List.nodup_cons.2 ⟨hnew, hseen⟩)

/-- The check succeeds exactly if no block name and no result name is seen twice. -/
theorem checkDistinct_eq_ok_iff {blocks : List DraftBlock} : ∀ {names values : List String},
    names.Nodup → values.Nodup → (checkDistinct names values blocks = .ok () ↔
      ((blocks.map (·.name)).reverse ++ names).Nodup ∧
        ((valueNames (blocks.flatMap (·.insts))).reverse ++ values).Nodup) := by
  induction blocks with
  | nil =>
      intro names values hnames hvalues
      simp [checkDistinct, valueNames, hnames, hvalues]
  | cons block blocks ih =>
      intro names values hnames hvalues
      have hblocks : ((block :: blocks).map (·.name)).reverse ++ names =
          (blocks.map (·.name)).reverse ++ (block.name :: names) := by
        simp
      have hinsts : (valueNames ((block :: blocks).flatMap (·.insts))).reverse ++ values =
          (valueNames (blocks.flatMap (·.insts))).reverse ++
            ((valueNames block.insts).reverse ++ values) := by
        simp [valueNames]
      rw [checkDistinct, hblocks, hinsts]
      split
      · next hmem =>
          refine ⟨fun h => (nomatch h), fun h => ?_⟩
          have hnodup := (List.nodup_append.1 h.1).2.1
          exact absurd hmem (List.nodup_cons.1 hnodup).1
      · next hnew =>
          have hnames' : (block.name :: names).Nodup := List.nodup_cons.2 ⟨hnew, hnames⟩
          rw [bind_eq_ok]
          constructor
          · rintro ⟨collected, hcollect, hcheck⟩
            obtain ⟨hnodup, rfl⟩ := (collectValues_eq_ok_iff hvalues).1 hcollect
            exact (ih hnames' hnodup).1 hcheck
          · intro h
            have hnodup := (List.nodup_append.1 h.2).2.1
            exact ⟨_, (collectValues_eq_ok_iff hvalues).2 ⟨hnodup, rfl⟩, (ih hnames' hnodup).2 h⟩

/-! ### Opcodes -/

namespace Operation

/-- The opcode of an operation. -/
def opcode : Operation → String
  | gep .. => "gep"
  | load _ => "load"
  | store .. => "store"
  | cast op _ => op.name
  | binary op .. => op.name
  | const _ => "const"
  | br _ => "br"
  | condBr .. => "condbr"
  | ret _ => "ret"
  | other opcode _ => opcode

/-- What the opcode of an operation asks for. -/
def kind : Operation → Opcode
  | gep .. => .gep
  | load _ => .load
  | store .. => .store
  | cast op _ => .cast op
  | binary op .. => .binary op
  | const _ => .const
  | br _ => .br
  | condBr .. => .condBr
  | ret _ => .ret
  | other .. => .other

/-- An operation that can be written: its opcode consists of words and asks for it, an address has
an index, and its locations have names. -/
structure Legal (op : Operation) : Prop where
  opcode : IsOpcode op.opcode
  kind : Opcode.ofName op.opcode = op.kind
  indices : ∀ base, op ≠ gep base []
  location : ∀ n, .location n ∈ op.operands → IsName n

@[simp] theorem opcode_mapTargets (g : BlockId → BlockId) (op : Operation) :
    (op.mapTargets g).opcode = op.opcode := by
  cases op <;> rfl

@[simp] theorem kind_mapTargets (g : BlockId → BlockId) (op : Operation) :
    (op.mapTargets g).kind = op.kind := by
  cases op <;> rfl

theorem isTerminator_kind (op : Operation) : op.kind.isTerminator = op.isTerminator := by
  cases op <;> rfl

/-- New targets keep an operation legal. -/
theorem Legal.mapTargets {op : Operation} (h : op.Legal) (g : BlockId → BlockId) :
    (op.mapTargets g).Legal := by
  refine ⟨?_, ?_, fun base heq => ?_, ?_⟩
  · rw [opcode_mapTargets]
    exact h.opcode
  · rw [opcode_mapTargets, kind_mapTargets]
    exact h.kind
  · refine h.indices base ?_
    cases op <;> cases heq
    rfl
  · rw [operands_mapTargets]
    exact h.location

/-- A branch can be written. -/
theorem legal_br (t : BlockId) : (br t).Legal := by
  have hword : IsWord "br" := by decide
  refine ⟨hword.isOpcode, ?_, fun base heq => ?_, fun n hn => ?_⟩
  · show Opcode.ofName "br" = .br
    decide
  · cases heq
  · cases hn

end Operation

/-- Whether the given text is the opcode that asks for something of the language. -/
def Opcode.Spelled (name : String) : Opcode → Prop
  | gep => name = "gep"
  | load => name = "load"
  | store => name = "store"
  | const => name = "const"
  | br => name = "br"
  | condBr => name = "condbr"
  | ret => name = "ret"
  | cast op => name = op.name
  | binary op => name = op.name
  | blockTable | other => True

theorem Opcode.spelled_ofName (name : String) : (Opcode.ofName name).Spelled name := by
  unfold Opcode.ofName
  repeat' split
  any_goals assumption
  · trivial
  · next hcast => exact CastOp.ofName?_eq_some_iff.1 hcast
  · next hbinary => exact BinaryOp.ofName?_eq_some_iff.1 hbinary
  · trivial

/-- An opcode of the language is the one of the operation it asks for. -/
theorem Opcode.eq_opcode {name : String} {op : Operation} (h : Opcode.ofName name = op.kind)
    (hother : op.kind ≠ .other) : name = op.opcode := by
  have hspelled := Opcode.spelled_ofName name
  rw [h] at hspelled
  cases op with
  | other opcode operands => exact absurd rfl hother
  | _ => exact hspelled

namespace Scope

variable {s : Scope} {line : Nat} {inst : DraftInst} {op : Operation}

/-! ### Operations -/

theorem resolveOperands_eq_ok_iff {os : List DraftOperand} : ∀ {xs : List Operand},
    s.resolveOperands line os = .ok xs ↔
      List.Forall₂ (fun o x => s.resolveOperand line o = .ok x) os xs := by
  induction os with
  | nil =>
      intro xs
      rw [resolveOperands, List.forall₂_nil_left_iff]
      constructor
      · rintro ⟨⟩
        rfl
      · rintro rfl
        rfl
  | cons o os ih =>
      intro xs
      rw [resolveOperands, List.forall₂_cons_left_iff, bind_eq_ok]
      constructor
      · rintro ⟨x, hx, h⟩
        obtain ⟨xs', hxs', hok⟩ := bind_eq_ok.1 h
        cases hok
        exact ⟨x, xs', hx, ih.1 hxs', rfl⟩
      · rintro ⟨x, xs', hx, hxs', rfl⟩
        exact ⟨x, hx, bind_eq_ok.2 ⟨xs', ih.2 hxs', rfl⟩⟩

/-- What is known of an operation that an instruction resolves to: the opcode is that of the
operation, and its operands and targets are found in the scope. -/
structure ResolvedOp (s : Scope) (inst : DraftInst) (op : Operation) : Prop where
  opcode : inst.opcode = op.opcode
  kind : Opcode.ofName inst.opcode = op.kind
  indices : ∀ base, op ≠ .gep base []
  operands : ∀ x ∈ op.operands, ∃ o ∈ inst.operands, s.resolveOperand inst.line o = .ok x
  targets : ∀ t ∈ op.targets, ∃ o ∈ inst.operands, s.resolveTarget inst.line o = .ok t

/-- An operation of the language that an instruction resolves to. -/
theorem ResolvedOp.of_kind (hkind : Opcode.ofName inst.opcode = op.kind) (hother : op.kind ≠ .other)
    (hindices : ∀ base, op ≠ .gep base [])
    (hoperands : ∀ x ∈ op.operands, ∃ o ∈ inst.operands, s.resolveOperand inst.line o = .ok x)
    (htargets : ∀ t ∈ op.targets, ∃ o ∈ inst.operands, s.resolveTarget inst.line o = .ok t) :
    s.ResolvedOp inst op :=
  ⟨Opcode.eq_opcode hkind hother, hkind, hindices, hoperands, htargets⟩

/-- What an instruction resolves to is one of the operations, with its operands looked up. -/
theorem resolvedOp_of_resolveOp (h : s.resolveOp inst = .ok op) : s.ResolvedOp inst op := by
  unfold resolveOp at h
  dsimp only at h
  split at h
  · next base index indices hkind hos =>
      obtain ⟨base', hbase, h⟩ := bind_eq_ok.1 h
      obtain ⟨indices', hindices, hok⟩ := bind_eq_ok.1 h
      cases hok
      have hall := resolveOperands_eq_ok_iff.1 hindices
      refine .of_kind hkind nofun (fun base heq => ?_) ?_ nofun
      · cases heq
        cases hall
      · rw [hos]
        exact exists_of_forall₂ (List.Forall₂.cons hbase hall)
  · cases h
  · next addr hkind hos =>
      obtain ⟨addr', haddr, hok⟩ := bind_eq_ok.1 h
      cases hok
      refine .of_kind hkind nofun nofun ?_ nofun
      rw [hos]
      exact exists_of_forall₂ (.cons haddr .nil)
  · cases h
  · next value addr hkind hos =>
      obtain ⟨value', hvalue, h⟩ := bind_eq_ok.1 h
      obtain ⟨addr', haddr, hok⟩ := bind_eq_ok.1 h
      cases hok
      refine .of_kind hkind nofun nofun ?_ nofun
      rw [hos]
      exact exists_of_forall₂ (.cons hvalue (.cons haddr .nil))
  · cases h
  · next value hkind hos =>
      cases h
      exact .of_kind hkind nofun nofun nofun nofun
  · cases h
  · cases h
  · next target hkind hos =>
      obtain ⟨target', htarget, hok⟩ := bind_eq_ok.1 h
      cases hok
      refine .of_kind hkind nofun nofun nofun ?_
      rw [hos]
      exact exists_of_forall₂ (.cons htarget .nil)
  · cases h
  · next cond onTrue onFalse hkind hos =>
      obtain ⟨cond', hcond, h⟩ := bind_eq_ok.1 h
      obtain ⟨onTrue', honTrue, h⟩ := bind_eq_ok.1 h
      obtain ⟨onFalse', honFalse, hok⟩ := bind_eq_ok.1 h
      cases hok
      refine .of_kind hkind nofun nofun ?_ ?_
      · rw [hos]
        exact List.forall_mem_singleton.2 ⟨cond, List.mem_cons_self, hcond⟩
      · rw [hos]
        intro t ht
        have hboth : List.Forall₂ (fun o t => s.resolveTarget inst.line o = .ok t)
            [onTrue, onFalse] [onTrue', onFalse'] := .cons honTrue (.cons honFalse .nil)
        obtain ⟨o, ho, htarget⟩ := exists_of_forall₂ hboth t ht
        exact ⟨o, List.mem_cons_of_mem _ ho, htarget⟩
  · cases h
  · next hkind hos =>
      cases h
      exact .of_kind hkind nofun nofun nofun nofun
  · next value hkind hos =>
      obtain ⟨value', hvalue, hok⟩ := bind_eq_ok.1 h
      cases hok
      refine .of_kind hkind nofun nofun ?_ nofun
      rw [hos]
      exact exists_of_forall₂ (.cons hvalue .nil)
  · cases h
  · next op value hkind hos =>
      obtain ⟨value', hvalue, hok⟩ := bind_eq_ok.1 h
      cases hok
      refine .of_kind hkind nofun nofun ?_ nofun
      rw [hos]
      exact exists_of_forall₂ (.cons hvalue .nil)
  · cases h
  · next op lhs rhs hkind hos =>
      obtain ⟨lhs', hlhs, h⟩ := bind_eq_ok.1 h
      obtain ⟨rhs', hrhs, hok⟩ := bind_eq_ok.1 h
      cases hok
      refine .of_kind hkind nofun nofun ?_ nofun
      rw [hos]
      exact exists_of_forall₂ (.cons hlhs (.cons hrhs .nil))
  · cases h
  · cases h
  · next operands hkind =>
      obtain ⟨operands', hoperands, hok⟩ := bind_eq_ok.1 h
      cases hok
      exact ⟨rfl, hkind, nofun, exists_of_forall₂ (resolveOperands_eq_ok_iff.1 hoperands), nofun⟩

theorem getElem?_of_block? {name : String} {b : BlockId} (h : s.block? name = some b) :
    s.blocks[b.index]? = some name := by
  obtain ⟨k, hk, rfl⟩ := Option.map_eq_some_iff.1 h
  obtain ⟨hlt, hname, -⟩ := List.idxOf?_eq_some_iff.1 hk
  rw [List.getElem?_eq_getElem hlt, hname]

theorem getElem?_of_value? {name : String} {i : InstId} (h : s.value? name = some i) :
    s.values[i.index]? = some (some name) := by
  obtain ⟨k, hk, rfl⟩ := Option.map_eq_some_iff.1 h
  obtain ⟨hlt, hname, -⟩ := List.idxOf?_eq_some_iff.1 hk
  rw [List.getElem?_eq_getElem hlt, hname]

/-- A value that is read is a value of the scope. -/
theorem value?_of_resolveOperand {o : DraftOperand} {i : InstId}
    (h : s.resolveOperand line o = .ok (.value i)) : ∃ name, s.value? name = some i := by
  unfold resolveOperand at h
  split at h
  · next name =>
      split at h
      · next id hid =>
          cases h
          exact ⟨name, hid⟩
      · cases h
  · cases h
  · cases h
  · cases h

/-- A location is read as it is written. -/
theorem eq_location_of_resolveOperand {o : DraftOperand} {name : String}
    (h : s.resolveOperand line o = .ok (.location name)) : o = .location name := by
  unfold resolveOperand at h
  split at h
  · split at h <;> cases h
  · cases h
  · cases h
    rfl
  · cases h

/-- A target is a block of the scope. -/
theorem block?_of_resolveTarget {o : DraftOperand} {t : BlockId}
    (h : s.resolveTarget line o = .ok t) : ∃ name, s.block? name = some t := by
  unfold resolveTarget at h
  split at h
  · next name =>
      split at h
      · next id hid =>
          cases h
          exact ⟨name, hid⟩
      · cases h
  · cases h

/-! ### Blocks -/

/-- What an instruction resolves to, by its result name and its operation. -/
structure Resolves (s : Scope) (inst : DraftInst) (x : Option String × Operation) : Prop where
  name : x.1 = inst.name
  op : s.resolveOp inst = .ok x.2
  not_entry : ⟨0⟩ ∉ x.2.targets

/-- What a block resolves to, by its name and its instructions. -/
structure ResolvesBlock (s : Scope) (block : DraftBlock)
    (body : String × List (Option String × Operation)) : Prop where
  name : body.1 = block.name
  shape : shapeFault? block.insts = none
  insts : List.Forall₂ s.Resolves block.insts body.2

/-- A block has the right shape exactly if its only terminator is its last instruction. -/
theorem shapeFault?_eq_none_iff {insts : List DraftInst} :
    shapeFault? insts = none ↔ OnlyLast (insts.map DraftInst.isTerminator) := by
  unfold shapeFault? OnlyLast
  rw [List.getLast?_map]
  cases insts.getLast? with
  | none => simp
  | some last =>
      cases hlast : last.isTerminator with
      | false => simp [hlast]
      | true => simp [hlast, ← List.map_dropLast]

theorem resolveInsts_eq_ok_iff {block : String} {insts : List DraftInst} :
    ∀ {xs : List (Option String × Operation)},
      s.resolveInsts block insts = .ok xs ↔ List.Forall₂ s.Resolves insts xs := by
  induction insts with
  | nil =>
      intro xs
      rw [resolveInsts, List.forall₂_nil_left_iff]
      constructor
      · rintro ⟨⟩
        rfl
      · rintro rfl
        rfl
  | cons inst insts ih =>
      intro xs
      rw [resolveInsts, List.forall₂_cons_left_iff, bind_eq_ok]
      constructor
      · rintro ⟨op, hop, h⟩
        split at h
        · cases h
        · next hentry =>
            obtain ⟨rest, hrest, hok⟩ := bind_eq_ok.1 h
            cases hok
            exact ⟨(inst.name, op), rest, ⟨rfl, hop, hentry⟩, ih.1 hrest, rfl⟩
      · rintro ⟨⟨name, op⟩, rest, ⟨rfl, hop, hentry⟩, hrest, rfl⟩
        refine ⟨op, hop, ?_⟩
        rw [if_neg hentry, ih.2 hrest]
        rfl

theorem resolveBlocks_eq_ok_iff {blocks : List DraftBlock} :
    ∀ {bs : List (String × List (Option String × Operation))},
      s.resolveBlocks blocks = .ok bs ↔ List.Forall₂ s.ResolvesBlock blocks bs := by
  induction blocks with
  | nil =>
      intro bs
      rw [resolveBlocks, List.forall₂_nil_left_iff]
      constructor
      · rintro ⟨⟩
        rfl
      · rintro rfl
        rfl
  | cons block blocks ih =>
      intro bs
      rw [resolveBlocks, List.forall₂_cons_left_iff]
      constructor
      · intro h
        split at h
        · cases h
        · next hshape =>
            obtain ⟨insts, hinsts, h⟩ := bind_eq_ok.1 h
            obtain ⟨rest, hrest, hok⟩ := bind_eq_ok.1 h
            cases hok
            exact ⟨(block.name, insts), rest,
              ⟨rfl, hshape, resolveInsts_eq_ok_iff.1 hinsts⟩, ih.1 hrest, rfl⟩
      · rintro ⟨⟨name, insts⟩, rest, ⟨rfl, hshape, hinsts⟩, hrest, rfl⟩
        rw [hshape]
        dsimp only
        rw [resolveInsts_eq_ok_iff.2 hinsts, ok_bind, ih.2 hrest]
        rfl

end Scope

/-- A draft is resolved exactly if its names are different and its blocks resolve. -/
theorem DraftFunc.resolve_eq_ok_iff {draft : DraftFunc} {f : Func} : draft.resolve = .ok f ↔
    (draft.blocks.map (·.name)).Nodup ∧ (valueNames (draft.blocks.flatMap (·.insts))).Nodup ∧
      ∃ bs, List.Forall₂ draft.scope.ResolvesBlock draft.blocks bs ∧
        f = .ofBlocks draft.name bs := by
  have hdistinct : checkDistinct [] [] draft.blocks = .ok () ↔ _ :=
    checkDistinct_eq_ok_iff List.nodup_nil List.nodup_nil
  rw [List.append_nil, List.append_nil, List.nodup_reverse, List.nodup_reverse] at hdistinct
  rw [resolve, bind_eq_ok, ← and_assoc, ← hdistinct]
  constructor
  · rintro ⟨⟨⟩, hcheck, h⟩
    obtain ⟨bs, hbs, hok⟩ := bind_eq_ok.1 h
    cases hok
    exact ⟨hcheck, bs, Scope.resolveBlocks_eq_ok_iff.1 hbs, rfl⟩
  · rintro ⟨hcheck, bs, hbs, rfl⟩
    refine ⟨(), hcheck, ?_⟩
    rw [Scope.resolveBlocks_eq_ok_iff.2 hbs]
    rfl

end LoopSwap
