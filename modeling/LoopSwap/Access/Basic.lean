/-
**Array accesses.**

An address is computed from a base and indices; a load or store that reads the address is an
access.  The first index steps over the aggregate itself, so the text of an access shows the
others.

Main definitions:

* `LoopSwap.Access` — one load or store of an indexed element;
* `LoopSwap.Func.accesses?` — the accesses of a function, in program order of the addresses;
* `LoopSwap.Func.accessesIn?` — those whose address is computed in given blocks.

Main results:

* `LoopSwap.Func.mem_accessPairs` — which pairs of an address and a user are accesses.
-/

import LoopSwap.Access.Index

set_option relaxedAutoImplicit false
set_option autoImplicit false

namespace LoopSwap

/-- Whether an access reads or writes. -/
inductive AccessKind where
  | load | store
  deriving DecidableEq

/-- The word for a kind of access. -/
def AccessKind.text : AccessKind → String
  | load => "Load"
  | store => "Store"

/-- An element `base[index]` that is read or written: `address` computes where it is, and `user`
reads or writes there. -/
structure Access where
  base : String
  index : String
  kind : AccessKind
  address : InstId
  user : InstId
  deriving DecidableEq

/-- The line of an access. -/
def Access.text (a : Access) : String := a.kind.text ++ ": " ++ a.base ++ "[" ++ a.index ++ "]"

/-- The kind of access an operation makes. -/
def Operation.accessKind? : Operation → Option AccessKind
  | load _ => some .load
  | store .. => some .store
  | _ => none

namespace Func

/-- The base and indices of an instruction that computes an address. -/
def address? (f : Func) (i : InstId) : Option (Operand × List Operand) :=
  match f.op? i with
  | some (.gep base indices) => some (base, indices)
  | _ => none

/-- The kind of access an instruction makes. -/
def accessKind? (f : Func) (i : InstId) : Option AccessKind := (f.op? i).bind Operation.accessKind?

/-- The addresses computed by the given instructions, each with its users that load or store, in
program order. -/
def accessPairs (f : Func) (insts : List InstId) : List (InstId × InstId) :=
  (insts.filter fun i => (f.address? i).isSome).flatMap fun i =>
    ((f.users i).filter fun u => (f.accessKind? u).isSome).map fun u => (i, u)

theorem mem_accessPairs {f : Func} {insts : List InstId} {i u : InstId} :
    (i, u) ∈ f.accessPairs insts ↔
      (i ∈ insts ∧ (f.address? i).isSome = true) ∧
        u ∈ f.users i ∧ (f.accessKind? u).isSome = true := by
  simp [accessPairs]

/-- The record of an access. -/
def access? (f : Func) (address user : InstId) : Option Access :=
  match f.address? address, f.accessKind? user with
  | some (base, indices), some kind =>
    match f.indexTexts? indices.tail, f.operandText? base with
    | some index, some name => some ⟨name, index, kind, address, user⟩
    | _, _ => none
  | _, _ => none

/-- The records of accesses, if all have one. -/
def accessRecords? (f : Func) : List (InstId × InstId) → Option (List Access)
  | [] => some []
  | (address, user) :: rest =>
    match f.access? address user, f.accessRecords? rest with
    | some a, some as => some (a :: as)
    | _, _ => none

/-- The accesses whose address is computed in the given blocks. -/
def accessesIn? (f : Func) (blocks : List BlockId) : Option (List Access) :=
  f.accessRecords? (f.accessPairs (blocks.flatMap f.blockInsts))

/-- The accesses of a function. -/
def accesses? (f : Func) : Option (List Access) := f.accessesIn? f.layout

end Func

end LoopSwap
