/-
**Which records are of the element that they name.**

The users of an address are told by their operands, and a store has two: the value and the place
where it goes.  A load that reads an address reads there.  A store that reads it writes there,
unless the address is the value and goes somewhere else; such a store has a record too, which names
an element that it does not touch.

Main definitions:

* `LoopSwap.Operation.place?` — where a load reads and a store writes;
* `LoopSwap.Func.ActsOn`, `LoopSwap.Func.StoresAddress` — the two ways to use an address.

Main results:

* `LoopSwap.Func.actsOn_iff` — a load or store that reads an address acts there or stores it;
* `LoopSwap.Program.accessesIn?_actsOn_iff` — which records are of the element that they name.
-/

import LoopSwap.Proofs.Access.Enumeration

set_option relaxedAutoImplicit false
set_option autoImplicit false

namespace LoopSwap

/-- Where a load reads and a store writes. -/
def Operation.place? : Operation → Option Operand
  | load addr => some addr
  | store _ addr => some addr
  | _ => none

namespace Func

variable {f : Func} {g u : InstId}

/-- `u` loads from or stores to the address that `g` computes. -/
def ActsOn (f : Func) (g u : InstId) : Prop := (f.op? u).bind Operation.place? = some (.value g)

/-- `u` stores the result of `g` itself, and somewhere else than there. -/
def StoresAddress (f : Func) (g u : InstId) : Prop :=
  ∃ addr, f.op? u = some (.store (.value g) addr) ∧ addr ≠ .value g

/-- A load or store that reads an address acts there, unless it stores the address somewhere
else. -/
theorem actsOn_iff (hu : (f.accessKind? u).isSome = true) (hreads : .value g ∈ f.instOperands u) :
    f.ActsOn g u ↔ ¬ f.StoresAddress g u := by
  rcases accessKind?_isSome_iff.1 hu with ⟨addr, hop⟩ | ⟨value, addr, hop⟩
  · rw [instOperands, hop] at hreads
    obtain rfl : .value g = addr := List.mem_singleton.1 hreads
    constructor
    · rintro - ⟨addr', hop', -⟩
      rw [hop] at hop'
      cases hop'
    · intro _
      rw [ActsOn, hop]
      rfl
  · have hacts : f.ActsOn g u ↔ addr = .value g := by
      rw [ActsOn, hop, Option.bind_some, Operation.place?, Option.some.injEq]
    rw [instOperands, hop] at hreads
    have hcases : .value g = value ∨ .value g = addr := by
      rcases List.mem_cons.1 hreads with heq | hmem
      · exact Or.inl heq
      · exact Or.inr (List.mem_singleton.1 hmem)
    rw [hacts]
    constructor
    · rintro heq ⟨addr', hop', hne⟩
      rw [hop] at hop'
      cases hop'
      exact hne heq
    · intro hno
      by_contra hne
      rcases hcases with rfl | rfl
      · exact hno ⟨addr, hop, hne⟩
      · exact hne rfl

/-- A store of an address is a load or store that reads it. -/
theorem StoresAddress.reads (h : f.StoresAddress g u) :
    (f.accessKind? u).isSome = true ∧ .value g ∈ f.instOperands u := by
  obtain ⟨addr, hop, -⟩ := h
  refine ⟨accessKind?_isSome_iff.2 (Or.inr ⟨_, _, hop⟩), ?_⟩
  rw [instOperands, hop]
  exact List.mem_cons_self

end Func

namespace Program

/-- **Which records are of the element that they name.**  In a function that is read from a text,
the user of a record acts on the address of the record unless it stores that address somewhere else.
So the records of all addresses in some blocks, such as those of the function or of a loop, are of
the elements that they name exactly if nothing in the function stores one of these addresses
somewhere else. -/
theorem accessesIn?_actsOn_iff {text : String} {p : Program} {f : Func}
    (hread : read text = .ok p) (hf : f ∈ p.functions) (blocks : List BlockId) :
    ∃ as, f.accessesIn? blocks = some as ∧
      (∀ a ∈ as, f.ActsOn a.address a.user ↔ ¬ f.StoresAddress a.address a.user) ∧
      ((∀ a ∈ as, f.ActsOn a.address a.user) ↔
        ∀ b ∈ blocks, ∀ g ∈ f.blockInsts b, (f.address? g).isSome = true →
          ∀ u ∈ f.instIds, ¬ f.StoresAddress g u) := by
  have hrange := (legible_of_read hread f hf).inRange
  obtain ⟨as, has, hpairs, -⟩ := hrange.exists_accessesIn? blocks
  have hmem : ∀ g u, (∃ a ∈ as, a.address = g ∧ a.user = u) ↔
      (g, u) ∈ f.accessPairs (blocks.flatMap f.blockInsts) := fun g u => by
    rw [← hpairs, Access.mem_map_pair]
  have hacts : ∀ a ∈ as, f.ActsOn a.address a.user ↔ ¬ f.StoresAddress a.address a.user := by
    intro a ha
    obtain ⟨-, huser, hkind⟩ := Func.mem_accessPairs.1 ((hmem _ _).1 ⟨a, ha, rfl, rfl⟩)
    exact Func.actsOn_iff hkind (Func.mem_users.1 huser).2
  refine ⟨as, has, hacts, fun hall b hb g hg haddress u hu hstores => ?_, fun hno a ha => ?_⟩
  · -- the store has a record, which is of the element by assumption
    obtain ⟨hkind, hreads⟩ := hstores.reads
    obtain ⟨a, ha, rfl, rfl⟩ := (hmem g u).2 (Func.mem_accessPairs.2
      ⟨⟨List.mem_flatMap.2 ⟨b, hb, hg⟩, haddress⟩, Func.mem_users.2 ⟨hu, hreads⟩, hkind⟩)
    exact (hacts a ha).1 (hall a ha) hstores
  · obtain ⟨⟨hg, haddress⟩, huser, -⟩ :=
      Func.mem_accessPairs.1 ((hmem _ _).1 ⟨a, ha, rfl, rfl⟩)
    obtain ⟨b, hb, hg⟩ := List.mem_flatMap.1 hg
    exact (hacts a ha).2 (hno b hb a.address hg haddress a.user (Func.mem_users.1 huser).1)

/-- An address that is stored somewhere else. -/
def savedText : String := "f() \x7b\nentry: %p = gep @A, 0, 1\n store %p, @q\n ret\n\x7d"

/-- The function of that text. -/
def saved : Func := .ofBlocks "f" [
  ("entry", [(some "p", .gep (.location "A") [.const 0, .const 1]),
    (none, .store (.value ⟨0⟩) (.location "q")), (none, .ret none)])]

/-- The only record of that function is of a store to an element, and nothing is stored there. -/
theorem accessesIn?_saved_not_actsOn :
    read savedText = .ok ⟨[saved]⟩ ∧ saved.accesses? = some [⟨"A", "1", .store, ⟨0⟩, ⟨1⟩⟩] ∧
      saved.op? ⟨1⟩ = some (.store (.value ⟨0⟩) (.location "q")) ∧ ¬ saved.ActsOn ⟨0⟩ ⟨1⟩ := by
  have hread : read savedText = .ok ⟨[saved]⟩ := by decide +kernel
  have has : saved.accesses? = some [⟨"A", "1", .store, ⟨0⟩, ⟨1⟩⟩] := by decide +kernel
  have hop : saved.op? ⟨1⟩ = some (.store (.value ⟨0⟩) (.location "q")) := by decide +kernel
  obtain ⟨as, has', hacts, -⟩ :=
    accessesIn?_actsOn_iff hread (List.mem_singleton_self saved) saved.layout
  obtain rfl := Option.some.inj (has'.symm.trans has)
  have hstores : saved.StoresAddress ⟨0⟩ ⟨1⟩ := ⟨_, hop, fun h => nomatch h⟩
  exact ⟨hread, has, hop, fun h => (hacts _ List.mem_cons_self).1 h hstores⟩

end Program

end LoopSwap
