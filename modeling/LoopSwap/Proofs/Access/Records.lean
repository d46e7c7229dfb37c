/-
**The accesses that a function keeps.**

The accesses of a function are told by pairs of an address and a user, and with ids in range every
pair has its record.  Edits that keep the instructions may change the order of the program, but not
which instructions compute addresses, load, store and read what, and not what is written about them.
So they keep the records up to their order, and so does any number of interchanges.

Main results:

* `LoopSwap.Func.InRange.accesses?_eq` — with ids in range, a function has its accesses;
* `LoopSwap.Func.Extended.accesses?_perm` — edits that keep the instructions keep the accesses;
* `LoopSwap.Workspace.accesses?_interchange` — interchanges keep the accesses.
-/

import LoopSwap.Access.Basic
import LoopSwap.Proofs.Access.Index

set_option relaxedAutoImplicit false
set_option autoImplicit false

namespace LoopSwap

namespace Func

variable {f g : Func} {i u : InstId} {op : Operation}

/-! ### Records -/

theorem Intact.exists_op? (hf : f.Intact) (hi : i ∈ f.instIds) : ∃ op, f.op? i = some op := by
  obtain ⟨b, -, hib⟩ := List.mem_flatMap.1 hi
  obtain ⟨inst, hinst⟩ := hf.exists_inst? hib
  exact ⟨inst.op, op?_of_inst? hinst⟩

theorem exists_of_address? {base : Operand} {indices : List Operand}
    (h : f.address? i = some (base, indices)) : f.op? i = some (.gep base indices) := by
  unfold address? at h
  split at h
  · next b is hop =>
      cases h
      exact hop
  · cases h

/-- If every pair has a record, these are the records. -/
theorem accessRecords?_eq {pairs : List (InstId × InstId)}
    (h : ∀ p ∈ pairs, (f.access? p.1 p.2).isSome = true) :
    f.accessRecords? pairs = some (pairs.filterMap fun p => f.access? p.1 p.2) := by
  induction pairs with
  | nil => rfl
  | cons p ps ih =>
      obtain ⟨a, ha⟩ := Option.isSome_iff_exists.1 (h p List.mem_cons_self)
      have hrest := ih fun q hq => h q (List.mem_cons_of_mem _ hq)
      rw [accessRecords?, ha, hrest, List.filterMap_cons, ha]

namespace InRange

/-- With ids in range, an address and a user that loads or stores have a record. -/
theorem access?_isSome (hf : f.InRange) (hi : (f.address? i).isSome = true)
    (hu : (f.accessKind? u).isSome = true) : (f.access? i u).isSome = true := by
  obtain ⟨⟨base, indices⟩, haddress⟩ := Option.isSome_iff_exists.1 hi
  obtain ⟨kind, hkind⟩ := Option.isSome_iff_exists.1 hu
  have hknows := hf i _ (exists_of_address? haddress)
  obtain ⟨name, hname⟩ := Option.isSome_iff_exists.1
    (Knows.operandText?_isSome (hknows base List.mem_cons_self))
  obtain ⟨index, hindex⟩ := Option.isSome_iff_exists.1
    (hf.indexTexts?_isSome fun o (ho : o ∈ indices.tail) =>
      hknows o (List.mem_cons_of_mem _ (List.mem_of_mem_tail ho)))
  rw [access?, haddress, hkind]
  dsimp only
  rw [hindex, hname]
  rfl

/-- With ids in range, the accesses are the records of all pairs. -/
theorem accessesIn?_eq (hf : f.InRange) (blocks : List BlockId) :
    f.accessesIn? blocks =
      some ((f.accessPairs (blocks.flatMap f.blockInsts)).filterMap fun p =>
        f.access? p.1 p.2) := by
  refine accessRecords?_eq fun p hp => ?_
  obtain ⟨⟨-, hi⟩, -, hu⟩ := mem_accessPairs.1 hp
  exact hf.access?_isSome hi hu

theorem accesses?_eq (hf : f.InRange) : f.accesses? =
    some ((f.accessPairs f.instIds).filterMap fun p => f.access? p.1 p.2) :=
  hf.accessesIn?_eq f.layout

end InRange

/-! ### Edits keep the accesses -/

namespace Extended

/-- The address that an instruction computes is not touched. -/
theorem address? (h : f.Extended g) (hop : f.op? i = some op) :
    g.address? i = f.address? i := by
  obtain ⟨u, hop'⟩ := h.op i op hop
  rw [Func.address?, Func.address?, hop, hop']
  cases op <;> rfl

theorem accessKind? (h : f.Extended g) (hop : f.op? i = some op) :
    g.accessKind? i = f.accessKind? i := by
  obtain ⟨u, hop'⟩ := h.op i op hop
  rw [Func.accessKind?, Func.accessKind?, hop, hop']
  cases op <;> rfl

theorem instOperands (h : f.Extended g) (hop : f.op? i = some op) :
    g.instOperands i = f.instOperands i := by
  obtain ⟨u, hop'⟩ := h.op i op hop
  rw [Func.instOperands, Func.instOperands, hop, hop', Option.map_some,
    Operation.operands_mapTargets]
  rfl

/-- A list of the instructions of the program that leaves out branches and goes by what edits keep
is the same up to its order. -/
theorem filter_instIds (h : f.Extended g) (hf : f.Intact) {P Q : InstId → Bool}
    (hbr : ∀ i t, g.op? i = some (.br t) → Q i = false)
    (hkept : ∀ i op, f.op? i = some op → Q i = P i) :
    (g.instIds.filter Q).Perm (f.instIds.filter P) := by
  obtain ⟨made, hperm, hmade⟩ := h.instIds
  have hnone : made.filter Q = [] := by
    rw [List.filter_eq_nil_iff]
    intro i hi
    obtain ⟨t, ht⟩ := hmade i hi
    rw [hbr i t ht]
    exact Bool.false_ne_true
  have hsame : f.instIds.filter Q = f.instIds.filter P := by
    refine List.filter_congr fun i hi => ?_
    obtain ⟨op, hop⟩ := hf.exists_op? hi
    exact hkept i op hop
  have hfilter := hperm.filter Q
  rw [List.filter_append, hnone, List.nil_append, hsame] at hfilter
  exact hfilter

theorem users_perm (h : f.Extended g) (hf : f.Intact) (i : InstId) :
    (g.users i).Perm (f.users i) := by
  refine h.filter_instIds hf (fun u t ht => ?_) fun u op hop => ?_
  · rw [Func.instOperands, ht]
    rfl
  · rw [h.instOperands hop]

/-- The pairs of an address and a user are the same up to their order. -/
theorem accessPairs_perm (h : f.Extended g) (hf : f.Intact) :
    (g.accessPairs g.instIds).Perm (f.accessPairs f.instIds) := by
  have haddresses : (g.instIds.filter fun i => (g.address? i).isSome).Perm
      (f.instIds.filter fun i => (f.address? i).isSome) := by
    refine h.filter_instIds hf (fun i t ht => ?_) fun i op hop => ?_
    · rw [Func.address?, ht]
      rfl
    · rw [h.address? hop]
  refine haddresses.flatMap fun i _ => List.Perm.map _ ?_
  -- the users that load or store are users, and no branch is one
  have husers := (h.users_perm hf i).filter fun u => (g.accessKind? u).isSome
  refine husers.trans (List.Perm.of_eq (List.filter_congr fun u hu => ?_))
  obtain ⟨op, hop⟩ := hf.exists_op? (mem_users.1 hu).1
  rw [h.accessKind? hop]

/-- The record of an access is the same. -/
theorem access? (h : f.Extended g) (hf : f.InRange) (hi : (f.address? i).isSome = true)
    (hu : (f.accessKind? u).isSome = true) : g.access? i u = f.access? i u := by
  obtain ⟨⟨base, indices⟩, haddress⟩ := Option.isSome_iff_exists.1 hi
  obtain ⟨kind, hkind⟩ := Option.isSome_iff_exists.1 hu
  have hgep := exists_of_address? haddress
  obtain ⟨op, hop, -⟩ := Option.bind_eq_some_iff.1 hkind
  have hknows := hf i _ hgep
  have hindex := h.indexTexts? hf fun o (ho : o ∈ indices.tail) =>
    hknows o (List.mem_cons_of_mem _ (List.mem_of_mem_tail ho))
  have hname := h.operandText? (hknows base List.mem_cons_self)
  rw [Func.access?, Func.access?, h.address? hgep, h.accessKind? hop, haddress, hkind]
  dsimp only
  rw [hindex, hname]

/-- **Edits that keep the instructions keep the accesses**, up to their order. -/
theorem accesses?_perm (h : f.Extended g) (hf : f.Intact) (hr : f.InRange) (hr' : g.InRange) :
    ∃ as as', f.accesses? = some as ∧ g.accesses? = some as' ∧ as'.Perm as := by
  refine ⟨_, _, hr.accesses?_eq, hr'.accesses?_eq, ?_⟩
  refine ((h.accessPairs_perm hf).filterMap _).trans (List.Perm.of_eq ?_)
  refine List.filterMap_congr fun p hp => ?_
  obtain ⟨⟨-, hi⟩, -, hu⟩ := mem_accessPairs.1 hp
  exact h.access? hr hi hu

end Extended

end Func

/-! ### Interchanges -/

namespace Workspace

variable {w w' : Workspace}

/-- A run keeps the accesses of what was read from a text. -/
theorem accesses?_run {text : String} {p : Program} (h : Program.read text = .ok p)
    (hw : w.func ∈ p.functions) (steps : List Step) :
    ∃ as as', w.func.accesses? = some as ∧ (w.run steps).func.accesses? = some as' ∧
      as'.Perm as := by
  have hlegible := Program.legible_of_read h w.func hw
  exact (extended_run steps hlegible).accesses?_perm hlegible.toIntact hlegible.inRange
    (legible_run steps hlegible).1.inRange

/-- **Interchanges keep the accesses.**  After any steps on what was read from a text, a further
interchange leaves the records of the accesses as they are, up to their order. -/
theorem accesses?_interchange {text : String} {p : Program} {outer inner : Nat}
    {done : Interchanged} (h : Program.read text = .ok p) (hw : w.func ∈ p.functions)
    (steps : List Step) (hrun : (w.run steps).interchange outer inner = (w', .ok done)) :
    ∃ as as', (w.run steps).func.accesses? = some as ∧ w'.func.accesses? = some as' ∧
      as'.Perm as := by
  obtain ⟨hlegible, -⟩ := legible_run steps (Program.legible_of_read h w.func hw)
  have hstep := (legible_step hlegible (.interchange outer inner)).1
  have hextended := extended_interchange hlegible.toFlowing outer inner
  rw [step, hrun] at hstep
  rw [hrun] at hextended
  exact hextended.accesses?_perm hlegible.toIntact hlegible.inRange hstep.inRange

/-- Two nested loops whose headers access an array. -/
def indexedText : String :=
  "f() \x7b\nentry: br ^oh\noh: %i = load @i\n %p = gep @A, 0, %i\n store 1, %p\n" ++
    " condbr 1, ^iph, ^oe\niph: br ^ih\nih: %j = load @j\n %q = gep @A, 0, %j\n" ++
    " %x = load %q\n condbr %x, ^be, ^ie\nbe: br ^il\nil: br ^ih\nie: br ^ol\n" ++
    "ol: br ^oh\noe: ret\n\x7d"

/-- The function of that text. -/
def indexed : Func := .ofBlocks "f" [
  ("entry", [(none, .br ⟨1⟩)]),
  ("oh", [(some "i", .load (.location "i")),
    (some "p", .gep (.location "A") [.const 0, .value ⟨1⟩]),
    (none, .store (.const 1) (.value ⟨2⟩)), (none, .condBr (.const 1) ⟨2⟩ ⟨8⟩)]),
  ("iph", [(none, .br ⟨3⟩)]),
  ("ih", [(some "j", .load (.location "j")),
    (some "q", .gep (.location "A") [.const 0, .value ⟨6⟩]), (some "x", .load (.value ⟨7⟩)),
    (none, .condBr (.value ⟨8⟩) ⟨4⟩ ⟨6⟩)]),
  ("be", [(none, .br ⟨5⟩)]),
  ("il", [(none, .br ⟨3⟩)]),
  ("ie", [(none, .br ⟨7⟩)]),
  ("ol", [(none, .br ⟨1⟩)]),
  ("oe", [(none, .ret none)])]

/-- The second interchange of these loops keeps the two accesses and puts them in another order. -/
theorem accesses?_interchange_indexed :
    let w := run ⟨indexed, .zero⟩ [.interchange 0 1]
    Program.read indexedText = .ok ⟨[indexed]⟩ ∧
      w.func.accessPairs w.func.instIds = [(⟨7⟩, ⟨8⟩), (⟨2⟩, ⟨3⟩)] ∧
      ∃ w' done, w.interchange 0 1 = (w', .ok done) ∧
        w'.func.accessPairs w'.func.instIds = [(⟨2⟩, ⟨3⟩), (⟨7⟩, ⟨8⟩)] ∧
        ∃ as as', w.func.accesses? = some as ∧ w'.func.accesses? = some as' ∧ as'.Perm as := by
  have hread : Program.read indexedText = .ok ⟨[indexed]⟩ := by decide +kernel
  have hdone : ((run ⟨indexed, .zero⟩ [.interchange 0 1]).interchange 0 1).2 =
      .ok ⟨0, 1, [], 8, 6⟩ := by decide +kernel
  have hrun : (run ⟨indexed, .zero⟩ [.interchange 0 1]).interchange 0 1 =
      (_, .ok ⟨0, 1, [], 8, 6⟩) := Prod.ext rfl hdone
  refine ⟨hread, by decide +kernel, _, _, hrun, by decide +kernel, ?_⟩
  exact accesses?_interchange (w := ⟨indexed, .zero⟩) hread (List.mem_singleton_self _) _ hrun

end Workspace

end LoopSwap
