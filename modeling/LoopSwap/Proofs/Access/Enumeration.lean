/-
**Every access once, in the order of the program.**

An access is an instruction that computes an address together with a load or store that reads its
result, wherever in the program the two are.  The collection goes through the addresses in program
order and, for each of them, through its users in program order.  No instruction is in the program
twice, so every access is met once, and the pairs are met in lexicographic order.  With ids in
range, each pair has its record, and a record determines its pair.

Main definitions:

* `LoopSwap.Func.Accesses` — an address and a load or store that reads it;
* `LoopSwap.Func.Earlier` — the order of pairs by the places of the address and of the user;
* `LoopSwap.Access.FaithfulTo` — a record that says what the function does.

Main results:

* `LoopSwap.Func.mem_accessPairs_iff` — the pairs that are collected are the accesses;
* `LoopSwap.Func.pairwise_accessPairs` — they are collected in order;
* `LoopSwap.Func.faithfulTo_of_access?` — the record of a pair is faithful;
* `LoopSwap.Func.accesses?_enumerate` — the records of a function are its accesses, each once.
-/

import LoopSwap.Proofs.Access.Records

set_option relaxedAutoImplicit false
set_option autoImplicit false

namespace LoopSwap

/-- In a list without repetition every element has a later place than those before it. -/
theorem pairwise_idxOf {α : Type} [DecidableEq α] {l : List α} (hl : l.Nodup) :
    l.Pairwise fun a b => l.idxOf a < l.idxOf b := by
  rw [List.pairwise_iff_getElem]
  intro i j hi hj hij
  rw [hl.idxOf_getElem i hi, hl.idxOf_getElem j hj]
  exact hij

/-- The address and the user that a record is about. -/
def Access.pair (a : Access) : InstId × InstId := (a.address, a.user)

theorem Access.mem_map_pair {as : List Access} {g u : InstId} :
    (g, u) ∈ as.map Access.pair ↔ ∃ a ∈ as, a.address = g ∧ a.user = u := by
  simp only [List.mem_map, Access.pair, Prod.mk.injEq]

/-- A record says what the function does: its address is computed from the base and the indices that
it shows, all indices but the first one after the other, and its user loads or stores as it says. -/
structure Access.FaithfulTo (a : Access) (f : Func) : Prop where
  element : ∃ base indices, f.op? a.address = some (.gep base indices) ∧
    f.operandText? base = some a.base ∧
    ∃ texts, indices.tail.mapM f.indexText? = some texts ∧ a.index = String.join texts
  load : a.kind = .load ↔ ∃ addr, f.op? a.user = some (.load addr)
  store : a.kind = .store ↔ ∃ value addr, f.op? a.user = some (.store value addr)

namespace Func

variable {f : Func} {g i u : InstId}

/-- `u` is a load or store of the program that reads the result of `g`, which is an instruction of
the program that computes an address. -/
structure Accesses (f : Func) (g u : InstId) : Prop where
  address_mem : g ∈ f.instIds
  user_mem : u ∈ f.instIds
  computes : ∃ base indices, f.op? g = some (.gep base indices)
  touches : (∃ addr, f.op? u = some (.load addr)) ∨
    ∃ value addr, f.op? u = some (.store value addr)
  reads : .value g ∈ f.instOperands u

/-- The address of `p` comes before that of `q`, or they are the same and the user of `p` comes
before that of `q`. -/
def Earlier (f : Func) (p q : InstId × InstId) : Prop :=
  f.instIds.idxOf p.1 < f.instIds.idxOf q.1 ∨
    p.1 = q.1 ∧ f.instIds.idxOf p.2 < f.instIds.idxOf q.2

/-! ### Which pairs are collected -/

theorem address?_isSome_iff :
    (f.address? i).isSome = true ↔ ∃ base indices, f.op? i = some (.gep base indices) := by
  constructor
  · intro h
    obtain ⟨⟨base, indices⟩, heq⟩ := Option.isSome_iff_exists.1 h
    exact ⟨base, indices, exists_of_address? heq⟩
  · rintro ⟨base, indices, hop⟩
    rw [address?, hop]
    rfl

theorem accessKind?_eq_load_iff :
    f.accessKind? u = some .load ↔ ∃ addr, f.op? u = some (.load addr) := by
  constructor
  · intro h
    obtain ⟨op, hop, hkind⟩ := Option.bind_eq_some_iff.1 h
    cases op with
    | load addr => exact ⟨addr, hop⟩
    | _ => cases hkind
  · rintro ⟨addr, hop⟩
    rw [accessKind?, hop]
    rfl

theorem accessKind?_eq_store_iff :
    f.accessKind? u = some .store ↔ ∃ value addr, f.op? u = some (.store value addr) := by
  constructor
  · intro h
    obtain ⟨op, hop, hkind⟩ := Option.bind_eq_some_iff.1 h
    cases op with
    | store value addr => exact ⟨value, addr, hop⟩
    | _ => cases hkind
  · rintro ⟨value, addr, hop⟩
    rw [accessKind?, hop]
    rfl

theorem accessKind?_isSome_iff :
    (f.accessKind? u).isSome = true ↔ (∃ addr, f.op? u = some (.load addr)) ∨
      ∃ value addr, f.op? u = some (.store value addr) := by
  rw [← accessKind?_eq_load_iff, ← accessKind?_eq_store_iff, Option.isSome_iff_exists]
  constructor
  · rintro ⟨_ | _, hkind⟩
    · exact Or.inl hkind
    · exact Or.inr hkind
  · rintro (hkind | hkind)
    · exact ⟨_, hkind⟩
    · exact ⟨_, hkind⟩

/-- The pairs that are collected are the accesses of the program. -/
theorem mem_accessPairs_iff : (g, u) ∈ f.accessPairs f.instIds ↔ f.Accesses g u := by
  rw [mem_accessPairs, mem_users, address?_isSome_iff, accessKind?_isSome_iff]
  constructor
  · rintro ⟨⟨hg, hgep⟩, ⟨hu, hreads⟩, htouches⟩
    exact ⟨hg, hu, hgep, htouches, hreads⟩
  · rintro ⟨hg, hu, hgep, htouches, hreads⟩
    exact ⟨⟨hg, hgep⟩, ⟨hu, hreads⟩, htouches⟩

/-- The pairs are collected by the places of their addresses, and for each address by the places of
its users. -/
theorem pairwise_accessPairs (hnodup : f.instIds.Nodup) :
    (f.accessPairs f.instIds).Pairwise f.Earlier := by
  have hplaces := pairwise_idxOf hnodup
  rw [accessPairs, List.pairwise_flatMap]
  refine ⟨fun i _ => ?_, (hplaces.filter _).imp ?_⟩
  · rw [List.pairwise_map]
    have husers : (f.users i).Pairwise fun u v => f.instIds.idxOf u < f.instIds.idxOf v :=
      hplaces.filter _
    exact (husers.filter _).imp fun huv => Or.inr ⟨rfl, huv⟩
  · intro i j hij p hp q hq
    obtain ⟨u, -, rfl⟩ := List.mem_map.1 hp
    obtain ⟨v, -, rfl⟩ := List.mem_map.1 hq
    exact Or.inl hij

/-- No pair is earlier than itself, so what is in this order is listed once. -/
theorem nodup_of_pairwise_earlier {pairs : List (InstId × InstId)} (h : pairs.Pairwise f.Earlier) :
    pairs.Nodup := by
  refine h.imp fun {p q} hpq heq => ?_
  subst heq
  rcases hpq with hlt | ⟨-, hlt⟩
  · exact Nat.lt_irrefl _ hlt
  · exact Nat.lt_irrefl _ hlt

/-! ### What their records say -/

/-- The text of several indices is that of each, one after the other. -/
theorem indexTexts?_eq_join (f : Func) (os : List Operand) :
    f.indexTexts? os = (os.mapM f.indexText?).map String.join := by
  induction os with
  | nil => rfl
  | cons o os ih =>
      rw [indexTexts?, ih, List.mapM_cons]
      cases f.indexText? o with
      | none => rfl
      | some s =>
          cases os.mapM f.indexText? with
          | none => rfl
          | some texts =>
              show some (s ++ String.join texts) = some (String.join (s :: texts))
              rw [String.join_cons]

/-- The record of a pair is about that pair, and what it says of it is so. -/
theorem faithfulTo_of_access? {a : Access} (h : f.access? g u = some a) :
    a.pair = (g, u) ∧ a.FaithfulTo f := by
  unfold access? at h
  split at h
  · next base indices kind haddress hkind =>
      split at h
      · next index name hindex hname =>
          cases h
          rw [indexTexts?_eq_join] at hindex
          obtain ⟨texts, htexts, hjoin⟩ := Option.map_eq_some_iff.1 hindex
          refine ⟨rfl, ⟨base, indices, exists_of_address? haddress, hname, texts, htexts,
            hjoin.symm⟩, ?_, ?_⟩
          · rw [← accessKind?_eq_load_iff, hkind, Option.some.injEq]
          · rw [← accessKind?_eq_store_iff, hkind, Option.some.injEq]
      · cases h
  · cases h

/-- The records of pairs are about these pairs, one for each and in their order, and they are
faithful. -/
theorem faithfulTo_of_accessRecords? {pairs : List (InstId × InstId)} {as : List Access}
    (h : f.accessRecords? pairs = some as) :
    as.map Access.pair = pairs ∧ ∀ a ∈ as, a.FaithfulTo f := by
  induction pairs generalizing as with
  | nil =>
      cases h
      exact ⟨rfl, List.forall_mem_nil _⟩
  | cons p pairs ih =>
      obtain ⟨g, u⟩ := p
      rw [accessRecords?] at h
      split at h
      · next a rest ha hrest =>
          cases h
          obtain ⟨hpair, hfaithful⟩ := faithfulTo_of_access? ha
          obtain ⟨hpairs, hall⟩ := ih hrest
          refine ⟨?_, List.forall_mem_cons.2 ⟨hfaithful, hall⟩⟩
          rw [List.map_cons, hpair, hpairs]
      · cases h

/-! ### The accesses of a function -/

/-- With ids in range, the accesses in some blocks have their records, one for each pair and in the
order of the pairs, and what a record says is so. -/
theorem InRange.exists_accessesIn? (hf : f.InRange) (blocks : List BlockId) :
    ∃ as, f.accessesIn? blocks = some as ∧
      as.map Access.pair = f.accessPairs (blocks.flatMap f.blockInsts) ∧
      ∀ a ∈ as, a.FaithfulTo f := by
  obtain ⟨as, has⟩ :=
    Option.isSome_iff_exists.1 (Option.isSome_of_eq_some (hf.accessesIn?_eq blocks))
  exact ⟨as, has, faithfulTo_of_accessRecords? has⟩

/-- **The records of a function are its accesses.**  If every instruction is in the program once and
every id that is read names an instruction, there are records; each access has one, and nothing else
has; they are in the order of the program, by the address and then by the user; and what a record
says is so. -/
theorem accesses?_enumerate (hinsts : f.instIds.Perm f.arenaInsts) (hrange : f.InRange) :
    ∃ as, f.accesses? = some as ∧
      (∀ g u, (∃ a ∈ as, a.address = g ∧ a.user = u) ↔ f.Accesses g u) ∧
      (as.map Access.pair).Nodup ∧
      (as.map Access.pair).Pairwise f.Earlier ∧
      ∀ a ∈ as, a.FaithfulTo f := by
  have hnodup : f.instIds.Nodup := hinsts.nodup_iff.2 f.nodup_arenaInsts
  obtain ⟨as, has, hpairs, hfaithful⟩ := hrange.exists_accessesIn? f.layout
  have horder := pairwise_accessPairs hnodup
  rw [← instIds] at hpairs
  refine ⟨as, has, fun g u => ?_, ?_, ?_, hfaithful⟩
  · rw [← mem_accessPairs_iff, ← hpairs, Access.mem_map_pair]
  · rw [hpairs]
    exact nodup_of_pairwise_earlier horder
  · rw [hpairs]
    exact horder

/-- A load and a store that come before the address that they read, the store reading it twice. -/
def crossedText : String :=
  "f() \x7b\nentry: br ^def\nuse: %x = load %p\n store %p, %p\n ret\n" ++
    "def: %p = gep @A, 0, 7\n br ^use\n\x7d"

/-- The function of that text. -/
def crossed : Func := .ofBlocks "f" [
  ("entry", [(none, .br ⟨2⟩)]),
  ("use", [(some "x", .load (.value ⟨4⟩)), (none, .store (.value ⟨4⟩) (.value ⟨4⟩)),
    (none, .ret none)]),
  ("def", [(some "p", .gep (.location "A") [.const 0, .const 7]), (none, .br ⟨1⟩)])]

/-- That function has two accesses, the load and the store. -/
theorem accesses?_enumerate_crossed :
    crossed.instIds.Perm crossed.arenaInsts ∧ crossed.InRange ∧
      crossed.accesses? = some [⟨"A", "7", .load, ⟨4⟩, ⟨1⟩⟩, ⟨"A", "7", .store, ⟨4⟩, ⟨2⟩⟩] ∧
      ∀ g u, crossed.Accesses g u ↔ g = ⟨4⟩ ∧ u = ⟨1⟩ ∨ g = ⟨4⟩ ∧ u = ⟨2⟩ := by
  have hread : Program.read crossedText = .ok ⟨[crossed]⟩ := by decide +kernel
  have hf := Program.legible_of_read hread crossed (List.mem_singleton_self _)
  have has : crossed.accesses? =
      some [⟨"A", "7", .load, ⟨4⟩, ⟨1⟩⟩, ⟨"A", "7", .store, ⟨4⟩, ⟨2⟩⟩] := by decide +kernel
  obtain ⟨as, has', hall, -⟩ := accesses?_enumerate hf.insts_perm hf.inRange
  obtain rfl := Option.some.inj (has'.symm.trans has)
  refine ⟨hf.insts_perm, hf.inRange, has, fun g u => ?_⟩
  rw [← hall g u]
  simp [eq_comm]

end Func

end LoopSwap
