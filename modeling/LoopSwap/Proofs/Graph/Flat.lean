/-
**The dominators of a graph, computed by places.**

The analysis of a graph numbers the listed nodes by their places and works on those alone.  A node
that is listed twice has two places; edges lead to the last one, so the others cannot be reached,
but what leaves them still counts among the predecessors.  On these places the iteration runs as a
machine that guards nothing (`FlatGraph.step`).

For every graph the machine halts, follows only rows that lead on, and its table mirrors the
dominators of the graph; the way up of every query then ends in the answer that the graph gives.

Main definitions:

* `LoopSwap.lastPlace?` — the place of an element;
* `LoopSwap.FlowGraph.flat` — the places of a graph;
* `LoopSwap.FlowGraph.ask` — where a query starts.

Main results:

* `LoopSwap.FlowGraph.mem_order_flat` — the places in the order are those of the reachable nodes;
* `LoopSwap.FlowGraph.flat_iteration_halts` — the iteration and all queries.
-/

import LoopSwap.Proofs.Graph.Stepwise

set_option relaxedAutoImplicit false
set_option autoImplicit false

namespace LoopSwap

variable {α : Type} [DecidableEq α]

/-! ### Places -/

/-- The last place of an element in a list. -/
def lastPlace? : List α → α → Option Nat
  | [], _ => none
  | b :: l, a =>
    match lastPlace? l a with
    | some i => some (i + 1)
    | none => if b = a then some 0 else none

theorem getElem?_of_lastPlace? {l : List α} {a : α} {i : Nat} (h : lastPlace? l a = some i) :
    l[i]? = some a := by
  induction l generalizing i with
  | nil => simp [lastPlace?] at h
  | cons b l ih =>
      cases hl : lastPlace? l a with
      | some j =>
          obtain rfl : j + 1 = i := by simpa [lastPlace?, hl] using h
          simpa using ih hl
      | none =>
          obtain ⟨rfl, rfl⟩ : b = a ∧ 0 = i := by simpa [lastPlace?, hl] using h
          rfl

theorem exists_lastPlace? {l : List α} {a : α} (h : a ∈ l) : ∃ i, lastPlace? l a = some i := by
  induction l with
  | nil => cases h
  | cons b l ih =>
      cases hl : lastPlace? l a with
      | some j => exact ⟨j + 1, by simp [lastPlace?, hl]⟩
      | none =>
          rcases List.mem_cons.1 h with rfl | h
          · exact ⟨0, by simp [lastPlace?, hl]⟩
          · obtain ⟨i, hi⟩ := ih h
            simp [hl] at hi

namespace FlowGraph

variable (g : FlowGraph α) {a b : α} {i j k x y : Nat}

/-- The place of a node, by which edges to it are taken. -/
def place? (a : α) : Option Nat := lastPlace? g.listed a

variable {g} in
theorem place?_inj (ha : g.place? a = some x) (hb : g.place? b = some x) : a = b :=
  Option.some.inj ((getElem?_of_lastPlace? ha).symm.trans (getElem?_of_lastPlace? hb))

/-- The places with an edge to the place `y`, as often as there are edges. -/
def placesBefore (y : Nat) : List Nat :=
  g.listed.zipIdx.flatMap fun e =>
    (g.succs e.1).filterMap fun b => if g.place? b = some y then some e.2 else none

theorem mem_placesBefore : x ∈ g.placesBefore y ↔
    ∃ a b, g.listed[x]? = some a ∧ b ∈ g.succs a ∧ g.place? b = some y := by
  simp only [placesBefore, List.mem_flatMap, List.mem_filterMap, Prod.exists,
    List.mk_mem_zipIdx_iff_getElem?, Option.ite_none_right_eq_some, Option.some.injEq]
  constructor
  · rintro ⟨a, i, ha, b, hb, hplace, rfl⟩
    exact ⟨a, b, ha, hb, hplace⟩
  · rintro ⟨a, b, ha, hb, hplace⟩
    exact ⟨a, x, ha, b, hb, hplace, rfl⟩

/-- The places of a graph. -/
def flat : FlatGraph where
  order := g.order.filterMap g.place?
  preds := g.placesBefore
  nodup := g.nodup_order.filterMap fun _ _ _ ha hb => place?_inj ha hb

theorem exists_place?_of_mem_order (ha : a ∈ g.order) : ∃ x, g.place? a = some x :=
  exists_lastPlace? (g.mem_order.1 ha).listed

/-- The order has one place for each node. -/
theorem exists_order_flat_eq_map :
    ∃ p : α → Nat, (∀ a ∈ g.order, g.place? a = some (p a)) ∧ g.flat.order = g.order.map p := by
  have hplace : ∀ a, ∃ x, a ∈ g.order → g.place? a = some x := fun a => by
    by_cases ha : a ∈ g.order
    · obtain ⟨x, hx⟩ := g.exists_place?_of_mem_order ha
      exact ⟨x, fun _ => hx⟩
    · exact ⟨0, fun ha' => absurd ha' ha⟩
  choose p hp using hplace
  refine ⟨p, hp, ?_⟩
  rw [← List.filterMap_eq_map]
  exact List.filterMap_congr hp

theorem length_order_flat : g.flat.order.length = g.order.length := by
  obtain ⟨p, -, hp⟩ := g.exists_order_flat_eq_map
  simp [hp]

theorem getElem?_order_flat (k : Nat) : g.flat.order[k]? = g.order[k]?.bind g.place? := by
  obtain ⟨p, hplace, hp⟩ := g.exists_order_flat_eq_map
  cases hk : g.order[k]? with
  | none => simp [hp, hk]
  | some a => simp [hp, hk, hplace a (List.mem_of_getElem? hk)]

/-- The places in the order are those of the reachable nodes. -/
theorem mem_order_flat : x ∈ g.flat.order ↔ ∃ a, g.Reachable a ∧ g.place? a = some x := by
  simp [flat, mem_order]

theorem getElem?_order_flat_iff (hx : g.place? a = some x) :
    g.flat.order[k]? = some x ↔ g.order[k]? = some a := by
  rw [getElem?_order_flat, Option.bind_eq_some_iff]
  constructor
  · rintro ⟨b, hb, hbx⟩
    exact place?_inj hbx hx ▸ hb
  · exact fun ha => ⟨a, ha, hx⟩

/-- The predecessors of the places, by number, are those of the nodes. -/
theorem numbers_flat : g.flat.Numbers g.numbered := by
  intro k y hy p
  rw [getElem?_order_flat, Option.bind_eq_some_iff] at hy
  obtain ⟨a, ha, hay⟩ := hy
  rw [mem_numbered]
  constructor
  · rintro ⟨b, a', hb, ha', hedge⟩
    obtain rfl : a = a' := by simpa [ha] using ha'
    obtain ⟨x, hx⟩ := g.exists_place?_of_mem_order (List.mem_of_getElem? hb)
    exact ⟨x, g.mem_placesBefore.2 ⟨b, a, getElem?_of_lastPlace? hx, hedge.2.2, hay⟩,
      (g.getElem?_order_flat_iff hx).2 hb⟩
  · rintro ⟨x, hx, hp⟩
    obtain ⟨b, a', hb, hsucc, ha'⟩ := g.mem_placesBefore.1 hx
    obtain rfl : a' = a := place?_inj ha' hay
    rw [getElem?_order_flat, Option.bind_eq_some_iff] at hp
    obtain ⟨b', hb', hplace⟩ := hp
    obtain rfl : b' = b := Option.some.inj ((getElem?_of_lastPlace? hplace).symm.trans hb)
    exact ⟨b', a', hb', ha, (g.mem_order.1 (List.mem_of_getElem? hb')).listed,
      (g.mem_order.1 (List.mem_of_getElem? ha)).listed, hsucc⟩

/-! ### Queries -/

/-- Where a query starts.  Without two places, or without a row for the second one, it is
answered. -/
def ask (T : Doms) (a b : α) : Query :=
  match g.place? a, g.place? b with
  | some x, some y => if (T y).isSome then .asks x y else .answer false
  | _, _ => .answer false

/-- What a query finds in a table that is settled. -/
theorem dominates_iff_above {t : DomTable} (ht : g.domTable? = some t) (hfalls : t.Falls)
    (hj : g.order[j]? = some b) (hknown : t.Known j) :
    g.facts.dominates a b = true ↔ ∃ i, g.order[i]? = some a ∧ t.Above i j := by
  have hb := (idxOf?_eq_some_iff_getElem? g.nodup_order).2 hj
  simp only [← idxOf?_eq_some_iff_getElem? g.nodup_order, FlowFacts.dominates, order_facts, hb]
  cases hi : g.order.idxOf? a with
  | none => simp
  | some i =>
      obtain ⟨v, hv, habove⟩ := hfalls.above? (a := i) hknown
      simp [ht, hv, habove]

theorem dominates_eq_false (hb : b ∉ g.order) : g.facts.dominates a b = false := by
  rw [← Bool.not_eq_true, dominates_eq_true_iff]
  exact fun h => hb (g.mem_order.2 h.1)

/-- In a settled table every query climbs to the answer of the graph. -/
theorem ask_run {t : DomTable} {T : Doms} (ht : g.domTable? = some t) (hT : g.flat.Shows t T)
    (hknown : ∀ j < g.order.length, t.Known j) (a b : α) :
    Run (FlatGraph.queryStep T) (g.flat.QuerySound T) (g.ask T a b)
      (.answer (g.facts.dominates a b)) := by
  by_cases hb : b ∈ g.order
  · obtain ⟨j, hj⟩ := List.getElem?_of_mem hb
    obtain ⟨y, hy⟩ := g.exists_place?_of_mem_order hb
    have hjy := (g.getElem?_order_flat_iff hy).2 hj
    have hkj := hknown j (List.getElem?_eq_some_iff.1 hj).1
    have hrow : (T y).isSome = true := hT.isSome_iff.2 ⟨j, hjy, hkj⟩
    have hanswer := g.dominates_iff_above (a := a) ht hT.falls hj hkj
    cases hx : g.place? a with
    | none =>
        have hno : g.facts.dominates a b = false := by
          rw [← Bool.not_eq_true, hanswer]
          rintro ⟨i, hi, -⟩
          obtain ⟨x, hx'⟩ := g.exists_place?_of_mem_order (List.mem_of_getElem? hi)
          simp [hx] at hx'
        rw [hno]
        simpa [ask, hx] using .done _
    | some x =>
        obtain ⟨v, hrun, hv⟩ := hT.query hkj hjy x
        have hsame : v = g.facts.dominates a b := by
          rw [Bool.eq_iff_iff, hv, hanswer]
          simp only [g.getElem?_order_flat_iff hx]
        rw [← hsame]
        simpa [ask, hx, hy, hrow] using hrun
  · -- a node that is not reachable has no row
    have hstart : g.ask T a b = .answer false := by
      unfold ask
      split
      · next x y hx hy =>
          have hrow : T y = none := hT.off y fun hmem => by
            obtain ⟨b', hb', hy'⟩ := g.mem_order_flat.1 hmem
            exact hb (place?_inj hy' hy ▸ g.mem_order.2 hb')
          simp [hrow]
      · rfl
    rw [hstart, g.dominates_eq_false hb]
    exact .done _

/-! ### The iteration -/

/-- The iteration halts in a table that mirrors the dominators, and all queries of that table end
in the answers of the graph. -/
theorem exists_runs : ∃ T, g.flat.Mirrors g.facts.dominators T ∧
    Run g.flat.step g.flat.IterationSound g.flat.start (.done T) ∧
    ∀ a b, Run (FlatGraph.queryStep T) (g.flat.QuerySound T) (g.ask T a b)
      (.answer (g.facts.dominates a b)) := by
  rcases Nat.eq_zero_or_pos g.order.length with hzero | hpos
  · -- without an entry there is nothing to do
    have horder : g.order = [] := List.eq_nil_of_length_eq_zero hzero
    have hflat : g.flat.order = [] := by simp [flat, horder]
    refine ⟨fun _ => none, ⟨fun i x hx => by simp [hflat] at hx, fun _ _ => rfl⟩, ?_, fun a b => ?_⟩
    · simpa [FlatGraph.start, hflat] using .done _
    · have hstart : g.ask (fun _ => none) a b = .answer false := by
        unfold ask
        split <;> simp
      rw [hstart, g.dominates_eq_false (by simp [horder])]
      exact .done _
  · obtain ⟨t, parent, ht, hp, hsettling, hswept⟩ := g.exists_domTable? hpos
    have hzero : ∀ c, g.NumberDominates c 0 → c = 0 := fun c => g.numberDominates_zero
    have hinitial := DomTable.Settling.initial hp hzero
    have hsettle : DomTable.settle? (DomTable.rowsFrom g.numbered 1 (g.order.length - 1))
        (.initial g.order.length) = some t := by
      rw [← ht, domTable?, domRows_eq_rowsFrom]
      rfl
    simp only [← g.length_order_flat] at hpos hp hinitial hsettle
    obtain ⟨T₀, hT₀, hstart⟩ := FlatGraph.Shows.start hpos hinitial.falls
    obtain ⟨T, hT, hrun⟩ := hT₀.iterate hp g.numbers_flat hzero
      (fun k _ _ c hc hck p hpk => g.numberDominates_pred hc hck hpk) hinitial hsettle
    refine ⟨T, ?_, hstart ▸ hrun, g.ask_run ht hT hswept.known⟩
    simpa [ht] using hT.toMirrors

/-- **The dominator iteration halts and never follows an undefined row.**  Whatever the graph, the
machine stops after finitely many steps, and so does every query of its table; every row followed on
the way leads to the place of a reachable node, of a smaller number except at the entry.  The table
mirrors the dominators of the graph, and the queries end in its answers. -/
theorem flat_iteration_halts :
    (∀ x, x ∈ g.flat.order ↔ ∃ a, g.Reachable a ∧ g.place? a = some x) ∧
    ∃ T, g.flat.Mirrors g.facts.dominators T ∧
      (∃ n, g.flat.step^[n] g.flat.start = .done T ∧
        ∀ m < n, g.flat.IterationSound (g.flat.step^[m] g.flat.start)) ∧
      ∀ a b, ∃ n, (FlatGraph.queryStep T)^[n] (g.ask T a b) = .answer (g.facts.dominates a b) ∧
        ∀ m < n, g.flat.QuerySound T ((FlatGraph.queryStep T)^[m] (g.ask T a b)) := by
  obtain ⟨T, hT, hrun, hqueries⟩ := g.exists_runs
  exact ⟨fun x => g.mem_order_flat, T, hT, hrun.exists_iterate,
    fun a b => (hqueries a b).exists_iterate⟩

/-- Two nodes that lead to each other and are both entered from outside; behind them a node with an
unreachable predecessor. -/
def crossing : FlowGraph Nat where
  entry := some 0
  listed := [0, 1, 2, 3, 4]
  succs
    | 0 => [1, 2]
    | 1 => [2]
    | 2 => [1, 3]
    | 4 => [3, 7]
    | _ => []

example : (match crossing.flat.step^[44] crossing.flat.start with
    | .done T => (List.range 5).map T
    | _ => []) = [some 0, some 0, some 0, some 2, none] := by decide +kernel

end FlowGraph

end LoopSwap
