/-
**The dominators of a graph.**

The reachable nodes are numbered by their places in the depth-first order, which gives every node
but the entry a predecessor with a smaller number.  So the iteration over the numbers settles, and
the ways up its final table are the dominators: none is lost on the way, and once nothing changes
any more a number above a row is above all its predecessors, hence on every path.

Main definitions:

* `LoopSwap.predNumbers` — the predecessors of a node, by number.

Main results:

* `LoopSwap.FlowGraph.spanned_order` — the numbers have the predecessors that the iteration needs;
* `LoopSwap.FlowGraph.exists_domTable?` — the iteration ends;
* `LoopSwap.FlowGraph.dominates_eq_true_iff`, `LoopSwap.FlowGraph.dominates_iff_forall_path` —
  the answer to a query says what all paths say.
-/

import LoopSwap.Graph.Facts
import LoopSwap.Proofs.Graph.Order
import LoopSwap.Proofs.Graph.Settle

set_option relaxedAutoImplicit false
set_option autoImplicit false

namespace LoopSwap

open DomTable

variable {α : Type}

/-! ### Numbers -/

theorem place_unique {l : List α} (hl : l.Nodup) {a : α} {i j : Nat} (hi : l[i]? = some a)
    (hj : l[j]? = some a) : i = j :=
  (List.getElem?_inj (List.getElem?_eq_some_iff.1 hi).1 hl).1 (hi.trans hj.symm)

variable [DecidableEq α]

theorem idxOf?_eq_some_iff_getElem? {l : List α} (hl : l.Nodup) {a : α} {i : Nat} :
    l.idxOf? a = some i ↔ l[i]? = some a := by
  rw [List.idxOf?_eq_some_iff]
  constructor
  · rintro ⟨hi, ha, -⟩
    rw [List.getElem?_eq_getElem hi, ha]
  · intro h
    obtain ⟨hi, ha⟩ := List.getElem?_eq_some_iff.1 h
    refine ⟨hi, ha, fun j hj hja => ?_⟩
    have := place_unique hl h (List.getElem?_eq_some_iff.2 ⟨Nat.lt_trans hj hi, hja⟩)
    omega

/-- The numbers of the predecessors of the node with number `k`. -/
def predNumbers (order : List α) (edges : List (α × α)) (k : Nat) : List Nat :=
  match order[k]? with
  | none => []
  | some a => numbersIn order (edgesInto edges a)

theorem mem_predNumbers {order : List α} (ho : order.Nodup) {edges : List (α × α)} {k p : Nat} :
    p ∈ predNumbers order edges k ↔
      ∃ x a, order[p]? = some x ∧ order[k]? = some a ∧ (x, a) ∈ edges := by
  unfold predNumbers
  cases hk : order[k]? with
  | none => simp
  | some a =>
      simp only [numbersIn, List.mem_filterMap, mem_edgesInto, idxOf?_eq_some_iff_getElem? ho]
      constructor
      · rintro ⟨x, hx, hp⟩
        exact ⟨x, a, hp, rfl, hx⟩
      · rintro ⟨x, b, hp, hb, hx⟩
        cases hb
        exact ⟨x, hx, hp⟩

/-- The rows of the iteration are those of the predecessor numbers. -/
theorem domRows_eq_rowsFrom (order : List α) (edges : List (α × α)) :
    domRows order edges = rowsFrom (predNumbers order edges) 1 (order.length - 1) := by
  refine List.ext_getElem (by simp [domRows, rowsFrom]) fun k hk hk' => ?_
  have hlt : k + 1 < order.length := by
    simp only [domRows, List.length_map, List.length_tail, List.length_zipIdx] at hk
    omega
  simp [domRows, rowsFrom, predNumbers, Nat.add_comm 1 k, hlt]

namespace FlowGraph

variable (g : FlowGraph α) {a b x : α} {k p : Nat}

theorem mem_reachableEdges : (x, a) ∈ g.reachableEdges g.order ↔ x ∈ g.order ∧ g.Edge x a := by
  have h := g.mem_preds_facts (a := a) (p := x)
  simp only [FlowFacts.preds, edges_facts, mem_edgesInto, ← edge_iff_mem_next] at h
  exact h

/-- Predecessors by number, along the depth-first order. -/
def numbered (k : Nat) : List Nat := predNumbers g.order (g.reachableEdges g.order) k

theorem mem_numbered : p ∈ g.numbered k ↔
    ∃ x a, g.order[p]? = some x ∧ g.order[k]? = some a ∧ g.Edge x a := by
  rw [numbered, mem_predNumbers g.nodup_order]
  constructor
  · rintro ⟨x, a, hp, hk, hxa⟩
    exact ⟨x, a, hp, hk, (g.mem_reachableEdges.1 hxa).2⟩
  · rintro ⟨x, a, hp, hk, hxa⟩
    exact ⟨x, a, hp, hk, g.mem_reachableEdges.2 ⟨List.mem_of_getElem? hp, hxa⟩⟩

/-- The numbers have the predecessors that the iteration needs. -/
theorem spanned_order (hpos : 0 < g.order.length) :
    ∃ parent, Spanned g.numbered parent g.order.length := by
  have hparent : ∀ k, ∃ j, 0 < k → k < g.order.length → j < k ∧ j ∈ g.numbered k := by
    intro k
    by_cases hk : 0 < k ∧ k < g.order.length
    · have ha : g.order[k]? = some g.order[k] := List.getElem?_eq_getElem hk.2
      have hne : g.entry ≠ some g.order[k] := by
        intro hentry
        have h₀ := List.getElem?_eq_getElem hpos
        have := place_unique g.nodup_order (h₀.trans ((g.order_zero h₀).symm.trans hentry)) ha
        omega
      obtain ⟨j, x, hj, hx, hedge⟩ := g.led_order ha hne
      exact ⟨j, fun _ _ => ⟨hj, g.mem_numbered.2 ⟨x, _, hx, ha, hedge⟩⟩⟩
    · exact ⟨0, fun h₀ h₁ => absurd ⟨h₀, h₁⟩ hk⟩
  choose parent hparent using hparent
  refine ⟨parent, hpos, ?_, fun k h₀ h₁ => (hparent k h₀ h₁).2, fun k h₀ h₁ => (hparent k h₀ h₁).1⟩
  intro k p hp
  obtain ⟨x, a, hx, -⟩ := g.mem_numbered.1 hp
  exact (List.getElem?_eq_some_iff.1 hx).1

/-! ### Dominance by number -/

/-- The node with number `c` dominates the one with number `k`. -/
def NumberDominates (c k : Nat) : Prop :=
  ∃ a b, g.order[c]? = some a ∧ g.order[k]? = some b ∧ g.Dominates a b

theorem numberDominates_zero {c : Nat} (h : g.NumberDominates c 0) : c = 0 := by
  obtain ⟨a, b, hc, h₀, hdom⟩ := h
  have hb := List.mem_of_getElem? h₀
  -- the path that consists of the entry alone visits nothing else
  have hmem : a ∈ [b] := hdom [b] ⟨b, g.order_zero h₀, (g.mem_order.1 hb).listed, .here b⟩
  obtain rfl := List.mem_singleton.1 hmem
  exact place_unique g.nodup_order hc h₀

theorem numberDominates_pred {c : Nat} (h : g.NumberDominates c k) (hck : c ≠ k)
    (hp : p ∈ g.numbered k) : g.NumberDominates c p := by
  obtain ⟨a, b, hc, hk, hdom⟩ := h
  obtain ⟨x, b', hx, hk', hedge⟩ := g.mem_numbered.1 hp
  obtain rfl : b = b' := by simpa [hk] using hk'
  refine ⟨a, x, hc, hx, hdom.pred (fun hab => hck ?_) hedge⟩
  subst hab
  exact place_unique g.nodup_order hc hk

/-- The iteration ends, in a table that a sweep does not change. -/
theorem exists_domTable? (hpos : 0 < g.order.length) :
    ∃ t parent, g.domTable? = some t ∧ Spanned g.numbered parent g.order.length ∧
      Settling g.numbered parent g.order.length g.NumberDominates t ∧
      Swept g.numbered g.order.length t t g.order.length := by
  obtain ⟨parent, hp⟩ := g.spanned_order hpos
  have hzero : ∀ c, g.NumberDominates c 0 → c = 0 := fun c => g.numberDominates_zero
  obtain ⟨t, ht, hsettling, hswept⟩ := Settling.settle? hp hzero
    (fun k _ _ c hc hck p hpk => g.numberDominates_pred hc hck hpk) (Settling.initial hp hzero)
  refine ⟨t, parent, ?_, hp, hsettling, hswept⟩
  rw [domTable?, domRows_eq_rowsFrom]
  exact ht

/-- In a table that a sweep does not change, what is above a number dominates it. -/
theorem numberDominates_of_above {t : DomTable} {parent : Nat → Nat} {c : Nat}
    (hp : Spanned g.numbered parent g.order.length)
    (ht : Swept g.numbered g.order.length t t g.order.length)
    (hk : k < g.order.length) (h : t.Above c k) : g.NumberDominates c k := by
  have hc := List.getElem?_eq_getElem (Nat.lt_of_le_of_lt h.le hk)
  refine ⟨_, _, hc, List.getElem?_eq_getElem hk, dominates_iff.2 fun e he hl => ?_⟩
  by_contra hcon
  obtain ⟨hea, hreach⟩ := not_or.1 hcon
  -- along a walk that avoids the node, no number has `c` above it
  have hno : g.Reachable g.order[k] ∧ ∀ i, g.order[i]? = some g.order[k] → ¬ t.Above c i := by
    refine (not_not.1 hreach).mem_of_closed
      (S := fun x => g.Reachable x ∧ ∀ i, g.order[i]? = some x → ¬ t.Above c i)
      ⟨.entry he hl, fun i hi hci => ?_⟩ ?_
    · have h₀ := List.getElem?_eq_getElem hp.pos
      have hentry := h₀.trans ((g.order_zero h₀).symm.trans he)
      obtain rfl := place_unique g.nodup_order hi hentry
      obtain rfl := Above.zero_iff.1 hci
      exact hea (Option.some.inj (hi.symm.trans hc))
    · rintro x y ⟨hxreach, hx⟩ hxy hya
      refine ⟨hxreach.next hxy, fun i hi hci => ?_⟩
      have hci' : c ≠ i := fun heq => hya (Option.some.inj (hi.symm.trans (heq ▸ hc)))
      have hi0 : 0 < i := by
        by_contra hi0
        obtain rfl : i = 0 := by omega
        exact hci' (Above.zero_iff.1 hci)
      obtain ⟨j, hj⟩ := List.getElem?_of_mem (g.mem_order.2 hxreach)
      exact hx j hj (ht.above_preds hp hi0 (List.getElem?_eq_some_iff.1 hi).1 hci hci'
        (g.mem_numbered.2 ⟨x, y, hj, hi, hxy⟩))
  exact hno.2 k (List.getElem?_eq_getElem hk) h

/-! ### The answer -/

theorem dominates_eq_true_iff :
    g.facts.dominates a b = true ↔ g.Reachable b ∧ g.Dominates a b := by
  have hquery : g.facts.dominates a b = true ↔ ∃ i j, g.order[i]? = some a ∧
      g.order[j]? = some b ∧ (g.facts.dominators.above? i j).getD false = true := by
    simp only [← idxOf?_eq_some_iff_getElem? g.nodup_order, FlowFacts.dominates, order_facts]
    cases g.order.idxOf? a <;> cases g.order.idxOf? b <;> simp
  have hanswer : ∀ i j, g.order[i]? = some a → g.order[j]? = some b →
      ((g.facts.dominators.above? i j).getD false = true ↔ g.Dominates a b) := by
    intro i j hi hj
    obtain ⟨hjlt, -⟩ := List.getElem?_eq_some_iff.1 hj
    obtain ⟨t, parent, ht, hp, hsettling, hswept⟩ := g.exists_domTable? (by omega)
    obtain ⟨v, hv, habove⟩ := hswept.falls.above? (a := i) (hswept.known j hjlt)
    have htable : g.facts.dominators = t := by simp [ht]
    rw [htable, hv, Option.getD_some, habove]
    constructor
    · intro h
      obtain ⟨a', b', hi', hj', hdom⟩ := g.numberDominates_of_above hp hswept hjlt h
      obtain rfl : a = a' := by simpa [hi] using hi'
      obtain rfl : b = b' := by simpa [hj] using hj'
      exact hdom
    · intro hdom
      exact hsettling.complete j hjlt (hswept.known j hjlt) i ⟨a, b, hi, hj, hdom⟩
  rw [hquery]
  constructor
  · rintro ⟨i, j, hi, hj, h⟩
    exact ⟨g.mem_order.1 (List.mem_of_getElem? hj), (hanswer i j hi hj).1 h⟩
  · rintro ⟨hb, hdom⟩
    obtain ⟨i, hi⟩ := List.getElem?_of_mem (g.mem_order.2 (hdom.reachable hb))
    obtain ⟨j, hj⟩ := List.getElem?_of_mem (g.mem_order.2 hb)
    exact ⟨i, j, hi, hj, (hanswer i j hi hj).2 hdom⟩

/-- **Dominance is decided**: the answer is yes exactly if both nodes are listed, the second can be
reached, and every path to it visits the first. -/
theorem dominates_iff_forall_path (g : FlowGraph α) (a b : α) :
    g.facts.dominates a b = true ↔
      a ∈ g.listed ∧ b ∈ g.listed ∧ g.Reachable b ∧ ∀ p, g.Path b p → a ∈ p := by
  rw [dominates_eq_true_iff]
  constructor
  · rintro ⟨hb, hdom⟩
    exact ⟨(hdom.reachable hb).listed, hb.listed, hb, hdom⟩
  · rintro ⟨-, -, hb, hdom⟩
    exact ⟨hb, hdom⟩

end FlowGraph

end LoopSwap
