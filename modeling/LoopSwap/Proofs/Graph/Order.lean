/-
**What the depth-first search lists.**

The search is followed through one invariant.  The nodes that are entered but not left stand on the
stack as visits still to be left; reading them from the bottom of the stack upwards, and after them
the nodes already left, gives the *trail*: the order in which the nodes entered so far will finally
be listed.  Leaving a node does not change the trail, and entering one puts it right after the
nodes that are still open.

Main definitions:

* `LoopSwap.opened`, `LoopSwap.trail` — the open nodes and the final order of the entered ones;
* `LoopSwap.Led` — every node of a list but the root comes after one that leads to it;
* `LoopSwap.SearchInv` — the invariant.

Main results:

* `LoopSwap.SearchInv.run` — the invariant holds when the search ends;
* `LoopSwap.FlowGraph.nodup_order`, `LoopSwap.FlowGraph.mem_order` — the order lists the reachable
  nodes, each once;
* `LoopSwap.FlowGraph.led_order` — every listed node but the entry has a predecessor in front of it.
-/

import LoopSwap.Graph.Order
import LoopSwap.Proofs.Graph.Path
import Mathlib.Data.List.Perm.Basic

set_option relaxedAutoImplicit false
set_option autoImplicit false

namespace LoopSwap

variable {α : Type}

/-! ### Trails -/

/-- The nodes that are entered but not left, the latest first. -/
def opened : List (Visit α) → List α
  | [] => []
  | .enter _ :: rest => opened rest
  | .leave a :: rest => a :: opened rest

@[simp] theorem opened_nil : opened ([] : List (Visit α)) = [] := rfl

@[simp] theorem opened_enter (a : α) (rest : List (Visit α)) :
    opened (.enter a :: rest) = opened rest := rfl

@[simp] theorem opened_leave (a : α) (rest : List (Visit α)) :
    opened (.leave a :: rest) = a :: opened rest := rfl

@[simp] theorem opened_enters (l : List α) (rest : List (Visit α)) :
    opened (l.map .enter ++ rest) = opened rest := by
  induction l with
  | nil => rfl
  | cons a l ih => exact ih

/-- The nodes entered so far, in the order in which they will be listed. -/
def trail (stack : List (Visit α)) (left : List α) : List α := (opened stack).reverse ++ left

@[simp] theorem trail_nil (left : List α) : trail [] left = left := rfl

@[simp] theorem trail_enter (a : α) (rest : List (Visit α)) (left : List α) :
    trail (.enter a :: rest) left = trail rest left := rfl

/-- Leaving a node does not change the trail. -/
theorem trail_leave (a : α) (rest : List (Visit α)) (left : List α) :
    trail (.leave a :: rest) left = trail rest (a :: left) := by
  simp [trail]

/-! ### Lists in which nodes come after a predecessor -/

/-- Every node of the list is the root or comes after a node, of the list or of `seen`, that leads
to it. -/
def Led (next : α → List α) (root : α) : List α → List α → Prop
  | _, [] => True
  | seen, a :: l => (a = root ∨ ∃ x ∈ seen, a ∈ next x) ∧ Led next root (a :: seen) l

namespace Led

variable {next : α → List α} {root a : α} {seen seen' l r : List α}

theorem mono (h : Led next root seen l) (hs : ∀ x ∈ seen, x ∈ seen') :
    Led next root seen' l := by
  induction l generalizing seen seen' with
  | nil => trivial
  | cons b l ih =>
      refine ⟨h.1.imp_right fun ⟨x, hx, hb⟩ => ⟨x, hs x hx, hb⟩, ih h.2 fun x hx => ?_⟩
      rcases List.mem_cons.1 hx with rfl | hx
      · exact List.mem_cons_self
      · exact List.mem_cons_of_mem _ (hs x hx)

/-- A node may be put into the list behind one that leads to it. -/
theorem insert (h : Led next root seen (l ++ r))
    (ha : a = root ∨ ∃ x ∈ l, a ∈ next x) : Led next root seen (l ++ a :: r) := by
  have key : ∀ (l seen : List α), Led next root seen (l ++ r) →
      (a = root ∨ ∃ x, (x ∈ l ∨ x ∈ seen) ∧ a ∈ next x) →
      Led next root seen (l ++ a :: r) := by
    intro l
    induction l with
    | nil =>
        intro seen h ha
        refine ⟨ha.imp_right fun ⟨x, hx, hax⟩ => ⟨x, by simpa using hx, hax⟩, ?_⟩
        exact h.mono fun x hx => List.mem_cons_of_mem _ hx
    | cons b l ih =>
        intro seen h ha
        refine ⟨h.1, ih (b :: seen) h.2 (ha.imp_right fun ⟨x, hx, hax⟩ => ⟨x, ?_, hax⟩)⟩
        simp only [List.mem_cons] at hx ⊢
        tauto
  exact key l seen h (ha.imp_right fun ⟨x, hx, hax⟩ => ⟨x, Or.inl hx, hax⟩)

/-- By places: every node but the root has a predecessor at a smaller place. -/
theorem exists_lt (h : Led next root [] l) {k : Nat} (hk : l[k]? = some a) (ha : a ≠ root) :
    ∃ j x, j < k ∧ l[j]? = some x ∧ a ∈ next x := by
  have key : ∀ (l seen : List α) (k : Nat), Led next root seen l → l[k]? = some a →
      (∃ x ∈ seen, a ∈ next x) ∨ ∃ j x, j < k ∧ l[j]? = some x ∧ a ∈ next x := by
    intro l
    induction l with
    | nil => intro seen k _ hk; simp at hk
    | cons b l ih =>
        intro seen k h hk
        cases k with
        | zero =>
            obtain rfl : b = a := by simpa using hk
            exact Or.inl (h.1.resolve_left ha)
        | succ k =>
            rcases ih (b :: seen) k h.2 (by simpa using hk) with ⟨x, hx, hax⟩ | ⟨j, x, hj, hx, hax⟩
            · rcases List.mem_cons.1 hx with rfl | hx
              · exact Or.inr ⟨0, x, by omega, rfl, hax⟩
              · exact Or.inl ⟨x, hx, hax⟩
            · exact Or.inr ⟨j + 1, x, by omega, by simpa using hx, hax⟩
  rcases key l [] k h hk with ⟨x, hx, -⟩ | hlt
  · cases hx
  · exact hlt

end Led

/-! ### The invariant -/

/-- Every visit to be entered is one of the root or of a successor of an open node below it. -/
def Backed (next : α → List α) (root : α) : List (Visit α) → Prop
  | [] => True
  | .leave _ :: rest => Backed next root rest
  | .enter a :: rest => (a = root ∨ ∃ x ∈ opened rest, a ∈ next x) ∧ Backed next root rest

theorem Backed.enters {next : α → List α} {root a : α} {rest : List (Visit α)}
    (h : Backed next root rest) {l : List α} (hl : ∀ b ∈ l, b ∈ next a) :
    Backed next root (l.map .enter ++ .leave a :: rest) := by
  induction l with
  | nil => exact h
  | cons b l ih =>
      refine ⟨Or.inr ⟨a, ?_, hl b List.mem_cons_self⟩,
        ih fun c hc => hl c (List.mem_cons_of_mem _ hc)⟩
      simp

/-- What holds at every step of a search from `root` through `nodes`. -/
structure SearchInv (next : α → List α) (nodes : List α) (root : α)
    (fresh : List α) (stack : List (Visit α)) (left : List α) : Prop where
  /-- Every node is fresh or entered, and not both. -/
  perm : (fresh ++ trail stack left).Perm nodes
  backed : Backed next root stack
  led : Led next root [] (trail stack left)
  /-- A fresh successor of an entered node waits on the stack. -/
  waiting : ∀ a ∈ trail stack left, ∀ b ∈ next a, b ∈ fresh → .enter b ∈ stack
  root_waiting : root ∈ fresh → .enter root ∈ stack

namespace SearchInv

variable {next : α → List α} {nodes : List α} {root a : α}
  {fresh left : List α} {rest : List (Visit α)}

theorem init (next : α → List α) (nodes : List α) (root : α) :
    SearchInv next nodes root nodes [.enter root] [] where
  perm := by simp [trail]
  backed := ⟨Or.inl rfl, trivial⟩
  led := trivial
  waiting := by simp [trail]
  root_waiting := fun _ => List.mem_singleton_self _

theorem leave (h : SearchInv next nodes root fresh (.leave a :: rest) left) :
    SearchInv next nodes root fresh rest (a :: left) where
  perm := trail_leave a rest left ▸ h.perm
  backed := h.backed
  led := trail_leave a rest left ▸ h.led
  waiting := by
    intro x hx b hb hfresh
    have := h.waiting x (trail_leave a rest left ▸ hx) b hb hfresh
    simpa using this
  root_waiting := fun hfresh => by simpa using h.root_waiting hfresh

theorem skip (h : SearchInv next nodes root fresh (.enter a :: rest) left) (ha : a ∉ fresh) :
    SearchInv next nodes root fresh rest left where
  perm := h.perm
  backed := h.backed.2
  led := h.led
  waiting := by
    intro x hx b hb hfresh
    rcases List.mem_cons.1 (h.waiting x hx b hb hfresh) with heq | hmem
    · cases heq
      exact absurd hfresh ha
    · exact hmem
  root_waiting := by
    intro hfresh
    rcases List.mem_cons.1 (h.root_waiting hfresh) with heq | hmem
    · cases heq
      exact absurd hfresh ha
    · exact hmem

variable [DecidableEq α]

theorem enter (h : SearchInv next nodes root fresh (.enter a :: rest) left) (ha : a ∈ fresh)
    (hnodes : nodes.Nodup) :
    SearchInv next nodes root (fresh.erase a)
      (((next a).filter (· ∈ fresh.erase a)).map .enter ++ .leave a :: rest) left := by
  have htrail : trail (((next a).filter (· ∈ fresh.erase a)).map .enter ++ .leave a :: rest) left =
      (opened rest).reverse ++ a :: left := by simp [trail]
  have hnodup : fresh.Nodup := (List.nodup_append.1 (h.perm.nodup_iff.2 hnodes)).1
  have herase : ∀ b, b ∈ fresh.erase a → b ≠ a ∧ b ∈ fresh := fun b hb =>
    (hnodup.mem_erase_iff).1 hb
  -- what waited for a node other than `a` waits further down
  have hkeep : ∀ b, b ∈ fresh.erase a → Visit.enter b ∈ Visit.enter a :: rest →
      Visit.enter b ∈
        ((next a).filter (· ∈ fresh.erase a)).map Visit.enter ++ .leave a :: rest := by
    intro b hb hmem
    rcases List.mem_cons.1 hmem with heq | hmem
    · cases heq
      exact absurd rfl (herase _ hb).1
    · exact List.mem_append_right _ (List.mem_cons_of_mem _ hmem)
  constructor
  · rw [htrail]
    refine List.Perm.trans ?_ h.perm
    calc List.Perm (fresh.erase a ++ ((opened rest).reverse ++ a :: left))
          (fresh.erase a ++ a :: ((opened rest).reverse ++ left)) :=
            List.perm_middle.append_left _
      List.Perm _ (a :: fresh.erase a ++ ((opened rest).reverse ++ left)) := List.perm_middle
      List.Perm _ (fresh ++ ((opened rest).reverse ++ left)) :=
            (List.perm_cons_erase ha).symm.append_right _
  · exact h.backed.2.enters fun b hb => (List.mem_filter.1 hb).1
  · rw [htrail]
    refine Led.insert h.led (h.backed.1.imp_right fun ⟨x, hx, hax⟩ => ⟨x, ?_, hax⟩)
    exact List.mem_reverse.2 hx
  · intro x hx b hb hfresh
    rw [htrail] at hx
    by_cases hxa : x = a
    · subst hxa
      refine List.mem_append_left _ (List.mem_map.2 ⟨b, ?_, rfl⟩)
      exact List.mem_filter.2 ⟨hb, decide_eq_true hfresh⟩
    · have hmem : x ∈ trail (.enter a :: rest) left := by
        rcases List.mem_append.1 hx with hx | hx
        · exact List.mem_append_left _ hx
        · exact List.mem_append_right _ ((List.mem_cons.1 hx).resolve_left hxa)
      exact hkeep b hfresh (h.waiting x hmem b hb (herase b hfresh).2)
  · intro hfresh
    exact hkeep root hfresh (h.root_waiting (herase root hfresh).2)

/-- The invariant holds when the search ends. -/
theorem run {stack : List (Visit α)} (h : SearchInv next nodes root fresh stack left)
    (hnodes : nodes.Nodup) :
    ∃ fresh', SearchInv next nodes root fresh' [] (search next fresh stack left) := by
  fun_induction search next fresh stack left with
  | case1 fresh left => exact ⟨fresh, h⟩
  | case2 fresh left a rest ih => exact ih h.leave
  | case3 fresh left a rest ha fresh' ih => exact ih (h.enter ha hnodes)
  | case4 fresh left a rest ha ih => exact ih (h.skip ha)

end SearchInv

/-! ### The order of a graph -/

namespace FlowGraph

variable [DecidableEq α] (g : FlowGraph α) {a b e : α}

/-- The order ends a search in which nothing waits any more. -/
theorem searchInv_order (he : g.entry = some e) :
    ∃ fresh, SearchInv g.next g.nodes e fresh [] g.order := by
  have h := (SearchInv.init g.next g.nodes e).run g.nodup_nodes
  unfold order
  rw [he]
  exact h

theorem order_eq_nil (he : g.entry = none) : g.order = [] := by
  unfold order
  rw [he]

theorem nodup_order : g.order.Nodup := by
  cases he : g.entry with
  | none => simp [g.order_eq_nil he]
  | some e =>
      obtain ⟨fresh, h⟩ := g.searchInv_order he
      exact (List.nodup_append.1 (h.perm.nodup_iff.2 g.nodup_nodes)).2.1

/-- Every node of the order but the entry has a predecessor at a smaller place. -/
theorem led_order {k : Nat} (hk : g.order[k]? = some a) (ha : g.entry ≠ some a) :
    ∃ j x, j < k ∧ g.order[j]? = some x ∧ g.Edge x a := by
  cases he : g.entry with
  | none => simp [g.order_eq_nil he] at hk
  | some e =>
      obtain ⟨fresh, h⟩ := g.searchInv_order he
      have hne : a ≠ e := fun hae => ha (hae ▸ he)
      obtain ⟨j, x, hj, hx, hax⟩ := h.led.exists_lt hk hne
      exact ⟨j, x, hj, hx, edge_iff_mem_next.2 hax⟩

/-- The order lists the reachable nodes. -/
theorem mem_order : a ∈ g.order ↔ g.Reachable a := by
  cases he : g.entry with
  | none =>
      constructor
      · intro h
        simp [g.order_eq_nil he] at h
      · rintro ⟨p, e, hentry, -⟩
        simp [he] at hentry
  | some e =>
      obtain ⟨fresh, h⟩ := g.searchInv_order he
      have hmem : ∀ x, x ∈ fresh ∨ x ∈ g.order ↔ x ∈ g.listed := fun x => by
        rw [← mem_nodes, ← h.perm.mem_iff, List.mem_append, trail_nil]
      constructor
      · intro ha
        -- induction on the place: each node is reached from one in front of it
        obtain ⟨k, hk⟩ := List.getElem?_of_mem ha
        clear ha
        induction k using Nat.strongRecOn generalizing a with
        | ind k ih =>
            by_cases hae : a = e
            · subst hae
              exact .entry he ((hmem a).1 (Or.inr (List.mem_of_getElem? hk)))
            · have hne : g.entry ≠ some a := fun h => hae (by simpa [he] using h.symm)
              obtain ⟨j, x, hj, hx, hxa⟩ := g.led_order hk hne
              exact (ih j hj hx).next hxa
      · intro ha
        obtain ⟨e', he', hl, hreach⟩ := Reachable.iff_reachVia.1 ha
        obtain rfl : e = e' := by simpa [he] using he'
        refine hreach.mem_of_closed ?_ fun x y hx hxy _ => ?_
        · exact ((hmem e).2 hl).resolve_left fun hfresh => by simpa using h.root_waiting hfresh
        · refine ((hmem y).2 hxy.2.1).resolve_left fun hfresh => ?_
          simpa using h.waiting x hx y (edge_iff_mem_next.1 hxy) hfresh

/-- The order starts with the entry. -/
theorem order_zero (ha : g.order[0]? = some a) : g.entry = some a := by
  by_contra hne
  obtain ⟨j, x, hj, -⟩ := g.led_order ha hne
  omega

end FlowGraph

end LoopSwap
