/-
**Flow graphs.**

A flow graph is given by an entry, a list of nodes and the successors of each node.  Nothing is
asked of the three: the entry may be missing or not listed, a node may be listed twice, edges may
repeat, and an edge may lead to a node that is not listed.  Such an edge is ignored, and a node
counts at its last place in the list.

Main definitions:

* `LoopSwap.FlowGraph` — a graph as it is given;
* `LoopSwap.FlowGraph.nodes`, `LoopSwap.FlowGraph.next` — its nodes, each once, and the edges
  between them;
* `LoopSwap.pendingWeight` — what bounds the work of a walk over a graph.

Main results:

* `LoopSwap.FlowGraph.mem_nodes`, `LoopSwap.FlowGraph.nodup_nodes` — the nodes are the listed
  ones, without repetition;
* `LoopSwap.pendingWeight_erase` — a walk gets shorter with each node it takes up.
-/

set_option relaxedAutoImplicit false
set_option autoImplicit false

namespace LoopSwap

/-! ### Lists without repetition -/

/-- The elements of a list, each kept at its last place only. -/
def lastOccurrences {α : Type} [DecidableEq α] : List α → List α
  | [] => []
  | a :: l => if a ∈ l then lastOccurrences l else a :: lastOccurrences l

@[simp] theorem mem_lastOccurrences {α : Type} [DecidableEq α] {l : List α} {a : α} :
    a ∈ lastOccurrences l ↔ a ∈ l := by
  induction l with
  | nil => simp [lastOccurrences]
  | cons b l ih =>
      by_cases hb : b ∈ l
      · simp only [lastOccurrences, if_pos hb, ih, List.mem_cons]
        exact ⟨Or.inr, fun h => h.elim (fun h => h ▸ hb) id⟩
      · simp [lastOccurrences, hb, ih]

theorem nodup_lastOccurrences {α : Type} [DecidableEq α] (l : List α) :
    (lastOccurrences l).Nodup := by
  induction l with
  | nil => simp [lastOccurrences]
  | cons b l ih =>
      by_cases hb : b ∈ l <;> simp [lastOccurrences, hb, ih]

theorem lastOccurrences_eq_self {α : Type} [DecidableEq α] {l : List α} (h : l.Nodup) :
    lastOccurrences l = l := by
  induction l with
  | nil => rfl
  | cons b l ih =>
      rw [List.nodup_cons] at h
      simp [lastOccurrences, h.1, ih h.2]

/-! ### Graphs -/

/-- A graph with an entry, as it is given. -/
structure FlowGraph (α : Type) where
  entry : Option α
  listed : List α
  succs : α → List α

namespace FlowGraph

variable {α : Type} [DecidableEq α]

/-- The listed nodes, each once. -/
def nodes (g : FlowGraph α) : List α := lastOccurrences g.listed

/-- The successors of `a` among `nodes`, provided `a` is one of them. -/
def nextIn (g : FlowGraph α) (nodes : List α) (a : α) : List α :=
  if a ∈ nodes then (g.succs a).filter (· ∈ nodes) else []

/-- The listed successors of a listed node, as often as there are edges. -/
def next (g : FlowGraph α) (a : α) : List α := g.nextIn g.nodes a

@[simp] theorem mem_nodes {g : FlowGraph α} {a : α} : a ∈ g.nodes ↔ a ∈ g.listed :=
  mem_lastOccurrences

theorem nodup_nodes (g : FlowGraph α) : g.nodes.Nodup := nodup_lastOccurrences _

theorem mem_next {g : FlowGraph α} {a b : α} :
    b ∈ g.next a ↔ a ∈ g.listed ∧ b ∈ g.listed ∧ b ∈ g.succs a := by
  by_cases ha : a ∈ g.listed
  · simp [next, nextIn, ha, and_comm]
  · simp [next, nextIn, ha]

end FlowGraph

/-! ### The work left in a walk -/

/-- The work that taking up the nodes of `fresh` can cause: one step for each of them and one for
each of their edges. -/
def pendingWeight {α : Type} (next : α → List α) (fresh : List α) : Nat :=
  fresh.foldr (fun a n => (next a).length + 1 + n) 0

theorem pendingWeight_erase {α : Type} [DecidableEq α] (next : α → List α) {fresh : List α}
    {a : α} (h : a ∈ fresh) :
    pendingWeight next (fresh.erase a) + ((next a).length + 1) = pendingWeight next fresh := by
  induction fresh with
  | nil => cases h
  | cons b l ih =>
      by_cases hb : b = a
      · subst hb
        simp [pendingWeight]
        omega
      · have ha : a ∈ l := by
          rcases List.mem_cons.1 h with rfl | h
          · exact absurd rfl hb
          · exact h
        have := ih ha
        rw [List.erase_cons_tail (by simpa using hb)]
        simp only [pendingWeight, List.foldr_cons] at this ⊢
        omega

end LoopSwap
