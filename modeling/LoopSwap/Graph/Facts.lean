/-
**What is known of a flow graph.**

The order, the edges between reachable nodes and the dominators are worked out once and kept
together; all questions are answered from them.

Main definitions:

* `LoopSwap.FlowFacts` — the tables;
* `LoopSwap.FlowGraph.domTable?` — the dominators of a graph;
* `LoopSwap.FlowGraph.facts` — the tables of a graph;
* `LoopSwap.FlowFacts.reachable`, `LoopSwap.FlowFacts.succs`, `LoopSwap.FlowFacts.preds`,
  `LoopSwap.FlowFacts.dominates` — the questions;
* `LoopSwap.Func.graph` — the blocks of a function as a graph.
-/

import LoopSwap.Code.Query
import LoopSwap.Graph.Dominators
import LoopSwap.Graph.Order

set_option relaxedAutoImplicit false
set_option autoImplicit false

namespace LoopSwap

variable {α : Type} [DecidableEq α]

/-! ### Edges and numbers -/

/-- The ends of the edges into `a`, in the order and as often as `edges` lists them. -/
def edgesInto (edges : List (α × α)) (a : α) : List α :=
  edges.filterMap fun e => if e.2 = a then some e.1 else none

theorem mem_edgesInto {edges : List (α × α)} {a p : α} :
    p ∈ edgesInto edges a ↔ (p, a) ∈ edges := by
  simp only [edgesInto, List.mem_filterMap]
  constructor
  · rintro ⟨⟨x, y⟩, hmem, heq⟩
    split at heq
    · next h =>
        cases heq
        exact h ▸ hmem
    · cases heq
  · intro h
    exact ⟨(p, a), h, by simp⟩

/-- The numbers of the elements of `l` in `order`. -/
def numbersIn (order l : List α) : List Nat := l.filterMap fun a => order.idxOf? a

/-- The rows of the dominator iteration: every number but the entry's, with the numbers of its
predecessors. -/
def domRows (order : List α) (edges : List (α × α)) : List (Nat × List Nat) :=
  order.zipIdx.tail.map fun row => (row.2, numbersIn order (edgesInto edges row.1))

namespace FlowGraph

/-- The edges out of reachable nodes, by the place of their start in the list of nodes. -/
def reachableEdges (g : FlowGraph α) (order : List α) : List (α × α) :=
  (g.nodes.filter (· ∈ order)).flatMap fun a => (g.next a).map fun b => (a, b)

/-- The immediate dominators of the nodes of `order`, by number. -/
def domTable? (g : FlowGraph α) : Option DomTable :=
  DomTable.settle? (domRows g.order (g.reachableEdges g.order)) (.initial g.order.length)

end FlowGraph

/-! ### The tables -/

/-- The tables of a graph: its nodes, the reachable ones in reverse postorder, the edges between
them, and their immediate dominators. -/
structure FlowFacts (α : Type) where
  graph : FlowGraph α
  nodes : List α
  order : List α
  edges : List (α × α)
  dominators : DomTable

/-- Works out the tables of a graph. -/
def FlowGraph.facts (g : FlowGraph α) : FlowFacts α :=
  let nodes := g.nodes
  let order :=
    match g.entry with
    | none => []
    | some entry => search (g.nextIn nodes) nodes [.enter entry] []
  let edges := (nodes.filter (· ∈ order)).flatMap fun a => (g.nextIn nodes a).map fun b => (a, b)
  let start := DomTable.initial order.length
  ⟨g, nodes, order, edges, (DomTable.settle? (domRows order edges) start).getD start⟩

namespace FlowFacts

/-- Whether a node can be reached from the entry. -/
def reachable (x : FlowFacts α) (a : α) : Bool := a ∈ x.order

/-- The listed successors of a node. -/
def succs (x : FlowFacts α) (a : α) : List α := x.graph.nextIn x.nodes a

/-- The reachable predecessors of a node, in the order of the nodes. -/
def preds (x : FlowFacts α) (a : α) : List α := edgesInto x.edges a

/-- Whether every way from the entry to `b` passes `a`. -/
def dominates (x : FlowFacts α) (a b : α) : Bool :=
  match x.order.idxOf? a, x.order.idxOf? b with
  | some i, some j => (x.dominators.above? i j).getD false
  | _, _ => false

end FlowFacts

namespace FlowGraph

@[simp] theorem graph_facts (g : FlowGraph α) : g.facts.graph = g := rfl

@[simp] theorem nodes_facts (g : FlowGraph α) : g.facts.nodes = g.nodes := rfl

@[simp] theorem order_facts (g : FlowGraph α) : g.facts.order = g.order := rfl

@[simp] theorem edges_facts (g : FlowGraph α) : g.facts.edges = g.reachableEdges g.order := rfl

@[simp] theorem dominators_facts (g : FlowGraph α) :
    g.facts.dominators = g.domTable?.getD (.initial g.order.length) := rfl

@[simp] theorem succs_facts (g : FlowGraph α) (a : α) : g.facts.succs a = g.next a := rfl

theorem reachable_facts {g : FlowGraph α} {a : α} :
    g.facts.reachable a = true ↔ a ∈ g.order :=
  decide_eq_true_iff

/-- A reachable predecessor is a reachable node with an edge. -/
theorem mem_preds_facts {g : FlowGraph α} {a p : α} :
    p ∈ g.facts.preds a ↔ p ∈ g.order ∧ a ∈ g.next p := by
  simp only [FlowFacts.preds, edges_facts, mem_edgesInto, reachableEdges, List.mem_flatMap,
    List.mem_filter, List.mem_map, Prod.mk.injEq, decide_eq_true_eq]
  constructor
  · rintro ⟨x, ⟨_, hx⟩, y, hy, rfl, rfl⟩
    exact ⟨hx, hy⟩
  · rintro ⟨hp, ha⟩
    exact ⟨p, ⟨mem_nodes.2 (mem_next.1 ha).1, hp⟩, a, ha, rfl, rfl⟩

end FlowGraph

/-! ### Functions -/

/-- The blocks of a function, in layout order, with the edges of their terminators. -/
def Func.graph (f : Func) : FlowGraph BlockId := ⟨f.entry?, f.layout, f.successors⟩

end LoopSwap
