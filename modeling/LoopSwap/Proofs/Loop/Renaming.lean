/-
**The same loops under other names.**

Which loops a function has, how they are nested and which numbers they get depends on three things
only: which blocks are headers, in what order the layout lists them, and which header is in the loop
of which other.  So if the headers of one function are those of another under new names, in the same
order and with the same loops around them, then the loop with a given number has the new name of
the header that had this number (`Func.SameNesting.map_header_loop?`).

A whole graph under new names has its loops and its regions under new names.

Main definitions:

* `LoopSwap.FlowGraph.Renamed` — a graph whose nodes have been given each other's names;
* `LoopSwap.FlowGraph.Encloses` — the closest loop around a header;
* `LoopSwap.Func.headers`, `LoopSwap.Func.SameNesting` — the headers of a function, and the
  same headers under new names.

Main results:

* `LoopSwap.FlowGraph.not_inLoop_of_pred` — a node with one way in is no header;
* `LoopSwap.FlowGraph.Renamed.inLoop_iff`, `LoopSwap.FlowGraph.Renamed.region` — loops and regions
  under new names;
* `LoopSwap.Func.nested_parent_eq_some_iff` — the parent of a loop by headers;
* `LoopSwap.Func.SameNesting.map_header_loop?`, `LoopSwap.Func.SameNesting.parent` — loops keep
  their numbers and their parents.
-/

import LoopSwap.Proofs.Code.Resolution
import LoopSwap.Proofs.Loop.Nesting
import LoopSwap.Proofs.Loop.Region

set_option relaxedAutoImplicit false
set_option autoImplicit false

namespace LoopSwap

/-! ### Lists -/

/-- Lists that agree under two functions, element by element. -/
theorem forall₂_of_map_eq {α β γ : Type} {u : α → γ} {v : β → γ} {l : List α} :
    ∀ {l' : List β}, l'.map v = l.map u →
      List.Forall₂ (fun a b => a ∈ l ∧ b ∈ l' ∧ v b = u a) l l' := by
  induction l with
  | nil =>
      intro l' h
      rw [List.map_eq_nil_iff.1 h]
      exact .nil
  | cons a l ih =>
      intro l' h
      cases l' with
      | nil => cases h
      | cons b l' =>
          obtain ⟨hab, htail⟩ := List.cons.inj h
          refine .cons ⟨List.mem_cons_self, List.mem_cons_self, hab⟩ ((ih htail).imp ?_)
          rintro x y ⟨hx, hy, hxy⟩
          exact ⟨List.mem_cons_of_mem _ hx, List.mem_cons_of_mem _ hy, hxy⟩

theorem flatMap_eq_of_forall₂ {α β γ : Type} {R : α → β → Prop} {u : α → List γ} {v : β → List γ}
    {l : List α} {l' : List β} (h : List.Forall₂ R l l')
    (hR : ∀ a ∈ l, ∀ b, R a b → v b = u a) : l'.flatMap v = l.flatMap u := by
  induction h with
  | nil => rfl
  | cons hab _ ih =>
      rw [List.flatMap_cons, List.flatMap_cons, hR _ List.mem_cons_self _ hab,
        ih fun a ha => hR a (List.mem_cons_of_mem _ ha)]

/-! ### Walks under new names -/

theorem ReachVia.map {α β : Type} {r : α → α → Prop} {s : β → β → Prop} {P : α → Prop}
    {Q : β → Prop} {φ : α → β} {a b : α} (h : ReachVia r P a b)
    (hr : ∀ a b, r a b → s (φ a) (φ b)) (hP : ∀ a, P a → Q (φ a)) : ReachVia s Q (φ a) (φ b) :=
  Relation.ReflTransGen.lift φ (fun a b hab => ⟨hr a b hab.1, hP b hab.2⟩) a b h

namespace FlowGraph

variable {α : Type} {g g' : FlowGraph α} {φ : α → α} {h p a b x y : α}

/-- A node other than the entry that is entered from one node only is no header. -/
theorem not_inLoop_of_pred (hx : g.entry ≠ some x) (hpred : ∀ a, g.Edge a x → a = y) :
    ¬ g.InLoop x x := by
  rintro ⟨t, ht, -⟩
  obtain rfl := hpred t ht.edge
  obtain ⟨e, he, hl, hreach⟩ := Reachable.iff_reachVia.1 ht.reachable
  have hex : e ≠ x := fun heq => hx (heq ▸ he)
  have hno := (dominates_iff.1 ht.dominates e he hl).resolve_left hex
  -- the way to the one predecessor does not need the node
  rcases hreach.first_meet (· = x) with hall | ⟨u, v, heu, huv, -, rfl, -⟩
  · exact hno (hall.mono fun _ hx => hx.2)
  · obtain rfl := hpred u huv
    exact hno (heu.mono fun _ hx => hx.2)

/-- `p` is the header of the closest loop around the header `h`. -/
def Encloses (g : FlowGraph α) (p h : α) : Prop :=
  p ≠ h ∧ g.InLoop p h ∧ ∀ k, k ≠ h → g.InLoop k h → g.InLoop k p

/-! ### Graphs under new names -/

/-- `g'` is `g` with the names of its nodes exchanged by `φ`. -/
structure Renamed (g g' : FlowGraph α) (φ : α → α) : Prop where
  involutive : ∀ a, φ (φ a) = a
  entry : g'.entry = g.entry.map φ
  listed : ∀ a, φ a ∈ g'.listed ↔ a ∈ g.listed
  edge : ∀ a b, g'.Edge (φ a) (φ b) ↔ g.Edge a b

namespace Renamed

theorem symm (hr : g.Renamed g' φ) : g'.Renamed g φ := by
  refine ⟨hr.involutive, ?_, fun a => ?_, fun a b => ?_⟩
  · rw [hr.entry, Option.map_map]
    cases g.entry with
    | none => rfl
    | some e => exact (congrArg some (hr.involutive e)).symm
  · rw [← hr.listed, hr.involutive]
  · rw [← hr.edge, hr.involutive, hr.involutive]

theorem injective (hr : g.Renamed g' φ) : Function.Injective φ := fun a b hab => by
  rw [← hr.involutive a, hab, hr.involutive]

/-- An edge of the new graph is one of the old graph under the old names. -/
theorem edge_iff (hr : g.Renamed g' φ) : g'.Edge a b ↔ g.Edge (φ a) (φ b) := by
  rw [← hr.edge, hr.involutive, hr.involutive]

theorem reachVia {P Q : α → Prop} (hr : g.Renamed g' φ) (hab : ReachVia g.Edge P a b)
    (hP : ∀ a, P a → Q (φ a)) : ReachVia g'.Edge Q (φ a) (φ b) :=
  hab.map (fun a b => (hr.edge a b).2) hP

theorem reachable (hr : g.Renamed g' φ) (ha : g.Reachable a) : g'.Reachable (φ a) := by
  obtain ⟨e, he, hl, hea⟩ := Reachable.iff_reachVia.1 ha
  refine Reachable.iff_reachVia.2 ⟨φ e, ?_, (hr.listed e).2 hl, hr.reachVia hea fun _ h => h⟩
  rw [hr.entry, he]
  rfl

theorem dominates (hr : g.Renamed g' φ) (ha : g.Dominates h a) : g'.Dominates (φ h) (φ a) := by
  refine dominates_iff.2 fun e he hl => ?_
  -- ways in the new graph are ways in the old one under the old names
  have hs := hr.symm
  have he' : g.entry = some (φ e) := by
    rw [hs.entry, he]
    rfl
  rcases dominates_iff.1 ha (φ e) he' ((hs.listed e).2 hl) with heq | hno
  · exact Or.inl (by rw [← heq, hr.involutive])
  · refine Or.inr fun hreach => hno ?_
    have hback := hs.reachVia (Q := (· ≠ h)) hreach fun x hx hxh => hx ?_
    · rwa [hr.involutive] at hback
    · rw [← hxh, hr.involutive]

theorem backEdge (hr : g.Renamed g' φ) (ha : g.BackEdge a h) : g'.BackEdge (φ a) (φ h) :=
  ⟨hr.reachable ha.reachable, (hr.edge a h).2 ha.edge, hr.dominates ha.dominates⟩

theorem inLoop (hr : g.Renamed g' φ) (ha : g.InLoop h a) : g'.InLoop (φ h) (φ a) := by
  obtain ⟨t, ht, rfl | ⟨hne, hreach, hat⟩⟩ := ha
  · exact ⟨φ t, hr.backEdge ht, Or.inl rfl⟩
  · have hne' : ∀ x, x ≠ h → φ x ≠ φ h := fun x hx heq => hx (hr.injective heq)
    exact ⟨φ t, hr.backEdge ht, Or.inr ⟨hne' a hne, hr.reachable hreach, hr.reachVia hat hne'⟩⟩

/-- A loop under new names. -/
theorem inLoop_iff (hr : g.Renamed g' φ) : g'.InLoop (φ h) (φ a) ↔ g.InLoop h a := by
  refine ⟨fun ha => ?_, hr.inLoop⟩
  have hback := hr.symm.inLoop ha
  rwa [hr.involutive, hr.involutive] at hback

/-- A region under new names. -/
theorem region {S : α → Prop} {t : α} (hr : g.Renamed g' φ) (hS : Region g S h p t x) :
    Region g' (fun a => S (φ a)) (φ h) (φ p) (φ t) (φ x) := by
  have hback : ∀ {a}, S (φ (φ a)) ↔ S a := fun {a} => by rw [hr.involutive]
  have hedge : ∀ {a b}, g'.Edge a b ↔ g.Edge (φ a) (φ b) := hr.edge_iff
  have hname : ∀ {a b}, φ a = b → a = φ b := fun {a b} hab => by rw [← hab, hr.involutive]
  refine ⟨hback.2 hS.header_mem, hback.2 hS.latch_mem, fun hp => hS.preheader_not_mem (hback.1 hp),
    fun hx => hS.exit_not_mem (hback.1 hx), hr.reachable hS.preheader_reachable, fun b => ?_,
    (hr.edge _ _).2 hS.latch_edge, ?_, fun a b ha hab hna hb => ?_, fun a ha hah => ?_,
    fun a b ha hab hb => ?_, fun a ha => ?_⟩
  · rw [hedge, hr.involutive, hS.preheader_edge]
    exact ⟨hname, fun hb => by rw [hb, hr.involutive]⟩
  · obtain ⟨a, ha, hax⟩ := hS.exists_exit
    exact ⟨φ a, hback.2 ha, (hr.edge _ _).2 hax⟩
  · obtain ⟨hap, hbh⟩ := hS.enters _ _ (hr.symm.reachable ha) (hedge.1 hab) hna hb
    exact ⟨hname hap, hname hbh⟩
  · rw [hedge, hr.involutive] at hah
    exact hname (hS.turns _ ha hah)
  · exact hname (hS.leaves _ _ ha (hedge.1 hab) hb)
  · have hway := hr.reachVia (Q := fun x => S (φ x)) (hS.from_header _ ha) fun _ hx => hback.2 hx
    rwa [hr.involutive] at hway

end Renamed

end FlowGraph

/-! ### Headers -/

namespace Func

variable {f g k : Func} {φ ψ : BlockId → BlockId} {h : BlockId} {i j : Nat} {l m : Loop}

/-- The headers of the loops of a function, in layout order. -/
def headers (f : Func) : List BlockId :=
  (naturalLoops f.graph.facts f.layout).map (·.header)

theorem headers_eq_filter (f : Func) :
    f.headers = f.layout.filter fun h => f.graph.facts.tails h ≠ [] := by
  have hkeep : ∀ h, (naturalLoop? f.graph.facts f.layout h).map (·.header) =
      Option.guard (fun h => decide (f.graph.facts.tails h ≠ [])) h := by
    intro h
    rw [naturalLoop?]
    cases htails : f.graph.facts.tails h <;> simp [Option.guard, htails]
  rw [headers, naturalLoops, List.map_filterMap, ← List.filterMap_eq_filter, funext hkeep]

theorem nodup_headers (hf : f.layout.Nodup) : f.headers.Nodup := by
  rw [headers_eq_filter]
  exact hf.filter _

theorem tails_ne_nil_iff : f.graph.facts.tails h ≠ [] ↔ f.graph.InLoop h h := by
  rw [Ne, List.eq_nil_iff_forall_not_mem, not_forall_not]
  constructor
  · rintro ⟨t, ht⟩
    exact (FlowGraph.mem_tails.1 ht).header_inLoop
  · rintro ⟨t, ht, -⟩
    exact ⟨t, FlowGraph.mem_tails.2 ht⟩

/-- The headers are the blocks that a loop starts at. -/
theorem mem_headers : h ∈ f.headers ↔ f.graph.InLoop h h := by
  rw [headers_eq_filter, List.mem_filter, decide_eq_true_eq, tails_ne_nil_iff]
  exact ⟨And.right, fun hh => ⟨hh.reachable.listed, hh⟩⟩

theorem exists_naturalLoop (hh : f.graph.InLoop h h) :
    ∃ n ∈ naturalLoops f.graph.facts f.layout, n.header = h :=
  List.mem_map.1 (mem_headers.2 hh)

/-! ### Parents by headers -/

variable {c p : Nested}

theorem exists_nested {n : NaturalLoop} (hn : n ∈ naturalLoops f.graph.facts f.layout) :
    ∃ c ∈ f.nested, c.loop = n :=
  ⟨_, List.mem_map_of_mem hn, rfl⟩

theorem map_header_nested (f : Func) : f.nested.map (·.loop.header) = f.headers := by
  rw [nested, nest, List.map_map, headers]
  rfl

theorem exists_of_mem_nested (hc : c ∈ f.nested) :
    c.loop ∈ naturalLoops f.graph.facts f.layout ∧
      c.parent = enclosing? (naturalLoops f.graph.facts f.layout) c.loop := by
  obtain ⟨n, hn, rfl⟩ := List.mem_map.1 hc
  exact ⟨hn, rfl⟩

/-- The parent of a loop is the closest loop around its header. -/
theorem nested_parent_eq_some_iff (hl : f.layout.Nodup) (hc : c ∈ f.nested) (hp : p ∈ f.nested) :
    c.parent = some p.loop ↔ f.graph.Encloses p.loop.header c.loop.header := by
  obtain ⟨hcmem, hparent⟩ := exists_of_mem_nested hc
  obtain ⟨hpmem, -⟩ := exists_of_mem_nested hp
  rw [hparent, enclosing?_eq_some_iff hl hcmem, FlowGraph.Encloses, mem_blocks_iff hpmem]
  constructor
  · rintro ⟨-, hne, hin, hleast⟩
    refine ⟨fun heq => hne (eq_of_header_eq hpmem hcmem heq), hin, fun k hk hkin => ?_⟩
    obtain ⟨n, hn, rfl⟩ := exists_naturalLoop hkin.header
    have hnc : n ≠ c.loop := fun heq => hk (congrArg NaturalLoop.header heq)
    exact (mem_blocks_iff hn).1 (hleast n hn hnc ((mem_blocks_iff hn).2 hkin))
  · rintro ⟨hne, hin, hleast⟩
    refine ⟨hpmem, fun heq => hne (congrArg NaturalLoop.header heq), hin, fun n hn hnc hin' => ?_⟩
    rw [mem_blocks_iff hn] at hin' ⊢
    exact hleast _ (fun heq => hnc (eq_of_header_eq hn hcmem heq)) hin'

/-- A loop has no parent if no other loop is around its header. -/
theorem nested_parent_eq_none_iff (hl : f.layout.Nodup) (hc : c ∈ f.nested) :
    c.parent = none ↔ ∀ k, k ≠ c.loop.header → ¬ f.graph.InLoop k c.loop.header := by
  obtain ⟨hcmem, hparent⟩ := exists_of_mem_nested hc
  rw [hparent, enclosing?_eq_none_iff hl hcmem]
  constructor
  · intro hfree k hk hkin
    obtain ⟨n, hn, rfl⟩ := exists_naturalLoop hkin.header
    have hnc : n ≠ c.loop := fun heq => hk (congrArg NaturalLoop.header heq)
    exact hfree n hn hnc ((mem_blocks_iff hn).2 hkin)
  · intro hfree n hn hnc hin
    exact hfree n.header (fun heq => hnc (eq_of_header_eq hn hcmem heq)) ((mem_blocks_iff hn).1 hin)

/-! ### The same nesting -/

/-- The headers of `g` are those of `f` under new names, in the same order, and with the same
headers in their loops. -/
structure SameNesting (f g : Func) (φ : BlockId → BlockId) : Prop where
  headers : g.headers = f.headers.map φ
  injective : Function.Injective φ
  inLoop : ∀ h ∈ f.headers, ∀ a ∈ f.headers, g.graph.InLoop (φ h) (φ a) ↔ f.graph.InLoop h a

/-- A loop of `f` and the loop of `g` whose header has the new name. -/
def Corresponds (f g : Func) (φ : BlockId → BlockId) (c d : Nested) : Prop :=
  c ∈ f.nested ∧ d ∈ g.nested ∧ d.loop.header = φ c.loop.header

namespace SameNesting

theorem refl (f : Func) : f.SameNesting f id :=
  ⟨(List.map_id _).symm, Function.injective_id, fun _ _ _ _ => Iff.rfl⟩

theorem trans (hfg : f.SameNesting g φ) (hgk : g.SameNesting k ψ) : f.SameNesting k (ψ ∘ φ) := by
  have hmem : ∀ h ∈ f.headers, φ h ∈ g.headers := fun h hh => by
    rw [hfg.headers]
    exact List.mem_map_of_mem hh
  refine ⟨?_, hgk.injective.comp hfg.injective, fun h hh a ha => ?_⟩
  · rw [hgk.headers, hfg.headers, List.map_map]
  · exact (hgk.inLoop _ (hmem h hh) _ (hmem a ha)).trans (hfg.inLoop h hh a ha)

variable (hn : f.SameNesting g φ)

include hn

/-- The headers of `g` are the new names of headers of `f`. -/
theorem exists_header (hh : g.graph.InLoop h h) : ∃ a ∈ f.headers, φ a = h := by
  have hmem := mem_headers.2 hh
  rw [hn.headers] at hmem
  exact List.mem_map.1 hmem

theorem encloses_iff {p h : BlockId} (hp : p ∈ f.headers) (hh : h ∈ f.headers) :
    g.graph.Encloses (φ p) (φ h) ↔ f.graph.Encloses p h := by
  have hne : ∀ {a b}, φ a ≠ φ b ↔ a ≠ b := hn.injective.ne_iff
  unfold FlowGraph.Encloses
  rw [hne, hn.inLoop p hp h hh]
  refine and_congr_right fun _ => and_congr_right fun _ => ⟨fun hleast k hk hkin => ?_,
    fun hleast k hk hkin => ?_⟩
  · have hkmem := mem_headers.2 hkin.header
    exact (hn.inLoop k hkmem p hp).1 (hleast _ (hne.2 hk) ((hn.inLoop k hkmem h hh).2 hkin))
  · obtain ⟨a, ha, rfl⟩ := hn.exists_header hkin.header
    exact (hn.inLoop a ha p hp).2 (hleast a (hne.1 hk) ((hn.inLoop a ha h hh).1 hkin))

theorem forall₂_nested : List.Forall₂ (Corresponds f g φ) f.nested g.nested := by
  refine forall₂_of_map_eq (u := fun c : Nested => φ c.loop.header)
    (v := fun d : Nested => d.loop.header) ?_
  have hmap : ∀ (k : Func) (u : BlockId → BlockId),
      k.nested.map (fun c => u c.loop.header) = k.headers.map u := fun k u => by
    rw [← map_header_nested, List.map_map]
    rfl
  rw [hmap f φ, ← hn.headers]
  exact (hmap g id).trans (List.map_id _)

/-- Children in the one function correspond to children in the other. -/
theorem forall₂_childrenOf {o o' : Option NaturalLoop}
    (ho : ∀ c d, Corresponds f g φ c d → (c.parent = o ↔ d.parent = o')) :
    List.Forall₂ (Corresponds f g φ) (childrenOf f.nested o) (childrenOf g.nested o') := by
  refine List.rel_filter ?_ hn.forall₂_nested
  intro c d hcd
  simp only [decide_eq_true_eq]
  exact ho c d hcd

variable (hf : f.layout.Nodup) (hg : g.layout.Nodup) {d q : Nested}

include hf hg

/-- Loops that correspond have parents that correspond. -/
theorem parent_iff (hcd : Corresponds f g φ c d) (hpq : Corresponds f g φ p q) :
    c.parent = some p.loop ↔ d.parent = some q.loop := by
  have hmem : ∀ {c}, c ∈ f.nested → c.loop.header ∈ f.headers := fun hc =>
    List.mem_map_of_mem (exists_of_mem_nested hc).1
  rw [nested_parent_eq_some_iff hf hcd.1 hpq.1, nested_parent_eq_some_iff hg hcd.2.1 hpq.2.1,
    hcd.2.2, hpq.2.2, hn.encloses_iff (hmem hpq.1) (hmem hcd.1)]

/-- Loops that correspond to loops without parent have no parent. -/
theorem parent_none_iff (hcd : Corresponds f g φ c d) : c.parent = none ↔ d.parent = none := by
  have hc : c.loop.header ∈ f.headers := List.mem_map_of_mem (exists_of_mem_nested hcd.1).1
  rw [nested_parent_eq_none_iff hf hcd.1, nested_parent_eq_none_iff hg hcd.2.1, hcd.2.2]
  constructor
  · intro hfree k hk hkin
    obtain ⟨a, ha, rfl⟩ := hn.exists_header hkin.header
    exact hfree a (hn.injective.ne_iff.1 hk) ((hn.inLoop a ha _ hc).1 hkin)
  · intro hfree k hk hkin
    have hkmem := mem_headers.2 hkin.header
    exact hfree _ (hn.injective.ne_iff.2 hk) ((hn.inLoop k hkmem _ hc).2 hkin)

/-- Going down from loops that correspond one meets the same headers at the same depths. -/
theorem map_descend (depth : Nat) (hcd : Corresponds f g φ c d) :
    (descend g.nested depth d).map (fun e => (e.1, e.2.loop.header)) =
      (descend f.nested depth c).map fun e => (e.1, φ e.2.loop.header) := by
  fun_induction descend f.nested depth c generalizing d with
  | case1 depth c ih =>
      rw [← descend, descend_eq, descend_eq, List.map_cons, List.map_cons, List.map_flatMap,
        List.map_flatMap, hcd.2.2]
      congr 1
      have hchildren := hn.forall₂_childrenOf fun x y hxy => hn.parent_iff hf hg hxy hcd
      exact flatMap_eq_of_forall₂ hchildren fun x hx y hxy => ih ⟨x, hx⟩ hxy

theorem map_preorder :
    (preorder g.nested).map (fun e => (e.1, e.2.loop.header)) =
      (preorder f.nested).map fun e => (e.1, φ e.2.loop.header) := by
  unfold preorder
  rw [List.map_flatMap, List.map_flatMap]
  have hroots := hn.forall₂_childrenOf fun x y hxy => hn.parent_none_iff hf hg hxy
  exact flatMap_eq_of_forall₂ hroots fun x _ y hxy => hn.map_descend hf hg 1 hxy

/-- Loops keep their numbers. -/
theorem map_header_loop? (i : Nat) :
    (g.loops.loop? i).map (·.header) = (f.loops.loop? i).map fun l => φ l.header := by
  have hplace := congrArg (fun es => (es[i]?).map Prod.snd) (hn.map_preorder hf hg)
  simp only [List.getElem?_map, Option.map_map] at hplace
  rw [loop?_eq_map, loop?_eq_map, Option.map_map, Option.map_map]
  exact hplace

/-- A loop has the new name of its header in the other function. -/
theorem exists_loop? (hi : f.loops.loop? i = some l) :
    ∃ l', g.loops.loop? i = some l' ∧ l'.header = φ l.header := by
  have hmap := hn.map_header_loop? hf hg i
  rw [hi, Option.map_some] at hmap
  exact Option.map_eq_some_iff.1 hmap

/-- Loops keep their parents. -/
theorem parent {l' : Loop} (hi : f.loops.loop? i = some l) (hi' : g.loops.loop? i = some l')
    (hp : l.parent = some j) : l'.parent = some j := by
  obtain ⟨m, hj, hji, hin, hleast⟩ := (parent_eq_some_iff hf hi).1 hp
  have hheader : ∀ {i l l'}, f.loops.loop? i = some l → g.loops.loop? i = some l' →
      l'.header = φ l.header := by
    intro i l l' hi hi'
    have hmap := hn.map_header_loop? hf hg i
    rw [hi, hi'] at hmap
    exact Option.some.inj hmap
  -- whether a header is in a loop is the same before and after
  have hblocks : ∀ {i j l m l' m'}, f.loops.loop? i = some l → f.loops.loop? j = some m →
      g.loops.loop? i = some l' → g.loops.loop? j = some m' →
      (l'.header ∈ m'.blocks ↔ l.header ∈ m.blocks) := by
    intro i j l m l' m' hi hj hi' hj'
    have hmem : ∀ {i l}, f.loops.loop? i = some l → l.header ∈ f.headers := fun hi =>
      List.mem_map_of_mem (describes_loop? hi).mem_naturalLoops
    rw [(describes_loop? hj').mem_blocks, (describes_loop? hj).mem_blocks, hheader hi hi',
      hheader hj hj', hn.inLoop _ (hmem hj) _ (hmem hi)]
  obtain ⟨m', hj', -⟩ := hn.exists_loop? hf hg hj
  refine (parent_eq_some_iff hg hi').2 ⟨m', hj', hji, (hblocks hi hj hi' hj').2 hin,
    fun k n' hk' hki hkin => ?_⟩
  have hmap := hn.map_header_loop? hf hg k
  rw [hk', Option.map_some] at hmap
  obtain ⟨n, hk, -⟩ := Option.map_eq_some_iff.1 hmap.symm
  exact (hblocks hj hk hj' hk').2 (hleast k n hk hki ((hblocks hi hk hi' hk').1 hkin))

end SameNesting

end Func

end LoopSwap
