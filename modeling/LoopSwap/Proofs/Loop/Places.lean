/-
**The places of loops in the preorder.**

A loop is picked by its place in the preorder, so this says how the places lie.  From any loop on,
the preorder goes on with the way down from that loop (`Segmented`).  The way down from a loop
lists what is nested in it, so the loops nested in it take the places right after it, up to some
place, and no others.  Siblings stand in the order in which the layout has their headers, since the
children of a loop are a sublist both of the loops in the order of the layout and of the preorder.

The depth of a loop counts the loops around it: one step up it falls by one, and the loops around a
loop are its parent and those around its parent.

Main definitions:

* `LoopSwap.Precedes` — one element stands before another in a list;
* `LoopSwap.Segmented` — a list of loops in which each is followed by the way down from it.

Main results:

* `LoopSwap.Segmented.preorder`, `LoopSwap.IsForest.mem_segment_iff` — the ways down are segments of
  the preorder;
* `LoopSwap.IsForest.childrenOf_sublist` — siblings stand in the order in which they are given;
* `LoopSwap.Func.isWithin_iff_transGen` — nesting over any number of levels is the way up;
* `LoopSwap.Func.depth_eq_length` — the depth counts the loops around a loop;
* `LoopSwap.Func.loops_places` — places, children and depths of the loops of a function.
-/

import LoopSwap.Proofs.Loop.Nesting
import Mathlib.Data.List.Pairwise

set_option relaxedAutoImplicit false
set_option autoImplicit false

namespace LoopSwap

/-! ### The order in a list -/

/-- `a` stands before `b` in the list. -/
def Precedes {α : Type} (xs : List α) (a b : α) : Prop :=
  ∃ i j : Nat, i < j ∧ xs[i]? = some a ∧ xs[j]? = some b

section

variable {α : Type} {xs cs : List α} {a b : α} {i j : Nat}

/-- What is picked from a list keeps its order. -/
theorem pairwise_precedes (h : cs.Sublist xs) : cs.Pairwise (Precedes xs) := by
  refine List.Pairwise.sublist h (List.pairwise_iff_getElem.2 ?_)
  intro i j hi hj hij
  exact ⟨i, j, hij, List.getElem?_eq_getElem hi, List.getElem?_eq_getElem hj⟩

/-- In a list without repetition, places tell which element stands first. -/
theorem Precedes.lt (h : Precedes xs a b) (hxs : xs.Nodup) (ha : xs[i]? = some a)
    (hb : xs[j]? = some b) : i < j := by
  obtain ⟨i', j', hlt, ha', hb'⟩ := h
  rw [place_unique hxs ha ha', place_unique hxs hb hb']
  exact hlt

/-- Two different elements of an ordered list, in the one order or the other. -/
theorem rel_or_rel_of_pairwise {R : α → α → Prop} (h : xs.Pairwise R) (ha : a ∈ xs) (hb : b ∈ xs)
    (hne : a ≠ b) : R a b ∨ R b a := by
  have heither : xs.Pairwise fun x y => R x y ∨ R y x := h.imp Or.inl
  have : Std.Symm fun x y => R x y ∨ R y x := ⟨fun _ _ => Or.symm⟩
  exact heither.forall ha hb hne

end

/-! ### Segments -/

/-- Each loop of the list is followed by the way down from it. -/
def Segmented (all : List Nested) (xs : List (Nat × Nested)) : Prop :=
  ∀ (i : Nat) (e : Nat × Nested), xs[i]? = some e →
    ∃ before after, xs = before ++ (descend all e.1 e.2 ++ after) ∧ before.length = i

namespace Segmented

variable {all : List Nested} {xs ys : List (Nat × Nested)}

theorem nil (all : List Nested) : Segmented all [] := by
  intro i e he
  simp at he

theorem append (hx : Segmented all xs) (hy : Segmented all ys) : Segmented all (xs ++ ys) := by
  intro i e he
  by_cases hi : i < xs.length
  · rw [List.getElem?_append_left hi] at he
    obtain ⟨before, after, hxs, hlength⟩ := hx i e he
    exact ⟨before, after ++ ys, by simp [hxs], hlength⟩
  · rw [List.getElem?_append_right (Nat.le_of_not_lt hi)] at he
    obtain ⟨before, after, hys, hlength⟩ := hy _ e he
    refine ⟨xs ++ before, after, by simp [hys], ?_⟩
    rw [List.length_append]
    omega

theorem flatMap {cs : List Nested} {k : Nested → List (Nat × Nested)}
    (h : ∀ c ∈ cs, Segmented all (k c)) : Segmented all (cs.flatMap k) := by
  induction cs with
  | nil => exact nil all
  | cons c cs ih =>
      rw [List.flatMap_cons]
      exact (h c List.mem_cons_self).append (ih fun d hd => h d (List.mem_cons_of_mem _ hd))

theorem descend (all : List Nested) (depth : Nat) (l : Nested) :
    Segmented all (descend all depth l) := by
  fun_induction LoopSwap.descend all depth l with
  | case1 depth l ih =>
      rw [← LoopSwap.descend, descend_eq]
      have hbelow : Segmented all
          ((childrenOf all (some l.loop)).flatMap (LoopSwap.descend all (depth + 1))) :=
        flatMap fun c hc => ih ⟨c, hc⟩
      intro i e he
      cases i with
      | zero =>
          cases he
          exact ⟨[], [], by simp [descend_eq], rfl⟩
      | succ i =>
          obtain ⟨before, after, hxs, hlength⟩ := hbelow i e he
          exact ⟨(depth, l) :: before, after, by simp [hxs], by simp [hlength]⟩

/-- In the preorder, each loop is followed by the way down from it. -/
theorem preorder (all : List Nested) : Segmented all (preorder all) :=
  flatMap fun c _ => descend all 1 c

end Segmented

namespace IsForest

variable {all : List Nested} {a b c d : Nested} {i j depth : Nat}

variable (hf : IsForest all)

include hf

/-- What is above a loop, other than the loop itself, is its parent or above that. -/
theorem below_iff_of_childOf (h : ChildOf all c a) : Below all c b ∧ c ≠ b ↔ Below all a b := by
  constructor
  · rintro ⟨hbelow, hne⟩
    rcases Relation.ReflTransGen.cases_head hbelow with rfl | ⟨p, hp, hpb⟩
    · exact absurd rfl hne
    · rw [hf.childOf_unique h hp]
      exact hpb
  · intro hbelow
    refine ⟨.head h hbelow, ?_⟩
    rintro rfl
    exact Nat.lt_irrefl _ (Nat.lt_of_lt_of_le h.size_lt hbelow.size_le)

/-- What is below a loop stands in the places from the loop on, up to some place. -/
theorem mem_segment_iff (hc : (preorder all)[i]? = some (depth, c)) :
    ∃ e ≤ (ordered all).length, ∀ j d, (ordered all)[j]? = some d →
      (Below all d c ↔ i ≤ j ∧ j < e) := by
  obtain ⟨before, after, hsplit, rfl⟩ := Segmented.preorder all i _ hc
  have hmem : c ∈ all := mem_of_mem_preorder (List.mem_of_getElem? hc)
  have hnodup := hf.nodup_ordered
  have hlist : ordered all = before.map (·.2) ++
      ((descend all depth c).map (·.2) ++ after.map (·.2)) := by
    rw [ordered, hsplit, List.map_append, List.map_append]
  refine ⟨before.length + (descend all depth c).length, ?_, fun j d hd => ?_⟩
  · rw [hlist]
    simp only [List.length_append, List.length_map]
    omega
  rw [← mem_descend_iff hmem]
  constructor
  · intro hbelow
    obtain ⟨k, hk⟩ := List.getElem?_of_mem hbelow
    have hlt : k < ((descend all depth c).map (·.2)).length := (List.getElem?_eq_some_iff.1 hk).1
    have hplace : (ordered all)[before.length + k]? = some d := by
      rw [hlist, List.getElem?_append_right (by simp), List.length_map, Nat.add_sub_cancel_left,
        List.getElem?_append_left hlt]
      exact hk
    rw [List.length_map] at hlt
    rw [place_unique hnodup hd hplace]
    omega
  · rintro ⟨hle, hlt⟩
    rw [hlist, List.getElem?_append_right (by simpa using hle), List.length_map,
      List.getElem?_append_left (by rw [List.length_map]; omega)] at hd
    exact List.mem_of_getElem? hd

omit hf in
/-- Siblings stand in the preorder in the order in which they are given. -/
theorem siblings_sublist (cs : List Nested) (depth : Nat) :
    cs.Sublist ((cs.flatMap (descend all depth)).map (·.2)) := by
  induction cs with
  | nil => exact List.Sublist.refl _
  | cons c cs ih =>
      rw [List.flatMap_cons, List.map_append, descend_eq, List.map_cons, List.cons_append]
      exact (ih.trans (List.sublist_append_right _ _)).cons_cons c

/-- The loops with one parent stand in the preorder in the order in which they are given. -/
theorem childrenOf_sublist (hc : c ∈ all) :
    (childrenOf all c.parent).Sublist (ordered all) := by
  cases hparent : c.parent with
  | none => exact siblings_sublist _ 1
  | some o =>
      obtain ⟨p, hp, rfl⟩ := hf.parent_mem c hc o hparent
      have hordered : p ∈ ordered all := hf.preorder_perm.mem_iff.2 hp
      obtain ⟨⟨depth, p'⟩, hmem, rfl⟩ := List.mem_map.1 hordered
      obtain ⟨i, hi⟩ := List.getElem?_of_mem hmem
      obtain ⟨before, after, hsplit, -⟩ := Segmented.preorder all i _ hi
      have hdown : (childrenOf all (some p'.loop)).Sublist ((descend all depth p').map (·.2)) := by
        rw [descend_eq, List.map_cons]
        exact (siblings_sublist _ (depth + 1)).cons _
      refine hdown.trans ?_
      rw [ordered, hsplit, List.map_append, List.map_append]
      exact (List.sublist_append_left _ _).trans (List.sublist_append_right _ _)

end IsForest

/-! ### The forest of a function -/

/-- Loop `j` has loop `i` as its parent. -/
def LoopForest.ParentAt (n : LoopForest) (j i : Nat) : Prop :=
  ∃ l, n.loop? j = some l ∧ l.parent = some i

namespace Func

variable {f : Func} {i j depth : Nat} {l m : Loop} {c d : Nested}

/-- The place of a loop is where it stands in the preorder. -/
theorem place?_eq_some_iff (hl : f.layout.Nodup) (hc : c ∈ f.nested) :
    f.place? c.loop = some i ↔ (ordered f.nested)[i]? = some c := by
  have hf := isForest_nested hl
  have hplaced : ∀ {i}, f.place? c.loop = some i → (ordered f.nested)[i]? = some c := by
    intro i hi
    obtain ⟨hlt, hloop, -⟩ := List.findIdx?_eq_some_iff_getElem.1 hi
    have hmem : (preorder f.nested)[i].2 ∈ f.nested := mem_of_mem_preorder (List.getElem_mem hlt)
    have heq := hf.loop_inj hmem hc (of_decide_eq_true hloop)
    rw [← heq]
    exact getElem?_ordered (List.getElem?_eq_getElem hlt)
  refine ⟨hplaced, fun hi => ?_⟩
  have hsome : (f.place? c.loop).isSome = true := by
    have hmem : c ∈ ordered f.nested := List.mem_of_getElem? hi
    obtain ⟨x, hx, rfl⟩ := List.mem_map.1 hmem
    rw [place?, List.findIdx?_isSome, List.any_eq_true]
    exact ⟨x, hx, decide_eq_true rfl⟩
  obtain ⟨k, hk⟩ := Option.isSome_iff_exists.1 hsome
  rw [hk, place_unique hf.nodup_ordered hi (hplaced hk)]

/-- The parent of a record is the place of the parent. -/
theorem parent_record_iff (hl : f.layout.Nodup) (hc : c ∈ f.nested) :
    (f.record depth c).parent = some j ↔
      ∃ p, ChildOf f.nested c p ∧ (ordered f.nested)[j]? = some p := by
  have hrecord : (f.record depth c).parent = c.parent.bind f.place? := rfl
  rw [hrecord, Option.bind_eq_some_iff]
  constructor
  · rintro ⟨o, ho, hj⟩
    obtain ⟨p, hp, rfl⟩ := (isForest_nested hl).parent_mem c hc o ho
    exact ⟨p, ⟨hc, hp, ho⟩, (place?_eq_some_iff hl hp).1 hj⟩
  · rintro ⟨p, hp, hj⟩
    exact ⟨p.loop, hp.parent, (place?_eq_some_iff hl hp.parent_mem).2 hj⟩

/-- The children of a record are the places of the loops with that parent. -/
theorem mem_children_iff (hl : f.layout.Nodup) (hc : (preorder f.nested)[i]? = some (depth, c)) :
    j ∈ (f.record depth c).children ↔ f.loops.ParentAt j i := by
  have hi := getElem?_ordered hc
  have hmem : c ∈ f.nested := mem_of_mem_preorder (List.mem_of_getElem? hc)
  have hrecord : (f.record depth c).children =
      (childrenOf f.nested (some c.loop)).filterMap fun d => f.place? d.loop := rfl
  rw [hrecord, List.mem_filterMap]
  constructor
  · rintro ⟨d, hd, hplace⟩
    obtain ⟨hd, hparent⟩ := mem_childrenOf.1 hd
    have hj := (place?_eq_some_iff hl hd).1 hplace
    rw [ordered, List.getElem?_map, Option.map_eq_some_iff] at hj
    obtain ⟨⟨depth', d'⟩, hj, rfl⟩ := hj
    exact ⟨_, loop?_eq_some_iff.2 ⟨depth', d', hj, rfl⟩,
      (parent_record_iff hl hd).2 ⟨c, ⟨hd, hmem, hparent⟩, hi⟩⟩
  · rintro ⟨m, hm, hparent⟩
    obtain ⟨depth', d, hj, rfl⟩ := loop?_eq_some_iff.1 hm
    have hd : d ∈ f.nested := mem_of_mem_preorder (List.mem_of_getElem? hj)
    obtain ⟨p, hp, hpi⟩ := (parent_record_iff hl hd).1 hparent
    obtain rfl := Option.some.inj (hpi.symm.trans hi)
    exact ⟨d, mem_childrenOf.2 ⟨hd, hp.parent⟩,
      (place?_eq_some_iff hl hd).2 (getElem?_ordered hj)⟩

/-- The children of a record are in increasing order. -/
theorem pairwise_children (hl : f.layout.Nodup) :
    (f.record depth c).children.Pairwise (· < ·) := by
  have hf := isForest_nested hl
  have hrecord : (f.record depth c).children =
      (childrenOf f.nested (some c.loop)).filterMap fun d => f.place? d.loop := rfl
  rw [hrecord, List.pairwise_filterMap]
  cases hchildren : childrenOf f.nested (some c.loop) with
  | nil => exact List.Pairwise.nil
  | cons d ds =>
      -- they are the loops with the parent of the first one
      have hd : d ∈ childrenOf f.nested (some c.loop) := hchildren ▸ List.mem_cons_self
      obtain ⟨hd, hparent⟩ := mem_childrenOf.1 hd
      have hsub := hf.childrenOf_sublist hd
      rw [hparent, hchildren] at hsub
      refine (pairwise_precedes hsub).imp_of_mem ?_
      intro a b ha hb hab i hi j hj
      have hsibling : ∀ {x}, x ∈ d :: ds → x ∈ f.nested := fun hx =>
        (mem_childrenOf.1 (hchildren ▸ hx)).1
      exact hab.lt hf.nodup_ordered ((place?_eq_some_iff hl (hsibling ha)).1 hi)
        ((place?_eq_some_iff hl (hsibling hb)).1 hj)

/-! ### Nesting -/

/-- Nesting is what one step up gives over any number of steps. -/
theorem isWithin_iff_transGen {f : Func} {i : Nat} :
    ∀ {j}, f.loops.isWithin j i = true ↔ Relation.TransGen f.loops.ParentAt j i := by
  intro j
  -- the induction follows the way up, on which the places fall
  induction j using Nat.strongRecOn with
  | ind j ih =>
      unfold LoopForest.isWithin
      rw [Relation.TransGen.head'_iff]
      cases hp : (f.loops.loop? j).bind (·.parent) with
      | none =>
          simp only [Bool.false_eq_true, false_iff]
          rintro ⟨k, ⟨l, hj, hk⟩, -⟩
          rw [hj, Option.bind_some, hk] at hp
          cases hp
      | some k =>
          obtain ⟨l, hj, hk⟩ := Option.bind_eq_some_iff.1 hp
          have hlt := parent_lt hj hk
          have honly : ∀ k', f.loops.ParentAt j k' ↔ k' = k := by
            intro k'
            constructor
            · rintro ⟨l', hj', hk'⟩
              obtain rfl := Option.some.inj (hj.symm.trans hj')
              exact Option.some.inj (hk'.symm.trans hk)
            · rintro rfl
              exact ⟨l, hj, hk⟩
          simp [honly, hlt, ih k hlt, Relation.reflTransGen_iff_eq_or_transGen,
            @eq_comm _ k i]

theorem exists_place (hi : f.loops.loop? i = some l) :
    ∃ depth c, (preorder f.nested)[i]? = some (depth, c) ∧ c ∈ f.nested ∧
      (ordered f.nested)[i]? = some c ∧ f.record depth c = l := by
  obtain ⟨depth, c, hc, hl⟩ := loop?_eq_some_iff.1 hi
  exact ⟨depth, c, hc, mem_of_mem_preorder (List.mem_of_getElem? hc), getElem?_ordered hc, hl⟩

/-- A record has a parent if its loop has one. -/
theorem parent_record_eq_none_iff (hl : f.layout.Nodup) (hc : c ∈ f.nested) :
    (f.record depth c).parent = none ↔ c.parent = none := by
  constructor
  · intro hnone
    refine Option.eq_none_iff_forall_ne_some.2 fun o ho => ?_
    obtain ⟨p, hp, rfl⟩ := (isForest_nested hl).parent_mem c hc o ho
    obtain ⟨j, hj⟩ := List.getElem?_of_mem ((isForest_nested hl).preorder_perm.mem_iff.2 hp)
    have hparent : (f.record depth c).parent = some j :=
      (parent_record_iff hl hc).2 ⟨p, ⟨hc, hp, ho⟩, hj⟩
    rw [hnone] at hparent
    cases hparent
  · intro hnone
    have hrecord : (f.record depth c).parent = c.parent.bind f.place? := rfl
    rw [hrecord, hnone, Option.bind_none]

/-- Records with the same parent are of loops with the same parent. -/
theorem parent_eq_of_record (hl : f.layout.Nodup) (hc : c ∈ f.nested) (hd : d ∈ f.nested)
    {depth' : Nat} (h : (f.record depth c).parent = (f.record depth' d).parent) :
    c.parent = d.parent := by
  cases hp : (f.record depth c).parent with
  | none =>
      rw [(parent_record_eq_none_iff hl hc).1 hp, (parent_record_eq_none_iff hl hd).1 (h ▸ hp)]
  | some k =>
      obtain ⟨p, hcp, hpk⟩ := (parent_record_iff hl hc).1 hp
      obtain ⟨q, hdq, hqk⟩ := (parent_record_iff hl hd).1 (h ▸ hp)
      obtain rfl := Option.some.inj (hpk.symm.trans hqk)
      rw [hcp.parent, hdq.parent]

/-- Nesting over any number of levels is the way up. -/
theorem isWithin_iff_below (hl : f.layout.Nodup) (hc : (ordered f.nested)[i]? = some c) :
    ∀ {j m}, f.loops.loop? j = some m → ∀ {d}, (ordered f.nested)[j]? = some d →
      (f.loops.isWithin j i = true ↔ Below f.nested d c ∧ d ≠ c) := by
  have hf := isForest_nested hl
  intro j
  -- the induction follows the way up, on which the places fall
  induction j using Nat.strongRecOn with
  | ind j ih =>
      intro m hm d hd
      obtain ⟨depth, d', hplace, hmem, hd', rfl⟩ := exists_place hm
      obtain rfl := Option.some.inj (hd.symm.trans hd')
      unfold LoopForest.isWithin
      rw [hm, Option.bind_some]
      cases hp : (f.record depth d).parent with
      | none =>
          have hroot := (parent_record_eq_none_iff hl hmem).1 hp
          simp only [Bool.false_eq_true, false_iff]
          rintro ⟨hbelow, hne⟩
          rcases Relation.ReflTransGen.cases_head hbelow with rfl | ⟨p, hstep, -⟩
          · exact hne rfl
          · have hparent := hstep.parent
            rw [hroot] at hparent
            cases hparent
      | some k =>
          obtain ⟨p, hstep, hpk⟩ := (parent_record_iff hl hmem).1 hp
          obtain ⟨n, hn, -⟩ := exists_parent hm hp
          have hlt := parent_lt hm hp
          rw [hf.below_iff_of_childOf hstep]
          by_cases hki : k = i
          · subst hki
            obtain rfl := Option.some.inj (hpk.symm.trans hc)
            simp [Below, Relation.ReflTransGen.refl]
          · have hpc : p ≠ c := fun heq => hki (place_unique hf.nodup_ordered (heq ▸ hpk) hc)
            simp [hki, hlt, ih k hlt hn hpk, hpc]

/-- The loops nested in a loop take the places after it, up to some place. -/
theorem isWithin_iff_between (hl : f.layout.Nodup) (hi : f.loops.loop? i = some l) :
    ∃ e, ∀ j, f.loops.isWithin j i = true ↔ i < j ∧ j < e := by
  have hf := isForest_nested hl
  obtain ⟨depth, c, hplace, -, hc, -⟩ := exists_place hi
  obtain ⟨e, he, hsegment⟩ := hf.mem_segment_iff hplace
  refine ⟨e, fun j => ?_⟩
  cases hj : f.loops.loop? j with
  | none =>
      have hout : (ordered f.nested).length ≤ j := by
        have hlength : (ordered f.nested).length = f.loops.loops.length := by
          simp [ordered, loops_eq_map]
        rw [hlength]
        exact List.getElem?_eq_none_iff.1 hj
      have hno : f.loops.isWithin j i = false := by
        unfold LoopForest.isWithin
        rw [hj, Option.bind_none]
      rw [hno]
      simp only [Bool.false_eq_true, false_iff]
      omega
  | some m =>
      obtain ⟨-, d, -, -, hd, -⟩ := exists_place hj
      rw [isWithin_iff_below hl hc hj hd, hsegment j d hd]
      constructor
      · rintro ⟨⟨hle, hlt⟩, hne⟩
        have hij : i ≠ j := by
          rintro rfl
          exact hne (Option.some.inj (hd.symm.trans hc))
        omega
      · rintro ⟨hlt, hje⟩
        refine ⟨⟨Nat.le_of_lt hlt, hje⟩, ?_⟩
        rintro rfl
        exact Nat.lt_irrefl _ (place_unique hf.nodup_ordered hc hd ▸ hlt)

/-! ### Siblings -/

/-- The loops are given in the order of their headers in the layout. -/
theorem pairwise_headers (f : Func) :
    f.nested.Pairwise fun a b => Precedes f.layout a.loop.header b.loop.header := by
  rw [nested, nest, List.pairwise_map, naturalLoops, List.pairwise_filterMap]
  refine (pairwise_precedes (List.Sublist.refl f.layout)).imp ?_
  intro h h' hprecedes n hn n' hn'
  rw [(naturalLoop?_eq_some_iff.1 hn).2.1, (naturalLoop?_eq_some_iff.1 hn').2.1]
  exact hprecedes

/-- Of two siblings, the one at the smaller place has the header that stands first in the layout. -/
theorem header_precedes (hl : f.layout.Nodup) (hi : f.loops.loop? i = some l)
    (hj : f.loops.loop? j = some m) (hparent : l.parent = m.parent) (hij : i < j) :
    Precedes f.layout l.header m.header := by
  have hf := isForest_nested hl
  obtain ⟨depth, c, -, hcmem, hc, rfl⟩ := exists_place hi
  obtain ⟨depth', d, -, hdmem, hd, rfl⟩ := exists_place hj
  have hsiblings := parent_eq_of_record hl hcmem hdmem hparent
  have hne : c ≠ d := by
    rintro rfl
    exact Nat.ne_of_lt hij (place_unique hf.nodup_ordered hc hd)
  -- the siblings stand in the one order in the layout and in the preorder
  have hlayout : (childrenOf f.nested c.parent).Pairwise fun a b =>
      Precedes f.layout a.loop.header b.loop.header :=
    (pairwise_headers f).sublist List.filter_sublist
  have hplaces := pairwise_precedes (hf.childrenOf_sublist hcmem)
  rcases rel_or_rel_of_pairwise (hlayout.and hplaces) (mem_childrenOf.2 ⟨hcmem, rfl⟩)
      (mem_childrenOf.2 ⟨hdmem, hsiblings.symm⟩) hne with ⟨hheaders, -⟩ | ⟨-, hplaces⟩
  · exact hheaders
  · exact absurd (hplaces.lt hf.nodup_ordered hd hc) (Nat.lt_asymm hij)

/-! ### Depths -/

/-- A loop without parent has depth one, any other the depth of its parent and one. -/
theorem depth_of_loop? (hl : f.layout.Nodup) (hi : f.loops.loop? i = some l) :
    l.parent = none ∧ l.depth = 1 ∨
      ∃ k m, l.parent = some k ∧ f.loops.loop? k = some m ∧ l.depth = m.depth + 1 := by
  obtain ⟨depth, c, hplace, hmem, -, rfl⟩ := exists_place hi
  rcases depth_preorder (List.mem_of_getElem? hplace) with
    ⟨hroot, hone⟩ | ⟨⟨depth', p⟩, hp, hparent, hdepth⟩
  · exact Or.inl ⟨(parent_record_eq_none_iff hl hmem).2 hroot, hone⟩
  · obtain ⟨k, hk⟩ := List.getElem?_of_mem hp
    exact Or.inr ⟨k, _, (parent_record_iff hl hmem).2
      ⟨p, ⟨hmem, mem_of_mem_preorder hp, hparent⟩, getElem?_ordered hk⟩,
      loop?_eq_some_iff.2 ⟨depth', p, hk, rfl⟩, hdepth⟩

/-- No record stands in the forest twice. -/
theorem nodup_loops (hl : f.layout.Nodup) : f.loops.loops.Nodup := by
  refine List.pairwise_iff_getElem.2 fun i j hi hj hij heq => ?_
  exact Nat.ne_of_lt hij (loop?_inj hl (List.getElem?_eq_getElem hi) (List.getElem?_eq_getElem hj)
    (congrArg Loop.header heq))

end Func

instance (l m : Loop) : Decidable (l.Inside m) :=
  inferInstanceAs (Decidable (l.blocks ⊆ m.blocks ∧ ¬ m.blocks ⊆ l.blocks))

namespace Func

variable {f : Func} {i j : Nat} {l m : Loop}

/-- One step up, one loop fewer is around. -/
theorem length_inside_of_parent (hl : f.layout.Nodup) (hi : f.loops.loop? i = some l)
    (hp : l.parent = some j) (hj : f.loops.loop? j = some m) :
    (f.loops.loops.filter fun n => l.Inside n).length =
      (f.loops.loops.filter fun n => m.Inside n).length + 1 := by
  obtain ⟨m', hm', hin, hleast⟩ := (parent_eq_some_iff_inside hl hi).1 hp
  obtain rfl := Option.some.inj (hm'.symm.trans hj)
  have hself : ¬ m'.Inside m' := fun h => h.2 (List.Subset.refl _)
  -- the loops around a loop are its parent and those around its parent
  have hperm : (f.loops.loops.filter fun n => l.Inside n).Perm
      (m' :: f.loops.loops.filter fun n => m'.Inside n) := by
    have hnodup := nodup_loops hl
    refine (List.perm_ext_iff_of_nodup (hnodup.filter _) ?_).2 fun n => ?_
    · refine List.nodup_cons.2 ⟨fun hmem => ?_, hnodup.filter _⟩
      exact hself (of_decide_eq_true (List.mem_filter.1 hmem).2)
    · simp only [List.mem_filter, List.mem_cons, decide_eq_true_eq]
      constructor
      · rintro ⟨hn, hln⟩
        obtain ⟨k, hk⟩ := List.getElem?_of_mem hn
        rcases hleast k n hk hln with rfl | hmn
        · exact Or.inl (Option.some.inj (hk.symm.trans hj))
        · exact Or.inr ⟨hn, hmn⟩
      · rintro (rfl | ⟨hn, hmn⟩)
        · exact ⟨List.mem_of_getElem? hj, hin⟩
        · exact ⟨hn, fun b hb => hmn.1 (hin.1 hb), fun hsub => hmn.2 fun b hb => hin.1 (hsub hb)⟩
  rw [hperm.length_eq, List.length_cons]

/-- The depth of a loop is one more than the number of loops around it. -/
theorem depth_eq_length (hl : f.layout.Nodup) : ∀ {i l}, f.loops.loop? i = some l →
    l.depth = (f.loops.loops.filter fun m => l.Inside m).length + 1 := by
  intro i
  induction i using Nat.strongRecOn with
  | ind i ih =>
      intro l hi
      rcases depth_of_loop? hl hi with ⟨hp, hdepth⟩ | ⟨k, m, hp, hk, hdepth⟩
      · have hnil : (f.loops.loops.filter fun m => l.Inside m) = [] := by
          refine List.filter_eq_nil_iff.2 fun m hm => ?_
          obtain ⟨k, hk⟩ := List.getElem?_of_mem hm
          simpa using (parent_eq_none_iff_inside hl hi).1 hp k m hk
        rw [hnil, hdepth]
        rfl
      · rw [hdepth, length_inside_of_parent hl hi hp hk, ih k (parent_lt hi hp) hk]

/-! ### Places -/

/-- **The forest is in preorder.**  A parent stands before its children, and a loop lists exactly
its children, in increasing order.  The loops nested in a loop, over one or more steps up, take the
places right after it.  Of two loops with the same parent, or two without parent, the one at the
smaller place has the header that stands first in the layout.  The depth of a loop is one more than
the number of loops that it is strictly part of. -/
theorem loops_places (f : Func) (hl : f.layout.Nodup) :
    (∀ i l, f.loops.loop? i = some l →
      (∀ p, l.parent = some p → p < i) ∧
      l.children.Pairwise (· < ·) ∧ (∀ j, j ∈ l.children ↔ f.loops.ParentAt j i) ∧
      (∃ e, ∀ j, Relation.TransGen f.loops.ParentAt j i ↔ i < j ∧ j < e) ∧
      l.depth = (f.loops.loops.filter fun m => l.Inside m).length + 1) ∧
    ∀ i j l m, f.loops.loop? i = some l → f.loops.loop? j = some m → l.parent = m.parent →
      i < j → ∃ p q, f.position? l.header = some p ∧ f.position? m.header = some q ∧ p < q := by
  refine ⟨fun i l hi => ?_, fun i j l m hi hj hparent hij => ?_⟩
  · refine ⟨fun p hp => parent_lt hi hp, ?_, ?_, ?_, depth_eq_length hl hi⟩
    · obtain ⟨depth, c, -, -, -, rfl⟩ := exists_place hi
      exact pairwise_children hl
    · obtain ⟨depth, c, hc, -, -, rfl⟩ := exists_place hi
      exact fun j => mem_children_iff hl hc
    · simp only [← isWithin_iff_transGen]
      exact isWithin_iff_between hl hi
  · obtain ⟨p, q, hpq, hp, hq⟩ := header_precedes hl hi hj hparent hij
    exact ⟨p, q, (idxOf?_eq_some_iff_getElem? hl).2 hp, (idxOf?_eq_some_iff_getElem? hl).2 hq, hpq⟩

/-- One loop is laid out before the loop around it and another one after that. -/
def childFirst : Func :=
  .ofExits [("entry", .br ⟨2⟩), ("first", .condBr (.const 0) ⟨1⟩ ⟨3⟩),
    ("around", .condBr (.const 0) ⟨1⟩ ⟨5⟩), ("second", .condBr (.const 0) ⟨3⟩ ⟨4⟩),
    ("again", .br ⟨2⟩), ("done", .ret none)]

/-- The loop around the two others has the first place, they have those after it, and they stand in
the order of their headers. -/
theorem loops_places_childFirst :
    childFirst.layout.Nodup ∧ ∃ l m n, childFirst.loops.loop? 0 = some l ∧
      childFirst.loops.loop? 1 = some m ∧ childFirst.loops.loop? 2 = some n ∧
      m.parent = n.parent ∧ (∀ j, j ∈ l.children ↔ childFirst.loops.ParentAt j 0) ∧
      (∃ e, ∀ j, Relation.TransGen childFirst.loops.ParentAt j 0 ↔ 0 < j ∧ j < e) ∧
      (childFirst.loops.loops.filter fun o => m.Inside o).length = 1 ∧
      ∃ p q, childFirst.position? m.header = some p ∧ childFirst.position? n.header = some q ∧
        p < q := by
  have hl : childFirst.layout.Nodup := by decide
  have hloops : ∀ i < 3, (childFirst.loops.loop? i).isSome = true := by decide +kernel
  obtain ⟨l, h₀⟩ := Option.isSome_iff_exists.1 (hloops 0 (by decide))
  obtain ⟨m, h₁⟩ := Option.isSome_iff_exists.1 (hloops 1 (by decide))
  obtain ⟨n, h₂⟩ := Option.isSome_iff_exists.1 (hloops 2 (by decide))
  have hparent : (childFirst.loops.loop? 1).map (·.parent) =
      (childFirst.loops.loop? 2).map (·.parent) := by decide +kernel
  have hdepth : (childFirst.loops.loop? 1).map (·.depth) = some 2 := by decide +kernel
  rw [h₁, h₂] at hparent
  rw [h₁] at hdepth
  have hsiblings : m.parent = n.parent := Option.some.inj hparent
  have htwo : m.depth = 2 := Option.some.inj hdepth
  obtain ⟨hplaces, hheaders⟩ := Func.loops_places childFirst hl
  obtain ⟨-, -, hchildren, hbetween, -⟩ := hplaces 0 l h₀
  obtain ⟨-, -, -, -, hcount⟩ := hplaces 1 m h₁
  refine ⟨hl, l, m, n, h₀, h₁, h₂, hsiblings, hchildren, hbetween, ?_, ?_⟩
  · omega
  · exact hheaders 1 2 m n h₁ h₂ hsiblings (by decide)

end Func

end LoopSwap
