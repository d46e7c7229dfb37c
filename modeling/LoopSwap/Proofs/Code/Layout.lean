/-
**Neighbours in a layout.**

A move takes one block out of the layout and puts it elsewhere.  The blocks beside it keep their
order, so where the block is left out the move does not show; and a block keeps the one that follows
it unless one of the two is moved or another block is put between them.

Main definitions:

* `LoopSwap.Follows` — an element stands right after another one.

Main results:

* `LoopSwap.Func.next?_eq_some_iff` — the block lexically after another one;
* `LoopSwap.Func.filter_moveBefore`, `LoopSwap.Func.follows_moveBefore` — what a move keeps;
* `LoopSwap.Func.layout_exchange` — two moves that exchange two blocks.
-/

import LoopSwap.Code.Edit
import LoopSwap.Proofs.Graph.Dominance
import Mathlib.Data.List.Nodup
import Mathlib.Logic.Equiv.Basic

set_option relaxedAutoImplicit false
set_option autoImplicit false

namespace LoopSwap

/-! ### Lists -/

theorem not_mem_of_nodup_middle {α : Type} {a : α} {u v : List α} (h : (u ++ a :: v).Nodup) :
    a ∉ u ∧ a ∉ v := by
  have hno := (List.nodup_cons.1 (List.nodup_middle.1 h)).1
  rw [List.mem_append, not_or] at hno
  exact hno

section

variable {α : Type} [DecidableEq α] {a b x anchor : α} {l u v : List α} {p : α → Bool}

/-- In `l`, `b` stands right after `a`. -/
def Follows (l : List α) (a b : α) : Prop := ∃ u v, l = u ++ a :: b :: v

theorem insertBefore_append (h : anchor ∉ u) :
    insertBefore a anchor (u ++ anchor :: v) = u ++ a :: anchor :: v := by
  induction u with
  | nil => exact if_pos rfl
  | cons y u ih =>
      have hy : y ≠ anchor := fun heq => h (heq ▸ List.mem_cons_self)
      rw [List.cons_append, insertBefore, if_neg hy, ih fun hu => h (List.mem_cons_of_mem _ hu)]
      rfl

theorem insertAfter_append (h : anchor ∉ u) :
    insertAfter a anchor (u ++ anchor :: v) = u ++ anchor :: a :: v := by
  induction u with
  | nil => exact if_pos rfl
  | cons y u ih =>
      have hy : y ≠ anchor := fun heq => h (heq ▸ List.mem_cons_self)
      rw [List.cons_append, insertAfter, if_neg hy, ih fun hu => h (List.mem_cons_of_mem _ hu)]
      rfl

/-- What is put into a list does not show if it is left out again. -/
theorem filter_insertBefore (ha : p a = false) :
    (insertBefore a anchor l).filter p = l.filter p := by
  induction l with
  | nil => simp [insertBefore, ha]
  | cons x l ih =>
      rw [insertBefore]
      split
      · simp [List.filter_cons, ha]
      · simp [List.filter_cons, ih]

theorem filter_insertAfter (ha : p a = false) :
    (insertAfter a anchor l).filter p = l.filter p := by
  induction l with
  | nil => simp [insertAfter, ha]
  | cons x l ih =>
      rw [insertAfter]
      split
      · simp [List.filter_cons, ha]
      · simp [List.filter_cons, ih]

theorem filter_erase_of_not (ha : p a = false) : (l.erase a).filter p = l.filter p := by
  induction l with
  | nil => rfl
  | cons x l ih =>
      by_cases hx : x = a
      · rw [hx, List.erase_cons_head, List.filter_cons_of_neg (by simp [ha])]
      · rw [List.erase_cons_tail (by simpa using hx), List.filter_cons, List.filter_cons, ih]

namespace Follows

theorem insertBefore (h : Follows l a b) (hanchor : anchor ≠ b) :
    Follows (insertBefore x anchor l) a b := by
  obtain ⟨u, v, rfl⟩ := h
  induction u with
  | nil =>
      rw [List.nil_append, LoopSwap.insertBefore]
      split
      · exact ⟨[x], v, rfl⟩
      · rw [LoopSwap.insertBefore, if_neg hanchor.symm]
        exact ⟨[], _, rfl⟩
  | cons y u ih =>
      rw [List.cons_append, LoopSwap.insertBefore]
      split
      · exact ⟨x :: y :: u, v, rfl⟩
      · obtain ⟨u', v', heq⟩ := ih
        exact ⟨y :: u', v', congrArg (y :: ·) heq⟩

theorem erase (h : Follows l a b) (hxa : x ≠ a) (hxb : x ≠ b) : Follows (l.erase x) a b := by
  obtain ⟨u, v, rfl⟩ := h
  by_cases hx : x ∈ u
  · rw [List.erase_append_left _ hx]
    exact ⟨u.erase x, v, rfl⟩
  · rw [List.erase_append_right _ hx, List.erase_cons_tail (by simpa using hxa.symm),
      List.erase_cons_tail (by simpa using hxb.symm)]
    exact ⟨u, v.erase x, rfl⟩

omit [DecidableEq α] in
/-- Two neighbours are a run. -/
theorem isInfix (h : Follows l a b) : [a, b].IsInfix l := by
  obtain ⟨u, v, rfl⟩ := h
  exact ⟨u, v, by simp⟩

omit [DecidableEq α] in
/-- A run can be continued at its front, as an element stands in one place only. -/
theorem cons_isInfix {s : List α} (hl : l.Nodup) (h : Follows l a b) (hs : (b :: s).IsInfix l) :
    (a :: b :: s).IsInfix l := by
  obtain ⟨u, v, rfl⟩ := h
  obtain ⟨u', v', heq⟩ := hs
  have heq' : u' ++ b :: (s ++ v') = (u ++ [a]) ++ b :: v := by simpa using heq
  have hl' : ((u ++ [a]) ++ b :: v).Nodup := by simpa using hl
  obtain ⟨hbu, hbv⟩ := not_mem_of_nodup_middle hl'
  obtain ⟨-, -, hv⟩ := (List.append_cons_inj_of_notMem hbu hbv).1 heq'.symm
  exact ⟨u, v', by simp [hv]⟩

omit [DecidableEq α] in
theorem append (h : Follows l a b) (v : List α) : Follows (l ++ v) a b := by
  obtain ⟨u, w, rfl⟩ := h
  exact ⟨u, w ++ v, by simp⟩

omit [DecidableEq α] in
theorem map {β : Type} (h : Follows l a b) (φ : α → β) : Follows (l.map φ) (φ a) (φ b) := by
  obtain ⟨u, v, rfl⟩ := h
  exact ⟨u.map φ, v.map φ, by simp⟩

omit [DecidableEq α] in
/-- An element stands right after one other only. -/
theorem eq_left {c : α} (hl : l.Nodup) (hac : Follows l a c) (hbc : Follows l b c) : a = b := by
  have hplace : ∀ {a}, Follows l a c → ∃ k, l[k]? = some a ∧ l[k + 1]? = some c := by
    rintro a ⟨u, v, rfl⟩
    exact ⟨u.length, by simp, by simp⟩
  obtain ⟨i, hia, hic⟩ := hplace hac
  obtain ⟨j, hjb, hjc⟩ := hplace hbc
  obtain rfl : i = j := Nat.succ.inj (place_unique hl hic hjc)
  exact Option.some.inj (hia.symm.trans hjb)

theorem insertAfter (h : Follows l a b) (hanchor : anchor ≠ a) :
    Follows (insertAfter x anchor l) a b := by
  obtain ⟨u, v, rfl⟩ := h
  induction u with
  | nil =>
      rw [List.nil_append, LoopSwap.insertAfter, if_neg hanchor.symm, LoopSwap.insertAfter]
      split
      · exact ⟨[], x :: v, rfl⟩
      · exact ⟨[], _, rfl⟩
  | cons y u ih =>
      rw [List.cons_append, LoopSwap.insertAfter]
      split
      · exact ⟨y :: x :: u, v, rfl⟩
      · obtain ⟨u', v', heq⟩ := ih
        exact ⟨y :: u', v', congrArg (y :: ·) heq⟩

end Follows

end

theorem erase_middle {α : Type} [DecidableEq α] {a : α} {u v : List α} (h : a ∉ u) :
    (u ++ a :: v).erase a = u ++ v := by
  rw [List.erase_append_right _ h, List.erase_cons_head]

/-- Moving `i` before `o` and then `o` before what followed `i` exchanges the two. -/
theorem insertBefore_exchange {α : Type} [DecidableEq α] {i o b : α} {l : List α} (hl : l.Nodup)
    (hi : Follows l i b) (ho : o ∈ l) (hoi : o ≠ i) (hob : o ≠ b) :
    insertBefore o b ((insertBefore i o (l.erase i)).erase o) = l.map (Equiv.swap o i) := by
  have hkeep : ∀ w : List α, o ∉ w → i ∉ w → w.map (Equiv.swap o i) = w := by
    intro w how hiw
    refine (List.map_congr_left fun x hx => ?_).trans (List.map_id w)
    exact Equiv.swap_apply_of_ne_of_ne (fun heq => how (heq ▸ hx)) fun heq => hiw (heq ▸ hx)
  obtain ⟨u, v, rfl⟩ := hi
  obtain ⟨hiu, hibv⟩ := not_mem_of_nodup_middle hl
  obtain ⟨hib, hiv⟩ := not_or.1 fun h => hibv (List.mem_cons.2 h)
  have hbu : b ∉ u := by
    have hbl : (u ++ [i] ++ b :: v).Nodup := by simpa using hl
    exact fun hb => (not_mem_of_nodup_middle hbl).1 (List.mem_append_left _ hb)
  have hbmap : Equiv.swap o i b = b := Equiv.swap_apply_of_ne_of_ne hob.symm (Ne.symm hib)
  rw [erase_middle hiu]
  -- `o` stands before `i` or after `b`
  have hside : o ∈ u ∨ o ∈ v := by simpa [hoi, hob] using ho
  rcases hside with hou | hov
  · obtain ⟨x, y, rfl⟩ := List.append_of_mem hou
    rw [List.append_assoc, List.cons_append] at hl
    obtain ⟨hox, horest⟩ := not_mem_of_nodup_middle hl
    simp only [List.mem_append, List.mem_cons, not_or] at hiu hbu horest
    have hmid : b ∉ x ++ i :: y := by simp [hbu, Ne.symm hib]
    have hfirst : insertBefore i o (x ++ o :: y ++ b :: v) = x ++ [i] ++ o :: (y ++ b :: v) := by
      rw [List.append_assoc, List.cons_append, insertBefore_append hox]
      simp
    have hsecond : (x ++ [i] ++ o :: (y ++ b :: v)).erase o = x ++ i :: y ++ b :: v := by
      rw [erase_middle (by simp [hox, hoi])]
      simp
    rw [hfirst, hsecond, insertBefore_append hmid]
    simp [hkeep x hox hiu.1, hkeep y horest.1 hiu.2.2, hkeep v horest.2.2.2 hiv, hbmap]
  · obtain ⟨x, y, rfl⟩ := List.append_of_mem hov
    have hl' : (u ++ i :: b :: x ++ o :: y).Nodup := by simpa using hl
    obtain ⟨hofront, hoy⟩ := not_mem_of_nodup_middle hl'
    simp only [List.mem_append, List.mem_cons, not_or] at hiv hofront
    have hfront : o ∉ u ++ b :: x := by simp [hofront]
    have hfirst : insertBefore i o (u ++ b :: (x ++ o :: y)) = u ++ b :: x ++ [i] ++ o :: y := by
      rw [← List.cons_append, ← List.append_assoc, insertBefore_append hfront]
      simp
    have hsecond : (u ++ b :: x ++ [i] ++ o :: y).erase o = u ++ b :: (x ++ i :: y) := by
      rw [erase_middle (by simp [hofront])]
      simp
    rw [hfirst, hsecond, insertBefore_append hbu]
    simp [hkeep u hofront.1 hiu, hkeep x hofront.2.2.2 hiv.1, hkeep y hoy hiv.2.2, hbmap]

/-! ### Layouts -/

namespace Func

variable {f : Func} {a b x anchor : BlockId} {p : BlockId → Bool}

theorem next?_eq_some_iff (hl : f.layout.Nodup) : f.next? a = some b ↔ Follows f.layout a b := by
  constructor
  · intro h
    obtain ⟨k, hk, hnext⟩ := Option.bind_eq_some_iff.1 h
    rw [position?, idxOf?_eq_some_iff_getElem? hl] at hk
    obtain ⟨hlt, ha⟩ := List.getElem?_eq_some_iff.1 hk
    obtain ⟨hlt', hb⟩ := List.getElem?_eq_some_iff.1 hnext
    refine ⟨f.layout.take k, f.layout.drop (k + 1 + 1), ?_⟩
    rw [← ha, ← hb, List.getElem_cons_drop, List.getElem_cons_drop, List.take_append_drop]
  · rintro ⟨u, v, heq⟩
    have ha : f.layout[u.length]? = some a := by simp [heq]
    have hb : f.layout[u.length + 1]? = some b := by simp [heq]
    rw [next?, position?, (idxOf?_eq_some_iff_getElem? hl).2 ha, Option.bind_some, hb]

theorem layout_moveBefore (hne : b ≠ anchor) (hb : b ∈ f.layout) (ha : anchor ∈ f.layout) :
    (f.moveBefore b anchor).layout = insertBefore b anchor (f.layout.erase b) := by
  rw [moveBefore, if_neg]
  simp [hne, hb, ha]

/-- A block that is moved comes to stand before the anchor. -/
theorem follows_moveBefore_self (hne : b ≠ anchor) (hb : b ∈ f.layout) (ha : anchor ∈ f.layout) :
    Follows (f.moveBefore b anchor).layout b anchor := by
  have hmem : anchor ∈ f.layout.erase b := (List.mem_erase_of_ne hne.symm).2 ha
  obtain ⟨u, v, heq, hu⟩ := List.eq_append_cons_of_mem hmem
  rw [layout_moveBefore hne hb ha, heq, insertBefore_append hu]
  exact ⟨u, v, rfl⟩

theorem perm_moveBefore (f : Func) (b anchor : BlockId) :
    (f.moveBefore b anchor).layout.Perm f.layout := by
  unfold moveBefore
  split
  · exact .refl _
  · next hcond =>
      have hmem : b ∈ f.layout := not_not.1 (not_or.1 (not_or.1 hcond).2).1
      exact (insertBefore_perm b anchor _).trans (List.perm_cons_erase hmem).symm

theorem perm_moveToEnd (f : Func) (b : BlockId) : (f.moveToEnd b).layout.Perm f.layout := by
  unfold moveToEnd
  split
  · next hmem => exact List.perm_append_comm.trans (List.perm_cons_erase hmem).symm
  · exact .refl _

theorem filter_moveBefore (hb : p b = false) :
    (f.moveBefore b anchor).layout.filter p = f.layout.filter p := by
  unfold moveBefore
  split
  · rfl
  · exact (filter_insertBefore hb).trans (filter_erase_of_not hb)

theorem filter_moveToEnd (hb : p b = false) :
    (f.moveToEnd b).layout.filter p = f.layout.filter p := by
  unfold moveToEnd
  split
  · simp [List.filter_append, filter_erase_of_not hb, hb]
  · rfl

theorem follows_moveBefore (h : Follows f.layout a b) (hxa : x ≠ a) (hxb : x ≠ b)
    (hanchor : anchor ≠ b) : Follows (f.moveBefore x anchor).layout a b := by
  unfold moveBefore
  split
  · exact h
  · exact (h.erase hxa hxb).insertBefore hanchor

theorem follows_moveToEnd (h : Follows f.layout a b) (hxa : x ≠ a) (hxb : x ≠ b) :
    Follows (f.moveToEnd x).layout a b := by
  unfold moveToEnd
  split
  · exact (h.erase hxa hxb).append _
  · exact h

/-- Moving `i` before `o` and then `o` before what followed `i` exchanges the two. -/
theorem layout_exchange {i o : BlockId} (hl : f.layout.Nodup) (hi : Follows f.layout i b)
    (ho : o ∈ f.layout) (hoi : o ≠ i) (hob : o ≠ b) :
    ((f.moveBefore i o).moveBefore o b).layout = f.layout.map (Equiv.swap o i) := by
  have hmem : i ∈ f.layout ∧ b ∈ f.layout := by
    obtain ⟨u, v, hlayout⟩ := hi
    rw [hlayout]
    simp
  have hperm := f.perm_moveBefore i o
  rw [layout_moveBefore hob (hperm.mem_iff.2 ho) (hperm.mem_iff.2 hmem.2),
    layout_moveBefore hoi.symm hmem.1 ho]
  exact insertBefore_exchange hl hi ho hoi hob

end Func

end LoopSwap
