/-
**Ways up a dominator table.**

A filled row of a dominator table leads to a smaller filled row, except that the entry stands for
itself.  So from every filled row there is one way up, which ends at the entry.  This module
describes the ways of one table, with no graph in sight: two ways meet, from the meeting point on
they are one, and `meet?` finds that point.

Main definitions:

* `LoopSwap.DomTable.Above` — one number is met on the way up from another;
* `LoopSwap.DomTable.Falls` — filled rows lead to smaller filled rows;
* `LoopSwap.DomTable.Joins` — where the way up from a number first gets below a given one.

Main results:

* `LoopSwap.DomTable.Falls.meet?` — two ways meet, and what is above the meeting point is what is
  above both starts;
* `LoopSwap.DomTable.Falls.updateRow?` — a new row has above it what is above all filled
  predecessors;
* `LoopSwap.DomTable.Falls.above?` — the walk of a query decides `Above`.
-/

import LoopSwap.Graph.Dominators
import Mathlib.Tactic.ByContra

set_option relaxedAutoImplicit false
set_option autoImplicit false

namespace LoopSwap

namespace DomTable

variable {t s : DomTable} {a b c d e j k n p u : Nat}

/-! ### Rows -/

/-- Whether a row is filled. -/
def Known (t : DomTable) (k : Nat) : Prop := (t.up? k).isSome = true

theorem known_iff : t.Known k ↔ ∃ u, t.up? k = some u := Option.isSome_iff_exists

theorem up?_setIfInBounds (t : DomTable) (k j : Nat) (row : Option Nat) :
    up? (t.setIfInBounds k row) j = if k = j ∧ k < t.size then row else t.up? j := by
  unfold up?
  rw [Array.getElem?_setIfInBounds]
  by_cases hkj : k = j
  · subst hkj
    by_cases hk : k < t.size <;> simp [hk]
  · simp [hkj]

theorem up?_initial (n k : Nat) :
    (initial n).up? k = if k = 0 ∧ 0 < n then some 0 else none := by
  unfold initial
  rw [up?_setIfInBounds]
  by_cases hk : 0 = k
  · subst hk
    by_cases hn : 0 < n <;> simp [hn, up?]
  · have hk' : ¬ k = 0 := fun h => hk h.symm
    simp only [hk, hk', false_and, if_false]
    unfold up?
    by_cases hn : k < n <;> simp [hn]

/-! ### Ways up -/

/-- `c` is met on the way up from a number. -/
inductive Above (t : DomTable) (c : Nat) : Nat → Prop
  | refl : Above t c c
  | up {k u : Nat} : t.up? k = some u → u < k → Above t c u → Above t c k

namespace Above

theorem le (h : t.Above c k) : c ≤ k := by
  induction h with
  | refl => exact Nat.le_refl _
  | up _ hlt _ ih => omega

theorem trans (hcd : t.Above c d) (hdk : t.Above d k) : t.Above c k := by
  induction hdk with
  | refl => exact hcd
  | up hu hlt _ ih => exact .up hu hlt ih

theorem zero_iff : t.Above c 0 ↔ c = 0 := by
  constructor
  · intro h
    have := h.le
    omega
  · rintro rfl
    exact .refl

/-- Of two numbers on one way, the smaller is above the larger. -/
theorem of_le (hc : t.Above c k) (hd : t.Above d k) (hcd : c ≤ d) : t.Above c d := by
  induction hd with
  | refl => exact hc
  | @up k u hu hlt hd ih =>
      cases hc with
      | refl =>
          have := hd.le
          omega
      | up hu' _ hc' =>
          obtain rfl : u = _ := by simpa [hu] using hu'
          exact ih hc'

/-- A way up depends only on the rows it passes. -/
theorem congr (h : t.Above c k) (hrows : ∀ j ≤ k, t.up? j = s.up? j) : s.Above c k := by
  induction h with
  | refl => exact .refl
  | @up k u hu hlt _ ih =>
      refine .up (hrows k (Nat.le_refl k) ▸ hu) hlt (ih fun j hj => hrows j ?_)
      omega

/-- The way up goes on from the row. -/
theorem iff_of_up (hu : t.up? k = some u) (hlt : u < k) :
    t.Above c k ↔ c = k ∨ t.Above c u := by
  constructor
  · intro h
    cases h with
    | refl => exact Or.inl rfl
    | up hu' _ h =>
        obtain rfl : u = _ := by simpa [hu] using hu'
        exact Or.inr h
  · rintro (rfl | h)
    · exact .refl
    · exact .up hu hlt h

end Above

/-! ### Tables whose rows fall -/

/-- The entry stands for itself, and every other filled row leads to a smaller filled one. -/
structure Falls (t : DomTable) : Prop where
  zero : t.up? 0 = some 0
  up : ∀ k u, t.up? k = some u → k ≠ 0 → u < k ∧ t.Known u

namespace Falls

theorem known_zero (ht : t.Falls) : t.Known 0 := known_iff.2 ⟨0, ht.zero⟩

theorem known_of_above (ht : t.Falls) (h : t.Above c k) (hk : t.Known k) : t.Known c := by
  induction h with
  | refl => exact hk
  | @up k u hu hlt _ ih => exact ih (ht.up k u hu (by omega)).2

/-- Two ways meet, and what is above the meeting point is what is above both starts. -/
theorem meet? (ht : t.Falls) (ha : t.Known a) (hb : t.Known b) :
    ∃ c, t.meet? a b = some c ∧ ∀ d, t.Above d c ↔ t.Above d a ∧ t.Above d b := by
  induction hn : a + b using Nat.strongRecOn generalizing a b with
  | ind n ih =>
      unfold DomTable.meet?
      rcases Nat.lt_trichotomy b a with hlt | rfl | hlt
      · -- the larger number goes up; nothing above `b` is lost
        obtain ⟨u, hu⟩ := known_iff.1 ha
        obtain ⟨hua, hku⟩ := ht.up a u hu (by omega)
        obtain ⟨c, hc, habove⟩ := ih (u + b) (by omega) hku hb rfl
        refine ⟨c, by simp [hlt, Nat.ne_of_gt hlt, hu, hua, hc], fun d => ?_⟩
        rw [habove d, Above.iff_of_up hu hua]
        constructor
        · exact fun h => ⟨Or.inr h.1, h.2⟩
        · rintro ⟨rfl | h, hdb⟩
          · have := hdb.le
            omega
          · exact ⟨h, hdb⟩
      · exact ⟨b, by simp, fun d => by simp⟩
      · obtain ⟨u, hu⟩ := known_iff.1 hb
        obtain ⟨hub, hku⟩ := ht.up b u hu (by omega)
        obtain ⟨c, hc, habove⟩ := ih (a + u) (by omega) ha hku rfl
        have hnot : ¬ b < a := by omega
        refine ⟨c, by simp [hnot, Nat.ne_of_lt hlt, hu, hub, hc], fun d => ?_⟩
        rw [habove d, Above.iff_of_up hu hub]
        constructor
        · exact fun h => ⟨h.1, Or.inr h.2⟩
        · rintro ⟨hda, rfl | h⟩
          · have := hda.le
            omega
          · exact ⟨hda, h⟩

theorem meetAll? (ht : t.Falls) {l : List Nat} (ha : t.Known a) (hl : ∀ p ∈ l, t.Known p) :
    ∃ c, t.meetAll? a l = some c ∧
      ∀ d, t.Above d c ↔ t.Above d a ∧ ∀ p ∈ l, t.Above d p := by
  induction l generalizing a with
  | nil => exact ⟨a, rfl, fun d => by simp⟩
  | cons b l ih =>
      obtain ⟨m, hm, hab⟩ := ht.meet? ha (hl b List.mem_cons_self)
      have hkm : t.Known m := ht.known_of_above ((hab m).1 .refl).1 ha
      obtain ⟨c, hc, habove⟩ := ih hkm fun p hp => hl p (List.mem_cons_of_mem _ hp)
      refine ⟨c, by simp [DomTable.meetAll?, hm, hc], fun d => ?_⟩
      simp only [habove d, hab d, List.forall_mem_cons, and_assoc]

/-- A row with a filled predecessor is set to a number that has above it what is above all filled
predecessors. -/
theorem updateRow? (ht : t.Falls) {preds : List Nat} (hp : p ∈ preds) (hkp : t.Known p) :
    ∃ u, t.updateRow? k preds = some (t.setIfInBounds k (some u)) ∧
      ∀ d, t.Above d u ↔ ∀ q ∈ preds, t.Known q → t.Above d q := by
  have hfilter : ∀ q, q ∈ preds.filter (fun q => (t.up? q).isSome) ↔ q ∈ preds ∧ t.Known q :=
    fun q => List.mem_filter
  unfold DomTable.updateRow?
  cases hl : preds.filter fun q => (t.up? q).isSome with
  | nil =>
      have := (hfilter p).2 ⟨hp, hkp⟩
      rw [hl] at this
      cases this
  | cons q l =>
      rw [hl] at hfilter
      obtain ⟨u, hu, habove⟩ := ht.meetAll? ((hfilter q).1 List.mem_cons_self).2
        fun r hr => ((hfilter r).1 (List.mem_cons_of_mem _ hr)).2
      refine ⟨u, by simp [hu], fun d => ?_⟩
      rw [habove d, ← List.forall_mem_cons]
      simp only [hfilter, and_imp]

/-- The walk of a query never stops without an answer, and decides what is above. -/
theorem above? (ht : t.Falls) (hb : t.Known b) :
    ∃ v, t.above? a b = some v ∧ (v = true ↔ t.Above a b) := by
  induction b using Nat.strongRecOn with
  | ind b ih =>
      unfold DomTable.above?
      by_cases hab : a = b
      · exact ⟨true, by simp [hab], by simpa [hab] using Above.refl⟩
      · obtain ⟨u, hu⟩ := known_iff.1 hb
        by_cases hb0 : b = 0
        · subst hb0
          refine ⟨false, by simp [hab, ht.zero], ?_⟩
          simpa [Above.zero_iff] using hab
        · obtain ⟨hub, hku⟩ := ht.up b u hu hb0
          obtain ⟨v, hv, habove⟩ := ih u hub hku
          refine ⟨v, by simp [hab, hu, hub, Nat.ne_of_lt hub, hv], ?_⟩
          rw [habove, Above.iff_of_up hu hub]
          simp [hab]

end Falls

/-! ### Getting below a number -/

/-- `e` is the first number below `k` on the way up from `p`. -/
structure Joins (s : DomTable) (k p e : Nat) : Prop where
  above : s.Above e p
  lt : e < k
  max : ∀ x, s.Above x p → x < k → x ≤ e

namespace Joins

theorem of_lt (hpk : p < k) : s.Joins k p p := ⟨.refl, hpk, fun _ hx _ => hx.le⟩

theorem unique (h : s.Joins k p e) (h' : s.Joins k p d) : e = d :=
  Nat.le_antisymm (h'.max e h.above h.lt) (h.max d h'.above h'.lt)

/-- The number itself, if it is below already. -/
theorem eq_of_lt (h : s.Joins k p e) (hpk : p < k) : e = p := h.unique (of_lt hpk)

/-- What is above the start and below `k` is above the first number below `k`. -/
theorem above_of_lt (h : s.Joins k p e) (hc : s.Above c p) (hck : c < k) : s.Above c e :=
  hc.of_le h.above (h.max c hc hck)

end Joins

theorem Falls.exists_joins (hs : s.Falls) (hk : 0 < k) (hp : p < k ∨ s.Known p) :
    ∃ e, s.Joins k p e := by
  induction p using Nat.strongRecOn with
  | ind p ih =>
      by_cases hpk : p < k
      · exact ⟨p, .of_lt hpk⟩
      · obtain ⟨u, hu⟩ := known_iff.1 (hp.resolve_left hpk)
        obtain ⟨hup, hku⟩ := hs.up p u hu (by omega)
        obtain ⟨e, he⟩ := ih u hup (Or.inr hku)
        refine ⟨e, .up hu hup he.above, he.lt, fun x hx hxk => ?_⟩
        rcases (Above.iff_of_up hu hup).1 hx with rfl | hx
        · omega
        · exact he.max x hx hxk

/-- If two tables agree from row `k` on, the ways up agree until they get below `k`. -/
theorem Joins.above_iff (h : s.Joins k p e) (hrest : ∀ j, k ≤ j → t.up? j = s.up? j) (hck : c < k) :
    t.Above c p ↔ t.Above c e := by
  obtain ⟨habove, hlt, hmax⟩ := h
  induction habove with
  | refl => rfl
  | @up p u hu hup hab ih =>
      have hkp : k ≤ p := by
        by_contra hpk
        have := hmax p .refl (by omega)
        have := hab.le
        omega
      rw [Above.iff_of_up ((hrest p hkp).trans hu) hup,
        ih fun x hx hxk => hmax x (.up hu hup hx) hxk]
      simp only [or_iff_right_iff_imp]
      omega

end DomTable

end LoopSwap
