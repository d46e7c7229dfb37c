/-
**Sweeps over a dominator table.**

A sweep recomputes the rows in order, each from rows of which the smaller ones belong to the new
table and the others still to the old one, so the ways up are mixed while it runs.  What saves the
argument is that a way up passes into the smaller rows once and stays there: row `k` of the new
table is determined by where the old ways up get below `k` (`Swept.row`).

Nothing more is kept of a sweep.  From it and from what holds of the old table it follows that
the new table is *settling* again, that no way up gained a number, and, when nothing changes any
more, that the ways up are closed under predecessors.  The numbers need not come from a depth-first
search; that every number but 0 has a smaller predecessor is enough.

Main definitions:

* `LoopSwap.Spanned` — predecessors by number, with a smaller one for every number but 0;
* `LoopSwap.DomTable.Swept` — a table swept up to a row;
* `LoopSwap.DomTable.Settling` — what every sweep leaves behind.

Main results:

* `LoopSwap.DomTable.Swept.run` — a sweep succeeds;
* `LoopSwap.DomTable.Swept.settling`, `LoopSwap.DomTable.Swept.above_old` — a sweep keeps the
  invariant and adds nothing to any way up;
* `LoopSwap.DomTable.Settling.settle?` — the iteration ends in a table that a sweep does not
  change.
-/

import LoopSwap.Proofs.Graph.Table
import Mathlib.Data.List.Forall2

set_option relaxedAutoImplicit false
set_option autoImplicit false

namespace LoopSwap

/-- Predecessors by number.  Every number but 0 has a smaller predecessor, its parent. -/
structure Spanned (preds : Nat → List Nat) (parent : Nat → Nat) (n : Nat) : Prop where
  pos : 0 < n
  lt : ∀ k p, p ∈ preds k → p < n
  parent_mem : ∀ k, 0 < k → k < n → parent k ∈ preds k
  parent_lt : ∀ k, 0 < k → k < n → parent k < k

namespace DomTable

variable {preds : Nat → List Nat} {parent : Nat → Nat} {n k : Nat} {s t : DomTable}
  {dom : Nat → Nat → Prop}

/-- The rows of a sweep from `k` on, `m` of them. -/
def rowsFrom (preds : Nat → List Nat) (k m : Nat) : List (Nat × List Nat) :=
  (List.range' k m).map fun j => (j, preds j)

@[simp] theorem rowsFrom_zero (preds : Nat → List Nat) (k : Nat) : rowsFrom preds k 0 = [] := rfl

@[simp] theorem rowsFrom_succ (preds : Nat → List Nat) (k m : Nat) :
    rowsFrom preds k (m + 1) = (k, preds k) :: rowsFrom preds (k + 1) m := by
  simp [rowsFrom, List.range'_succ]

/-! ### One sweep -/

/-- `t` is `s` with the rows below `k` swept.  What is above a swept row is what is above the
places where the old ways up of its predecessors get below it. -/
structure Swept (preds : Nat → List Nat) (n : Nat) (s t : DomTable) (k : Nat) : Prop where
  size : t.size = n
  falls : t.Falls
  rest : ∀ j, k ≤ j → t.up? j = s.up? j
  known : ∀ j, j < k → t.Known j
  row : ∀ j, 0 < j → j < k → ∀ c, c ≠ j →
    (t.Above c j ↔ ∀ p ∈ preds j, p < j ∨ s.Known p → ∃ e, s.Joins j p e ∧ t.Above c e)

namespace Swept

theorem start (hs : s.Falls) (hsize : s.size = n) : Swept preds n s s 1 where
  size := hsize
  falls := hs
  rest := fun _ _ => rfl
  known := fun j hj => by
    obtain rfl : j = 0 := by omega
    exact hs.known_zero
  row := fun j hj hj1 => by omega

/-- While row `k` is swept, a predecessor is filled if it is smaller or was filled before. -/
theorem known_iff (h : Swept preds n s t k) {p : Nat} : t.Known p ↔ p < k ∨ s.Known p := by
  rcases Nat.lt_or_ge p k with hpk | hkp
  · exact ⟨fun _ => Or.inl hpk, fun _ => h.known p hpk⟩
  · have hpk : ¬ p < k := by omega
    simp [Known, h.rest p hkp, hpk]

theorem step (h : Swept preds n s t k) (hp : Spanned preds parent n) (hs : s.Falls)
    (hk : 0 < k) (hkn : k < n) :
    ∃ t', t.updateRow? k (preds k) = some t' ∧ Swept preds n s t' (k + 1) := by
  have hparent := hp.parent_lt k hk hkn
  obtain ⟨u, hu, habove⟩ :=
    h.falls.updateRow? (hp.parent_mem k hk hkn) (h.known _ hparent) (k := k)
  set t' : DomTable := t.setIfInBounds k (some u) with ht'
  have hup : ∀ j, t'.up? j = if k = j then some u else t.up? j := fun j => by
    have hlt : k < t.size := h.size ▸ hkn
    rw [ht', up?_setIfInBounds]
    simp [hlt]
  have huk : u < k := by
    have := ((habove u).1 .refl _ (hp.parent_mem k hk hkn) (h.known _ hparent)).le
    omega
  -- below `k` the two tables have the same ways up
  have hbelow : ∀ c j, j < k → (t'.Above c j ↔ t.Above c j) := fun c j hj => by
    have hrows : ∀ i ≤ j, t'.up? i = t.up? i := fun i hi => by
      rw [hup, if_neg (by omega)]
    exact ⟨fun hc => hc.congr hrows, fun hc => hc.congr fun i hi => (hrows i hi).symm⟩
  have hknown : ∀ j, j ≤ k → t'.Known j := fun j hj => by
    by_cases hjk : k = j
    · simp [Known, hup, hjk]
    · have := h.known j (by omega)
      simpa [Known, hup, hjk] using this
  refine ⟨t', hu, ?_⟩
  constructor
  · simpa [ht'] using h.size
  · constructor
    · rw [hup, if_neg (by omega)]
      exact h.falls.zero
    · intro j v hv hj
      by_cases hjk : k = j
      · subst hjk
        obtain rfl : u = v := by simpa [hup] using hv
        exact ⟨huk, hknown u (by omega)⟩
      · rw [hup, if_neg hjk] at hv
        obtain ⟨hvj, hkv⟩ := h.falls.up j v hv hj
        refine ⟨hvj, ?_⟩
        by_cases hvk : k = v
        · exact hknown v (by omega)
        · simpa [Known, hup, hvk] using hkv
  · intro j hj
    rw [hup, if_neg (by omega)]
    exact h.rest j (by omega)
  · exact fun j hj => hknown j (by omega)
  · intro j hj hjk c hcj
    rcases Nat.lt_succ_iff_lt_or_eq.1 hjk with hlt | rfl
    · rw [hbelow c j hlt, h.row j hj hlt c hcj]
      refine forall₃_congr fun p _ _ => exists_congr fun e => and_congr_right fun he => ?_
      exact (hbelow c e (Nat.lt_trans he.lt hlt)).symm
    · have hjt : t'.up? j = some u := by simp [hup]
      rw [Above.iff_of_up hjt huk, or_iff_right hcj, hbelow c u huk, habove c]
      constructor
      · intro hall p hpj hkp
        obtain ⟨e, he⟩ := hs.exists_joins hk hkp
        have hcp := hall p hpj (h.known_iff.2 hkp)
        have hcj' : c < j := by
          have := (hall _ (hp.parent_mem j hk hkn) (h.known _ hparent)).le
          omega
        exact ⟨e, he, (hbelow c e he.lt).2 ((he.above_iff h.rest hcj').1 hcp)⟩
      · intro hall p hpj hkp
        obtain ⟨e, he, hce⟩ := hall p hpj (h.known_iff.1 hkp)
        have hcj' : c < j := Nat.lt_of_le_of_lt hce.le he.lt
        exact (he.above_iff h.rest hcj').2 ((hbelow c e he.lt).1 hce)

/-- A sweep succeeds. -/
theorem run (hp : Spanned preds parent n) (hs : s.Falls) :
    ∀ (m k : Nat) (t : DomTable), 0 < k → k + m = n → Swept preds n s t k →
      ∃ t', t.sweep? (rowsFrom preds k m) = some t' ∧ Swept preds n s t' n := by
  intro m
  induction m with
  | zero =>
      intro k t _ hkn h
      obtain rfl : k = n := by omega
      exact ⟨t, by simp [sweep?], h⟩
  | succ m ih =>
      intro k t hk hkn h
      obtain ⟨t₁, ht₁, h₁⟩ := h.step hp hs hk (by omega)
      obtain ⟨t₂, ht₂, h₂⟩ := ih (k + 1) t₁ (by omega) (by omega) h₁
      exact ⟨t₂, by simp [sweep?, ht₁, ht₂], h₂⟩

end Swept

/-! ### The invariant of the iteration -/

/-- What holds of the table before and after every sweep.  `dom c k` says that `c` dominates `k`. -/
structure Settling (preds : Nat → List Nat) (parent : Nat → Nat) (n : Nat)
    (dom : Nat → Nat → Prop) (s : DomTable) : Prop where
  size : s.size = n
  falls : s.Falls
  parent_known : ∀ j, 0 < j → j < n → s.Known j → s.Known (parent j)
  /-- The ways up keep to the parents. -/
  parent_above : ∀ j, 0 < j → j < n → s.Known j → ∀ c, s.Above c j → c ≠ j → s.Above c (parent j)
  /-- What is above all predecessors of a row is above the row. -/
  closed : ∀ j, 0 < j → j < n → s.Known j → ∀ c,
    (∀ p ∈ preds j, s.Known p → s.Above c p) → s.Above c j
  /-- No dominator is lost. -/
  complete : ∀ j, j < n → s.Known j → ∀ c, dom c j → s.Above c j

/-- What passes from a number other than `c` to its parent holds of every number on its way up that
is not above `c`. -/
theorem Settling.along_parents (hp : Spanned preds parent n) (h : Settling preds parent n dom s)
    {R : Nat → Prop} {c e : Nat} (hR : ∀ q, 0 < q → q < n → R q → c ≠ q → R (parent q))
    {p : Nat} (hpn : p < n) (hkp : s.Known p) (hep : s.Above e p) (hce : c ≤ e) (hRp : R p) :
    R e := by
  induction p using Nat.strongRecOn with
  | ind p ih =>
      by_cases hpe : e = p
      · exact hpe ▸ hRp
      · have hle := hep.le
        have hlt := hp.parent_lt p (by omega) hpn
        exact ih (parent p) hlt (by omega) (h.parent_known p (by omega) hpn hkp)
          (h.parent_above p (by omega) hpn hkp e hep hpe) (hR p (by omega) hpn hRp (by omega))

namespace Swept

/-- The parent of a swept row is above what is above the row. -/
theorem parent_above (h : Swept preds n s t n) (hp : Spanned preds parent n) {j c : Nat}
    (hj : 0 < j) (hjn : j < n) (hc : t.Above c j) (hcj : c ≠ j) : t.Above c (parent j) := by
  have hlt := hp.parent_lt j hj hjn
  obtain ⟨e, he, hce⟩ := (h.row j hj hjn c hcj).1 hc _ (hp.parent_mem j hj hjn) (Or.inl hlt)
  exact he.eq_of_lt hlt ▸ hce

/-- No way up gains a number in a sweep. -/
theorem above_old (h : Swept preds n s t n) (hs : Settling preds parent n dom s) {j c : Nat}
    (hjn : j < n) (hkj : s.Known j) (hc : t.Above c j) : s.Above c j := by
  induction j using Nat.strongRecOn with
  | ind j ih =>
      by_cases hcj : c = j
      · exact hcj ▸ .refl
      · have hj : 0 < j := by
          have := hc.le
          omega
        refine hs.closed j hj hjn hkj c fun p hpj hkp => ?_
        obtain ⟨e, he, hce⟩ := (h.row j hj hjn c hcj).1 hc p hpj (Or.inr hkp)
        have hke := hs.falls.known_of_above he.above hkp
        exact (ih e he.lt (Nat.lt_trans he.lt hjn) hke hce).trans he.above

/-- A sweep leaves a settling table behind. -/
theorem settling (h : Swept preds n s t n) (hp : Spanned preds parent n)
    (hs : Settling preds parent n dom s)
    (hzero : ∀ c, dom c 0 → c = 0)
    (hdom : ∀ j, 0 < j → j < n → ∀ c, dom c j → c ≠ j → ∀ p ∈ preds j, dom c p) :
    Settling preds parent n dom t where
  size := h.size
  falls := h.falls
  parent_known := fun j hj hjn _ => h.known _ (Nat.lt_trans (hp.parent_lt j hj hjn) hjn)
  parent_above := fun j hj hjn _ c hc hcj => h.parent_above hp hj hjn hc hcj
  closed := by
    intro j hj hjn _ c hall
    have hlt := hp.parent_lt j hj hjn
    have hcp := hall _ (hp.parent_mem j hj hjn) (h.known _ (Nat.lt_trans hlt hjn))
    have hcj : c < j := Nat.lt_of_le_of_lt hcp.le hlt
    refine (h.row j hj hjn c (by omega)).2 fun p hpj hkp => ?_
    have hpn := hp.lt j p hpj
    obtain ⟨e, he⟩ := hs.falls.exists_joins hj hkp
    refine ⟨e, he, ?_⟩
    rcases hkp with hpj' | hkp
    · rw [he.eq_of_lt hpj']
      exact hall p hpj (h.known p hpn)
    · -- `c` is on the old way up too, and from `p` to `e` the parents keep it on the new one
      have hce := (he.above_of_lt (h.above_old hs hpn hkp (hall p hpj (h.known p hpn))) hcj).le
      exact hs.along_parents hp (R := fun q => t.Above c q)
        (fun q hq hqn hcq hne => h.parent_above hp hq hqn hcq hne)
        hpn hkp he.above hce (hall p hpj (h.known p hpn))
  complete := by
    intro j hjn hkj c hc
    clear hkj
    induction j using Nat.strongRecOn with
    | ind j ih =>
        by_cases hcj : c = j
        · exact hcj ▸ .refl
        · have hj : 0 < j := by
            by_contra hj0
            obtain rfl : j = 0 := by omega
            exact hcj (hzero c hc)
          have hdomp := hdom j hj hjn c hc hcj
          have hlt := hp.parent_lt j hj hjn
          have hle := (ih _ hlt (Nat.lt_trans hlt hjn) (hdomp _ (hp.parent_mem j hj hjn))).le
          refine (h.row j hj hjn c hcj).2 fun p hpj hkp => ?_
          have hpn := hp.lt j p hpj
          obtain ⟨e, he⟩ := hs.falls.exists_joins hj hkp
          refine ⟨e, he, ih e he.lt (Nat.lt_trans he.lt hjn) ?_⟩
          rcases hkp with hpj' | hkp
          · exact he.eq_of_lt hpj' ▸ hdomp p hpj
          · have hce := (he.above_of_lt (hs.complete p hpn hkp c (hdomp p hpj)) (by omega)).le
            exact hs.along_parents hp (R := fun q => dom c q)
              (fun q hq hqn hcq hne => hdom q hq hqn c hcq hne _ (hp.parent_mem q hq hqn))
              hpn hkp he.above hce (hdomp p hpj)

/-- When a sweep changes nothing, what is above a row is above all its predecessors. -/
theorem above_preds (h : Swept preds n t t n) (hp : Spanned preds parent n) {j c p : Nat}
    (hj : 0 < j) (hjn : j < n) (hc : t.Above c j) (hcj : c ≠ j) (hpj : p ∈ preds j) :
    t.Above c p := by
  have hkp := h.known p (hp.lt j p hpj)
  obtain ⟨e, he, hce⟩ := (h.row j hj hjn c hcj).1 hc p hpj (Or.inr hkp)
  exact hce.trans he.above

end Swept

/-! ### The end of the iteration -/

theorem weight_lt_of_forall₂ {m : Nat} {l l' : List (Option Nat)}
    (h : List.Forall₂ (fun x y => x = y ∨ x.getD m < y.getD m) l l') :
    l = l' ∨ l.foldr (fun x n => x.getD m + n) 0 < l'.foldr (fun x n => x.getD m + n) 0 := by
  induction h with
  | nil => exact Or.inl rfl
  | @cons x y l l' hxy _ ih =>
      simp only [List.foldr_cons, List.cons.injEq]
      rcases hxy with rfl | hlt <;> rcases ih with rfl | hlt'
      · exact Or.inl ⟨rfl, rfl⟩
      · exact Or.inr (by omega)
      · exact Or.inr (by omega)
      · exact Or.inr (by omega)

/-- A sweep that changes something makes the table smaller. -/
theorem Swept.weight_lt (h : Swept preds n s t n) (hs : Settling preds parent n dom s)
    (hne : t ≠ s) : t.weight < s.weight := by
  have hrow : ∀ j, j < n → t.up? j = s.up? j ∨ (t.up? j).getD n < (s.up? j).getD n := by
    intro j hjn
    obtain ⟨u, hu⟩ := DomTable.known_iff.1 (h.known j hjn)
    by_cases hj : j = 0
    · exact Or.inl (hj ▸ h.falls.zero.trans hs.falls.zero.symm)
    · have huj := (h.falls.up j u hu hj).1
      cases hv : s.up? j with
      | none => exact Or.inr (by simp [hu]; omega)
      | some v =>
          -- the new row is above the old one, or is the old one
          have hkj : s.Known j := DomTable.known_iff.2 ⟨v, hv⟩
          have huv := h.above_old hs hjn hkj (.up hu huj .refl)
          have hvj := (hs.falls.up j v hv hj).1
          have hle := ((Above.iff_of_up hv hvj).1 huv).resolve_left (by omega)
          have := hle.le
          rcases Nat.lt_or_eq_of_le this with hlt | rfl
          · exact Or.inr (by simpa [hu] using hlt)
          · exact Or.inl hu
  have hts : t.size = s.size := h.size.trans hs.size.symm
  have hget : ∀ (r : DomTable) (j : Nat) (hj : j < r.toList.length), r.toList[j] = r.up? j := by
    intro r j hj
    have hj' : j < r.size := by simpa using hj
    simp [up?, hj']
  have hforall : List.Forall₂ (fun x y => x = y ∨ x.getD n < y.getD n) t.toList s.toList := by
    refine List.forall₂_iff_get.2 ⟨by simpa using hts, fun j hj hj' => ?_⟩
    simp only [List.get_eq_getElem, hget]
    exact hrow j (by simpa [h.size] using hj)
  rcases weight_lt_of_forall₂ hforall with heq | hlt
  · exact absurd (Array.toList_inj.1 heq) hne
  · simpa [weight, h.size, hs.size] using hlt

/-- The table in which only the entry is known is settling. -/
theorem Settling.initial (hp : Spanned preds parent n) (hzero : ∀ c, dom c 0 → c = 0) :
    Settling preds parent n dom (initial n) := by
  have hup : ∀ k, (DomTable.initial n).up? k = if k = 0 then some 0 else none := fun k => by
    simp [up?_initial, hp.pos]
  have hknown : ∀ k, (DomTable.initial n).Known k → k = 0 := fun k hk => by
    by_contra hk0
    simp [Known, hup, hk0] at hk
  constructor
  · simp [DomTable.initial]
  · constructor
    · simp [hup]
    · intro k u hu hk
      simp [hup, hk] at hu
  · intro j hj _ hkj
    have := hknown j hkj
    omega
  · intro j hj _ hkj
    have := hknown j hkj
    omega
  · intro j hj _ hkj
    have := hknown j hkj
    omega
  · intro j _ hkj c hc
    obtain rfl := hknown j hkj
    exact hzero c hc ▸ .refl

/-- The iteration ends, in a settling table that a sweep does not change. -/
theorem Settling.settle? (hp : Spanned preds parent n) (hzero : ∀ c, dom c 0 → c = 0)
    (hdom : ∀ j, 0 < j → j < n → ∀ c, dom c j → c ≠ j → ∀ p ∈ preds j, dom c p)
    (hs : Settling preds parent n dom s) :
    ∃ t, DomTable.settle? (rowsFrom preds 1 (n - 1)) s = some t ∧
      Settling preds parent n dom t ∧ Swept preds n t t n := by
  induction hw : s.weight using Nat.strongRecOn generalizing s with
  | ind w ih =>
      have hpos := hp.pos
      obtain ⟨t, ht, hswept⟩ := Swept.run hp hs.falls (n - 1) 1 s (by omega) (by omega)
        (Swept.start hs.falls hs.size)
      unfold DomTable.settle?
      by_cases hts : t = s
      · subst hts
        exact ⟨t, by simp [ht], hs, hswept⟩
      · have hlt := hswept.weight_lt hs hts
        obtain ⟨t', ht', h'⟩ := ih t.weight (hw ▸ hlt) (hswept.settling hp hs hzero hdom) rfl
        exact ⟨t', by simp [ht, hts, hlt, ht'], h'⟩

end DomTable

end LoopSwap
