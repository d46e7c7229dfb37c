/-
**The new order, by headers.**

Eight blocks are moved by an interchange, but of these only the two headers start loops, and the
first two moves put each in the place of the other: the inner header goes to where the outer one
was, and the outer one between the inner header and the first block of the inner body.  So the
headers stand in the same places afterwards, with the two exchanged, and the outer header is now
followed by the block that followed the inner one.

Main definitions:

* `LoopSwap.Corners.links` — the corners that are not headers;
* `LoopSwap.Relinking.moveHeaders`, `LoopSwap.Relinking.moveFronts`,
  `LoopSwap.Relinking.moveBacks` — the first two moves, the first four and the four others.

Main results:

* `LoopSwap.Relinking.layout_moveHeaders` — the first two moves exchange the headers;
* `LoopSwap.Relinking.filter_reorder` — the other moves do not show among the headers;
* `LoopSwap.Relinking.follows_moveBacks` — the last four moves do not separate neighbours that they
  do not move;
* `LoopSwap.Relinking.next?_reorder` — the inner body follows the outer header afterwards.
-/

import LoopSwap.Proofs.Code.Layout
import LoopSwap.Proofs.Interchange.Mirror

set_option relaxedAutoImplicit false
set_option autoImplicit false

namespace LoopSwap

/-! ### The moves -/

/-- The corners that are not headers. -/
def Corners.links (k : Corners) : List BlockId :=
  [k.outerPreheader, k.innerPreheader, k.outerLatch, k.innerLatch, k.outerExit, k.innerExit]

theorem Corners.list_eq (k : Corners) : k.list = k.outerHeader :: k.innerHeader :: k.links := rfl

namespace Relinking

variable {r : Relinking} {f : Func} {p : BlockId → Bool}

/-- The headers and the preheaders. -/
def fronts (r : Relinking) : List BlockId :=
  [r.plan.outerHeader, r.plan.innerHeader, r.preheader, r.plan.innerPreheader]

/-- The latches and the exits. -/
def backs (r : Relinking) : List BlockId :=
  [r.plan.outerLatch, r.plan.innerLatch, r.plan.outerExit, r.plan.innerExit]

theorem corners_eq (r : Relinking) : r.corners.list = r.fronts ++ r.backs := rfl

/-- The first two moves. -/
def moveHeaders (r : Relinking) (f : Func) : Func :=
  (f.moveBefore r.plan.innerHeader r.plan.outerHeader).moveBefore r.plan.outerHeader
    r.plan.bodyEntry

theorem perm_moveHeaders (r : Relinking) (f : Func) : (r.moveHeaders f).layout.Perm f.layout :=
  (Func.perm_moveBefore _ _ _).trans (Func.perm_moveBefore _ _ _)

theorem perm_reorder (r : Relinking) (f : Func) : (r.reorder f).layout.Perm f.layout := by
  have hmove : ∀ {g : Func} {b anchor : BlockId}, g.layout.Perm f.layout →
      (g.moveBefore b anchor).layout.Perm f.layout := fun hg =>
    (Func.perm_moveBefore _ _ _).trans hg
  dsimp only [reorder]
  split
  · exact hmove (hmove (hmove (hmove (hmove (hmove (hmove (hmove (.refl _))))))))
  · exact hmove (hmove (hmove ((Func.perm_moveToEnd _ _).trans
      (hmove (hmove (hmove (hmove (.refl _))))))))

/-- The first four moves. -/
def moveFronts (r : Relinking) (f : Func) : Func :=
  ((r.moveHeaders f).moveBefore r.plan.innerPreheader r.plan.innerHeader).moveBefore r.preheader
    r.plan.outerHeader

theorem perm_moveFronts (r : Relinking) (f : Func) : (r.moveFronts f).layout.Perm f.layout :=
  (Func.perm_moveBefore _ _ _).trans ((Func.perm_moveBefore _ _ _).trans (r.perm_moveHeaders f))

/-- The four other moves. -/
def moveBacks (r : Relinking) (f : Func) : Func :=
  let p := r.plan
  let f :=
    match f.next? p.outerExit with
    | some next => f.moveBefore p.innerExit next
    | none => f.moveToEnd p.innerExit
  ((f.moveBefore p.innerLatch p.innerExit).moveBefore p.outerExit p.innerLatch).moveBefore
    p.outerLatch p.outerExit

theorem reorder_eq (r : Relinking) (f : Func) : r.reorder f = r.moveBacks (r.moveFronts f) := rfl

/-- The other moves do not separate neighbours that they do not move, since no other block is
followed by the one that follows the outer exit. -/
theorem follows_moveBacks {a b : BlockId} (hl : f.layout.Nodup) (h : Follows f.layout a b)
    (ha : a ∉ r.backs) (hb : b ∉ r.backs) : Follows (r.moveBacks f).layout a b := by
  simp only [backs, List.mem_cons, List.not_mem_nil, or_false, not_or] at ha hb
  obtain ⟨haol, hail, haoe, haie⟩ := ha
  obtain ⟨hbol, hbil, hboe, hbie⟩ := hb
  have hlast : ∀ {g : Func}, Follows g.layout a b →
      Follows (((g.moveBefore r.plan.innerLatch r.plan.innerExit).moveBefore r.plan.outerExit
        r.plan.innerLatch).moveBefore r.plan.outerLatch r.plan.outerExit).layout a b := by
    intro g hg
    have hil := Func.follows_moveBefore hg (Ne.symm hail) (Ne.symm hbil) (Ne.symm hbie)
    have hoe := Func.follows_moveBefore hil (Ne.symm haoe) (Ne.symm hboe) (Ne.symm hbil)
    exact Func.follows_moveBefore hoe (Ne.symm haol) (Ne.symm hbol) (Ne.symm hboe)
  dsimp only [moveBacks]
  split
  · next next hnext =>
      refine hlast (Func.follows_moveBefore h (Ne.symm haie) (Ne.symm hbie) ?_)
      rintro rfl
      exact haoe (Follows.eq_left hl h ((Func.next?_eq_some_iff hl).1 hnext))
  · exact hlast (Func.follows_moveToEnd h (Ne.symm haie) (Ne.symm hbie))

/-- Where the other corners do not show, the other moves do not. -/
theorem filter_reorder (hp : ∀ b ∈ r.corners.links, p b = false) :
    (r.reorder f).layout.filter p = (r.moveHeaders f).layout.filter p := by
  simp only [Corners.links, corners, List.forall_mem_cons] at hp
  obtain ⟨hq, hiph, hol, hil, hoe, hie, -⟩ := hp
  dsimp only [reorder]
  split
  · rw [Func.filter_moveBefore hol, Func.filter_moveBefore hoe, Func.filter_moveBefore hil,
      Func.filter_moveBefore hie, Func.filter_moveBefore hq, Func.filter_moveBefore hiph]
    rfl
  · rw [Func.filter_moveBefore hol, Func.filter_moveBefore hoe, Func.filter_moveBefore hil,
      Func.filter_moveToEnd hie, Func.filter_moveBefore hq, Func.filter_moveBefore hiph]
    rfl

section

variable (hl : f.layout.Nodup) (hnext : f.next? r.plan.innerHeader = some r.plan.bodyEntry)
  (ho : r.plan.outerHeader ∈ f.layout) (hnodup : r.corners.list.Nodup)
  (hbody : r.plan.bodyEntry ∉ r.corners.list)

include hl hnext ho hnodup hbody

/-- The first two moves exchange the headers. -/
theorem layout_moveHeaders : (r.moveHeaders f).layout =
    f.layout.map (Equiv.swap r.plan.outerHeader r.plan.innerHeader) := by
  rw [Corners.list_eq, List.nodup_cons, List.mem_cons, not_or] at hnodup
  rw [Corners.list_eq, List.mem_cons, not_or] at hbody
  exact Func.layout_exchange hl ((Func.next?_eq_some_iff hl).1 hnext) ho hnodup.1.1
    (Ne.symm hbody.1)

/-- Then the inner body follows the outer header. -/
theorem follows_moveHeaders :
    Follows (r.moveHeaders f).layout r.plan.outerHeader r.plan.bodyEntry := by
  have hswap := ((Func.next?_eq_some_iff hl).1 hnext).map
    (Equiv.swap r.plan.outerHeader r.plan.innerHeader)
  rw [← layout_moveHeaders hl hnext ho hnodup hbody, Equiv.swap_apply_right,
    Equiv.swap_apply_of_ne_of_ne] at hswap
  · exact hswap
  · exact fun heq => hbody (heq ▸ List.mem_cons_self)
  · exact fun heq => hbody (heq ▸ List.mem_cons_of_mem _ List.mem_cons_self)

/-- The two moves after that put the preheaders before the headers, and leave the outer header where
it is. -/
theorem follows_moveFronts :
    Follows (r.moveFronts f).layout r.plan.outerHeader r.plan.bodyEntry := by
  have hbe : ∀ x ∈ r.corners.list, x ≠ r.plan.bodyEntry := fun x hx heq => hbody (heq ▸ hx)
  have hoh : ∀ x ∈ r.corners.links, x ≠ r.plan.outerHeader := by
    rw [Corners.list_eq, List.nodup_cons] at hnodup
    rintro _ hx rfl
    exact hnodup.1 (List.mem_cons_of_mem _ hx)
  simp only [Corners.list, Corners.links, corners, List.forall_mem_cons] at hbe hoh
  obtain ⟨hbeoh, hbeih, hbeq, hbeiph, -⟩ := hbe
  obtain ⟨hohq, hohiph, -⟩ := hoh
  exact Func.follows_moveBefore (Func.follows_moveBefore
    (follows_moveHeaders hl hnext ho hnodup hbody) hohiph hbeiph hbeih) hohq hbeq hbeoh

/-- Afterwards the inner body follows the outer header. -/
theorem next?_reorder : (r.reorder f).next? r.plan.outerHeader = some r.plan.bodyEntry := by
  rw [Func.next?_eq_some_iff ((r.perm_reorder f).nodup_iff.2 hl)]
  refine follows_moveBacks ((r.perm_moveFronts f).nodup_iff.2 hl)
    (follows_moveFronts hl hnext ho hnodup hbody) ?_ ?_
  · rw [corners_eq] at hnodup
    exact List.disjoint_of_nodup_append hnodup List.mem_cons_self
  · rw [corners_eq, List.mem_append, not_or] at hbody
    exact hbody.2

end

theorem next?_apply (r : Relinking) (f : Func) (b : BlockId) :
    Func.next? (r.apply f) b = (r.reorder f).next? b := by
  rw [Func.next?, Func.next?, Func.position?, Func.position?, r.layout_apply]

end Relinking

end LoopSwap
