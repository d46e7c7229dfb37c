/-
**The dominator iteration, one step at a time.**

`DomTable.meet?`, `DomTable.settle?` and `DomTable.above?` look at a row before they follow it, and
refuse to go on where it does not lead down.  Here the iteration is a machine that looks at nothing:
it compares numbers, follows whatever stands in the table, and sweeps until nothing changes.  It
works on *places*, all of those a graph was given, and its table holds places too; the unreachable
ones have no number and never get a row.

The machine halts, and every row it follows leads to a numbered place, with a smaller number except
at the entry.  Both follow from what is known of `DomTable`: the rows of the machine's table and
those of a `DomTable` that falls correspond, a run of the machine's inner loops is one value of
`meet?`, and a run over one row is one `updateRow?`.

Main definitions:

* `LoopSwap.Run` — a run of a machine through states with a property;
* `LoopSwap.FlatGraph` — the order and the predecessors of the places;
* `LoopSwap.Climb`, `LoopSwap.Iteration`, `LoopSwap.Query` — the states of the machines: of two
  places that climb until they meet, of the sweeps, and of the way up in a query;
* `LoopSwap.FlatGraph.Leads` — what following a row must find;
* `LoopSwap.FlatGraph.ClimbsTo` — where a climb ends;
* `LoopSwap.FlatGraph.Shows` — a table of places shows a table of numbers.

Main results:

* `LoopSwap.FlatGraph.Shows.climb` — two places climb to their meeting point;
* `LoopSwap.FlatGraph.Shows.row`, `LoopSwap.FlatGraph.Shows.sweep` — a row and a sweep;
* `LoopSwap.FlatGraph.Shows.iterate` — the iteration halts in a table that shows the settled one;
* `LoopSwap.FlatGraph.Shows.query` — the way up of a query ends in an answer.
-/

import LoopSwap.Proofs.Graph.Dominance
import Mathlib.Data.List.Nodup
import Mathlib.Logic.Function.Iterate

set_option relaxedAutoImplicit false
set_option autoImplicit false

namespace LoopSwap

/-! ### Runs -/

section Runs

variable {σ τ : Type} {f : σ → σ} {g : τ → τ} {P : σ → Prop} {Q : τ → Prop} {s t u : σ}

/-- Steps of `f` lead from `s` to `t`, and every state before `t` satisfies `P`. -/
inductive Run (f : σ → σ) (P : σ → Prop) : σ → σ → Prop
  | done (t : σ) : Run f P t t
  | step {s t : σ} : P s → Run f P (f s) t → Run f P s t

namespace Run

theorem trans (h : Run f P s t) (h' : Run f P t u) : Run f P s u := by
  induction h with
  | done => exact h'
  | step hs _ ih => exact .step hs (ih h')

/-- A machine that contains another one runs when that one does. -/
theorem map (h : Run f P s t) {e : σ → τ} (hQ : ∀ s, P s → Q (e s))
    (hstep : ∀ s, P s → g (e s) = e (f s)) : Run g Q (e s) (e t) := by
  induction h with
  | done => exact .done _
  | step hs _ ih => exact .step (hQ _ hs) (hstep _ hs ▸ ih)

theorem exists_iterate (h : Run f P s t) : ∃ n, f^[n] s = t ∧ ∀ m < n, P (f^[m] s) := by
  induction h with
  | done t => exact ⟨0, rfl, fun m hm => absurd hm (Nat.not_lt_zero m)⟩
  | @step s t hs _ ih =>
      obtain ⟨n, hn, hbefore⟩ := ih
      refine ⟨n + 1, hn, fun m hm => ?_⟩
      cases m with
      | zero => exact hs
      | succ m => exact hbefore m (Nat.lt_of_succ_lt_succ hm)

end Run

end Runs

/-! ### Tables by their rows -/

namespace DomTable

variable {s t : DomTable}

theorem eq_of_above_iff {c d : Nat} (h : ∀ e, t.Above e c ↔ t.Above e d) : c = d :=
  Nat.le_antisymm ((h c).1 .refl).le ((h d).2 .refl).le

/-- Two tables of one size differ if one of their rows does. -/
theorem ne_iff_exists_up?_ne {n : Nat} (hs : s.size = n) (ht : t.size = n) :
    s ≠ t ↔ ∃ j < n, s.up? j ≠ t.up? j := by
  constructor
  · intro hne
    by_contra hcon
    refine hne (Array.ext (hs.trans ht.symm) fun j hj hj' => ?_)
    have hrow : s.up? j = t.up? j := by
      by_contra hrow
      exact hcon ⟨j, hs ▸ hj, hrow⟩
    simpa [up?, hj, hj'] using hrow
  · rintro ⟨j, -, hrow⟩ rfl
    exact hrow rfl

/-- An update of a row leaves the other rows alone. -/
theorem up?_updateRow? {k j : Nat} {l : List Nat} (h : s.updateRow? k l = some t) (hj : j ≠ k) :
    t.up? j = s.up? j := by
  unfold updateRow? at h
  split at h
  · obtain rfl : s = t := by simpa using h
    rfl
  · obtain ⟨u, -, rfl⟩ := Option.map_eq_some_iff.1 h
    rw [up?_setIfInBounds, if_neg fun hkj => hj hkj.1.symm]

end DomTable

/-! ### The machines -/

/-- The places that can be reached, in reverse postorder, and the predecessors of every place, be
they reachable or not. -/
structure FlatGraph where
  order : List Nat
  preds : Nat → List Nat
  nodup : order.Nodup

/-- A table of places; `none` where it is undefined. -/
abbrev Doms := Nat → Option Nat

/-- Two places that climb until they meet: at the outer loop, in the loop that moves the left one,
in the loop that moves the right one.  A place that became undefined is lost. -/
inductive Climb where
  | compare (a b : Nat)
  | left (a b : Nat)
  | right (a b : Nat)
  | met (a : Nat)
  | lost

/-- A sweep: its table, whether it changed anything, and the places it still has to visit. -/
structure Sweep where
  table : Doms
  changed : Bool
  rest : List Nat

/-- The sweeps: between two rows, in a row with the candidate found so far and the predecessors
left to look at, and in the climb of the candidate and a predecessor. -/
inductive Iteration where
  | next (s : Sweep)
  | row (s : Sweep) (x : Nat) (best : Option Nat) (preds : List Nat)
  | climb (s : Sweep) (x : Nat) (preds : List Nat) (c : Climb)
  | done (T : Doms)
  | lost

/-- A query: whether `a` is on the way up from the place reached. -/
inductive Query where
  | asks (a b : Nat)
  | answer (v : Bool)
  | lost

namespace FlatGraph

variable (h : FlatGraph)

/-- The number of a place.  One that is not reachable gets a number above all others. -/
def number (x : Nat) : Nat := h.order.idxOf x

/-- One step of a climb. -/
def climbStep (T : Doms) : Climb → Climb
  | .compare a b => if a = b then .met a else .left a b
  | .left a b =>
    if h.number b < h.number a then
      match T a with
      | some a' => .left a' b
      | none => .lost
    else .right a b
  | .right a b =>
    if h.number a < h.number b then
      match T b with
      | some b' => .right a b'
      | none => .lost
    else .compare a b
  | .met a => .met a
  | .lost => .lost

/-- One step of the iteration. -/
def step : Iteration → Iteration
  | .next ⟨T, changed, []⟩ => if changed then .next ⟨T, false, h.order.tail⟩ else .done T
  | .next ⟨T, changed, x :: rest⟩ => .row ⟨T, changed, rest⟩ x none (h.preds x)
  | .row s _ none [] => .next s
  | .row s x (some u) [] =>
    if s.table x = some u then .next s else .next ⟨Function.update s.table x (some u), true, s.rest⟩
  | .row s x best (p :: ps) =>
    match s.table p, best with
    | none, _ => .row s x best ps
    | some _, none => .row s x (some p) ps
    | some _, some u => .climb s x ps (.compare u p)
  | .climb s x ps (.met u) => .row s x (some u) ps
  | .climb _ _ _ .lost => .lost
  | .climb s x ps c => .climb s x ps (h.climbStep s.table c)
  | .done T => .done T
  | .lost => .lost

/-- Where the iteration starts: the entry stands for itself, and the first sweep begins. -/
def start : Iteration :=
  match h.order with
  | [] => .done fun _ => none
  | entry :: rest => .next ⟨Function.update (fun _ => none) entry (some entry), false, rest⟩

/-- One step of a query. -/
def queryStep (T : Doms) : Query → Query
  | .asks a b =>
    if a = b then .answer true
    else
      match T b with
      | some u => if u = b then .answer false else .asks a u
      | none => .lost
  | .answer v => .answer v
  | .lost => .lost

/-! ### What must not go wrong -/

/-- Following the row of `x` finds a reachable place, of a smaller number unless `x` is the
entry. -/
def Leads (T : Doms) (x : Nat) : Prop :=
  ∃ u, T x = some u ∧ u ∈ h.order ∧ (h.order.head? ≠ some x → h.number u < h.number x)

/-- A climb that is under way, and whose next step leads on if it follows a row. -/
def ClimbSound (T : Doms) : Climb → Prop
  | .compare _ _ => True
  | .left a b => h.number b < h.number a → h.Leads T a
  | .right a b => h.number a < h.number b → h.Leads T b
  | .met _ | .lost => False

/-- An iteration that is under way, and whose next step leads on if it follows a row. -/
def IterationSound : Iteration → Prop
  | .next _ | .row _ _ _ _ | .climb _ _ _ (.met _) => True
  | .climb s _ _ c => h.ClimbSound s.table c
  | .done _ | .lost => False

/-- A query that is under way, and whose next step leads on if it follows a row. -/
def QuerySound (T : Doms) : Query → Prop
  | .asks a b => a ≠ b → h.Leads T b
  | .answer _ | .lost => False

/-! ### Places and numbers -/

variable {h} {t t' : DomTable} {T : Doms} {a b c i j k u v : Nat} {x y z : Nat}

theorem number_eq (hx : h.order[i]? = some x) : h.number x = i := by
  obtain ⟨hi, rfl⟩ := List.getElem?_eq_some_iff.1 hx
  exact h.nodup.idxOf_getElem i hi

theorem place_eq_iff (hx : h.order[i]? = some x) (hy : h.order[j]? = some y) : x = y ↔ i = j := by
  constructor
  · rintro rfl
    exact place_unique h.nodup hx hy
  · rintro rfl
    exact Option.some.inj (hx.symm.trans hy)

/-! ### Climbs -/

variable (h) in
/-- A climb ends where its places meet, and leads on all the way. -/
def ClimbsTo (T : Doms) (c : Climb) (z : Nat) : Prop :=
  Run (h.climbStep T) (h.ClimbSound T) c (.met z)

namespace ClimbsTo

theorem of_step {c c' : Climb} (hc : h.ClimbSound T c) (hstep : h.climbStep T c = c')
    (hrun : h.ClimbsTo T c' z) : h.ClimbsTo T c z :=
  .step hc (hstep ▸ hrun)

theorem meet : h.ClimbsTo T (.compare x x) x :=
  of_step trivial (by simp [climbStep]) (.done _)

theorem compare (hrun : h.ClimbsTo T (.left x y) z) (hne : x ≠ y) :
    h.ClimbsTo T (.compare x y) z :=
  of_step trivial (by simp [climbStep, hne]) hrun

/-- The left place follows its row as long as its number is the larger one. -/
theorem left_up (hlt : h.number y < h.number x) (hlead : h.Leads T x) {w : Nat}
    (hw : T x = some w) (hrun : h.ClimbsTo T (.left w y) z) : h.ClimbsTo T (.left x y) z :=
  of_step (fun _ => hlead) (by simp [climbStep, hlt, hw]) hrun

theorem left_stop (hle : ¬ h.number y < h.number x) (hrun : h.ClimbsTo T (.right x y) z) :
    h.ClimbsTo T (.left x y) z :=
  of_step (fun hlt => absurd hlt hle) (by simp [climbStep, hle]) hrun

/-- The right place follows its row as long as its number is the larger one. -/
theorem right_up (hlt : h.number x < h.number y) (hlead : h.Leads T y) {w : Nat}
    (hw : T y = some w) (hrun : h.ClimbsTo T (.right x w) z) : h.ClimbsTo T (.right x y) z :=
  of_step (fun _ => hlead) (by simp [climbStep, hlt, hw]) hrun

theorem right_stop (hle : ¬ h.number x < h.number y) (hrun : h.ClimbsTo T (.compare x y) z) :
    h.ClimbsTo T (.right x y) z :=
  of_step (fun hlt => absurd hlt hle) (by simp [climbStep, hle]) hrun

end ClimbsTo

/-! ### Tables that show each other -/

variable (h) in
/-- The numbers of the predecessors of every reachable place. -/
def Numbers (nums : Nat → List Nat) : Prop :=
  ∀ k x, h.order[k]? = some x → ∀ p, p ∈ nums k ↔ ∃ y ∈ h.preds x, h.order[p]? = some y

variable (h t) in
/-- `e` is above the place `p`, if that has a filled row. -/
def AbovePlace (e p : Nat) : Prop := ∀ q, h.order[q]? = some p → t.Known q → t.Above e q

theorem abovePlace_iff (hx : h.order[k]? = some x) (hk : t.Known k) :
    h.AbovePlace t a x ↔ t.Above a k := by
  constructor
  · exact fun hall => hall k hx hk
  · exact fun habove q hq _ => place_unique h.nodup hx hq ▸ habove

/-- A table of places mirrors a table of numbers: the rows correspond along the order, and off the
order there are none. -/
structure Mirrors (h : FlatGraph) (t : DomTable) (T : Doms) : Prop where
  on : ∀ i x, h.order[i]? = some x → T x = (t.up? i).bind (h.order[·]?)
  off : ∀ x, x ∉ h.order → T x = none

/-- The table of numbers that is mirrored falls. -/
structure Shows (h : FlatGraph) (t : DomTable) (T : Doms) : Prop extends h.Mirrors t T where
  size : t.size = h.order.length
  falls : t.Falls

namespace Shows

theorem exists_place (hT : h.Shows t T) (hk : t.Known k) : ∃ x, h.order[k]? = some x := by
  obtain ⟨u, hu⟩ := DomTable.known_iff.1 hk
  have hlt : k < t.size := by
    by_contra hcon
    simp [DomTable.up?, hcon] at hu
  exact ⟨_, List.getElem?_eq_getElem (hT.size ▸ hlt)⟩

/-- A filled row is filled in the table of places as well. -/
theorem follow (hT : h.Shows t T) (hx : h.order[k]? = some x) (hu : t.up? k = some u) :
    ∃ y, h.order[u]? = some y ∧ T x = some y := by
  have hku : t.Known u := by
    by_cases hk : k = 0
    · subst hk
      obtain rfl : 0 = u := by simpa [hT.falls.zero] using hu
      exact hT.falls.known_zero
    · exact (hT.falls.up k u hu hk).2
  obtain ⟨y, hy⟩ := hT.exists_place hku
  exact ⟨y, hy, by simp [hT.on k x hx, hu, hy]⟩

theorem isSome_iff (hT : h.Shows t T) :
    (T x).isSome = true ↔ ∃ k, h.order[k]? = some x ∧ t.Known k := by
  constructor
  · intro hx
    have hmem : x ∈ h.order := by
      by_contra hcon
      simp [hT.off x hcon] at hx
    obtain ⟨k, hk⟩ := List.getElem?_of_mem hmem
    refine ⟨k, hk, ?_⟩
    rw [hT.on k x hk] at hx
    cases hu : t.up? k with
    | none => simp [hu] at hx
    | some u => exact DomTable.known_iff.2 ⟨u, hu⟩
  · rintro ⟨k, hk, hknown⟩
    obtain ⟨u, hu⟩ := DomTable.known_iff.1 hknown
    obtain ⟨y, -, hy⟩ := hT.follow hk hu
    simp [hy]

theorem leads (hT : h.Shows t T) (hx : h.order[k]? = some x) (hk : t.Known k) : h.Leads T x := by
  obtain ⟨u, hu⟩ := DomTable.known_iff.1 hk
  obtain ⟨y, hy, hTx⟩ := hT.follow hx hu
  refine ⟨y, hTx, List.mem_of_getElem? hy, fun hhead => ?_⟩
  have hk0 : k ≠ 0 := by
    rintro rfl
    exact hhead (by rw [List.head?_eq_getElem?, hx])
  rw [number_eq hx, number_eq hy]
  exact (hT.falls.up k u hu hk0).1

/-- The machine starts with the table in which only the entry is known. -/
theorem start (hpos : 0 < h.order.length) (hfalls : (DomTable.initial h.order.length).Falls) :
    ∃ T, h.Shows (DomTable.initial h.order.length) T ∧
      h.start = .next ⟨T, false, h.order.tail⟩ := by
  cases ho : h.order with
  | nil => simp [ho] at hpos
  | cons entry rest =>
      have hentry : h.order[0]? = some entry := by simp [ho]
      refine ⟨Function.update (fun _ => none) entry (some entry), ?_, by simp [FlatGraph.start, ho]⟩
      rw [← ho]
      refine ⟨⟨fun i x hx => ?_, fun x hx => ?_⟩, by simp [DomTable.initial], hfalls⟩
      · rw [DomTable.up?_initial, Function.update_apply]
        by_cases hi : i = 0
        · have hxe : x = entry := (place_eq_iff hx hentry).2 hi
          rw [if_pos hxe, if_pos ⟨hi, hpos⟩, Option.bind_some, hentry]
        · have hxe : x ≠ entry := fun heq => hi ((place_eq_iff hx hentry).1 heq)
          simp [hxe, hi]
      · have hxe : x ≠ entry := fun heq => hx (heq ▸ List.mem_of_getElem? hentry)
        simp [hxe]

/-! ### Climbing -/

/-- From all three points of the loops, two places climb to their meeting point. -/
theorem climbsTo (hT : h.Shows t T) (ha : t.Known a) (hb : t.Known b)
    (hx : h.order[a]? = some x) (hy : h.order[b]? = some y)
    (hc : t.meet? a b = some c) (hz : h.order[c]? = some z) :
    h.ClimbsTo T (.compare x y) z ∧ h.ClimbsTo T (.left x y) z ∧ h.ClimbsTo T (.right x y) z := by
  induction hn : a + b using Nat.strongRecOn generalizing a b x y with
  | ind n ih =>
      have hnx := number_eq hx
      have hny := number_eq hy
      unfold DomTable.meet? at hc
      rcases Nat.lt_trichotomy b a with hlt | rfl | hlt
      · obtain ⟨u, hu⟩ := DomTable.known_iff.1 ha
        obtain ⟨hua, hku⟩ := hT.falls.up a u hu (by omega)
        obtain ⟨w, hw, hTx⟩ := hT.follow hx hu
        have hc' : t.meet? u b = some c := by
          simpa [hlt, Nat.ne_of_gt hlt, hu, hua] using hc
        obtain ⟨-, hrun, -⟩ := ih (u + b) (by omega) hku hb hw hy hc' rfl
        have hleft : h.ClimbsTo T (.left x y) z :=
          .left_up (by omega) (hT.leads hx ha) hTx hrun
        have hcompare := hleft.compare fun heq => Nat.ne_of_gt hlt ((place_eq_iff hx hy).1 heq)
        exact ⟨hcompare, hleft, .right_stop (by omega) hcompare⟩
      · obtain rfl : x = y := (place_eq_iff hx hy).2 rfl
        obtain rfl : b = c := by simpa using hc
        obtain rfl : x = z := (place_eq_iff hx hz).2 rfl
        have hright : h.ClimbsTo T (.right x x) x := .right_stop (by omega) .meet
        exact ⟨.meet, .left_stop (by omega) hright, hright⟩
      · obtain ⟨u, hu⟩ := DomTable.known_iff.1 hb
        obtain ⟨hub, hku⟩ := hT.falls.up b u hu (by omega)
        obtain ⟨w, hw, hTy⟩ := hT.follow hy hu
        have hnot : ¬ b < a := by omega
        have hc' : t.meet? a u = some c := by
          simpa [hnot, Nat.ne_of_lt hlt, hu, hub] using hc
        obtain ⟨-, -, hrun⟩ := ih (a + u) (by omega) ha hku hx hw hc' rfl
        have hright : h.ClimbsTo T (.right x y) z :=
          .right_up (by omega) (hT.leads hy hb) hTy hrun
        have hleft : h.ClimbsTo T (.left x y) z := .left_stop (by omega) hright
        have hcompare := hleft.compare fun heq => Nat.ne_of_lt hlt ((place_eq_iff hx hy).1 heq)
        exact ⟨hcompare, hleft, hright⟩

/-- Two places climb to a place above which is what is above both. -/
theorem climb (hT : h.Shows t T) (ha : t.Known a) (hb : t.Known b)
    (hx : h.order[a]? = some x) (hy : h.order[b]? = some y) :
    ∃ c z, h.order[c]? = some z ∧ t.Known c ∧ h.ClimbsTo T (.compare x y) z ∧
      ∀ d, t.Above d c ↔ t.Above d a ∧ t.Above d b := by
  obtain ⟨c, hc, habove⟩ := hT.falls.meet? ha hb
  have hkc := hT.falls.known_of_above ((habove c).1 .refl).1 ha
  obtain ⟨z, hz⟩ := hT.exists_place hkc
  exact ⟨c, z, hz, hkc, (hT.climbsTo ha hb hx hy hc hz).1, habove⟩

/-! ### Rows and sweeps -/

variable {s : Sweep} {l : List Nat}

theorem sound_climb {c : Climb} (hc : h.ClimbSound s.table c) :
    h.IterationSound (.climb s x l c) := by
  cases c with
  | compare | left | right => exact hc
  | met | lost => exact hc.elim

theorem step_climb {c : Climb} (hc : h.ClimbSound s.table c) :
    h.step (.climb s x l c) = .climb s x l (h.climbStep s.table c) := by
  cases c with
  | compare | left | right => rfl
  | met | lost => exact hc.elim

/-- The climb of a candidate and a predecessor, in the row that waits for it. -/
theorem climb_in_row (hT : h.Shows t s.table) (ha : t.Known a) (hb : t.Known b)
    (hy : h.order[a]? = some y) (hz : h.order[b]? = some z) :
    ∃ c w, h.order[c]? = some w ∧ t.Known c ∧
      Run h.step h.IterationSound (.climb s x l (.compare y z)) (.row s x (some w) l) ∧
      ∀ d, t.Above d c ↔ t.Above d a ∧ t.Above d b := by
  obtain ⟨c, w, hw, hkc, hrun, habove⟩ := hT.climb ha hb hy hz
  have hin : Run h.step h.IterationSound (.climb s x l (.compare y z)) (.climb s x l (.met w)) :=
    hrun.map (e := Iteration.climb s x l) (fun _ hc => sound_climb hc) (fun _ hc => step_climb hc)
  exact ⟨c, w, hw, hkc, hin.trans (.step trivial (.done _)), habove⟩

theorem abovePlace_of_none (hT : h.Shows t T) (hx : T x = none) : h.AbovePlace t a x :=
  fun q hq hkq => by
    have := hT.isSome_iff.2 ⟨q, hq, hkq⟩
    simp [hx] at this

/-- A candidate climbs with all filled predecessors of a row, one after the other. -/
theorem candidate (hT : h.Shows t s.table) (hc : t.Known c) (hz : h.order[c]? = some z) :
    ∃ d w, h.order[d]? = some w ∧
      Run h.step h.IterationSound (.row s x (some z) l) (.row s x (some w) []) ∧
      ∀ e, t.Above e d ↔ t.Above e c ∧ ∀ p ∈ l, h.AbovePlace t e p := by
  induction l generalizing c z with
  | nil => exact ⟨c, z, hz, .done _, fun e => by simp⟩
  | cons p l ih =>
      cases hp : s.table p with
      | none =>
          -- an unfilled predecessor is passed over
          obtain ⟨d, w, hw, hrun, habove⟩ := ih hc hz
          refine ⟨d, w, hw, .step trivial (by simpa [step, hp] using hrun), fun e => ?_⟩
          simp only [habove e, List.forall_mem_cons, hT.abovePlace_of_none hp, true_and]
      | some r =>
          obtain ⟨q, hq, hkq⟩ := hT.isSome_iff.1 (by simp [hp] : (s.table p).isSome = true)
          obtain ⟨c', z', hz', hkc', hclimb, hmeet⟩ :=
            hT.climb_in_row (x := x) (l := l) hc hkq hz hq
          obtain ⟨d, w, hw, hrun, habove⟩ := ih hkc' hz'
          have hstep : h.step (.row s x (some z) (p :: l)) = .climb s x l (.compare z p) := by
            simp [step, hp]
          refine ⟨d, w, hw, .step trivial (hstep ▸ hclimb.trans hrun), fun e => ?_⟩
          simp only [habove e, hmeet e, List.forall_mem_cons, abovePlace_iff hq hkq, and_assoc]

/-- The candidate of a row with a filled predecessor has above it what is above all of them. -/
theorem gather (hT : h.Shows t s.table) (hl : ∃ p ∈ l, (s.table p).isSome = true) :
    ∃ d w, h.order[d]? = some w ∧
      Run h.step h.IterationSound (.row s x none l) (.row s x (some w) []) ∧
      ∀ e, t.Above e d ↔ ∀ p ∈ l, h.AbovePlace t e p := by
  induction l with
  | nil => simp at hl
  | cons p l ih =>
      cases hp : s.table p with
      | none =>
          obtain ⟨d, w, hw, hrun, habove⟩ := ih (by simpa [hp] using hl)
          refine ⟨d, w, hw, .step trivial (by simpa [step, hp] using hrun), fun e => ?_⟩
          simp only [habove e, List.forall_mem_cons, hT.abovePlace_of_none hp, true_and]
      | some r =>
          -- the first filled predecessor is the candidate
          obtain ⟨q, hq, hkq⟩ := hT.isSome_iff.1 (by simp [hp] : (s.table p).isSome = true)
          obtain ⟨d, w, hw, hrun, habove⟩ := hT.candidate (x := x) (l := l) hkq hq
          refine ⟨d, w, hw, .step trivial (by simpa [step, hp] using hrun), fun e => ?_⟩
          simp only [habove e, List.forall_mem_cons, abovePlace_iff hq hkq]

variable {nums : Nat → List Nat} {parent : Nat → Nat} {dom : Nat → Nat → Prop} {p : Nat}
  {t₀ : DomTable}

theorem up?_set (hT : h.Shows t T) (hx : h.order[k]? = some x) (j : Nat) :
    DomTable.up? (t.setIfInBounds k (some u)) j = if k = j then some u else t.up? j := by
  have hlt : k < t.size := hT.size ▸ (List.getElem?_eq_some_iff.1 hx).1
  rw [DomTable.up?_setIfInBounds]
  simp [hlt]

/-- Setting a row of one table sets a row of the other. -/
theorem set (hT : h.Shows t T) (hx : h.order[k]? = some x) (hy : h.order[u]? = some y)
    (hfalls : DomTable.Falls (t.setIfInBounds k (some u))) :
    h.Shows (t.setIfInBounds k (some u)) (Function.update T x (some y)) where
  size := by simpa using hT.size
  falls := hfalls
  on := fun i z hz => by
    rw [hT.up?_set hx, Function.update_apply]
    by_cases hki : k = i
    · have hzx : z = x := (place_eq_iff hz hx).2 hki.symm
      simp [hzx, hki, hy]
    · have hzx : z ≠ x := fun heq => hki ((place_eq_iff hz hx).1 heq).symm
      simp [hzx, hki, hT.on i z hz]
  off := fun z hz => by
    have hzx : z ≠ x := fun heq => hz (heq ▸ List.mem_of_getElem? hx)
    simp [hzx, hT.off z hz]

theorem row_eq_iff (hT : h.Shows t T) (hx : h.order[k]? = some x) (hy : h.order[u]? = some y) :
    T x = some y ↔ t.up? k = some u := by
  rw [hT.on k x hx]
  constructor
  · intro hTx
    obtain ⟨v, hv, hvy⟩ := Option.bind_eq_some_iff.1 hTx
    exact place_unique h.nodup hvy hy ▸ hv
  · exact fun hu => by simp [hu, hy]

/-- A row of the sweep is one update. -/
theorem row (hT : h.Shows t T) (hnum : h.Numbers nums) (hx : h.order[k]? = some x)
    (hp : p ∈ nums k) (hkp : t.Known p) (ht' : t.updateRow? k (nums k) = some t')
    (hfalls : t'.Falls) (changed : Bool) (rest : List Nat) :
    ∃ T' changed', h.Shows t' T' ∧
      Run h.step h.IterationSound (.next ⟨T, changed, x :: rest⟩) (.next ⟨T', changed', rest⟩) ∧
      (changed' = true ↔ changed = true ∨ t'.up? k ≠ t.up? k) := by
  obtain ⟨u, hu, habove⟩ := hT.falls.updateRow? (k := k) hp hkp
  obtain rfl : t' = t.setIfInBounds k (some u) := by simpa [ht'] using hu
  obtain ⟨y, hy, hpy⟩ := (hnum k x hx p).1 hp
  obtain ⟨d, w, hw, hrun, hbest⟩ :=
    gather (x := x) (s := ⟨T, changed, rest⟩) hT ⟨y, hy, hT.isSome_iff.2 ⟨p, hpy, hkp⟩⟩
  -- what is above the new row determines it
  obtain rfl : d = u := DomTable.eq_of_above_iff fun e => by
    rw [hbest e, habove e]
    constructor
    · intro hall q hq hkq
      obtain ⟨z, hz, hqz⟩ := (hnum k x hx q).1 hq
      exact hall z hz q hqz hkq
    · exact fun hall z hz q hqz hkq => hall q ((hnum k x hx q).2 ⟨z, hz, hqz⟩) hkq
  have hrow : Run h.step h.IterationSound (.next ⟨T, changed, x :: rest⟩)
      (.row ⟨T, changed, rest⟩ x (some w) []) := .step trivial hrun
  have hset := hT.set hx hw hfalls
  by_cases hTx : T x = some w
  · rw [← hTx, Function.update_eq_self] at hset
    refine ⟨T, changed, hset, hrow.trans (.step trivial ?_), ?_⟩
    · simpa [step, hTx] using .done _
    · simp [hT.up?_set hx, (hT.row_eq_iff hx hw).1 hTx]
  · refine ⟨Function.update T x (some w), true, hset, hrow.trans (.step trivial ?_), ?_⟩
    · simpa [step, hTx] using .done _
    · have hne : some d ≠ t.up? k := fun heq => hTx ((hT.row_eq_iff hx hw).2 heq.symm)
      simp [hT.up?_set hx, hne]

/-- A sweep of the machine is a sweep of the table it shows, and it notes whether a row changed. -/
theorem sweep (hp : Spanned nums parent h.order.length) (hnum : h.Numbers nums) (hs : t₀.Falls) :
    ∀ (m k : Nat) (t : DomTable) (T : Doms) (changed : Bool), 0 < k → k + m = h.order.length →
      DomTable.Swept nums h.order.length t₀ t k → h.Shows t T →
      (changed = true ↔ ∃ j < k, t.up? j ≠ t₀.up? j) →
      ∃ t' T' changed', t.sweep? (DomTable.rowsFrom nums k m) = some t' ∧
        DomTable.Swept nums h.order.length t₀ t' h.order.length ∧ h.Shows t' T' ∧
        (changed' = true ↔ ∃ j < h.order.length, t'.up? j ≠ t₀.up? j) ∧
        Run h.step h.IterationSound (.next ⟨T, changed, h.order.drop k⟩)
          (.next ⟨T', changed', []⟩) := by
  intro m
  induction m with
  | zero =>
      intro k t T changed _ hkn hswept hT hch
      obtain rfl : k = h.order.length := by omega
      exact ⟨t, T, changed, by simp [DomTable.sweep?], hswept, hT, hch,
        by simpa using .done _⟩
  | succ m ih =>
      intro k t T changed hk hkn hswept hT hch
      have hlt : k < h.order.length := by omega
      obtain ⟨t₁, ht₁, hswept₁⟩ := hswept.step hp hs hk hlt
      obtain ⟨T₁, changed₁, hT₁, hrow, hch₁⟩ := hT.row hnum
        (List.getElem?_eq_getElem hlt) (hp.parent_mem k hk hlt)
        (hswept.known _ (hp.parent_lt k hk hlt)) ht₁ hswept₁.falls changed (h.order.drop (k + 1))
      have hch₁' : changed₁ = true ↔ ∃ j < k + 1, t₁.up? j ≠ t₀.up? j := by
        rw [hch₁, hch, hswept.rest k (Nat.le_refl k)]
        constructor
        · rintro (⟨j, hj, hne⟩ | hne)
          · exact ⟨j, by omega, DomTable.up?_updateRow? ht₁ (Nat.ne_of_lt hj) ▸ hne⟩
          · exact ⟨k, by omega, hne⟩
        · rintro ⟨j, hj, hne⟩
          rcases Nat.lt_succ_iff_lt_or_eq.1 hj with hlt' | rfl
          · exact Or.inl ⟨j, hlt', DomTable.up?_updateRow? ht₁ (Nat.ne_of_lt hlt') ▸ hne⟩
          · exact Or.inr hne
      obtain ⟨t₂, T₂, changed₂, ht₂, hswept₂, hT₂, hch₂, hrun⟩ :=
        ih (k + 1) t₁ T₁ changed₁ (by omega) (by omega) hswept₁ hT₁ hch₁'
      refine ⟨t₂, T₂, changed₂, by simp [DomTable.sweep?, ht₁, ht₂], hswept₂, hT₂, hch₂, ?_⟩
      rw [List.drop_eq_getElem_cons hlt]
      exact hrow.trans hrun

/-- The iteration halts in a table that shows the settled one. -/
theorem iterate (hp : Spanned nums parent h.order.length) (hnum : h.Numbers nums)
    (hzero : ∀ c, dom c 0 → c = 0)
    (hdom : ∀ j, 0 < j → j < h.order.length → ∀ c, dom c j → c ≠ j → ∀ p ∈ nums j, dom c p)
    (hs : DomTable.Settling nums parent h.order.length dom t₀) (hT : h.Shows t₀ T)
    (ht : DomTable.settle? (DomTable.rowsFrom nums 1 (h.order.length - 1)) t₀ = some t) :
    ∃ T', h.Shows t T' ∧
      Run h.step h.IterationSound (.next ⟨T, false, h.order.tail⟩) (.done T') := by
  induction hw : t₀.weight using Nat.strongRecOn generalizing t₀ T with
  | ind w ih =>
      have hpos := hp.pos
      obtain ⟨t₁, T₁, changed, ht₁, hswept, hT₁, hch, hrun⟩ :=
        sweep hp hnum hs.falls (h.order.length - 1) 1 t₀ T false (by omega) (by omega)
          (.start hs.falls hs.size) hT (by simp)
      rw [List.drop_one] at hrun
      rw [← DomTable.ne_iff_exists_up?_ne hT₁.size hs.size] at hch
      unfold DomTable.settle? at ht
      by_cases hsame : t₁ = t₀
      · -- nothing changed, and the machine stops
        obtain rfl : t₀ = t := by simpa [ht₁, hsame] using ht
        obtain rfl : changed = false := by simpa [hsame] using hch
        exact ⟨T₁, hsame ▸ hT₁, hrun.trans (.step trivial (.done _))⟩
      · have hlt := hswept.weight_lt hs hsame
        have ht' : t₁.settle? (DomTable.rowsFrom nums 1 (h.order.length - 1)) = some t := by
          simpa [ht₁, hsame, hlt] using ht
        obtain ⟨T', hT', hrun'⟩ :=
          ih t₁.weight (hw ▸ hlt) (hswept.settling hp hs hzero hdom) hT₁ ht' rfl
        obtain rfl : changed = true := hch.2 hsame
        exact ⟨T', hT', hrun.trans (.step trivial hrun')⟩

/-! ### Queries -/

/-- The way up of a query ends in an answer. -/
theorem query (hT : h.Shows t T) (hj : t.Known j) (hy : h.order[j]? = some y) (x : Nat) :
    ∃ v, Run (queryStep T) (h.QuerySound T) (.asks x y) (.answer v) ∧
      (v = true ↔ ∃ i, h.order[i]? = some x ∧ t.Above i j) := by
  induction j using Nat.strongRecOn generalizing y with
  | ind j ih =>
      by_cases hxy : x = y
      · subst hxy
        exact ⟨true, .step (fun hne => absurd rfl hne) (by simpa [queryStep] using .done _),
          by simpa using ⟨j, hy, .refl⟩⟩
      · have hlead : h.QuerySound T (.asks x y) := fun _ => hT.leads hy hj
        have hne : ∀ i, h.order[i]? = some x → i ≠ j := fun i hi heq =>
          hxy ((place_eq_iff hi hy).2 heq)
        obtain ⟨u, hu⟩ := DomTable.known_iff.1 hj
        obtain ⟨w, hw, hTy⟩ := hT.follow hy hu
        by_cases hj0 : j = 0
        · -- the entry stands for itself, and nothing else is above it
          subst hj0
          obtain rfl : 0 = u := by simpa [hT.falls.zero] using hu
          obtain rfl : w = y := (place_eq_iff hw hy).2 rfl
          refine ⟨false, .step hlead (by simpa [queryStep, hxy, hTy] using .done _), ?_⟩
          simpa [DomTable.Above.zero_iff] using fun hx => hne 0 hx rfl
        · obtain ⟨hlt, hku⟩ := hT.falls.up j u hu hj0
          obtain ⟨v, hrun, hv⟩ := ih u hlt hku hw
          have hwy : w ≠ y := fun heq => Nat.ne_of_lt hlt ((place_eq_iff hw hy).1 heq)
          refine ⟨v, .step hlead (by simpa [queryStep, hxy, hTy, hwy] using hrun), ?_⟩
          rw [hv]
          refine exists_congr fun i => and_congr_right fun hi => ?_
          rw [DomTable.Above.iff_of_up hu hlt, or_iff_right (hne i hi)]

end Shows

end FlatGraph

end LoopSwap
