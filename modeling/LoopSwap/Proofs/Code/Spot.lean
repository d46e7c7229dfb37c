/-
**Places counted in bytes.**

A reader that works on the whole text keeps its place as a number of bytes.  Such a number need
not be a place at all: it may lie inside a character or past the end, and looking at the text there
is a fault.  Nor does a loop that looks at characters end by itself.  A *scan* is written with
nothing that prevents either: it is put at places and takes characters there, it is *lost* as soon
as the place is none, and it has no outcome if one of its loops does not end.

A cursor stands at a place of the text if what is left of it is an end of the text.  A scan
*follows* a reader of cursors if from the place of a cursor on it does what the reader does from the
cursor on.  Then it has an outcome, is not lost, and does not stop before the place where it
started.  There is one rule for each way in which scans are put together, and the rule for loops
asks that every turn but the last one takes something away from what is left.

Main definitions:

* `LoopSwap.splitBytes?` — a text cut at a number of bytes;
* `LoopSwap.Spot`, `LoopSwap.Halt`, `LoopSwap.Scan` — places, what stops a scan, and scans;
* `LoopSwap.Scan.goTo`, `LoopSwap.Scan.current`, `LoopSwap.Scan.advance`, `LoopSwap.Scan.loop`,
  `LoopSwap.Scan.lookahead` — what scans are made of;
* `LoopSwap.Scan.Follows` — a scan does what a reader does.

Main results:

* `LoopSwap.isSome_splitBytes?` — the numbers at which a text can be cut are its valid positions;
* `LoopSwap.Scan.Follows.bind`, `LoopSwap.Scan.Follows.loop`, `LoopSwap.Scan.Follows.lookahead` —
  the rules.
-/

import LoopSwap.Code.Cursor
import Mathlib.Data.PFun
import Mathlib.Data.String.Basic

set_option relaxedAutoImplicit false
set_option autoImplicit false

namespace LoopSwap

/-! ### Cutting a text at a number of bytes -/

/-- The first `n` bytes of a text and what comes after them; nothing if the `n` bytes end inside a
character, or if there are fewer. -/
def splitBytes? : List Char → Nat → Option (List Char × List Char)
  | cs, 0 => some ([], cs)
  | [], _ + 1 => none
  | c :: cs, n + 1 =>
    if c.utf8Size ≤ n + 1 then
      (splitBytes? cs (n + 1 - c.utf8Size)).map fun parts => (c :: parts.1, parts.2)
    else none

theorem splitBytes?_eq_some_iff {cs front back : List Char} {n : Nat} :
    splitBytes? cs n = some (front, back) ↔ cs = front ++ back ∧ String.utf8Len front = n := by
  fun_induction splitBytes? cs n generalizing front back with
  | case1 cs =>
      simp only [Option.some.injEq, Prod.mk.injEq, String.utf8Len_eq_zero]
      constructor
      · rintro ⟨rfl, rfl⟩
        exact ⟨rfl, rfl⟩
      · rintro ⟨rfl, rfl⟩
        exact ⟨rfl, rfl⟩
  | case2 n =>
      constructor
      · rintro ⟨⟩
      · rintro ⟨hnil, hlen⟩
        rw [(List.append_eq_nil_iff.1 hnil.symm).1] at hlen
        cases hlen
  | case3 c cs n hle ih =>
      rw [Option.map_eq_some_iff]
      constructor
      · rintro ⟨⟨front', back'⟩, hsplit, heq⟩
        obtain ⟨rfl, hlen⟩ := ih.1 hsplit
        cases heq
        refine ⟨rfl, ?_⟩
        show String.utf8Len front' + c.utf8Size = n + 1
        omega
      · rintro ⟨heq, hlen⟩
        cases front with
        | nil => cases hlen
        | cons x front =>
            cases heq
            rw [String.utf8Len_cons] at hlen
            exact ⟨(front, back), ih.2 ⟨rfl, by omega⟩, rfl⟩
  | case4 c cs n hlt =>
      constructor
      · rintro ⟨⟩
      · rintro ⟨heq, hlen⟩
        cases front with
        | nil => cases hlen
        | cons x front =>
            cases heq
            rw [String.utf8Len_cons] at hlen
            omega

example : splitBytes? ['a', 'é', 'b'] 2 = none := by decide

/-- The numbers of bytes at which a text can be cut are its valid positions: those between two
characters, and its two ends. -/
theorem isSome_splitBytes? {text : String} {n : Nat} :
    (splitBytes? text.toList n).isSome = true ↔ String.Pos.Raw.IsValid text ⟨n⟩ := by
  rw [Option.isSome_iff_exists, String.Pos.Raw.isValid_iff_exists_append]
  constructor
  · rintro ⟨⟨front, back⟩, h⟩
    obtain ⟨heq, rfl⟩ := splitBytes?_eq_some_iff.1 h
    refine ⟨String.ofList front, String.ofList back, ?_, (String.rawEndPos_ofList front).symm⟩
    rw [← String.ofList_append, ← heq, String.ofList_toList]
  · rintro ⟨s, t, rfl, hn⟩
    refine ⟨(s.toList, t.toList), splitBytes?_eq_some_iff.2 ⟨String.toList_append, ?_⟩⟩
    rw [String.utf8Len_toList]
    exact (congrArg String.Pos.Raw.byteIdx hn).symm

/-! ### Scans -/

/-- A place in a text as a number of bytes, and the number of the line, counted from 1. -/
@[ext] structure Spot where
  pos : Nat
  line : Nat

/-- Why a scan stops before it has a result: it has come to no place of the text, or it reports an
error. -/
inductive Halt where
  | lost
  | report (e : ReadError)

/-- Something done from a place on.  It may not end; if it does, it stops at a place, with a result
or without. -/
abbrev Scan (α : Type) := ExceptT Halt (StateT Spot Part) α

namespace Scan

variable {α β σ : Type}

/-- One scan after the other. -/
theorem bind_apply (x : Scan α) (f : α → Scan β) (p : Spot) : (x >>= f) p =
    (x p).bind fun
      | (.ok a, q) => f a q
      | (.error h, q) => Part.some (.error h, q) := by
  show (x p).bind (fun r => ExceptT.bindCont f r.1 r.2) = _
  refine congrArg (Part.bind (x p)) (funext ?_)
  rintro ⟨a | h, q⟩ <;> rfl

/-- The place where the scan is. -/
def here : Scan Spot := fun p => Part.some (.ok p, p)

/-- Stops with an error. -/
def report (e : ReadError) : Scan α := fun p => Part.some (.error (.report e), p)

/-- Goes on with a result that has been found, or stops with its error. -/
def ofExcept : Except ReadError α → Scan α
  | .ok a => pure a
  | .error e => report e

/-- Goes on at another place, which has to be one of the text. -/
def goTo (text : String) (p : Spot) : Scan Unit := fun q =>
  if (splitBytes? text.toList p.pos).isSome then Part.some (.ok (), p)
  else Part.some (.error .lost, q)

/-- The next character. -/
def current (text : String) : Scan (Option Char) := fun p =>
  match splitBytes? text.toList p.pos with
  | some (_, rest) => Part.some (.ok rest.head?, p)
  | none => Part.some (.error .lost, p)

/-- Whether the text is over. -/
def atEnd (text : String) : Scan Bool := do
  return decide (text.utf8ByteSize ≤ (← here).pos)

/-- The characters between two places. -/
def slice (text : String) (start stop : Nat) : Scan (List Char) := fun p =>
  match splitBytes? text.toList start with
  | some (_, rest) =>
    match splitBytes? rest (stop - start) with
    | some (word, _) => Part.some (.ok word, p)
    | none => Part.some (.error .lost, p)
  | none => Part.some (.error .lost, p)

/-- Steps over the next character, if there is one. -/
def advance (text : String) : Scan Unit := do
  match ← current text with
  | none => return ()
  | some x =>
    let p ← here
    goTo text ⟨p.pos + x.utf8Size, if x = '\n' then p.line + 1 else p.line⟩

/-- What comes after a turn of a loop: another one, or nothing more. -/
def afterTurn : Except Halt (σ ⊕ β) × Spot → (Except Halt β × Spot) ⊕ (σ × Spot)
  | (.ok (.inl s), q) => .inr (s, q)
  | (.ok (.inr b), q) => .inl (.ok b, q)
  | (.error h, q) => .inl (.error h, q)

/-- Does the same thing over and over, on a state that goes from turn to turn, until a turn has a
result. -/
def loop (turn : σ → Scan (σ ⊕ β)) (s : σ) : Scan β := fun p =>
  PFun.fix (fun sp : σ × Spot => (turn sp.1 sp.2).map afterTurn) (s, p)

/-- A loop is one turn of it, and then the loop again. -/
theorem loop_eq (turn : σ → Scan (σ ⊕ β)) (s : σ) : loop turn s = turn s >>= fun
    | .inl s' => loop turn s'
    | .inr b => pure b := by
  funext p
  refine Part.ext fun r => ?_
  rw [bind_apply, Part.mem_bind_iff]
  refine PFun.mem_fix_iff.trans ?_
  simp only [Part.mem_map_iff]
  constructor
  · rintro (⟨⟨o, q⟩, ho, hr⟩ | ⟨⟨s', q'⟩, ⟨⟨o, q⟩, ho, hr⟩, hnext⟩)
    · refine ⟨(o, q), ho, ?_⟩
      rcases o with h | s' | b
      · cases hr
        exact Part.mem_some _
      · cases hr
      · cases hr
        exact Part.mem_some _
    · refine ⟨(o, q), ho, ?_⟩
      rcases o with h | s' | b
      · cases hr
      · cases hr
        exact hnext
      · cases hr
  · rintro ⟨⟨o, q⟩, ho, hr⟩
    rcases o with h | s' | b
    · exact .inl ⟨_, ho, congrArg Sum.inl (Part.mem_some_iff.1 hr).symm⟩
    · exact .inr ⟨(s', q), ⟨_, ho, rfl⟩, hr⟩
    · exact .inl ⟨_, ho, congrArg Sum.inl (Part.mem_some_iff.1 hr).symm⟩

/-- What a scan finds, if it does not report an error. -/
def attempt (x : Scan α) : Scan (Option α) := fun p =>
  (x p).map fun
    | (.ok a, q) => (.ok (some a), q)
    | (.error (.report _), q) => (.ok none, q)
    | (.error .lost, q) => (.error .lost, q)

/-- Looks ahead, and goes back to where it was. -/
def lookahead (text : String) (x : Scan α) : Scan (Option α) := do
  let saved ← here
  let found ← attempt x
  goTo text saved
  return found

end Scan

/-! ### Cursors and places -/

/-- The place of a cursor in a text. -/
def Cursor.spot (text : String) (c : Cursor) : Spot :=
  ⟨text.utf8ByteSize - String.utf8Len c.rest, c.line⟩

namespace Cursor

variable {text : String} {c d : Cursor} {front word : List Char}

/-- The place of a cursor is counted by what comes before it. -/
theorem pos_spot (h : text.toList = front ++ c.rest) :
    (c.spot text).pos = String.utf8Len front := by
  show text.utf8ByteSize - String.utf8Len c.rest = _
  rw [← String.utf8Len_toList, h, String.utf8Len_append]
  omega

theorem splitBytes?_spot (h : text.toList = front ++ c.rest) :
    splitBytes? text.toList (c.spot text).pos = some (front, c.rest) :=
  splitBytes?_eq_some_iff.2 ⟨h, (pos_spot h).symm⟩

/-- The place of a cursor is a valid position of the text. -/
theorem isValid_spot (h : c.rest <:+ text.toList) :
    String.Pos.Raw.IsValid text ⟨(c.spot text).pos⟩ := by
  obtain ⟨front, hfront⟩ := h
  rw [← isSome_splitBytes?, splitBytes?_spot hfront.symm]
  rfl

/-- Every valid position is the place of a cursor. -/
theorem exists_spot_eq {p : Spot} (h : String.Pos.Raw.IsValid text ⟨p.pos⟩) :
    ∃ c : Cursor, c.rest <:+ text.toList ∧ c.spot text = p := by
  obtain ⟨⟨front, back⟩, hsplit⟩ := Option.isSome_iff_exists.1 (isSome_splitBytes?.2 h)
  obtain ⟨htext, hlen⟩ := splitBytes?_eq_some_iff.1 hsplit
  have hpos : (spot text ⟨back, p.line⟩).pos = p.pos := (pos_spot htext).trans hlen
  exact ⟨⟨back, p.line⟩, ⟨front, htext.symm⟩, Spot.ext hpos rfl⟩

/-- A step over a word goes on by the length of the word. -/
theorem pos_spot_of_append (hc : c.rest <:+ text.toList) (h : c.rest = word ++ d.rest) :
    (d.spot text).pos = (c.spot text).pos + String.utf8Len word := by
  obtain ⟨front, hfront⟩ := hc
  have hd : text.toList = (front ++ word) ++ d.rest := by
    rw [List.append_assoc, ← h, hfront]
  rw [pos_spot hd, pos_spot hfront.symm, String.utf8Len_append]

/-- A cursor with less left is further on. -/
theorem pos_spot_le (hc : c.rest <:+ text.toList) (h : d.rest <:+ c.rest) :
    (c.spot text).pos ≤ (d.spot text).pos := by
  obtain ⟨word, hword⟩ := h
  rw [pos_spot_of_append hc hword.symm]
  exact Nat.le_add_right _ _

theorem pos_spot_lt (hc : c.rest <:+ text.toList) (h : d.rest <:+ c.rest)
    (hlt : d.rest.length < c.rest.length) : (c.spot text).pos < (d.spot text).pos := by
  obtain ⟨word, hword⟩ := h
  rw [pos_spot_of_append hc hword.symm]
  have hne : word ≠ [] := by
    rintro rfl
    rw [← hword] at hlt
    exact Nat.lt_irrefl _ hlt
  have hlen := mt String.utf8Len_eq_zero.1 hne
  omega

theorem spot_start (text : String) : (start text).spot text = ⟨0, 1⟩ := by
  have htext : text.toList = [] ++ (start text).rest := rfl
  exact Spot.ext (pos_spot htext) rfl

end Cursor

namespace Scan

/-! ### Scans that follow a reader -/

section Follows

variable {α β σ : Type} {text : String} {c d : Cursor}

/-- From the place of `c` on, the scan has the result `r` and stops at the place that comes with it,
or reports the error `r`.  In both cases it stops at a place from `c` on. -/
def Follows (text : String) (x : Scan α) (c : Cursor) (r : Except ReadError (α × Cursor)) : Prop :=
  c.rest <:+ text.toList → ∃ d : Cursor, d.rest <:+ c.rest ∧
    match r with
    | .ok (a, d') => d' = d ∧ x (c.spot text) = Part.some (.ok a, d.spot text)
    | .error e => x (c.spot text) = Part.some (.error (.report e), d.spot text)

namespace Follows

variable {x : Scan α} {f : α → Scan β} {r : Except ReadError (α × Cursor)}

theorem ok {a : α} (hd : d.rest <:+ c.rest)
    (h : c.rest <:+ text.toList → x (c.spot text) = Part.some (.ok a, d.spot text)) :
    Follows text x c (.ok (a, d)) :=
  fun hc => ⟨d, hd, rfl, h hc⟩

theorem pure (a : α) (c : Cursor) : Follows text (pure a) c (.ok (a, c)) :=
  .ok (List.suffix_refl _) fun _ => rfl

/-- A cursor can be taken to stand at a place of the text. -/
theorem assuming (h : c.rest <:+ text.toList → Follows text x c r) : Follows text x c r :=
  fun hc => h hc hc

/-- A scan with a result stops at a place from there on. -/
theorem suffix_of_ok {a : α} (h : Follows text x c (.ok (a, d))) (hc : c.rest <:+ text.toList) :
    d.rest <:+ c.rest := by
  obtain ⟨d', hd', rfl, -⟩ := h hc
  exact hd'

/-- One scan after the other. -/
theorem bind {g : α × Cursor → Except ReadError (β × Cursor)} (hx : Follows text x c r)
    (hf : ∀ a d, r = .ok (a, d) → Follows text (f a) d (g (a, d))) :
    Follows text (x >>= f) c (r >>= g) := by
  intro hc
  obtain ⟨d, hd, hrun⟩ := hx hc
  cases r with
  | error e =>
      have hrun : x (c.spot text) = Part.some (.error (.report e), d.spot text) := hrun
      refine ⟨d, hd, ?_⟩
      show (x >>= f) (c.spot text) = Part.some (.error (.report e), d.spot text)
      rw [bind_apply, hrun, Part.bind_some]
  | ok p =>
      obtain ⟨a, d'⟩ := p
      obtain ⟨rfl, hrun⟩ := hrun
      obtain ⟨d'', hd'', hnext⟩ := hf a d' rfl (hd.trans hc)
      refine ⟨d'', hd''.trans hd, ?_⟩
      rw [bind_apply, hrun, Part.bind_some]
      exact hnext

/-- One scan after another that has a result. -/
theorem bind_ok {a : α} {r' : Except ReadError (β × Cursor)} (hx : Follows text x c (.ok (a, d)))
    (hf : Follows text (f a) d r') : Follows text (x >>= f) c r' := by
  refine bind (g := fun _ => r') hx ?_
  rintro a' d' ⟨⟩
  exact hf

/-- What comes after an error is not done. -/
theorem bind_error {e : ReadError} (hx : Follows text x c (.error e)) :
    Follows text (x >>= f) c (.error e) := by
  refine bind (g := fun _ => .error e) hx ?_
  rintro a d ⟨⟩

/-- A decision that has been made. -/
theorem ite {b : Bool} {y : Scan α} {r' : Except ReadError (α × Cursor)}
    (hx : b = true → Follows text x c r) (hy : b = false → Follows text y c r') :
    Follows text (if b then x else y) c (if b then r else r') := by
  cases b with
  | true => exact hx rfl
  | false => exact hy rfl

/-- A decision by a test. -/
theorem ite_decide {P : Prop} [Decidable P] {y : Scan α}
    {r' : Except ReadError (α × Cursor)} (hx : P → Follows text x c r)
    (hy : ¬ P → Follows text y c r') :
    Follows text (if decide P then x else y) c (if P then r else r') := by
  by_cases hP : P
  · rw [if_pos (decide_eq_true hP), if_pos hP]
    exact hx hP
  · rw [if_neg (by simpa using hP), if_neg hP]
    exact hy hP

/-! ### Single steps -/

theorem here (c : Cursor) : Follows text here c (.ok (c.spot text, c)) :=
  .ok (List.suffix_refl _) fun _ => rfl

theorem report (e : ReadError) (c : Cursor) :
    Follows text (report e : Scan α) c (.error e) :=
  fun _ => ⟨c, List.suffix_refl _, rfl⟩

theorem ofExcept (r : Except ReadError α) (c : Cursor) :
    Follows text (ofExcept r) c (r.map fun a => (a, c)) := by
  cases r with
  | error e => exact report e c
  | ok a => exact pure a c

theorem current (c : Cursor) : Follows text (current text) c (.ok (c.rest.head?, c)) := by
  refine .ok (List.suffix_refl _) fun hc => ?_
  obtain ⟨front, hfront⟩ := hc
  rw [Scan.current, Cursor.splitBytes?_spot hfront.symm]

theorem goTo (hd : d.rest <:+ c.rest) : Follows text (goTo text (d.spot text)) c (.ok ((), d)) := by
  refine .ok hd fun hc => ?_
  obtain ⟨front, hfront⟩ := hd.trans hc
  rw [Scan.goTo, Cursor.splitBytes?_spot hfront.symm]
  rfl

theorem advance {x : Char} {xs : List Char} (h : c.rest = x :: xs) :
    Follows text (advance text) c (.ok ((), ⟨xs, if x = '\n' then c.line + 1 else c.line⟩)) := by
  refine .assuming fun hc => (current c).bind_ok ?_
  rw [h, List.head?_cons]
  refine (here c).bind_ok ?_
  set d : Cursor := ⟨xs, if x = '\n' then c.line + 1 else c.line⟩
  have hcd : c.rest = [x] ++ d.rest := h
  have hnext : d.spot text =
      ⟨(c.spot text).pos + x.utf8Size, if x = '\n' then c.line + 1 else c.line⟩ := by
    refine Spot.ext ?_ rfl
    rw [Cursor.pos_spot_of_append hc hcd]
    simp
  have hgo : Follows text (Scan.goTo text (d.spot text)) c (.ok ((), d)) := goTo ⟨[x], hcd.symm⟩
  rw [hnext] at hgo
  exact hgo

/-- The text is over if nothing is left of it. -/
theorem atEnd (c : Cursor) : Follows text (atEnd text) c (.ok (decide (c.rest = []), c)) := by
  refine .ok (List.suffix_refl _) fun hc => ?_
  obtain ⟨front, hfront⟩ := hc
  have hsize : text.utf8ByteSize = String.utf8Len front + String.utf8Len c.rest := by
    rw [← String.utf8Len_toList, ← hfront, String.utf8Len_append]
  have hend : text.utf8ByteSize ≤ (c.spot text).pos ↔ c.rest = [] := by
    rw [Cursor.pos_spot hfront.symm, hsize, ← String.utf8Len_eq_zero]
    omega
  rw [Scan.atEnd, bind_apply, Scan.here, Part.bind_some]
  show Part.some (Except.ok (decide (text.utf8ByteSize ≤ (c.spot text).pos)), _) = _
  rw [decide_eq_decide.2 hend]

/-- The characters from the place of a cursor to that of one further on. -/
theorem slice {b : Cursor} {word : List Char} (hb : b.rest <:+ text.toList)
    (h : b.rest = word ++ c.rest) :
    Follows text (slice text (b.spot text).pos (c.spot text).pos) c (.ok (word, c)) := by
  refine .ok (List.suffix_refl _) fun _ => ?_
  have hlen : (c.spot text).pos - (b.spot text).pos = String.utf8Len word := by
    rw [Cursor.pos_spot_of_append hb h]
    omega
  obtain ⟨front, hfront⟩ := hb
  rw [Scan.slice, Cursor.splitBytes?_spot hfront.symm, hlen]
  dsimp only
  rw [splitBytes?_eq_some_iff.2 ⟨h, rfl⟩]

/-! ### Loops and looking ahead -/

/-- A loop follows a reader if every turn of it does, in which less and less is left. -/
theorem loop {turn : σ → Scan (σ ⊕ β)} {T : σ → Cursor → Except ReadError ((σ ⊕ β) × Cursor)}
    {R : σ → Cursor → Except ReadError (β × Cursor)}
    (hturn : ∀ s c, Follows text (turn s) c (T s c))
    (hless : ∀ s c s' d, T s c = .ok (.inl s', d) → d.rest.length < c.rest.length)
    (hR : ∀ s c, R s c = T s c >>= fun
      | (.inl s', d) => R s' d
      | (.inr b, d) => .ok (b, d))
    (s : σ) (c : Cursor) : Follows text (loop turn s) c (R s c) := by
  -- the induction is on what is left of the text; the loop itself has nothing that gets smaller
  induction hn : c.rest.length using Nat.strongRecOn generalizing s c with
  | ind n ih =>
      rw [loop_eq, hR]
      refine (hturn s c).bind ?_
      rintro (s' | b) d hT
      · exact ih _ (hn ▸ hless s c s' d hT) s' d rfl
      · exact pure b d

/-- What looking ahead finds, back at the same place. -/
theorem lookahead (hx : Follows text x c r) :
    Follows text (lookahead text x) c (.ok (r.toOption.map (·.1), c)) := by
  refine .ok (List.suffix_refl _) fun hc => ?_
  obtain ⟨d, hd, hrun⟩ := hx hc
  have hfound : attempt x (c.spot text) = Part.some (.ok (r.toOption.map (·.1)), d.spot text) := by
    rw [attempt]
    cases r with
    | error e => rw [hrun]; rfl
    | ok p => rw [hrun.2]; rfl
  have hback : Scan.goTo text (c.spot text) (d.spot text) = Part.some (.ok (), c.spot text) := by
    obtain ⟨front, hfront⟩ := hc
    rw [Scan.goTo, Cursor.splitBytes?_spot hfront.symm]
    rfl
  rw [Scan.lookahead, bind_apply, Scan.here, Part.bind_some]
  dsimp only
  rw [bind_apply, hfound, Part.bind_some]
  dsimp only
  rw [bind_apply, hback, Part.bind_some]
  rfl

end Follows

end Follows

end Scan

end LoopSwap
