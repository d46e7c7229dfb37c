/-
**Reading by bytes goes on, and ends.**

What bounds the reading of a text is not in any of its loops.  But every turn of a loop that reads
functions, blocks, instructions, words or operands reads something that is not empty before the loop
goes on, so it ends further on in the text; what is looked at ahead is given back, and not more than
that; and wherever the scan is, it is between two characters of the text or at an end of it.  So no
text keeps the scan busy for ever, and none makes it look into a character or past the end.

This is shown for a turn from any place and in any state.  The turns that the reading of a text
takes are among them: each begins where the scan has come to from the start of the text (`Taken`),
and the scan comes to places only.  Of the last turns of loops that of the words of an opcode is the
one that need not get any further: where there is no other word it stops where it began.

Main definitions:

* `LoopSwap.Spot.IsPlace` — a number of bytes that is a place;
* `LoopSwap.Scan.Advances` — every turn of a loop ends, and further on if the loop goes on;
* `LoopSwap.Scan.Taken` — the turns that the reading of a text takes.

Main results:

* `LoopSwap.Scan.Follows.advances` — turns that take something away advance;
* `LoopSwap.Scan.Taken.advances` — the turns that are taken begin at places, and advance;
* `LoopSwap.Scan.readProgram_ends` — every text is read to an end;
* `LoopSwap.Scan.wordTurn_stays_bareWord` — the last turn over the words of an opcode may stay.
-/

import LoopSwap.Proofs.Code.Turns

set_option relaxedAutoImplicit false
set_option autoImplicit false

namespace LoopSwap

/-- A place of the text: not past its end, and between two characters or at an end. -/
def Spot.IsPlace (text : String) (p : Spot) : Prop := String.Pos.Raw.IsValid text ⟨p.pos⟩

namespace Scan

variable {α β σ : Type} {text : String} {c d : Cursor} {p q : Spot} {a : α}

/-- At every place of the text and in every state, a turn of a loop ends, at a place of the text
that does not lie before the one where it began.  It reports an error, or it ends further on and the
loop goes on, or it is the last one; that one ends further on as well if `last` says so. -/
def Advances (text : String) (turn : σ → Scan (σ ⊕ β)) (last : Bool) : Prop :=
  ∀ (s : σ) (p : Spot), p.IsPlace text → ∃ outcome q, turn s p = Part.some (outcome, q) ∧
    q.IsPlace text ∧ p.pos ≤ q.pos ∧
    match outcome with
    | .error (.report _) => True
    | .error .lost => False
    | .ok (.inl _) => p.pos < q.pos
    | .ok (.inr _) => last = true → p.pos < q.pos

/-- From the place of a cursor on, a scan that follows a reader ends as the reader says, at a place
from there on. -/
theorem Follows.run {x : Scan α} {r : Except ReadError (α × Cursor)} (h : Follows text x c r)
    (hc : c.rest <:+ text.toList) : ∃ d : Cursor, d.rest <:+ c.rest ∧
      x (c.spot text) = Part.some ((r.map (·.1)).mapError .report, d.spot text) ∧
      ∀ a d', r = .ok (a, d') → d' = d := by
  obtain ⟨d, hd, hrun⟩ := h hc
  refine ⟨d, hd, ?_⟩
  cases r with
  | error e =>
      refine ⟨hrun, ?_⟩
      rintro a d' ⟨⟩
  | ok p =>
      refine ⟨hrun.2, ?_⟩
      rintro a d' ⟨⟩
      exact hrun.1

/-! ### What one turn does -/

/-- Turns advance if they follow turns that take something away. -/
theorem Follows.advances {turn : σ → Scan (σ ⊕ β)} {last : Bool}
    {T : σ → Cursor → Except ReadError ((σ ⊕ β) × Cursor)}
    (hturn : ∀ s c, Follows text (turn s) c (T s c))
    (hless : ∀ s c s' d, T s c = .ok (.inl s', d) → d.rest.length < c.rest.length)
    (hlast : last = true → ∀ s c b d, T s c = .ok (.inr b, d) → d.rest.length < c.rest.length) :
    Advances text turn last := by
  intro s p hp
  obtain ⟨c, hc, rfl⟩ := Cursor.exists_spot_eq hp
  obtain ⟨d, hd, hrun, hend⟩ := (hturn s c).run hc
  refine ⟨_, _, hrun, Cursor.isValid_spot (hd.trans hc), Cursor.pos_spot_le hc hd, ?_⟩
  cases hT : T s c with
  | error e => trivial
  | ok r =>
      obtain ⟨s' | b, d'⟩ := r
      · have hd' := hend _ _ hT
        subst hd'
        exact Cursor.pos_spot_lt hc hd (hless s c s' d' hT)
      · have hd' := hend _ _ hT
        subst hd'
        exact fun h => Cursor.pos_spot_lt hc hd (hlast h s c b d' hT)

/-- Turns of which the last one gets further on are turns that advance. -/
theorem Advances.of_last {turn : σ → Scan (σ ⊕ β)} (h : Advances text turn true) :
    Advances text turn false := by
  intro s p hp
  obtain ⟨outcome, q, hrun, hq, hle, hend⟩ := h s p hp
  refine ⟨outcome, q, hrun, hq, hle, ?_⟩
  match outcome, hend with
  | .error (.report _), _ => trivial
  | .ok (.inl _), hlt => exact hlt
  | .ok (.inr _), _ => rintro ⟨⟩

theorem advances_funcTurn (text : String) : Advances text (funcTurn text) false :=
  Follows.advances (follows_funcTurn text) (fun _ _ _ _ => Cursor.funcTurn_lt) (by rintro ⟨⟩)

theorem advances_blockTurn (text : String) : Advances text (blockTurn text) true :=
  Follows.advances (follows_blockTurn text) (fun _ _ _ _ => Cursor.blockTurn_lt)
    fun _ _ _ _ _ => Cursor.blockTurn_lt

theorem advances_instTurn (text : String) : Advances text (instTurn text) false :=
  Follows.advances (follows_instTurn text) (fun _ _ _ _ => Cursor.instTurn_lt) (by rintro ⟨⟩)

theorem advances_wordTurn (text : String) : Advances text (wordTurn text) false :=
  Follows.advances (follows_wordTurn text) (fun _ _ _ _ => Cursor.wordTurn_lt) (by rintro ⟨⟩)

theorem advances_operandTurn (text : String) : Advances text (operandTurn text) true :=
  Follows.advances (follows_operandTurn text) (fun _ _ _ _ => Cursor.operandTurn_lt)
    fun _ _ _ _ _ => Cursor.operandTurn_lt

/-! ### The turns that are taken -/

/-- From `p` on, the scan has the result `a` and stops at `q`. -/
def Gives (x : Scan α) (p : Spot) (a : α) (q : Spot) : Prop := x p = Part.some (.ok a, q)

/-- The turns that are taken when a text is read: the loop, its state, and where the turn begins.
The first turn of a loop comes after what is read in front of the loop, in a turn of the loop that
is around it; every other turn comes after one with which the loop goes on. -/
inductive Taken (text : String) : {σ β : Type} → (σ → Scan (σ ⊕ β)) → σ → Spot → Prop
  | func {p : Spot} (hskip : Gives (skipSpace text true) ⟨0, 1⟩ () p) :
      Taken text (funcTurn text) [] p
  | block {functions : List Func} {name : String} {p q r : Spot}
      (h : Taken text (funcTurn text) functions p) (hend : Gives (atEnd text) p false q)
      (hhead : Gives (funcHead text) q name r) : Taken text (blockTurn text) [] r
  | inst {blocks : List DraftBlock} {name : String} {p q r s : Spot}
      (h : Taken text (blockTurn text) blocks p)
      (hbrace : Gives (tryRead text '\x7d' true) p false q) (hend : Gives (atEnd text) q false r)
      (hhead : Gives (blockHead text) r name s) : Taken text (instTurn text) [] s
  | word {insts : List DraftInst} {line : Nat} {name : Option String} {word : String}
      {p q r : Spot} (h : Taken text (instTurn text) insts p)
      (hend : Gives (atBlockEnd text) p false q)
      (hhead : Gives (instHead text) q (line, name, word) r) : Taken text (wordTurn text) word r
  | operand {word opcode : String} {p q r : Spot} (h : Taken text (wordTurn text) word p)
      (hlast : Gives (wordTurn text word) p (.inr opcode) q)
      (hline : Gives (atLineEnd text) q false r) : Taken text (operandTurn text) [] r
  | next {σ β : Type} {turn : σ → Scan (σ ⊕ β)} {s s' : σ} {p q : Spot} (h : Taken text turn s p)
      (hturn : Gives (turn s) p (.inl s') q) : Taken text turn s' q

/-- What a scan gives is how it ends. -/
theorem Gives.eq_of_run {x : Scan α} {outcome : Except Halt α} {q' : Spot} (h : Gives x p a q)
    (hrun : x p = Part.some (outcome, q')) : outcome = .ok a ∧ q' = q :=
  Prod.ext_iff.1 (Part.some_inj.1 (hrun.symm.trans h))

/-- A scan that follows a reader goes from places to places. -/
theorem Gives.isPlace {x : Scan α} (h : Gives x p a q) (hp : p.IsPlace text)
    {r : Cursor → Except ReadError (α × Cursor)} (hx : ∀ c, Follows text x c (r c)) :
    q.IsPlace text := by
  obtain ⟨c, hc, rfl⟩ := Cursor.exists_spot_eq hp
  obtain ⟨d, hd, hrun, -⟩ := (hx c).run hc
  obtain ⟨-, rfl⟩ := h.eq_of_run hrun
  exact Cursor.isValid_spot (hd.trans hc)

/-- A reader with a result says what the scan that follows it gives. -/
theorem Follows.gives {x : Scan α} (h : Follows text x c (.ok (a, d)))
    (hc : c.rest <:+ text.toList) : Gives x (c.spot text) a (d.spot text) := by
  obtain ⟨d', -, rfl, hrun⟩ := h hc
  exact hrun

/-- **Every turn that is taken advances.**  It begins at a place of the text, and so it reports an
error, or ends further on if the loop goes on. -/
theorem Taken.advances {turn : σ → Scan (σ ⊕ β)} {s : σ} (h : Taken text turn s p) :
    p.IsPlace text ∧ Advances text turn false := by
  -- both go into the induction: that the next turn begins at a place is what the loop's turns do
  induction h with
  | func hskip =>
      have hstart : Spot.IsPlace text ⟨0, 1⟩ := by
        rw [← Cursor.spot_start]
        exact Cursor.isValid_spot (List.suffix_refl _)
      exact ⟨hskip.isPlace hstart (follows_skipLines text), advances_funcTurn text⟩
  | block _ hend hhead ih =>
      have hq := hend.isPlace ih.1 Follows.atEnd
      exact ⟨hhead.isPlace hq (follows_funcHead text), (advances_blockTurn text).of_last⟩
  | inst _ hbrace hend hhead ih =>
      have hq := hbrace.isPlace ih.1 (follows_tryRead_lines text (by decide))
      have hr := hend.isPlace hq Follows.atEnd
      exact ⟨hhead.isPlace hr (follows_blockHead text), advances_instTurn text⟩
  | word _ hend hhead ih =>
      have hq := hend.isPlace ih.1 (follows_atBlockEnd text)
      exact ⟨hhead.isPlace hq (follows_instHead text), advances_wordTurn text⟩
  | operand _ hlast hline ih =>
      have hq := hlast.isPlace ih.1 (follows_wordTurn text _)
      exact ⟨hline.isPlace hq (follows_atLineEnd text), (advances_operandTurn text).of_last⟩
  | @next σ β turn s s' p q _ hturn ih =>
      obtain ⟨outcome, q', hrun, hq', -⟩ := ih.2 s p ih.1
      obtain ⟨-, rfl⟩ := hturn.eq_of_run hrun
      exact ⟨hq', ih.2⟩

/-! ### Whole texts -/

/-- Looking ahead for a label goes back to where white space and comments end. -/
theorem atBlockEnd_saved (hp : p.IsPlace text) : ∃ found saved,
    skipSpace text true p = Part.some (.ok (), saved) ∧ saved.IsPlace text ∧ p.pos ≤ saved.pos ∧
      atBlockEnd text p = Part.some (.ok found, saved) := by
  obtain ⟨c, hc, rfl⟩ := Cursor.exists_spot_eq hp
  obtain ⟨d, hd, hskip, hend⟩ := (follows_skipLines text c).run hc
  obtain ⟨d', -, hlabel, hend'⟩ := (follows_atBlockEnd text c).run hc
  obtain rfl := hend _ _ rfl
  obtain rfl := hend' _ _ rfl
  exact ⟨_, _, hskip, Cursor.isValid_spot (hd.trans hc), Cursor.pos_spot_le hc hd, hlabel⟩

/-- Every text is read to an end: its program, or the error that is in it.  The scan is never lost,
so wherever it goes is a place of the text.  Every turn of the five loops that read lists reports an
error or ends further on, if the loop goes on; the last operand and the closing brace take the scan
further on as well.  After it has looked ahead for a label it is back where white space and comments
end, and not before the place where it began. -/
theorem readProgram_ends (text : String) :
    (∃ q : Spot, readProgram text ⟨0, 1⟩ = Part.some ((Program.read text).mapError .report, q) ∧
      q.IsPlace text) ∧
    Advances text (funcTurn text) false ∧ Advances text (blockTurn text) true ∧
    Advances text (instTurn text) false ∧ Advances text (wordTurn text) false ∧
    Advances text (operandTurn text) true ∧
    ∀ p : Spot, p.IsPlace text → ∃ found saved,
      skipSpace text true p = Part.some (.ok (), saved) ∧ saved.IsPlace text ∧ p.pos ≤ saved.pos ∧
        atBlockEnd text p = Part.some (.ok found, saved) := by
  refine ⟨?_, advances_funcTurn text, advances_blockTurn text, advances_instTurn text,
    advances_wordTurn text, advances_operandTurn text, fun p hp => atBlockEnd_saved hp⟩
  obtain ⟨r, hr, hread⟩ := follows_readProgram text
  have hstart : (Cursor.start text).rest <:+ text.toList := List.suffix_refl _
  obtain ⟨d, hd, hrun, -⟩ := hr.run hstart
  rw [Cursor.spot_start, hread] at hrun
  exact ⟨_, hrun, Cursor.isValid_spot (hd.trans hstart)⟩

/-- A function whose one instruction is a word, with the closing brace right behind it. -/
def bareWord : String := "f() \x7ba: ret\x7d"

/-- **The last turn over the words of an opcode may stay.**  When this text is read, a turn of that
loop begins right behind `ret`.  No word and no white space comes there, so the turn is the last
one; it reports nothing, and it ends where it began. -/
theorem wordTurn_stays_bareWord :
    Taken bareWord (wordTurn bareWord) "ret" ⟨11, 1⟩ ∧
      wordTurn bareWord "ret" ⟨11, 1⟩ = Part.some (.ok (.inr "ret"), ⟨11, 1⟩) ∧
      ¬ Advances bareWord (wordTurn bareWord) true := by
  -- the cursors at which the turns of the loops begin
  set cFunc : Cursor := .start bareWord
  set cBlock : Cursor := ⟨['a', ':', ' ', 'r', 'e', 't', '\x7d'], 1⟩
  set cInst : Cursor := ⟨[' ', 'r', 'e', 't', '\x7d'], 1⟩
  set cWord : Cursor := ⟨['\x7d'], 1⟩
  have hFunc : cFunc.rest <:+ bareWord.toList := List.suffix_refl _
  have hBlock : cBlock.rest <:+ bareWord.toList := by decide
  have hInst : cInst.rest <:+ bareWord.toList := by decide
  have hWord : cWord.rest <:+ bareWord.toList := by decide
  have hfuncs : Taken bareWord (funcTurn bareWord) [] (cFunc.spot bareWord) :=
    .func ((follows_skipLines bareWord cFunc).gives hFunc)
  have hblocks : Taken bareWord (blockTurn bareWord) [] (cBlock.spot bareWord) :=
    .block hfuncs ((Follows.atEnd cFunc).gives hFunc)
      ((follows_funcHead bareWord cFunc).gives hFunc)
  have hinsts : Taken bareWord (instTurn bareWord) [] (cInst.spot bareWord) :=
    .inst hblocks ((follows_tryRead_lines bareWord (by decide) cBlock).gives hBlock)
      ((Follows.atEnd cBlock).gives hBlock) ((follows_blockHead bareWord cBlock).gives hBlock)
  have hwords : Taken bareWord (wordTurn bareWord) "ret" (cWord.spot bareWord) :=
    .word hinsts ((follows_atBlockEnd bareWord cInst).gives hInst)
      ((follows_instHead bareWord cInst.skipLines).gives (by decide))
  have hstay : Gives (wordTurn bareWord "ret") (cWord.spot bareWord) (.inr "ret")
      (cWord.spot bareWord) := (follows_wordTurn bareWord "ret" cWord).gives hWord
  refine ⟨hwords, hstay, fun hlast => ?_⟩
  obtain ⟨outcome, q, hrun, -, -, hlt⟩ := hlast "ret" _ hwords.advances.1
  obtain ⟨rfl, rfl⟩ := hstay.eq_of_run hrun
  exact Nat.lt_irrefl _ (hlt rfl)

end Scan

end LoopSwap
