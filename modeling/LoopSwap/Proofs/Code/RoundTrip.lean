/-
**Writing and reading back.**

The text of a legible function reads back as the function with its ids in order, and the text of a
list of legible functions with different names as the list of them.  What is read has its ids in
order already, so the text of a program that was read reads back as the same program.

Main results:

* `LoopSwap.Program.readFuncs_printFuncs` — the functions of a text are read back one by one;
* `LoopSwap.Func.Legible.read_text` — the text of a function reads back as the function with its
  ids in order;
* `LoopSwap.Program.read_print` — what was read reads back unchanged.
-/

import LoopSwap.Proofs.Code.Renumber

set_option relaxedAutoImplicit false
set_option autoImplicit false

namespace LoopSwap

/-! ### Reading as a plain sequence -/

theorem readFuncs_eq (seen : List String) (c : Cursor) : readFuncs seen c =
    if c.skipLines.rest = [] then .ok [] else do
      let (draft, c₁) ← c.skipLines.readFunc
      let f ← draft.resolve
      if f.name ∈ seen then .error (.duplicate c₁.line .function f.name)
      else do
        let fs ← readFuncs (f.name :: seen) c₁
        return (f :: fs) := by
  rw [readFuncs]
  split
  · rfl
  · split
    · next e hread => rw [hread]; rfl
    · next draft c₁ hread =>
        rw [hread, ok_bind]
        dsimp only
        split
        · next e hf => rw [hf]; rfl
        · next f hf =>
            rw [hf, ok_bind]
            split
            · rfl
            · split
              · next e hrest => rw [hrest]; rfl
              · next fs hrest => rw [hrest]; rfl

theorem readFuncs_newline (seen : List String) (cs : List Char) (line : Nat) :
    readFuncs seen ⟨'\n' :: cs, line⟩ = readFuncs seen ⟨cs, line + 1⟩ := by
  rw [readFuncs_eq, readFuncs_eq seen ⟨cs, line + 1⟩]
  rfl

/-- Nothing is left after the last line. -/
theorem readFuncs_end (seen : List String) (line : Nat) :
    readFuncs seen ⟨['\n'], line⟩ = .ok [] := by
  rw [readFuncs_newline, readFuncs_eq]
  rfl

/-! ### Functions one by one -/

namespace Program

/-- A function with a new name is read, and then what follows it. -/
theorem readFuncs_cons {seen : List String} {f : Func} {fs : List Func} {rest : List Char}
    (hf : f.Legible) (hnew : f.name ∉ seen)
    (hrest : ∀ line, readFuncs (f.name :: seen) ⟨'\n' :: rest, line⟩ = .ok fs) (line : Nat) :
    readFuncs seen ⟨f.print.toList ++ rest, line⟩ = .ok (f.renumbered :: fs) := by
  obtain ⟨line', hread⟩ := Cursor.readFunc_code hf.draft rest line
  rw [← f.print_eq] at hread
  -- the text starts with the name of the function
  obtain ⟨after, htext⟩ : ∃ after, f.print.toList ++ rest = f.name.toList ++ after := by
    simp only [Func.print, String.toList_append, List.append_assoc]
    exact ⟨_, rfl⟩
  have hskip : Cursor.skipLines ⟨f.print.toList ++ rest, line⟩ =
      ⟨f.print.toList ++ rest, line⟩ := by
    rw [htext]
    exact Cursor.skipLines_name hf.name_word.toIsName
  have hne : f.print.toList ++ rest ≠ [] := by
    obtain ⟨c, cs, hname, -⟩ := hf.name_word.exists_cons
    rw [htext, hname]
    exact List.cons_ne_nil _ _
  rw [readFuncs_eq, hskip, if_neg hne, hread, ok_bind]
  dsimp only
  rw [hf.resolve_draft line, ok_bind]
  have hname : f.renumbered.name = f.name := rfl
  rw [hname, if_neg hnew, hrest line']
  rfl

/-- Legible functions with different names are read back, each with its ids in order. -/
theorem readFuncs_printFuncs {fs : List Func} : ∀ {seen : List String}, (∀ f ∈ fs, f.Legible) →
    (fs.map (·.name)).Nodup → (∀ f ∈ fs, f.name ∉ seen) → ∀ line,
      readFuncs seen ⟨(printFuncs fs).toList, line⟩ = .ok (fs.map Func.renumbered) := by
  fun_induction printFuncs fs with
  | case1 =>
      intro seen _ _ _ line
      rw [readFuncs_eq]
      rfl
  | case2 f =>
      intro seen hfs _ hnew line
      rw [List.forall_mem_singleton] at hfs hnew
      have hread : readFuncs seen ⟨f.print.toList ++ [], line⟩ = .ok [f.renumbered] :=
        readFuncs_cons hfs hnew (readFuncs_end _) line
      rwa [List.append_nil] at hread
  | case3 f fs hne ih =>
      intro seen hfs hnodup hnew line
      rw [List.forall_mem_cons] at hfs hnew
      rw [List.map_cons, List.nodup_cons] at hnodup
      have hseen : ∀ g ∈ fs, g.name ∉ f.name :: seen := by
        intro g hg hmem
        rcases List.mem_cons.1 hmem with hname | hmem
        · exact hnodup.1 (hname ▸ List.mem_map_of_mem hg)
        · exact hnew.2 g hg hmem
      have hrest : ∀ line, readFuncs (f.name :: seen)
          ⟨'\n' :: '\n' :: (printFuncs fs).toList, line⟩ = .ok (fs.map Func.renumbered) := by
        intro line
        rw [readFuncs_newline, readFuncs_newline]
        exact ih hfs.2 hnodup.2 hseen _
      have hread := readFuncs_cons hfs.1 hnew.1 hrest line
      have htext : (f.print ++ "\n" ++ printFuncs fs).toList =
          f.print.toList ++ '\n' :: (printFuncs fs).toList := by
        simp
      rw [htext]
      exact hread

/-- Legible functions with different names read back, each with its ids in order. -/
theorem read_printFuncs {fs : List Func} (hfs : ∀ f ∈ fs, f.Legible)
    (hnames : (fs.map (·.name)).Nodup) :
    read (printFuncs fs) = .ok ⟨fs.map Func.renumbered⟩ := by
  rw [read, Cursor.start, readFuncs_printFuncs hfs hnames (fun f _ => List.not_mem_nil) 1]
  rfl

end Program

namespace Func

variable {f : Func} {text : String}

/-! ### A single function -/

/-- A legible function has a text. -/
theorem Legible.print?_eq (hf : f.Legible) : f.print? = some f.print := by
  refine print?_eq_some_iff.2 ⟨fun i hi op hop => ⟨fun o ho => ?_, fun t ht => ?_⟩, rfl⟩
  · cases o with
    | value j =>
        obtain ⟨inst, -, hinst, -⟩ := hf.exists_value hop ho
        show (f.inst? j).isSome = true
        rw [hinst]
        rfl
    | _ => rfl
  · obtain ⟨b, hb, hi⟩ := List.mem_flatMap.1 hi
    exact hf.block?_isSome (hf.targets_of_op? hb hi hop t ht).1

/-- The text of a legible function reads back as the function with its ids in order. -/
theorem Legible.read_text (hf : f.Legible) : Func.read f.print = .ok f.renumbered := by
  have hread : Program.read f.print = .ok ⟨[f.renumbered]⟩ :=
    Program.read_printFuncs (List.forall_mem_singleton.2 hf) (List.nodup_singleton _)
  rw [Func.read, hread]
  rfl

/-- A text that holds exactly one function is the text of a program of one function. -/
theorem read_eq_ok_iff : Func.read text = .ok f ↔ Program.read text = .ok ⟨[f]⟩ := by
  rw [Func.read, bind_eq_ok]
  constructor
  · rintro ⟨⟨fs⟩, hread, h⟩
    dsimp only at h
    split at h
    · cases h
      exact hread
    · cases h
  · intro hread
    exact ⟨_, hread, rfl⟩

/-- The function of a text is legible. -/
theorem legible_of_read (h : Func.read text = .ok f) : f.Legible :=
  List.forall_mem_singleton.1 (Program.legible_of_read (read_eq_ok_iff.1 h))

end Func

/-! ### Programs -/

/-- The functions that are read have their ids in order. -/
theorem renumbered_of_readFuncs {seen : List String} {c : Cursor} {fs : List Func}
    (h : readFuncs seen c = .ok fs) : ∀ f ∈ fs, f.renumbered = f := by
  fun_induction readFuncs seen c generalizing fs with
  | case1 =>
      cases h
      exact List.forall_mem_nil _
  | case2 => cases h
  | case3 => cases h
  | case4 => cases h
  | case5 => cases h
  | case6 seen c hne draft c₁ hread f hf hnew fs₂ hrest ih =>
      cases h
      refine List.forall_mem_cons.2 ⟨?_, ih hrest⟩
      have hlegible := (Cursor.legible_of_readFunc hread).resolve hf
      obtain ⟨-, -, bs, -, rfl⟩ := DraftFunc.resolve_eq_ok_iff.1 hf
      exact hlegible.renumbered_eq_self Func.blockIds_ofBlocks.symm
        Func.instIds_ofBlocks

namespace Program

variable {text : String} {p : Program}

/-- The functions of a program that is read have different names. -/
theorem names_of_read (h : read text = .ok p) : (p.functions.map (·.name)).Nodup := by
  obtain ⟨fs, hfs, hok⟩ := bind_eq_ok.1 h
  cases hok
  exact (readFuncs_names hfs).1

/-- The functions of a program that is read have their ids in order. -/
theorem renumbered_of_read (h : read text = .ok p) : ∀ f ∈ p.functions, f.renumbered = f := by
  obtain ⟨fs, hfs, hok⟩ := bind_eq_ok.1 h
  cases hok
  exact renumbered_of_readFuncs hfs

/-- A program that was read has a text, and the text reads back as the same program. -/
theorem read_print (h : read text = .ok p) :
    (∀ f ∈ p.functions, f.print? = some f.print) ∧ read p.print = .ok p := by
  have hlegible := legible_of_read h
  refine ⟨fun f hf => (hlegible f hf).print?_eq, ?_⟩
  have hread := read_printFuncs hlegible (names_of_read h)
  rwa [List.map_congr_left (renumbered_of_read h), List.map_id'] at hread

/-- A text in another layout than the printed one, with a comment, an opcode of two words, a result
used before it is defined, a named branch, the least literal, and a function without blocks. -/
def mixedText : String :=
  "f()\x7b a: condbr %y, ^c, ^b ; c comes later\n b: %k = br ^c\n" ++
    " c: %y = my op @l, -9223372036854775808\n ret %y\n\x7d g() \x7b \x7d"

/-- The program of that text. -/
def mixedProgram : Program where
  functions := [
    { name := "f"
      blocks := #[⟨"a", [⟨0⟩]⟩, ⟨"b", [⟨1⟩]⟩, ⟨"c", [⟨2⟩, ⟨3⟩]⟩]
      insts := #[
        ⟨none, .condBr (.value ⟨2⟩) ⟨2⟩ ⟨1⟩, ⟨0⟩⟩,
        ⟨some "k", .br ⟨2⟩, ⟨1⟩⟩,
        ⟨some "y", .other "my op" [.location "l", .const Int64.minValue], ⟨2⟩⟩,
        ⟨none, .ret (some (.value ⟨2⟩)), ⟨2⟩⟩]
      layout := [⟨0⟩, ⟨1⟩, ⟨2⟩] },
    { name := "g", blocks := #[], insts := #[], layout := [] }]

theorem read_print_mixed : read mixedText = .ok mixedProgram ∧
    (∀ f ∈ mixedProgram.functions, f.print? = some f.print) ∧
      read mixedProgram.print = .ok mixedProgram := by
  have hread : read mixedText = .ok mixedProgram := by decide +kernel
  exact ⟨hread, read_print hread⟩

end Program

end LoopSwap
