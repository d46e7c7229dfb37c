/-
**Functions are worked on independently.**

The work on one function hands nothing to the work on the next one but the statistics, and nothing
that is done or written looks at those.  So whatever was counted before is only added to what is
counted now: a frame that every step of the work keeps, from the search for loops to the report of
a function.  The report of several functions is then put together from the reports each function
has when it is the only one, up to the first that fails.

Main definitions:

* `LoopSwap.Stats.sum` — several statistics together;
* `LoopSwap.Workspace.onTopOf`, `LoopSwap.Cli.FuncReport.onTopOf` — the same work after other work.

Main results:

* `LoopSwap.Workspace.interchange_onTopOf` — an interchange does not depend on what was counted;
* `LoopSwap.Cli.reportFuncs_cases` — reports one after the other;
* `LoopSwap.Cli.runOptions_functions` — a run on all functions and the runs on one of them.
-/

import LoopSwap.Cli.Command
import LoopSwap.Proofs.Code.Names
import LoopSwap.Proofs.Code.RoundTrip

set_option relaxedAutoImplicit false
set_option autoImplicit false

namespace LoopSwap

/-! ### Adding statistics -/

namespace Stats

/-- Several statistics together. -/
def sum (counts : List Stats) : Stats := counts.foldr add zero

@[simp] theorem add_zero (s : Stats) : s.add zero = s := rfl

@[simp] theorem zero_add (s : Stats) : zero.add s = s := by
  simp only [add, zero, Nat.zero_add]

theorem add_assoc (s t u : Stats) : (s.add t).add u = s.add (t.add u) := by
  simp only [add, Nat.add_assoc]

theorem add_addLoops (s t : Stats) (n : Nat) : s.add (t.addLoops n) = (s.add t).addLoops n := by
  simp only [add, addLoops, Nat.add_assoc]

theorem add_addAccesses (s t : Stats) (n : Nat) :
    s.add (t.addAccesses n) = (s.add t).addAccesses n := by
  simp only [add, addAccesses, Nat.add_assoc]

/-- A number between a text and an end of line can be read off. -/
theorem count_inj {title rest rest' : String} {m n : Nat}
    (h : title ++ (toString m ++ ("\n" ++ rest)) = title ++ (toString n ++ ("\n" ++ rest'))) :
    m = n ∧ rest = rest' := by
  have hdigits : ∀ k : Nat, ∀ c ∈ (toString k).toList, c.isDigit = true := by
    intro k c hc
    rw [Nat.toString_eq_repr, Nat.toList_repr] at hc
    exact Nat.isDigit_of_mem_toDigits (by decide) (by decide) hc
  have hstops : ∀ r : List Char, Stops ("\n".toList ++ r) := fun r => stops_cons (by decide)
  rw [String.append_right_inj] at h
  have hnumber : toString m = toString n := by
    have hchars := congrArg (fun t : String => t.toList.takeWhile Char.isDigit) h
    simp only [String.toList_append] at hchars
    rw [Cursor.takeWhile_isDigit_append (hdigits m) (hstops rest.toList),
      Cursor.takeWhile_isDigit_append (hdigits n) (hstops rest'.toList)] at hchars
    exact String.toList_inj.1 hchars
  refine ⟨toString_nat_injective hnumber, ?_⟩
  rw [hnumber, String.append_right_inj, String.append_right_inj] at h
  exact h

/-- The counts can be read off their report. -/
theorem text_injective : Function.Injective text := by
  intro s t h
  unfold text at h
  simp only [String.append_assoc] at h
  have h := (String.append_right_inj _).1 h
  obtain ⟨hfunctions, h⟩ := count_inj h
  obtain ⟨hloops, h⟩ := count_inj h
  obtain ⟨haccesses, h⟩ := count_inj h
  obtain ⟨hinterchanges, h⟩ := count_inj h
  have hmaterialized := toString_nat_injective
    ((String.append_left_inj _).1 ((String.append_right_inj _).1 h))
  cases s
  cases t
  simp only [mk.injEq]
  exact ⟨hfunctions, hloops, haccesses, hinterchanges, hmaterialized⟩

end Stats

/-! ### The same work after other work -/

namespace Workspace

variable {w : Workspace}

/-- The workspace with `s` counted before. -/
def onTopOf (w : Workspace) (s : Stats) : Workspace := { w with stats := s.add w.stats }

@[simp] theorem func_onTopOf (w : Workspace) (s : Stats) : (w.onTopOf s).func = w.func := rfl

theorem findLoops_onTopOf (w : Workspace) (s : Stats) :
    (w.onTopOf s).findLoops = (w.findLoops.1, w.findLoops.2.onTopOf s) := by
  simp only [findLoops, onTopOf, Stats.add_addLoops]

theorem isolatePreheader_onTopOf (n : LoopForest) (w : Workspace) (i : Nat) (s : Stats) :
    n.isolatePreheader (w.onTopOf s) i =
      (n.isolatePreheader w i).map fun r => (r.1, r.2.1, r.2.2.onTopOf s) := by
  obtain ⟨f, t⟩ := w
  unfold LoopForest.isolatePreheader onTopOf
  dsimp only
  cases n.loop? i with
  | none => rfl
  | some l =>
      cases hp : l.preheader with
      | none =>
          simp only [hp, require_some, require_none, ok_bind]
          rfl
      | some p =>
          simp only [hp, require_some, ok_bind]
          by_cases he : some p ≠ f.entry?
          · rw [if_pos he, if_pos he]
            rfl
          · rw [if_neg he, if_neg he]
            cases f.split? p ((f.blockInsts p).length - 1) <;> rfl

theorem materialize_onTopOf (w : Workspace) (n : LoopForest) (plan : Plan) (outer : Nat)
    (s : Stats) : (w.onTopOf s).materialize n plan outer =
      ((w.materialize n plan outer).1.onTopOf s, (w.materialize n plan outer).2) := by
  unfold materialize
  rw [isolatePreheader_onTopOf]
  -- the first split, if there is one, has failed or leaves a workspace on top of the same counts
  cases plan.preheaderPred with
  | some pred =>
      cases plan.continuation with
      | some c => rfl
      | none => dsimp only [func_onTopOf]; cases w.func.split? plan.outerExit 0 <;> rfl
  | none =>
      cases n.isolatePreheader w outer with
      | error e => rfl
      | ok result =>
          obtain ⟨split, n', w₁⟩ := result
          cases plan.continuation with
          | some c => rfl
          | none =>
              dsimp only [Except.map, func_onTopOf]
              cases w₁.func.split? plan.outerExit 0 <;> rfl

theorem relink_onTopOf (w : Workspace) (r : Relinking) (made : List BlockId) (outer inner : Nat)
    (s : Stats) : (w.onTopOf s).relink r made outer inner =
      ((w.relink r made outer inner).1.onTopOf s, (w.relink r made outer inner).2) := by
  unfold relink onTopOf
  dsimp only
  generalize Func.retargetAll _ _ = result
  rfl

/-- An interchange does not depend on what was counted before. -/
theorem interchange_onTopOf (w : Workspace) (outer inner : Nat) (s : Stats) :
    (w.onTopOf s).interchange outer inner =
      ((w.interchange outer inner).1.onTopOf s, (w.interchange outer inner).2) := by
  unfold interchange
  rw [findLoops_onTopOf]
  obtain ⟨n, w₁⟩ := w.findLoops
  dsimp only [func_onTopOf]
  cases n.plan w₁.func outer inner with
  | error e => rfl
  | ok plan =>
      dsimp only
      rw [materialize_onTopOf]
      obtain ⟨w₂, result⟩ := w₁.materialize n plan outer
      cases result with
      | error e => rfl
      | ok made =>
          dsimp only
          rw [relink_onTopOf]

end Workspace

namespace Cli

/-- The report with `s` counted before. -/
def FuncReport.onTopOf (r : FuncReport) (s : Stats) : FuncReport :=
  { r with stats := s.add r.stats }

theorem interchangeAll_onTopOf (s : Stats) (pairs : List (Nat × Nat)) :
    ∀ w : Workspace, interchangeAll (w.onTopOf s) pairs =
      ((interchangeAll w pairs).1, (interchangeAll w pairs).2.1.onTopOf s,
        (interchangeAll w pairs).2.2) := by
  induction pairs with
  | nil => exact fun _ => rfl
  | cons pair pairs ih =>
      intro w
      unfold interchangeAll
      rw [Workspace.interchange_onTopOf]
      obtain ⟨w₁, result⟩ := w.interchange pair.1 pair.2
      cases result with
      | error e => rfl
      | ok summary => dsimp only; rw [ih]

/-- The report of a function does not depend on what was counted before. -/
theorem reportFunc_onTopOf (o : Options) (s t : Stats) (f : Func) :
    reportFunc o (s.add t) f = (reportFunc o t f).onTopOf s := by
  have haccesses : ∀ n u, (s.add u).addAccesses n = s.add (u.addAccesses n) := fun n u =>
    (Stats.add_addAccesses s u n).symm
  have hfirst : (s.add t).addFunction = s.add t.addFunction := rfl
  have hstart : ∀ u : Stats, (⟨f, s.add u⟩ : Workspace) = (⟨f, u⟩ : Workspace).onTopOf s :=
    fun _ => rfl
  unfold reportFunc
  by_cases haccess : .printAccesses ∈ o.flags <;> by_cases hloops : .printLoops ∈ o.flags <;>
    simp only [haccess, hloops, if_true, if_false, hfirst, haccesses, hstart,
      Workspace.findLoops_onTopOf, interchangeAll_onTopOf, Workspace.func_onTopOf] <;> rfl

theorem reportFunc_eq (o : Options) (s : Stats) (f : Func) :
    reportFunc o s f = (reportFunc o .zero f).onTopOf s :=
  reportFunc_onTopOf o s .zero f

/-! ### One function after the other -/

/-- What a function contributes to a run on several: its report when it is the only one. -/
def ownReport (o : Options) (f : Func) : FuncReport := reportFunc o .zero f

/-- **Reports one after the other.**  Either every function succeeds on its own, and the texts and
the counts are put together, or there is a first one that fails on its own, and its failure and its
text come last. -/
theorem reportFuncs_cases (o : Options) (fs : List Func) : ∀ s : Stats,
    ((∀ f ∈ fs, (ownReport o f).failure = none) ∧
      reportFuncs o s fs = ⟨String.join (fs.map fun f => (ownReport o f).text),
        s.add (.sum (fs.map fun f => (ownReport o f).stats)), none⟩) ∨
    ∃ pre f post failure, fs = pre ++ f :: post ∧
      (∀ g ∈ pre, (ownReport o g).failure = none) ∧ (ownReport o f).failure = some failure ∧
      (reportFuncs o s fs).text = String.join ((pre ++ [f]).map fun g => (ownReport o g).text) ∧
      (reportFuncs o s fs).failure = some failure := by
  induction fs with
  | nil => exact fun s => Or.inl ⟨fun _ h => (nomatch h), rfl⟩
  | cons f fs ih =>
      intro s
      have hfirst : reportFunc o s f = (ownReport o f).onTopOf s := reportFunc_eq o s f
      cases hfail : (ownReport o f).failure with
      | some failure =>
          have hrun : reportFuncs o s (f :: fs) = (ownReport o f).onTopOf s := by
            rw [reportFuncs, hfirst]
            simp only [FuncReport.onTopOf, hfail]
          refine Or.inr ⟨[], f, fs, failure, rfl, fun _ h => (nomatch h), hfail, ?_, ?_⟩
          · rw [hrun, List.nil_append, List.map_singleton, String.join_cons]
            exact String.append_empty.symm
          · rw [hrun]
            exact hfail
      | none =>
          have hrun : reportFuncs o s (f :: fs) =
              ⟨(ownReport o f).text ++ (reportFuncs o (s.add (ownReport o f).stats) fs).text,
                (reportFuncs o (s.add (ownReport o f).stats) fs).stats,
                (reportFuncs o (s.add (ownReport o f).stats) fs).failure⟩ := by
            rw [reportFuncs, hfirst]
            simp only [FuncReport.onTopOf, hfail]
          rw [hrun]
          rcases ih (s.add (ownReport o f).stats) with
            ⟨hall, heq⟩ | ⟨pre, g, post, failure, rfl, hpre, hg, htext, hfailure⟩
          · refine Or.inl ⟨List.forall_mem_cons.2 ⟨hfail, hall⟩, ?_⟩
            rw [heq, Stats.add_assoc, List.map_cons, String.join_cons]
            rfl
          · refine Or.inr ⟨f :: pre, g, post, failure, rfl,
              List.forall_mem_cons.2 ⟨hfail, hpre⟩, hg, ?_, hfailure⟩
            rw [htext, List.cons_append, List.map_cons, String.join_cons]

/-! ### Runs -/

/-- The options that ask for one function, or for all. -/
def Options.only (o : Options) (name : Option String) : Options := { o with function := name }

/-- What a successful run writes about its counts. -/
def Options.countsText (o : Options) (s : Stats) : String :=
  if .stats ∈ o.flags then s.text else ""

variable {o : Options} {text : String} {p : Program} {f : Func}

/-- Every function is found by its name. -/
theorem find?_of_read (h : Program.read text = .ok p) (hf : f ∈ p.functions) :
    p.find? f.name = some f := by
  have hnodup := Program.names_of_read h
  obtain ⟨pre, post, heq⟩ := List.append_of_mem hf
  rw [heq, List.map_append, List.map_cons] at hnodup
  rw [Program.find?, List.find?_eq_some_iff_append]
  refine ⟨beq_self_eq_true f.name, pre, post, heq, fun g hg => ?_⟩
  have hne := (List.nodup_append.1 hnodup).2.2 g.name (List.mem_map_of_mem hg) f.name
    List.mem_cons_self
  simpa using hne

/-- How a run ends whose functions have this report. -/
def outcomeOf (o : Options) (r : FuncReport) : Outcome :=
  match r.failure with
  | some failure => .fail r.text failure
  | none => ⟨0, r.text, o.countsText r.stats⟩

section

variable {r : FuncReport}

theorem outcomeOf_of_none (h : r.failure = none) :
    outcomeOf o r = ⟨0, r.text, o.countsText r.stats⟩ := by
  rw [outcomeOf, h]

theorem outcomeOf_of_some {failure : Failure} (h : r.failure = some failure) :
    outcomeOf o r = .fail r.text failure := by
  rw [outcomeOf, h]

@[simp] theorem stdout_outcomeOf : (outcomeOf o r).stdout = r.text := by
  unfold outcomeOf
  cases r.failure <;> rfl

end

theorem runOptions_eq {fs : List Func} (h : Program.read text = .ok p)
    (hselect : selectFuncs o p = .ok fs) :
    runOptions o (some text) = outcomeOf o (reportFuncs o .zero fs) := by
  simp only [runOptions, h, hselect]
  rfl

/-- A run on one function is its report. -/
theorem runOptions_only (h : Program.read text = .ok p) (hf : f ∈ p.functions) :
    runOptions (o.only (some f.name)) (some text) = outcomeOf o (ownReport o f) := by
  have hselect : selectFuncs (o.only (some f.name)) p = .ok [f] := by
    simp only [selectFuncs, Options.only, find?_of_read h hf]
  have hreport : reportFuncs (o.only (some f.name)) .zero [f] =
      match (ownReport o f).failure with
      | some _ => ownReport o f
      | none => ⟨(ownReport o f).text ++ "", (ownReport o f).stats, none⟩ := rfl
  rw [runOptions_eq h hselect, hreport]
  cases hfail : (ownReport o f).failure with
  | some failure =>
      dsimp only
      rw [outcomeOf_of_some hfail, outcomeOf_of_some hfail]
  | none =>
      rw [outcomeOf_of_none hfail, String.append_empty]
      rfl

/-- Reports do not depend on which functions are asked for. -/
theorem reportFuncs_only (o : Options) (name : Option String) (fs : List Func) : ∀ s : Stats,
    reportFuncs (o.only name) s fs = reportFuncs o s fs := by
  induction fs with
  | nil => exact fun _ => rfl
  | cons f fs ih =>
      intro s
      have hfirst : reportFunc (o.only name) s f = reportFunc o s f := rfl
      simp only [reportFuncs, hfirst, ih]

/-- A run on all functions reports on them one after the other. -/
theorem runOptions_all (h : Program.read text = .ok p) (o : Options) :
    runOptions (o.only none) (some text) = outcomeOf o (reportFuncs o .zero p.functions) := by
  rw [← reportFuncs_only o none]
  exact runOptions_eq h rfl

/-- The texts of the reports are what the runs on single functions write. -/
theorem map_text_ownReport (h : Program.read text = .ok p) {fs : List Func}
    (hfs : ∀ f ∈ fs, f ∈ p.functions) :
    (fs.map fun f => (ownReport o f).text) =
      fs.map fun f => (runOptions (o.only (some f.name)) (some text)).stdout := by
  refine List.map_congr_left fun f hf => ?_
  rw [runOptions_only h (hfs f hf), stdout_outcomeOf]

/-- What is written about counts determines what is written about their sum. -/
theorem countsText_sum {fs : List Func} {counts counts' : Func → Stats}
    (h : ∀ f ∈ fs, o.countsText (counts f) = o.countsText (counts' f)) :
    o.countsText (.sum (fs.map counts)) = o.countsText (.sum (fs.map counts')) := by
  unfold Options.countsText at h ⊢
  by_cases hflag : .stats ∈ o.flags
  · simp only [if_pos hflag] at h
    rw [List.map_congr_left fun f hf => Stats.text_injective (h f hf)]
  · rw [if_neg hflag, if_neg hflag]

/-- **Functions are worked on independently.**  If the run on all functions succeeds, then so does
the run on each of them, its output is that of these runs one after the other, and its counts are
the sums of theirs.  If it fails, there is a first function whose own run fails; then the output is
that of the runs up to this one, and the failure is that of this one. -/
theorem runOptions_functions (h : Program.read text = .ok p) (o : Options) :
    let whole := runOptions (o.only none) (some text)
    let single := fun f : Func => runOptions (o.only (some f.name)) (some text)
    (whole.exit = 0 →
      (∀ f ∈ p.functions, (single f).exit = 0 ∧ ∃ s, (single f).stderr = o.countsText s) ∧
      whole.stdout = String.join (p.functions.map fun f => (single f).stdout) ∧
      ∀ counts : Func → Stats, (∀ f ∈ p.functions, (single f).stderr = o.countsText (counts f)) →
        whole.stderr = o.countsText (.sum (p.functions.map counts))) ∧
    (whole.exit ≠ 0 → ∃ pre f post failure, p.functions = pre ++ f :: post ∧
      (∀ g ∈ pre, (single g).exit = 0) ∧ single f = .fail (single f).stdout failure ∧
      whole = .fail (String.join ((pre ++ [f]).map fun g => (single g).stdout)) failure) := by
  intro whole single
  have hwhole : whole = outcomeOf o (reportFuncs o .zero p.functions) := runOptions_all h o
  have hsingle : ∀ f ∈ p.functions, single f = outcomeOf o (ownReport o f) := fun f hf =>
    runOptions_only h hf
  have htexts : ∀ fs : List Func, (∀ f ∈ fs, f ∈ p.functions) →
      (fs.map fun f => (ownReport o f).text) = fs.map fun f => (single f).stdout := fun _ hfs =>
    map_text_ownReport h hfs
  clear_value whole single
  rcases reportFuncs_cases o p.functions .zero with
    ⟨hall, heq⟩ | ⟨pre, f, post, failure, hsplit, hpre, hf, htext, hfailure⟩
  · have hrun : ∀ f ∈ p.functions,
        single f = ⟨0, (ownReport o f).text, o.countsText (ownReport o f).stats⟩ := fun f hf =>
      (hsingle f hf).trans (outcomeOf_of_none (hall f hf))
    rw [heq, outcomeOf_of_none rfl, Stats.zero_add] at hwhole
    refine ⟨fun _ => ⟨fun f hf => ?_, ?_, fun counts hcounts => ?_⟩, fun hexit => ?_⟩
    · rw [hrun f hf]
      exact ⟨rfl, _, rfl⟩
    · rw [hwhole, htexts _ fun f hf => hf]
    · rw [hwhole]
      refine countsText_sum fun f hf => ?_
      rw [← hcounts f hf, hrun f hf]
    · rw [hwhole] at hexit
      exact absurd rfl hexit
  · have hmem : ∀ g ∈ pre ++ [f], g ∈ p.functions := by
      intro g hg
      rw [hsplit]
      rcases List.mem_append.1 hg with hg | hg
      · exact List.mem_append_left _ hg
      · exact List.mem_append_right _ (List.mem_singleton.1 hg ▸ List.mem_cons_self)
    rw [outcomeOf_of_some hfailure, htext, htexts _ hmem] at hwhole
    refine ⟨fun hexit => ?_, fun _ => ⟨pre, f, post, failure, hsplit, fun g hg => ?_, ?_, hwhole⟩⟩
    · rw [hwhole] at hexit
      cases hexit
    · rw [hsingle g (hmem g (List.mem_append_left _ hg)), outcomeOf_of_none (hpre g hg)]
    · rw [hsingle f (hmem f (List.mem_append_right _ List.mem_cons_self)), outcomeOf_of_some hf]
      rfl

/-- A function with two nested loops and one without loops. -/
def nestAndLeafText : String :=
  "f() \x7b\na: br ^b\nb: condbr 0, ^c, ^i\nc: br ^d\nd: condbr 0, ^e, ^g\ne: br ^f\n" ++
    "f: br ^d\ng: br ^h\nh: br ^b\ni: ret\n\x7d\ng() \x7b\na: ret\n\x7d"

/-- The functions of that text. -/
def nestAndLeaf : Program := ⟨[
  .ofBlocks "f" [("a", [(none, .br ⟨1⟩)]), ("b", [(none, .condBr (.const 0) ⟨2⟩ ⟨8⟩)]),
    ("c", [(none, .br ⟨3⟩)]), ("d", [(none, .condBr (.const 0) ⟨4⟩ ⟨6⟩)]), ("e", [(none, .br ⟨5⟩)]),
    ("f", [(none, .br ⟨3⟩)]), ("g", [(none, .br ⟨7⟩)]), ("h", [(none, .br ⟨1⟩)]),
    ("i", [(none, .ret none)])],
  .ofBlocks "g" [("a", [(none, .ret none)])]]⟩

/-- The loops of both functions are counted together; an interchange is made in the first function
and fails in the second. -/
theorem runOptions_functions_nestAndLeaf :
    let asked := fun pairs => (⟨"", none, pairs, [.printLoops, .printIr, .stats]⟩ : Options)
    let run := fun pairs name => runOptions ((asked pairs).only name) (some nestAndLeafText)
    Program.read nestAndLeafText = .ok nestAndLeaf ∧
      ((run [] none).exit = 0 ∧ (run [] none).stdout =
        String.join (nestAndLeaf.functions.map fun f => (run [] (some f.name)).stdout)) ∧
      (run [(0, 1)] none).exit ≠ 0 ∧
        ∃ pre f post failure, nestAndLeaf.functions = pre ++ f :: post ∧
          (∀ g ∈ pre, (run [(0, 1)] (some g.name)).exit = 0) ∧
          run [(0, 1)] (some f.name) =
            .fail (run [(0, 1)] (some f.name)).stdout failure ∧
          run [(0, 1)] none = .fail (String.join
            ((pre ++ [f]).map fun g => (run [(0, 1)] (some g.name)).stdout)) failure := by
  intro asked run
  have hread : Program.read nestAndLeafText = .ok nestAndLeaf := by decide +kernel
  have hok : (run [] none).exit = 0 := by
    refine (congrArg Outcome.exit (runOptions_eq hread rfl)).trans ?_
    decide +kernel
  have hfail : (run [(0, 1)] none).exit = 1 := by
    refine (congrArg Outcome.exit (runOptions_eq hread rfl)).trans ?_
    decide +kernel
  have hne : (run [(0, 1)] none).exit ≠ 0 := hfail.trans_ne Nat.one_ne_zero
  exact ⟨hread, ⟨hok, ((runOptions_functions hread (asked [])).1 hok).2.1⟩, hne,
    (runOptions_functions hread (asked [(0, 1)])).2 hne⟩

end Cli

end LoopSwap
