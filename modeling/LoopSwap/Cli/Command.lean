/-
**The command.**

A run reads a file, works on its functions one after the other and writes a report: for each
function its name, and as asked for its accesses, its loops, the interchanges made, and its text
afterwards.  The first failure ends the run; what was written before it stays written.

Main definitions:

* `LoopSwap.Cli.Failure`, `LoopSwap.Cli.Failure.text` — why a run ends early;
* `LoopSwap.Cli.FuncReport`, `LoopSwap.Cli.reportFunc` — the work on one function;
* `LoopSwap.Cli.Outcome`, `LoopSwap.Cli.run` — a run: its exit code and what it writes.
-/

import LoopSwap.Access.Basic
import LoopSwap.Cli.Options
import LoopSwap.Code.Program
import LoopSwap.Interchange.Basic
import LoopSwap.Loop.Report
import LoopSwap.Text.Quoted

set_option relaxedAutoImplicit false
set_option autoImplicit false

namespace LoopSwap

/-! ### Errors as records -/

namespace ReadError

/-- The name of the kind of an error. -/
def kind : ReadError → String
  | unexpected .. => "Unexpected"
  | unknownOperation .. => "UnknownOperation"
  | operandCount .. => "OperandCount"
  | duplicate .. => "Duplicate"
  | undefined .. => "Undefined"
  | malformedBlock .. => "MalformedBlock"

/-- The facts of an error by name, texts in quotes. -/
def fields : ReadError → List (String × String)
  | unexpected line expected found =>
    [("line", toString line), ("expected", Text.quoted expected.text),
      ("found", Text.quoted found.text)]
  | unknownOperation line opcode => [("line", toString line), ("opcode", Text.quoted opcode)]
  | operandCount line opcode expected found =>
    [("line", toString line), ("opcode", Text.quoted opcode), ("expected", toString expected),
      ("found", toString found)]
  | duplicate line entity name =>
    [("line", toString line), ("kind", Text.quoted entity.text), ("name", Text.quoted name)]
  | undefined function entity name =>
    [("function", Text.quoted function), ("kind", Text.quoted entity.text),
      ("name", Text.quoted name)]
  | malformedBlock function block fault =>
    [("function", Text.quoted function), ("block", Text.quoted block),
      ("reason", Text.quoted fault.text)]

end ReadError

namespace Cli

/-- A record: its kind and its fields in braces. -/
def recordText (kind : String) (fields : List (String × String)) : String :=
  kind ++ " \x7b " ++ ", ".intercalate (fields.map fun field => field.1 ++ ": " ++ field.2) ++
    " \x7d"

/-- Why a run ends early. -/
inductive Failure where
  | noSuchFile
  | unreadable (error : ReadError)
  | noSuchFunction (name : String)
  | notInterchanged (function : String) (outer inner : Nat) (error : LoopError)
  deriving DecidableEq

/-- A failure as the command reports it. -/
def Failure.text : Failure → String
  | noSuchFile =>
    recordText "Os" [("code", "2"), ("kind", "NotFound"),
      ("message", Text.quoted "No such file or directory")]
  | unreadable error => recordText error.kind error.fields
  | noSuchFunction name => Text.quoted ("no function named '" ++ name ++ "'")
  | notInterchanged function outer inner error =>
    Text.quoted (function ++ ": interchange " ++ toString outer ++ "," ++ toString inner ++
      " failed: " ++ error.message)

/-! ### One function -/

/-- The work on one function: what it writes, how the statistics go on, and what it fails with. -/
structure FuncReport where
  text : String
  stats : Stats
  failure : Option Failure

/-- The lines of the accesses. -/
def accessLines (accesses : List Access) : String :=
  String.join (accesses.map fun a => "  " ++ a.text ++ "\n")

/-- The lines of the loops, indented by their depth. -/
def loopLines (reports : List LoopReport) : String :=
  String.join (reports.map fun s =>
    "  " ++ String.ofList (List.replicate (2 * (s.depth - 1)) ' ') ++ s.text ++ "\n")

/-- Interchanges loops one pair after the other, up to the first failure. -/
def interchangeAll (w : Workspace) :
    List (Nat × Nat) → String × Workspace × Option Failure
  | [] => ("", w, none)
  | (outer, inner) :: rest =>
    match w.interchange outer inner with
    | (w₁, .error e) => ("", w₁, some (.notInterchanged w.func.name outer inner e))
    | (w₁, .ok summary) =>
      let (text, w₂, failure) := interchangeAll w₁ rest
      ("  " ++ summary.text ++ "\n" ++ text, w₂, failure)

/-- Works on a function as the options ask. -/
def reportFunc (o : Options) (stats : Stats) (f : Func) : FuncReport :=
  let title := "function " ++ f.name ++ "\n"
  let stats := stats.addFunction
  let (accessText, stats) :=
    if .printAccesses ∈ o.flags then
      let accesses := f.accesses?.getD []
      (accessLines accesses, stats.addAccesses accesses.length)
    else ("", stats)
  let w : Workspace := ⟨f, stats⟩
  let (loopText, w) :=
    if .printLoops ∈ o.flags then
      let (n, w) := w.findLoops
      (loopLines (n.reports f), w)
    else ("", w)
  let (interchangeText, w, failure) := interchangeAll w o.interchanges
  let code := if failure.isNone ∧ .printIr ∈ o.flags then w.func.print else ""
  ⟨title ++ accessText ++ loopText ++ interchangeText ++ code, w.stats, failure⟩

/-- Works on functions one after the other, up to the first failure. -/
def reportFuncs (o : Options) (stats : Stats) : List Func → FuncReport
  | [] => ⟨"", stats, none⟩
  | f :: fs =>
    let first := reportFunc o stats f
    match first.failure with
    | some _ => first
    | none =>
      let rest := reportFuncs o first.stats fs
      ⟨first.text ++ rest.text, rest.stats, rest.failure⟩

/-! ### A run -/

/-- How a run ends: its exit code and what it writes to the two outputs. -/
structure Outcome where
  exit : Nat
  stdout : String
  stderr : String
  deriving DecidableEq

/-- A run that fails after writing `stdout`. -/
def Outcome.fail (stdout : String) (failure : Failure) : Outcome :=
  ⟨1, stdout, "Error: " ++ failure.text ++ "\n"⟩

/-- The functions that the options ask for. -/
def selectFuncs (o : Options) (p : Program) : Except Failure (List Func) :=
  match o.function with
  | none => .ok p.functions
  | some name =>
    match p.find? name with
    | some f => .ok [f]
    | none => .error (.noSuchFunction name)

/-- A run with the given options on the text of the input, if there is such a file. -/
def runOptions (o : Options) (text : Option String) : Outcome :=
  match text with
  | none => .fail "" .noSuchFile
  | some text =>
    match Program.read text with
    | .error e => .fail "" (.unreadable e)
    | .ok p =>
      match selectFuncs o p with
      | .error failure => .fail "" failure
      | .ok fs =>
        let report := reportFuncs o .zero fs
        match report.failure with
        | some failure => .fail report.text failure
        | none => ⟨0, report.text, if .stats ∈ o.flags then report.stats.text else ""⟩

/-- The first line of a text.  A line ends at a line feed, or at a carriage return and a line
feed. -/
def firstLine (text : String) : String :=
  match splitOnce? '\n' text.toList with
  | none => text
  | some (line, _) => String.ofList (if line.getLast? = some '\r' then line.dropLast else line)

/-- How a command line that asks for nothing is answered: by the first line of the error and the
hint after it. -/
def UsageError.outcome (e : UsageError) : Outcome :=
  ⟨2, "", firstLine ("error: " ++ e.message "\n\nFor more information, try '" ++ "--help'.\n")⟩

/-- A run with the given arguments; `file?` gives the texts of the files there are. -/
def run (arguments : List String) (file? : String → Option String) : Outcome :=
  match Options.read arguments with
  | .error e => e.outcome
  | .ok o => runOptions o (file? o.input)

end Cli

end LoopSwap
