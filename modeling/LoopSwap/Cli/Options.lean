/-
**Command line options.**

Arguments are read from left to right.  A setting may have its value attached to it or in the next
argument, unless that begins with a dash.  A value in an argument of its own, like the input, is
looked at only when the next known argument begins or the line ends; an argument that is not known
is reported before it.  After two dashes every argument is an input.

Main definitions:

* `LoopSwap.Cli.Flag`, `LoopSwap.Cli.Setting` — the options without and with a value;
* `LoopSwap.Cli.Options` — what a command line asks for;
* `LoopSwap.Cli.UsageError`, `LoopSwap.Cli.UsageError.message` — why it asks for nothing;
* `LoopSwap.Cli.readPair` — the two loops of an interchange;
* `LoopSwap.Cli.Options.read` — the options of a command line.
-/

import LoopSwap.Text.Blank
import LoopSwap.Text.Decimal
import LoopSwap.Text.Terminal

set_option relaxedAutoImplicit false
set_option autoImplicit false

namespace LoopSwap

namespace Cli

open Text

/-! ### Options -/

/-- The options that are given or not. -/
inductive Flag where
  | printAccesses | printLoops | printIr | stats
  deriving DecidableEq

/-- An option as it is given, without its dashes. -/
def Flag.name : Flag → String
  | printAccesses => "print-accesses"
  | printLoops => "print-loops"
  | printIr => "print-ir"
  | stats => "stats"

/-- The flag of the given name. -/
def Flag.ofName? (name : String) : Option Flag :=
  [printAccesses, printLoops, printIr, stats].find? fun flag => flag.name == name

/-- The options that have a value. -/
inductive Setting where
  | function | interchange
  deriving DecidableEq

/-- A setting as it is given, without its dashes. -/
def Setting.name : Setting → String
  | function => "function"
  | interchange => "interchange"

/-- A setting as errors show it. -/
def Setting.usage : Setting → String
  | function => "--function <FUNCTION>"
  | interchange => "--interchange <OUTER,INNER>"

/-- The setting of the given name. -/
def Setting.ofName? (name : String) : Option Setting :=
  [function, interchange].find? fun setting => setting.name == name

/-- What a command line asks for. -/
structure Options where
  /-- The file to read. -/
  input : String
  /-- The only function to work on. -/
  function : Option String
  /-- The loops to interchange, in this order. -/
  interchanges : List (Nat × Nat)
  flags : List Flag
  deriving DecidableEq

/-! ### Errors -/

/-- Why a text does not give two loops. -/
inductive PairFault where
  | noComma (text : String)
  | badIndex (text : String) (fault : IndexFault)
  deriving DecidableEq

/-- The wording of a fault. -/
def PairFault.message : PairFault → String
  | noComma text => "expected OUTER,INNER, found '" ++ text ++ "'"
  | badIndex text fault => "invalid loop index '" ++ text ++ "': " ++ fault.message

/-- Why a command line asks for nothing. -/
inductive UsageError where
  | invalidPair (value : String) (fault : PairFault)
  | unexpectedArgument (argument : String)
  | missingValue (option : String)
  | missingInput
  | repeated (option : String)
  | unexpectedValue (value : String) (flag : Flag)
  deriving DecidableEq

/-- The wording of an error with the text `after` it, without terminal controls.  A sequence that
begins in a quoted text ends with it; one that begins in the wording of a fault goes on in
`after`. -/
def UsageError.message (e : UsageError) (after : String) : String :=
  match e with
  | invalidPair value fault =>
    "invalid value '" ++ withoutControls value ++ "' for '" ++ Setting.interchange.usage ++ "': " ++
      withoutControls (fault.message ++ after)
  | unexpectedArgument argument =>
    "unexpected argument '" ++ withoutControls argument ++ "' found" ++ after
  | missingValue option =>
    "a value is required for '" ++ option ++ "' but none was supplied" ++ after
  | missingInput => "the following required arguments were not provided:" ++ after
  | repeated option => "the argument '" ++ option ++ "' cannot be used multiple times" ++ after
  | unexpectedValue value flag =>
    "unexpected value '" ++ withoutControls value ++ "' for '--" ++ flag.name ++
      "' found; no more were expected" ++ after

/-! ### Pairs of loops -/

/-- The texts before and after the first `sign`. -/
def splitOnce? (sign : Char) (text : List Char) : Option (List Char × List Char) :=
  match text.dropWhile (· ≠ sign) with
  | [] => none
  | _ :: after => some (text.takeWhile (· ≠ sign), after)

/-- A loop index, with white space around it. -/
def readIndex (text : List Char) : Except PairFault Nat :=
  match index (trimBlanks text) with
  | .ok n => .ok n
  | .error fault => .error (.badIndex (String.ofList text) fault)

/-- Two loop indices with a comma between. -/
def readPair (text : String) : Except PairFault (Nat × Nat) :=
  match splitOnce? ',' text.toList with
  | none => .error (.noComma text)
  | some (outer, inner) => do
    let o ← readIndex outer
    let i ← readIndex inner
    return (o, i)

/-! ### Reading a command line -/

/-- What has been given but not looked at yet. -/
inductive Pending where
  | nothing
  /-- A setting that waits for its value. -/
  | awaiting (setting : Setting)
  | given (setting : Setting) (value : String)
  | input (path : String)

/-- A command line read in part. -/
structure Reading where
  input : Option String
  function : Option String
  interchanges : List (Nat × Nat)
  flags : List Flag
  pending : Pending

namespace Reading

/-- Before the first argument. -/
def empty : Reading := ⟨none, none, [], [], .nothing⟩

/-- Takes the value of a setting. -/
def set (p : Reading) (setting : Setting) (value : String) : Except UsageError Reading :=
  match setting with
  | .function =>
    match p.function with
    | some _ => .error (.repeated setting.usage)
    | none => .ok { p with function := some value }
  | .interchange =>
    match readPair value with
    | .error fault => .error (.invalidPair value fault)
    | .ok pair => .ok { p with interchanges := p.interchanges ++ [pair] }

/-- Looks at what is pending. -/
def settle (p : Reading) : Except UsageError Reading :=
  let q := { p with pending := .nothing }
  match p.pending with
  | .nothing => .ok q
  | .awaiting setting => .error (.missingValue setting.usage)
  | .given setting value => q.set setting value
  | .input path =>
    if path = "" then .error (.missingValue "<INPUT>") else .ok { q with input := some path }

/-- Takes a flag. -/
def setFlag (p : Reading) (flag : Flag) : Except UsageError Reading := do
  let q ← p.settle
  if flag ∈ q.flags then .error (.repeated ("--" ++ flag.name))
  else return { q with flags := q.flags ++ [flag] }

/-- Takes a setting, with its value if one is attached. -/
def setSetting (p : Reading) (setting : Setting) (value : Option String) :
    Except UsageError Reading := do
  let q ← p.settle
  match value with
  | some value => q.set setting value
  | none => return { q with pending := .awaiting setting }

/-- Whether the input has been given, be it looked at or not. -/
def hasInput (p : Reading) : Bool :=
  match p.pending with
  | .input _ => true
  | _ => p.input.isSome

/-- Takes an input. -/
def setInput (p : Reading) (path : String) : Except UsageError Reading := do
  if p.hasInput then .error (.unexpectedArgument path)
  else
    let q ← p.settle
    return { q with pending := .input path }

/-- Takes an argument that begins with two dashes; `body` is what follows them. -/
def setLong (p : Reading) (body : List Char) : Except UsageError Reading :=
  let (name, value) :=
    match splitOnce? '=' body with
    | none => (String.ofList body, none)
    | some (name, value) => (String.ofList name, some (String.ofList value))
  match Flag.ofName? name, Setting.ofName? name with
  | some flag, _ =>
    match value with
    | none => p.setFlag flag
    | some value => .error (.unexpectedValue value flag)
  | none, some setting => p.setSetting setting value
  | none, none => .error (.unexpectedArgument ("--" ++ name))

/-- Takes an argument that begins with one dash; `c` and `rest` follow it. -/
def setShort (p : Reading) (c : Char) (rest : List Char) : Except UsageError Reading :=
  if c = 'f' then
    let value :=
      match rest with
      | [] => none
      | '=' :: value => some (String.ofList value)
      | value => some (String.ofList value)
    p.setSetting .function value
  else .error (.unexpectedArgument ("-" ++ String.singleton c))

/-- Takes an argument that does not begin with a dash, or is just a dash. -/
def setPlain (p : Reading) (argument : String) : Except UsageError Reading :=
  match p.pending with
  | .awaiting setting => .ok { p with pending := .given setting argument }
  | _ => p.setInput argument

/-- Takes arguments that are all inputs. -/
def readInputs (p : Reading) : List String → Except UsageError Reading
  | [] => .ok p
  | argument :: rest => do
    let q ← p.setInput argument
    q.readInputs rest

/-- Takes arguments one after the other. -/
def readAll (p : Reading) : List String → Except UsageError Reading
  | [] => .ok p
  | argument :: rest =>
    match argument.toList with
    | ['-', '-'] => p.readInputs rest
    | '-' :: '-' :: body => do
      let q ← p.setLong body
      q.readAll rest
    | '-' :: c :: body => do
      let q ← p.setShort c body
      q.readAll rest
    | _ => do
      let q ← p.setPlain argument
      q.readAll rest

end Reading

/-- The options of a command line. -/
def Options.read (arguments : List String) : Except UsageError Options := do
  let p ← Reading.empty.readAll arguments
  let q ← p.settle
  match q.input with
  | none => .error .missingInput
  | some input => return ⟨input, q.function, q.interchanges, q.flags⟩

end Cli

end LoopSwap
