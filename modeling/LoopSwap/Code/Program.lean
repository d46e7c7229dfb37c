/-
**Programs: reading and writing whole texts.**

A program is a list of functions with different names.  Its text is the texts of the functions
with an empty line between them.

Main definitions:

* `LoopSwap.Program` — the functions in order;
* `LoopSwap.Program.read`, `LoopSwap.Program.print` — from and to text;
* `LoopSwap.Func.read` — the function of a text that holds exactly one.

Main results:

* `LoopSwap.readFuncs_names` — the functions that are read have different names.
-/

import LoopSwap.Code.Printer
import LoopSwap.Code.Resolve

set_option relaxedAutoImplicit false
set_option autoImplicit false

namespace LoopSwap

/-- The functions of a program, in order. -/
structure Program where
  functions : List Func
  deriving DecidableEq

/-! ### Reading -/

/-- Reads the functions that follow, none of which may have a name already seen.  A repeated name
is reported at the line where its function ends. -/
def readFuncs (seen : List String) (c : Cursor) : Except ReadError (List Func) :=
  if c.skipLines.rest = [] then .ok []
  else
    match _h : c.skipLines.readFunc with
    | .error e => .error e
    | .ok (draft, c₁) =>
      match draft.resolve with
      | .error e => .error e
      | .ok f =>
        if f.name ∈ seen then .error (.duplicate c₁.line .function f.name)
        else
          match readFuncs (f.name :: seen) c₁ with
          | .error e => .error e
          | .ok fs => .ok (f :: fs)
termination_by c.rest.length
decreasing_by
  have h₁ := Cursor.readFunc_lt _h
  have h₂ := Cursor.skipLines_length_le c
  omega

/-- The functions that are read have different names, none of which has been seen before. -/
theorem readFuncs_names {seen : List String} {c : Cursor} {fs : List Func}
    (h : readFuncs seen c = .ok fs) :
    (fs.map (·.name)).Nodup ∧ ∀ f ∈ fs, f.name ∉ seen := by
  fun_induction readFuncs seen c generalizing fs with
  | case1 seen c hend =>
      cases h
      simp
  | case2 => cases h
  | case3 => cases h
  | case4 => cases h
  | case5 => cases h
  | case6 seen c hne draft c₁ hread f hf hnew fs₂ hrest ih =>
      cases h
      obtain ⟨hnodup, hseen⟩ := ih hrest
      refine ⟨?_, ?_⟩
      · rw [List.map_cons, List.nodup_cons]
        refine ⟨?_, hnodup⟩
        intro hmem
        obtain ⟨g, hg, hname⟩ := List.mem_map.1 hmem
        exact hseen g hg (hname ▸ List.mem_cons_self)
      · intro g hg
        rcases List.mem_cons.1 hg with rfl | hg
        · exact hnew
        · exact fun hmem => hseen g hg (List.mem_cons_of_mem _ hmem)

namespace Program

/-- Reads a program. -/
def read (text : String) : Except ReadError Program := do
  return ⟨← readFuncs [] (.start text)⟩

/-- The function of the given name. -/
def find? (p : Program) (name : String) : Option Func := p.functions.find? fun f => f.name == name

/-! ### Writing -/

/-- The texts of the functions with an empty line between them. -/
def printFuncs : List Func → String
  | [] => ""
  | [f] => f.print
  | f :: fs => f.print ++ "\n" ++ printFuncs fs

/-- The text of a program. -/
def print (p : Program) : String := printFuncs p.functions

end Program

/-- Reads a text that holds exactly one function. -/
def Func.read (text : String) : Except ReadError Func := do
  let p ← Program.read text
  match p.functions with
  | [f] => return f
  | fs => .error (.unexpected 1 .oneFunction (.functions fs.length))

end LoopSwap
