import RegisterForm.Lowering.Fresh
import RegisterForm.Tree.Construct
import RegisterForm.Tree.Visit
/-!
# Hoisting

Each function that is lowered collects the variables and functions that are to be declared
at the top of its body. The collections form a stack, the innermost function's on top.
-/
namespace RegisterForm

/-- What is declared at the top of one function's body. -/
structure Frame where
  vars : List String := []
  functions : List Stmt := []

/-- The names still to be given out and the declarations collected so far. -/
structure Hoisting where
  supply : NameSupply := {}
  /-- The innermost function comes first. -/
  frames : List Frame := []

namespace Hoisting

/-- Nothing collected; fresh names avoid every name of the file. -/
def ofFile (file : SourceFile) : Hoisting := { supply := { used := file.names } }

def depth (h : Hoisting) : Nat := h.frames.length

/-! ## Names -/

def unique (base : String) (h : Hoisting) : String × Hoisting :=
  let (name, supply) := h.supply.unique base
  (name, { h with supply })

def temporary (h : Hoisting) : String × Hoisting :=
  let (name, supply) := h.supply.temporary
  (name, { h with supply })

/-! ## Frames -/

/-- Changes the innermost collection; outside all functions nothing is collected. -/
def modifyTop (change : Frame → Frame) (h : Hoisting) : Hoisting :=
  match h.frames with
  | [] => h
  | frame :: frames => { h with frames := change frame :: frames }

@[simp] theorem depth_modifyTop (change : Frame → Frame) (h : Hoisting) :
    (h.modifyTop change).depth = h.depth := by
  unfold modifyTop depth
  split <;> simp_all

/-- Declares a variable in the innermost function, once. -/
def addVariable (name : String) (h : Hoisting) : Hoisting :=
  h.modifyTop fun frame =>
    if frame.vars.contains name then frame
    else { frame with vars := frame.vars ++ [name] }

def addVariables (names : List String) (h : Hoisting) : Hoisting :=
  names.foldl (fun h name => h.addVariable name) h

def addFunction (s : Stmt) (h : Hoisting) : Hoisting :=
  h.modifyTop fun frame => { frame with functions := frame.functions ++ [s] }

/-- A fresh temporary, declared in the innermost function. -/
def declareTemporary (h : Hoisting) : String × Hoisting :=
  let (name, h) := h.temporary
  (name, h.addVariable name)

def push (h : Hoisting) : Hoisting := { h with frames := {} :: h.frames }

/-- Ends the innermost function; outside all functions there is nothing to end. -/
def pop (h : Hoisting) : Frame × Hoisting :=
  match h.frames with
  | [] => ({}, h)
  | frame :: frames => (frame, { h with frames })

theorem pop_push (h : Hoisting) : h.push.pop = ({}, h) := rfl

end Hoisting

namespace Frame

/-- One statement that declares the variables, if there are any. -/
def variableStmt? (frame : Frame) : Option Stmt :=
  if frame.vars.isEmpty then none else some (.varNames frame.vars)

/-- The declarations: the variables first, then the functions. -/
def statements (frame : Frame) : List Stmt := frame.variableStmt?.toList ++ frame.functions

end Frame
end RegisterForm
