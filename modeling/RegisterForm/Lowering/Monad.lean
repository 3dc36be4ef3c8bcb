import RegisterForm.Tree.Shape
import RegisterForm.Error
import RegisterForm.Limit
import RegisterForm.Lowering.Hoisting
import RegisterForm.Lowering.Setting
/-!
# Lowering steps

What changes while a file is lowered, and the steps that change it. A step either fails,
and then the whole file does, or hands on what it made.
-/
namespace RegisterForm

structure Progress where
  hoisting : Hoisting
  /-- The names that the module exports itself, in source order, each once. -/
  exportedNames : List String := []
  /-- The calls that publish hoisted functions before the module runs. -/
  functionExports : List Stmt := []
  /-- Whether some object pattern has a rest. -/
  needsRest : Bool := false
  /-- How many statements and expressions surround the current one. -/
  depth : Nat := 0

abbrev Lowering := StateT Progress (Except LowerError)

namespace Lowering

def hoist (step : Hoisting → Hoisting) : Lowering Unit :=
  modify fun p => { p with hoisting := step p.hoisting }

def hoistGet {α : Type} (step : Hoisting → α × Hoisting) : Lowering α :=
  modifyGet fun p =>
    let (a, hoisting) := step p.hoisting
    (a, { p with hoisting })

/-- Runs a step one level deeper; a tree that goes past the deepest level fails. -/
def deeper {α : Type} (s : Setting) (step : Lowering α) : Lowering α := do
  if (← get).depth < maxTreeDepth then
    modify fun p => { p with depth := p.depth + 1 }
    let a ← step
    modify fun p => { p with depth := p.depth - 1 }
    return a
  else throw (.tooDeep s.file.name)

/-- Fails for a pattern inside more patterns than may nest. -/
def guardPatternDepth (s : Setting) (depth : Nat) : Lowering Unit :=
  if depth ≤ maxPatternDepth then return () else throw (.tooDeep s.file.name)

/-- Notes a name that the module exports. -/
def addExportedName (name : String) : Lowering Unit :=
  modify fun p =>
    if p.exportedNames.contains name then p
    else { p with exportedNames := p.exportedNames ++ [name] }

def addExportedNames (names : List String) : Lowering Unit := names.forM addExportedName

/-- Notes a call that publishes a hoisted function. -/
def addFunctionExport (call : Expr) : Lowering Unit :=
  modify fun p => { p with functionExports := p.functionExports ++ [.expr call] }

def requireRest : Lowering Unit := modify fun p => { p with needsRest := true }

/-- Lowers a function's parts, and gives what is to be declared at its top. -/
def inFunction {α : Type} (step : Lowering α) : Lowering (α × List Stmt) := do
  hoist (·.push)
  let a ← step
  let frame ← hoistGet (·.pop)
  return (a, frame.statements)

/-- A value that may be read more than once: an identifier that the pattern cannot assign,
or else a fresh temporary and the assignment to it. -/
def stabilize (bound : List String) (value : Expr) : Lowering (List Expr × Expr) := do
  if value.ident?.any fun x => x.id.isSynthetic || !bound.contains x.name then
    return ([], value)
  else
    let temporary ← hoistGet (·.declareTemporary)
    return ([.assignName temporary value], .ofName temporary)

end Lowering
end RegisterForm
