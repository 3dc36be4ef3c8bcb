import RegisterForm.Lowering.Monad
/-!
# Top-level declarations

What becomes of functions, classes and export clauses that stand directly in the module,
once their parts are lowered.
-/
namespace RegisterForm

/-- Where a statement stands. -/
inductive Place where
  | topLevel
  /-- Inside a block, loop or branch of the top level. -/
  | moduleBlock
  /-- Inside a function or class body. -/
  | function
  deriving DecidableEq, Repr

namespace Place

/-- Whether a `var` at this place becomes a variable of the registered module. -/
def hoistsVars : Place → Bool
  | function => false
  | _ => true

/-- The place of the statements inside a statement. -/
def inner : Place → Place
  | function => function
  | _ => moduleBlock

/-- Whether a declaration list at this place is taken apart into assignments. -/
def takesApart (place : Place) (kind : VarKind) : Bool :=
  match place with
  | topLevel => true
  | moduleBlock => kind == .var
  | function => false

end Place

namespace Lowering

/-- Notes the export name of a declaration, and gives the call that publishes it. -/
def exportCall (s : Setting) (modifiers : Modifiers) (name : String) : Lowering Expr := do
  if !modifiers.isDefault then addExportedName name
  return s.publish (Interface.exportNameOf modifiers name) (.ofName name)

/-- Hoists a function to the top of the registered module; one without a name gets a fresh one. -/
def hoistFunction (s : Setting) (modifiers : Modifiers) (f : Func) : Lowering Unit := do
  let x ← match f.name with
    | some x => pure x
    | none => Ident.synthetic <$> hoistGet (·.unique "default")
  if modifiers.isExported then addFunctionExport (← exportCall s modifiers x.name)
  hoist (·.addFunction (.function {} { f with name := some x }))

/-- The variable that holds a class of the top level. -/
def hoistClassName (name : Option Ident) : Lowering String := do
  let name ← match name with
    | some x => pure x.name
    | none => hoistGet (·.unique "default")
  hoist (·.addVariable name)
  return name

/-- The assignment that makes a class, and the call that publishes it. -/
def classAssignment (s : Setting) (modifiers : Modifiers) (name : String) (c : Class) :
    Lowering (List Stmt) := do
  let assignment : Stmt := .expr (.assignName name (.classExpr c))
  if modifiers.isExported then return [assignment, .expr (← exportCall s modifiers name)]
  else return [assignment]

/-- The call that publishes a name of a local export clause, where the clause stands. What is
imported is published by its setter instead, and a function before the module runs. -/
def exportSpecifier (s : Setting) (spec : ExportSpecifier) : Lowering (List Stmt) := do
  if !s.names.specifierIsValue spec then return []
  addExportedName spec.exportedName
  if (s.names.importOf? spec.source).isSome then return []
  if (s.names.valueDeclaration? spec.source).any s.interface.functions.contains then
    addFunctionExport (s.publish spec.exportedName (.ofName spec.source.name))
    return []
  return [.expr (s.publish spec.exportedName (.ident spec.source))]

def exportSpecifiers (s : Setting) : List ExportSpecifier → Lowering (List Stmt)
  | [] => return []
  | spec :: specs => do
    let stmts ← exportSpecifier s spec
    return stmts ++ (← exportSpecifiers s specs)

end Lowering
end RegisterForm
