import RegisterForm.Interface
import RegisterForm.Options.Basic
import RegisterForm.Text.Name
import RegisterForm.Tree.Construct
/-!
# The setting of a file

Everything that stays fixed while one file is lowered, and the questions that it answers:
what an identifier reads, and under which names a write is published.
-/
namespace RegisterForm

structure Setting where
  options : Options
  file : SourceFile
  names : NameTable
  interface : Interface
  /-- The parameter that publishes a value under a name. -/
  exporter : String
  /-- The parameter that describes the module at run time. -/
  context : String
  /-- The variable that holds the other module of a dependence; the newest entry holds. -/
  holders : List (NodeId × String)

namespace Setting

/-- `exporter("name", value)` -/
def publish (s : Setting) (name : String) (value : Expr) : Expr :=
  (Expr.ofName s.exporter).apply [.ofString name, value]

/-! ## Reads -/

/-- The name that another module exports, read off the variable that holds the module. -/
def importedProperty (s : Setting) (holder name : String) : Expr :=
  if s.options.target.isEs3 || !Text.isIdentifierName name then
    (Expr.ofName holder).lookup (.ofString name)
  else (Expr.ofName holder).dot name

/-- What an identifier reads: an import is read off the variable that holds its module. -/
def read (s : Setting) (x : Ident) : Expr :=
  match s.names.importOf? x with
  | none => .ident x
  | some origin =>
    match s.holders.lookup origin.declaration with
    | none => .ident x
    | some holder =>
      match origin.kind with
      | .default => s.importedProperty holder "default"
      | .named imported => s.importedProperty holder imported
      | .star | .equals => if holder = x.name then .ident x else .ofName holder

/-! ## Writes -/

/-- The names under which a write to an identifier is published. -/
def exportNames (s : Setting) (x : Ident) : List String :=
  if x.id.isSynthetic || s.names.exporterOf? x ≠ some s.file.id
      || (s.names.importOf? x).isSome then []
  else
    match ((s.names.valueDeclaration? x).map s.interface.namesOf).getD [] with
    | [] => [x.name]
    | name :: names => name :: names

/-- A written value, published under every name of the identifier; the first name innermost. -/
def published (s : Setting) (x : Ident) (value : Expr) : Expr :=
  (s.exportNames x).foldl (fun value name => s.publish name value) value

/-- An assignment, published if its target is an exported name. -/
def publishedTo (s : Setting) (target : Pattern) (assignment : Expr) : Expr :=
  match target.ident? with
  | some x => s.published x assignment
  | none => assignment

/-- `x = value`, published if `x` is exported. -/
def bindingAssignment (s : Setting) (x : Ident) (value : Expr) : Expr :=
  s.published x (.assignTo (.ident x) value)

/-- Whether a pattern writes to an exported name. -/
def hasExportedLeaf (s : Setting) (p : Pattern) : Bool :=
  p.boundIdents.any fun x => !(s.exportNames x).isEmpty

/-- The operator that leads from an updated value back to the value before. -/
def undo : UpdateOp → BinaryOp
  | .increment => .sub
  | .decrement => .add

/-- An update of an exported name. It is published after the update, so that a suffix
operator whose value is used needs the value before worked out again. -/
def publishedUpdate? (s : Setting) (op : UpdateOp) (isPrefix isUsed : Bool) (arg : Expr) :
    Option Expr :=
  match arg.skipParens with
  | .ident x =>
    if (s.exportNames x).isEmpty then none
    else
      let updated := s.published x (.update op true (.ident x))
      some (if isPrefix || !isUsed then updated else .binary (undo op) updated (.ofNumber "1"))
  | _ => none

/-- A property of an object literal that names a variable only. -/
def readShorthand (s : Setting) (x : Ident) : Property :=
  match s.read x with
  | .ident y => if y.name = x.name then .shorthand x else .ofName x.name (.ident y)
  | value => .ofName x.name value

end Setting
end RegisterForm
