import RegisterForm.Scope.Table
import RegisterForm.Tree.Shape
/-!
# Questions to the table of names

What an identifier or declaration stands for, once its file is bound. A made-up identifier
stands for nothing.
-/
namespace RegisterForm.NameTable

/-- The symbol an identifier declares or refers to. -/
def symbolOf? (t : NameTable) (x : Ident) : Option Symbol :=
  if x.id.isSynthetic then none else (t.ofIdent.lookup x.id).bind t.symbol?

/-- The import that an identifier reads. -/
def importOf? (t : NameTable) (x : Ident) : Option ImportOrigin :=
  (t.symbolOf? x).bind fun s => if s.roles.isTypeOnly then none else s.origin

/-- The file that exports what an identifier stands for. -/
def exporterOf? (t : NameTable) (x : Ident) : Option NodeId :=
  (t.symbolOf? x).bind fun s => if s.roles.isExported && s.roles.isValue then t.file else none

/-- The identifier that declares the value an identifier refers to. -/
def valueDeclaration? (t : NameTable) (x : Ident) : Option NodeId :=
  (t.symbolOf? x).bind fun s => if s.roles.isValue then some s.declaration else none

/-- An unresolved name is global and counts as a value. -/
def mayBeValue (t : NameTable) (x : Ident) : Bool := (t.symbolOf? x).all (·.roles.isValue)

/-- Whether a local export name exports a value. -/
def specifierIsValue (t : NameTable) (s : ExportSpecifier) : Bool :=
  !s.isTypeOnly && ((t.ofSpecifier.lookup s.id).bind t.symbol?).any (·.roles.isValue)

/-- Whether an exported expression is a value; only the name of a type is not. -/
def expressionIsValue (t : NameTable) (e : Expr) : Bool := e.skipParens.ident?.all t.mayBeValue

/-- Whether an import assignment gives its name a value. -/
def importEqualsIsValue (t : NameTable) (kind : Reference) (value : Expr) : Bool :=
  match kind with
  | .require => true
  | .entity => value.root?.all t.mayBeValue

end RegisterForm.NameTable
