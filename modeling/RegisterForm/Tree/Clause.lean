import RegisterForm.Tree.Ident
/-!
# Import and export clauses

The parts of module declarations that hold names only, and the small marks of other
declarations.
-/
namespace RegisterForm

/-- The identity and place of a module declaration. -/
structure Site where
  id : NodeId
  span : Span := {}
  deriving DecidableEq, Repr, Inhabited

/-- One binding of an import clause. -/
structure ImportSpecifier where
  /-- The name in the other module, where it differs from the local one. -/
  imported : Option String := none
  binding : Ident
  isTypeOnly : Bool := false
  deriving DecidableEq, Repr

def ImportSpecifier.importedName (s : ImportSpecifier) : String :=
  s.imported.getD s.binding.name

/-- What stands beside the default binding of an import clause. -/
inductive ImportBindings where
  | star (x : Ident)
  | named (specifiers : List ImportSpecifier)
  deriving DecidableEq, Repr

structure ImportClause where
  default : Option Ident := none
  bindings : Option ImportBindings := none
  deriving DecidableEq, Repr

/-- One name of an export clause. -/
structure ExportSpecifier where
  id : NodeId
  /-- The binding of this module, or the name in the other module of a re-export. -/
  source : Ident
  /-- The exported name, where it differs. -/
  exported : Option String := none
  isTypeOnly : Bool := false
  deriving DecidableEq, Repr

def ExportSpecifier.exportedName (s : ExportSpecifier) : String :=
  s.exported.getD s.source.name

inductive ExportClause where
  | named (specifiers : List ExportSpecifier)
  | star (x : Ident)
  deriving DecidableEq, Repr

/-- What the right side of an import assignment names: another module or an entity of this one. -/
inductive Reference where
  | require
  | entity
  deriving DecidableEq, Repr

/-- The two declarations that export the value of an expression. -/
inductive ExportForm where
  | default
  | equals
  deriving DecidableEq, Repr

/-- The export modifiers of a declaration. -/
structure Modifiers where
  isExported : Bool := false
  isDefault : Bool := false
  deriving DecidableEq, Repr

inductive MethodKind where
  | method | getter | setter | constructor
  deriving DecidableEq, Repr

/-- Literals; numbers and regular expressions keep their source text. -/
inductive Literal where
  | string (value : String)
  | number (source : String)
  | boolean (value : Bool)
  | null
  | regex (pattern flags : String)
  deriving DecidableEq, Repr

end RegisterForm
