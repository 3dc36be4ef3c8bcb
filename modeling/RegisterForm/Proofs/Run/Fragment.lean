import RegisterForm.Proofs.Run.Machine
import RegisterForm.Proofs.Scope.Module
import RegisterForm.Lowering.TopLevel
/-!
# Modules of arithmetic

The modules that the machine runs: whole numbers, variables, imported names and their operators, in
blocks, branches and loops. Their names keep to the rules of the language.
-/
namespace RegisterForm

/-! ## The fragment -/

mutual

def Expr.isArithmetic : Expr → Bool
  | .ident _ => true
  | .literal value => value.value?.isSome
  | .binary op left right => op.isArithmetic && left.isArithmetic && right.isArithmetic
  | .assign op target value =>
    (op == .plain || op.binary?.isSome) && target.ident?.isSome && value.isArithmetic
  | .update _ _ arg => arg.skipParens.ident?.isSome
  | .conditional test yes no => test.isArithmetic && yes.isArithmetic && no.isArithmetic
  | .sequence exprs => !exprs.isEmpty && areArithmetic exprs
  | .paren inner => inner.isArithmetic
  | _ => false

def areArithmetic : List Expr → Bool
  | [] => true
  | e :: es => e.isArithmetic && areArithmetic es

end

/-- A declaration of one name with a value. -/
def Declarator.isArithmetic (d : Declarator) : Bool :=
  d.target.ident?.isSome && d.init.any (·.isArithmetic)

def VarList.isArithmetic (list : VarList) : Bool := list.declarators.all (·.isArithmetic)

def ForInit.isArithmetic : ForInit → Bool
  | .absent => true
  | .var list => list.isArithmetic
  | .expr e => e.isArithmetic

mutual

/-- Lexical declarations stand in lists of statements only. -/
def Stmt.isArithmetic (inList : Bool) : Stmt → Bool
  | .expr e => e.isArithmetic
  | .var _ list => (inList || list.kind == .var) && list.isArithmetic
  | .block body => stmtsArithmetic body
  | .ifThen test yes => test.isArithmetic && yes.isArithmetic false
  | .ifElse test yes no => test.isArithmetic && yes.isArithmetic false && no.isArithmetic false
  | .forLoop init test update body =>
    init.isArithmetic && test.all (·.isArithmetic) && update.all (·.isArithmetic)
      && body.isArithmetic false
  | .whileLoop test body => test.isArithmetic && body.isArithmetic false
  | .empty => true
  | _ => false

def stmtsArithmetic : List Stmt → Bool
  | [] => true
  | s :: ss => s.isArithmetic true && stmtsArithmetic ss

end

/-- An import, or a local export clause. -/
def Stmt.isClause : Stmt → Bool
  | .importFrom .. | .importEquals _ _ _ .require _ => true
  | .exportFrom _ (some (.named _)) none _ => true
  | _ => false

/-! ## Names of the module -/

/-- The import that a binding of the module stands for. -/
def Binding.importOrigin? (b : Binding) : Option ImportOrigin :=
  if b.roles.isTypeOnly then none else b.origin

/-- What an imported name reads of the other module; the import of a whole module reads it all. -/
def ImportKind.property? : ImportKind → Option String
  | .default => some "default"
  | .named name => some name
  | .star | .equals => none

namespace SourceFile

/-- The variables of the module: what it declares and does not import. -/
def variableNames (file : SourceFile) : List String :=
  (file.bindings.filter fun b => !b.roles.isImport).map (·.ident.name)

/-- The declaration that declares a name in the module. -/
def binding? (file : SourceFile) (name : String) : Option Binding :=
  file.bindings.find? (·.ident.name == name)

/-- The import that a name of the module stands for. -/
def imported? (file : SourceFile) (name : String) : Option ImportOrigin :=
  (file.binding? name).bind Binding.importOrigin?

/-- A variable of a block around the place, or else one of the module. -/
def isVariable (file : SourceFile) (scopes : List (List String)) (x : Ident) : Bool :=
  decide (x.name ∈ scopes.flatten ∨ x.name ∈ file.variableNames)

def isReadable (file : SourceFile) (scopes : List (List String)) (x : Ident) : Bool :=
  file.isVariable scopes x || (file.imported? x.name).isSome

end SourceFile

/-! ## Names in scope -/

/-- The scopes inside the head of a counting loop. -/
def ForInit.around (init : ForInit) (scopes : List (List String)) : List (List String) :=
  if init.isLexical then init.lexicalNames :: scopes else scopes

section
variable (file : SourceFile)

mutual

/-- The names in an expression are those of variables in scope or of imported values, and only
variables are written. -/
def Expr.isScoped (scopes : List (List String)) : Expr → Bool
  | .ident x => file.isReadable scopes x
  | .binary _ left right => left.isScoped scopes && right.isScoped scopes
  | .assign _ target value =>
    target.ident?.all (file.isVariable scopes) && value.isScoped scopes
  | .update _ _ arg => arg.skipParens.ident?.all (file.isVariable scopes)
  | .conditional test yes no =>
    test.isScoped scopes && yes.isScoped scopes && no.isScoped scopes
  | .sequence exprs => exprsScoped scopes exprs
  | .paren inner => inner.isScoped scopes
  | _ => true

def exprsScoped (scopes : List (List String)) : List Expr → Bool
  | [] => true
  | e :: es => e.isScoped scopes && exprsScoped scopes es

end

/-- What is hoisted is declared as a variable of the module, and not under a lexical one of its name;
what is not, by a block around. -/
def Declarator.isScoped (scopes : List (List String)) (isHoisted : Bool) (d : Declarator) : Bool :=
  (d.target.ident?.all fun x =>
      if isHoisted then decide (x.name ∉ scopes.flatten ∧ x.name ∈ file.variableNames)
      else decide (x.name ∈ scopes.flatten))
    && d.init.all (·.isScoped file scopes)

def VarList.isScoped (scopes : List (List String)) (isHoisted : Bool) (list : VarList) : Bool :=
  list.declarators.all (·.isScoped file scopes isHoisted)

def ForInit.isScoped (scopes : List (List String)) : ForInit → Bool
  | .absent => true
  | .var list => list.isScoped file scopes (list.kind == .var)
  | .expr e => e.isScoped file scopes

mutual

/-- The names of export clauses are left out: what they stand for is what the module declares. -/
def Stmt.isScoped (place : Place) (scopes : List (List String)) : Stmt → Bool
  | .expr e => e.isScoped file scopes
  | .var _ list => list.isScoped file scopes (place.takesApart list.kind)
  | .block body => stmtsScoped place.inner (lexicalNames body :: scopes) body
  | .ifThen test yes => test.isScoped file scopes && yes.isScoped place.inner scopes
  | .ifElse test yes no =>
    test.isScoped file scopes && yes.isScoped place.inner scopes && no.isScoped place.inner scopes
  | .forLoop init test update body =>
    init.isScoped file (init.around scopes) && test.all (·.isScoped file (init.around scopes))
      && update.all (·.isScoped file (init.around scopes))
      && body.isScoped place.inner (init.around scopes)
  | .whileLoop test body => test.isScoped file scopes && body.isScoped place.inner scopes
  | _ => true

def stmtsScoped (place : Place) (scopes : List (List String)) : List Stmt → Bool
  | [] => true
  | s :: ss => s.isScoped place scopes && stmtsScoped place scopes ss

end
end

/-- A module of arithmetic that keeps to the rules of the language. -/
structure SourceFile.IsArithmetic (file : SourceFile) : Prop where
  fragment : ∀ s ∈ file.statements, s.isClause = true ∨ s.isArithmetic true = true
  /-- Each name of the module is declared once. -/
  once : (file.bindings.map (·.ident.name)).Nodup
  inScope : stmtsScoped file .topLevel [] file.statements = true

end RegisterForm
