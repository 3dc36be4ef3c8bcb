import RegisterForm.Tree.Construct
/-!
# Numbered trees

Source trees written by hand, with identities given out in the order in which identifiers
and declarations are made. The parts of a declaration are made before the declaration
itself, except that an export name and an import assignment are numbered before their
identifiers.
-/
namespace RegisterForm

/-- A construction that draws identities from a counter. -/
abbrev Builder := StateM Nat

namespace Builder

def freshId : Builder NodeId := fun n => (.numbered n, n + 1)

def ident (name : String) : Builder Ident := do return ⟨← freshId, name⟩

def ref (name : String) : Builder Expr := do return .ident (← ident name)

def binding (name : String) : Builder Pattern := do return .ident (← ident name)

def param (name : String) : Builder Param := do return .ofPattern (← binding name)

def identIfNamed : Option String → Builder (Option Ident)
  | none => return none
  | some name => return some (← ident name)

/-! ## Expressions -/

def assign (op : AssignOp) (name : String) (value : Expr) : Builder Expr :=
  return .assign op (← binding name) value

def update (op : UpdateOp) (isPrefix : Bool) (name : String) : Builder Expr :=
  return .update op isPrefix (← ref name)

def func (name : Option String) (params : List Param) (body : List Stmt) : Builder Func :=
  return ⟨← identIfNamed name, params, body, false, false⟩

def classNode (name : Option String) (base : Option Expr) (members : List ClassMember) :
    Builder Class :=
  return ⟨← identIfNamed name, base, members⟩

/-! ## Declarations -/

/-- A declaration of one name. -/
def variableDecl (modifiers : Modifiers) (kind : VarKind) (name : String) (init : Option Expr) :
    Builder Stmt :=
  return .var modifiers ⟨kind, [⟨← binding name, init⟩]⟩

def functionDecl (modifiers : Modifiers) (name : Option String) (params : List Param)
    (body : List Stmt) : Builder Stmt :=
  return .function modifiers (← func name params body)

def classDecl (modifiers : Modifiers) (name : Option String) (members : List ClassMember) :
    Builder Stmt :=
  return .classDecl modifiers (← classNode name none members)

def ambient (name : String) (isExported : Bool) : Builder Stmt :=
  return .ambient (← ident name) isExported

def sourceFile (name : String) (statements : List Stmt) : Builder SourceFile :=
  return ⟨← freshId, name, statements, none, []⟩

/-! ## Imports -/

def importFrom (clause : Option ImportClause) (specifier : String) (isTypeOnly : Bool) :
    Builder Stmt :=
  return .importFrom ⟨← freshId, {}⟩ clause (.ofString specifier) isTypeOnly

/-- Specifiers from pairs of the imported and the local name. -/
def importSpecifiers : List (String × String) → Builder (List ImportSpecifier)
  | [] => return []
  | (imported, name) :: names => do
    let binding ← ident name
    let specifiers ← importSpecifiers names
    return ⟨if imported = name then none else some imported, binding, false⟩ :: specifiers

def importDefault (name specifier : String) : Builder Stmt := do
  importFrom (some ⟨some (← ident name), none⟩) specifier false

def importStar (name specifier : String) : Builder Stmt := do
  importFrom (some ⟨none, some (.star (← ident name))⟩) specifier false

def importNamed (default : Option String) (names : List (String × String)) (specifier : String)
    (isTypeOnly : Bool) : Builder Stmt := do
  let default ← identIfNamed default
  let specifiers ← importSpecifiers names
  importFrom (some ⟨default, some (.named specifiers)⟩) specifier isTypeOnly

def importEquals (name : String) (kind : Reference) (value : Expr) (isExported : Bool) :
    Builder Stmt := do
  let id ← freshId
  return .importEquals ⟨id, {}⟩ isExported (← ident name) kind value

/-! ## Exports -/

def exportSpecifier (source exported : String) : Builder ExportSpecifier := do
  let id ← freshId
  return ⟨id, ← ident source, if exported = source then none else some exported, false⟩

/-- Specifiers from pairs of the local and the exported name. -/
def exportSpecifiers : List (String × String) → Builder (List ExportSpecifier)
  | [] => return []
  | (source, exported) :: names => do
    let specifier ← exportSpecifier source exported
    return specifier :: (← exportSpecifiers names)

def exportFrom (clause : Option ExportClause) (specifier : Option String) : Builder Stmt :=
  return .exportFrom ⟨← freshId, {}⟩ clause (specifier.map .ofString) false

def exportNamed (names : List (String × String)) (specifier : Option String) : Builder Stmt := do
  exportFrom (some (.named (← exportSpecifiers names))) specifier

def exportStarAs (name specifier : String) : Builder Stmt := do
  exportFrom (some (.star (← ident name))) (some specifier)

def exportValue (form : ExportForm) (value : Expr) : Builder Stmt :=
  return .exportValue ⟨← freshId, {}⟩ form value

end Builder
end RegisterForm
