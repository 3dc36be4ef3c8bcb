import RegisterForm.Tree.Node
import RegisterForm.Text.Split
/-!
# Made-up nodes

Short ways to write the nodes that a pass adds. Their identifiers are synthetic.
-/
namespace RegisterForm

namespace Expr

/-- A reference to a name. -/
def ofName (name : String) : Expr := .ident (.synthetic name)

def ofString (value : String) : Expr := .literal (.string value)

def ofNumber (source : String) : Expr := .literal (.number source)

def ofBool (value : Bool) : Expr := .literal (.boolean value)

/-- `void 0` -/
def voidZero : Expr := .unary .void (ofNumber "0")

/-- `callee(args)` -/
def apply (callee : Expr) (args : List Expr) : Expr := .call callee args false

/-- `owner.name` -/
def dot (owner : Expr) (name : String) : Expr := .member owner name false

/-- `owner[key]` -/
def lookup (owner key : Expr) : Expr := .index owner key false

/-- A path such as `System.register`, its first part a name and the others properties. -/
def ofPath (path : String) : Expr :=
  let (head, parts) := Text.split '.' path.toList
  parts.foldl (fun e part => e.dot (String.ofList part)) (ofName (String.ofList head))

/-- `target = value` -/
def assignTo (target : Pattern) (value : Expr) : Expr := .assign .plain target value

/-- `name = value` -/
def assignName (name : String) (value : Expr) : Expr := assignTo (.ident (.synthetic name)) value

/-- `!e` -/
def negate (e : Expr) : Expr := .unary .not e

/-- The expressions joined by commas; one alone needs no comma. -/
def ofList : List Expr → Option Expr
  | [] => none
  | [e] => some e
  | e₁ :: e₂ :: es => some (.sequence (e₁ :: e₂ :: es))

/-- An array literal without holes. -/
def arrayOf (elements : List Expr) : Expr := .array (elements.map some)

/-- `function name(params) { body }`, neither asynchronous nor a generator. -/
def functionOf (name : Option String) (params : List Param) (body : List Stmt) : Expr :=
  .function ⟨name.map .synthetic, params, body, false, false⟩

end Expr

def Declarator.ofName (name : String) (init : Option Expr) : Declarator :=
  ⟨.ident (.synthetic name), init⟩

namespace Stmt

/-- `var a, b, c;` -/
def varNames (names : List String) : Stmt :=
  .var {} ⟨.var, names.map (Declarator.ofName · none)⟩

/-- `var name = init;` -/
def varInit (name : String) (init : Option Expr) : Stmt :=
  .var {} ⟨.var, [.ofName name init]⟩

/-- `function name(params) { body }` -/
def functionNamed (name : String) (params : List Param) (body : List Stmt) : Stmt :=
  .function {} ⟨some (.synthetic name), params, body, false, false⟩

/-- One statement for a slot that holds just one. -/
def ofList : List Stmt → Stmt
  | [] => .empty
  | [s] => s
  | s₁ :: s₂ :: ss => .block (s₁ :: s₂ :: ss)

end Stmt

/-- A parameter without a fallback. -/
def Param.ofPattern (p : Pattern) : Param := ⟨p, none, false⟩

def Param.ofName (name : String) : Param := .ofPattern (.ident (.synthetic name))

/-- `name: value` -/
def Property.ofName (name : String) (value : Expr) : Property := .keyed (.name name) value

/-- `"name": value` -/
def Property.ofString (name : String) (value : Expr) : Property := .keyed (.string name) value

end RegisterForm
