import RegisterForm.Tree.Node
/-!
# Shapes of expressions and patterns

What can be read off the outside of a node, and the identifiers that a pattern binds.
-/
namespace RegisterForm

/-- The expression inside any number of parentheses. -/
def Expr.skipParens : Expr → Expr
  | .paren inner => inner.skipParens
  | e => e

def Expr.ident? : Expr → Option Ident
  | .ident x => some x
  | _ => none

/-- The text of a string literal, the only readable form of a module specifier. -/
def Expr.string? : Expr → Option String
  | .literal (.string s) => some s
  | _ => none

/-- The leftmost identifier of a dotted name. -/
def Expr.root? : Expr → Option Ident
  | .ident x => some x
  | .paren inner => inner.root?
  | .member owner _ _ => owner.root?
  | .index owner _ _ => owner.root?
  | _ => none

/-- The text of a key that is known before the program runs. -/
def Key.text? : Key → Option String
  | .name s | .string s | .number s => some s
  | .computed _ => none

def Pattern.ident? : Pattern → Option Ident
  | .ident x => some x
  | _ => none

def Pattern.isDestructuring : Pattern → Bool
  | .object _ _ | .array _ _ => true
  | _ => false

/-- The statements of an arrow function's body; an expression is none. -/
def ArrowBody.statements : ArrowBody → List Stmt
  | .block body => body
  | .expr _ => []

mutual

/-- The identifiers a pattern binds, in source order. Fallbacks and computed keys bind none. -/
def Pattern.boundIdents : Pattern → List Ident
  | .ident x => [x]
  | .expr _ => []
  | .object properties rest => propertyIdents properties ++ restIdents rest
  | .array elements rest => elementIdents elements ++ restIdents rest

def PatternProperty.boundIdents : PatternProperty → List Ident
  | .keyed _ target _ => target.boundIdents
  | .shorthand x _ => [x]

def PatternElement.boundIdents : PatternElement → List Ident
  | ⟨target, _⟩ => target.boundIdents

def propertyIdents : List PatternProperty → List Ident
  | [] => []
  | p :: ps => p.boundIdents ++ propertyIdents ps

def slotIdents : Option PatternElement → List Ident
  | none => []
  | some e => e.boundIdents

def elementIdents : List (Option PatternElement) → List Ident
  | [] => []
  | e :: es => slotIdents e ++ elementIdents es

def restIdents : Option Pattern → List Ident
  | none => []
  | some p => p.boundIdents

end

/-- The names a pattern binds, in source order. -/
def Pattern.boundNames (p : Pattern) : List String := p.boundIdents.map Ident.name

/-- The identifiers a declaration list binds, in source order. -/
def VarList.boundIdents (list : VarList) : List Ident :=
  list.declarators.flatMap (·.target.boundIdents)

end RegisterForm
