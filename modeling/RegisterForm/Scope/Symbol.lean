import RegisterForm.Tree.Ident
/-!
# Symbols and scopes

A symbol is what all declarations of one name in one scope make together. It collects the
roles in which it is declared; whether it stands for a value follows from them.
-/
namespace RegisterForm

/-- The ways in which a name is declared. -/
structure Roles where
  /-- A `var`. -/
  isVariable : Bool := false
  /-- A `let` or `const`. -/
  isLexical : Bool := false
  isFunction : Bool := false
  isClass : Bool := false
  isParameter : Bool := false
  isCaught : Bool := false
  /-- An import binding or an import assignment. -/
  isImport : Bool := false
  /-- A declaration without a runtime form. -/
  isTypeOnly : Bool := false
  /-- Exported by the module. -/
  isExported : Bool := false
  deriving DecidableEq, Repr, Inhabited

namespace Roles

/-- The roles of a name declared in both ways. -/
def union (a b : Roles) : Roles where
  isVariable := a.isVariable || b.isVariable
  isLexical := a.isLexical || b.isLexical
  isFunction := a.isFunction || b.isFunction
  isClass := a.isClass || b.isClass
  isParameter := a.isParameter || b.isParameter
  isCaught := a.isCaught || b.isCaught
  isImport := a.isImport || b.isImport
  isTypeOnly := a.isTypeOnly || b.isTypeOnly
  isExported := a.isExported || b.isExported

theorem union_self (a : Roles) : a.union a = a := by simp [union]

/-- The order of two declarations does not matter for what they make of a name. -/
theorem union_comm (a b : Roles) : a.union b = b.union a := by simp [union, Bool.or_comm]

theorem union_assoc (a b c : Roles) : (a.union b).union c = a.union (b.union c) := by
  simp [union, Bool.or_assoc]

/-- Whether some declaration gives the name a value and none is type-only. -/
def isValue (r : Roles) : Bool :=
  (r.isVariable || r.isLexical || r.isFunction || r.isClass || r.isParameter || r.isCaught
    || r.isImport) && !r.isTypeOnly

end Roles

/-- What an imported binding stands for in the other module. -/
inductive ImportKind where
  | default
  | star
  | named (imported : String)
  | equals
  deriving DecidableEq, Repr

/-- The import declaration that a name comes from. -/
structure ImportOrigin where
  declaration : NodeId
  kind : ImportKind
  deriving DecidableEq, Repr

/-- The place of a symbol in the order of declaration. -/
abbrev SymbolId := Nat

/-- The place of a scope in the order of entry. -/
abbrev ScopeId := Nat

structure Symbol where
  name : String
  roles : Roles
  /-- The identifier that declared the name first. -/
  declaration : NodeId
  scope : ScopeId
  origin : Option ImportOrigin := none
  deriving DecidableEq, Repr

/-- One identifier that declares a name. -/
structure Binding where
  ident : Ident
  roles : Roles
  origin : Option ImportOrigin := none
  deriving DecidableEq, Repr

inductive ScopeKind where
  | module
  | function
  | block
  | catch
  /-- Holds the name of a named function or class expression and nothing else. -/
  | expressionName
  deriving DecidableEq, Repr

/-- Whether a `var` declared further in belongs to this scope. -/
def ScopeKind.holdsVars : ScopeKind → Bool
  | module | function => true
  | _ => false

structure Scope where
  kind : ScopeKind
  parent : Option ScopeId
  symbols : List (String × SymbolId) := []
  deriving DecidableEq, Repr

end RegisterForm
