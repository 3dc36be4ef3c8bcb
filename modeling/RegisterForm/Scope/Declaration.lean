import RegisterForm.Scope.Symbol
import RegisterForm.Tree.Shape
/-!
# Declarations

The bindings that a list of statements makes, read off the tree before anything is resolved:
those of `var`, which belong to the whole function or module, and the lexical ones, which
belong to the scope that holds the statements.
-/
namespace RegisterForm

/-- The same roles for every identifier. -/
def bindingsOf (roles : Roles) (xs : List Ident) : List Binding := xs.map fun x => ⟨x, roles, none⟩

/-- The bindings of a `var` list; a block-scoped list makes none that are hoisted. -/
def VarList.varBindings (isExported : Bool) (list : VarList) : List Binding :=
  if list.kind.isBlockScoped then []
  else bindingsOf { isVariable := true, isExported } list.boundIdents

/-- The bindings of a `let` or `const` list; a `var` list makes none in its own scope. -/
def VarList.lexicalBindings (isExported : Bool) (list : VarList) : List Binding :=
  if list.kind.isBlockScoped then bindingsOf { isLexical := true, isExported } list.boundIdents
  else []

def ForInit.varBindings : ForInit → List Binding
  | .var list => list.varBindings false
  | _ => []

def ForInit.lexicalBindings : ForInit → List Binding
  | .var list => list.lexicalBindings false
  | _ => []

def ForHead.varBindings : ForHead → List Binding
  | .var list => list.varBindings false
  | _ => []

def ForHead.lexicalBindings : ForHead → List Binding
  | .var list => list.lexicalBindings false
  | _ => []

/-- A loop head with a lexical list opens a scope, even if the list is empty. -/
def ForInit.isLexical : ForInit → Bool
  | .var list => list.kind.isBlockScoped
  | _ => false

def ForHead.isLexical : ForHead → Bool
  | .var list => list.kind.isBlockScoped
  | _ => false

mutual

/-- The `var` bindings in a statement, at any depth of blocks but not inside functions. -/
def Stmt.varBindings : Stmt → List Binding
  | .var modifiers list => list.varBindings modifiers.isExported
  | .block body => blockVarBindings body
  | .ifThen _ yes => yes.varBindings
  | .ifElse _ yes no => yes.varBindings ++ no.varBindings
  | .forLoop init _ _ body => init.varBindings ++ body.varBindings
  | .forIn head _ body => head.varBindings ++ body.varBindings
  | .forOf head _ body _ => head.varBindings ++ body.varBindings
  | .whileLoop _ body => body.varBindings
  | .doWhile body _ => body.varBindings
  | .labeled _ body => body.varBindings
  | .withObject _ body => body.varBindings
  | .tryCatch body handler finalizer =>
    blockVarBindings body ++ catchVarBindings handler ++ finallyVarBindings finalizer
  | .switch _ cases => casesVarBindings cases
  | _ => []

def blockVarBindings : List Stmt → List Binding
  | [] => []
  | s :: ss => s.varBindings ++ blockVarBindings ss

def catchVarBindings : Option Catch → List Binding
  | none => []
  | some ⟨_, body⟩ => blockVarBindings body

def finallyVarBindings : Option (List Stmt) → List Binding
  | none => []
  | some body => blockVarBindings body

def casesVarBindings : List Case → List Binding
  | [] => []
  | ⟨_, body⟩ :: cases => blockVarBindings body ++ casesVarBindings cases

end

/-- The bindings of an import clause; a type-only import gives no value. -/
def ImportClause.bindingsOf (declaration : NodeId) (isTypeOnly : Bool) (c : ImportClause) :
    List Binding :=
  let binding (x : Ident) (isTypeOnly : Bool) (kind : ImportKind) : Binding :=
    ⟨x, { isImport := true, isTypeOnly }, some ⟨declaration, kind⟩⟩
  c.default.toList.map (binding · isTypeOnly .default)
    ++ match c.bindings with
      | none => []
      | some (.star x) => [binding x isTypeOnly .star]
      | some (.named specifiers) => specifiers.map fun s =>
          binding s.binding (isTypeOnly || s.isTypeOnly) (.named s.importedName)

/-- The bindings a statement makes in the scope it stands in. Imports bind in a module only. -/
def Stmt.lexicalBindings (inModule : Bool) : Stmt → List Binding
  | .var modifiers list => list.lexicalBindings modifiers.isExported
  | .function modifiers f =>
    bindingsOf { isFunction := true, isExported := modifiers.isExported } f.name.toList
  | .classDecl modifiers c =>
    bindingsOf { isClass := true, isExported := modifiers.isExported } c.name.toList
  | .ambient name _ => bindingsOf { isTypeOnly := true } [name]
  | .importFrom site clause _ isTypeOnly =>
    if inModule then clause.toList.flatMap (·.bindingsOf site.id isTypeOnly) else []
  | .importEquals site isExported name kind _ =>
    if inModule then
      [⟨name, { isImport := true, isExported }, match kind with
        | .require => some ⟨site.id, .equals⟩
        | .entity => none⟩]
    else []
  | _ => []

def blockLexicalBindings (inModule : Bool) (stmts : List Stmt) : List Binding :=
  stmts.flatMap (·.lexicalBindings inModule)

/-- The bindings of a parameter list. -/
def paramBindings (params : List Param) : List Binding :=
  params.flatMap fun p => bindingsOf { isParameter := true } p.pattern.boundIdents

/-- The bindings of a catch clause's parameter. -/
def catchBindings (param : Option Pattern) : List Binding :=
  param.toList.flatMap fun p => bindingsOf { isCaught := true } p.boundIdents

end RegisterForm
