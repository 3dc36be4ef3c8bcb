import RegisterForm.Tree.Clause
import RegisterForm.Tree.Operator
/-!
# Syntax trees

The trees of a module: expressions, patterns, functions, classes and statements. One family
of patterns serves declarations and assignments; only the targets of assignments hold
expressions.
-/
namespace RegisterForm

mutual

inductive Expr where
  | ident (x : Ident)
  | literal (value : Literal)
  /-- The text chunks of a template and the expressions between them. -/
  | template (chunks : List String) (parts : List Expr)
  | tagged (tag : Expr) (chunks : List String) (parts : List Expr)
  | this
  | super
  /-- The element `none` is a hole. -/
  | array (elements : List (Option Expr))
  | object (properties : List Property)
  | function (f : Func)
  | arrow (params : List Param) (body : ArrowBody) (isAsync : Bool)
  | classExpr (c : Class)
  | unary (op : UnaryOp) (arg : Expr)
  | update (op : UpdateOp) (isPrefix : Bool) (arg : Expr)
  | binary (op : BinaryOp) (left right : Expr)
  | assign (op : AssignOp) (target : Pattern) (value : Expr)
  | conditional (test yes no : Expr)
  | call (callee : Expr) (args : List Expr) (isOptional : Bool)
  /-- A construction without an argument list. -/
  | newBare (callee : Expr)
  | newCall (callee : Expr) (args : List Expr)
  | member (owner : Expr) (name : String) (isOptional : Bool)
  | index (owner key : Expr) (isOptional : Bool)
  | sequence (exprs : List Expr)
  | paren (inner : Expr)
  | yield (arg : Option Expr) (isDelegate : Bool)
  | await (arg : Expr)
  | spread (arg : Expr)
  | importCall (specifier : Expr)
  | importMeta

/-- The key of a property. -/
inductive Key where
  | name (text : String)
  | string (text : String)
  | number (source : String)
  | computed (e : Expr)

/-- A property of an object literal. -/
inductive Property where
  | keyed (key : Key) (value : Expr)
  | shorthand (x : Ident)
  | method (key : Key) (kind : MethodKind) (f : Func)
  | spread (e : Expr)

inductive Pattern where
  | ident (x : Ident)
  | expr (e : Expr)
  | object (properties : List PatternProperty) (rest : Option Pattern)
  /-- The element `none` is a hole. -/
  | array (elements : List (Option PatternElement)) (rest : Option Pattern)

inductive PatternProperty where
  | keyed (key : Key) (target : Pattern) (fallback : Option Expr)
  | shorthand (x : Ident) (fallback : Option Expr)

structure PatternElement where
  target : Pattern
  fallback : Option Expr

structure Param where
  pattern : Pattern
  fallback : Option Expr
  isRest : Bool

structure Func where
  name : Option Ident
  params : List Param
  body : List Stmt
  isAsync : Bool
  isGenerator : Bool

inductive ArrowBody where
  | block (body : List Stmt)
  | expr (e : Expr)

structure Class where
  name : Option Ident
  base : Option Expr
  members : List ClassMember

inductive ClassMember where
  | method (key : Key) (kind : MethodKind) (isStatic : Bool) (f : Func)
  | field (key : Key) (isStatic : Bool) (value : Option Expr)
  | staticBlock (body : List Stmt)

structure Declarator where
  target : Pattern
  init : Option Expr

structure VarList where
  kind : VarKind
  declarators : List Declarator

/-- What stands before the first semicolon of a counting loop. -/
inductive ForInit where
  | absent
  | var (list : VarList)
  | expr (e : Expr)

/-- What an enumerating loop assigns on each round. -/
inductive ForHead where
  | var (list : VarList)
  | pattern (p : Pattern)

structure Catch where
  param : Option Pattern
  body : List Stmt

/-- A branch of a switch; the default branch has no test. -/
structure Case where
  test : Option Expr
  body : List Stmt

inductive Stmt where
  | expr (e : Expr)
  | var (modifiers : Modifiers) (list : VarList)
  | function (modifiers : Modifiers) (f : Func)
  | classDecl (modifiers : Modifiers) (c : Class)
  /-- An import without a clause is made for its effects. -/
  | importFrom (site : Site) (clause : Option ImportClause) (specifier : Expr) (isTypeOnly : Bool)
  | importEquals (site : Site) (isExported : Bool) (name : Ident) (kind : Reference) (value : Expr)
  /-- An export with a specifier and no clause forwards all names of the other module. -/
  | exportFrom (site : Site) (clause : Option ExportClause) (specifier : Option Expr)
      (isTypeOnly : Bool)
  | exportValue (site : Site) (form : ExportForm) (value : Expr)
  /-- A declaration without a runtime form: an interface, a type or a declared binding. -/
  | ambient (name : Ident) (isExported : Bool)
  | block (body : List Stmt)
  | ifThen (test : Expr) (yes : Stmt)
  | ifElse (test : Expr) (yes no : Stmt)
  | forLoop (init : ForInit) (test update : Option Expr) (body : Stmt)
  | forIn (head : ForHead) (object : Expr) (body : Stmt)
  | forOf (head : ForHead) (iterable : Expr) (body : Stmt) (isAwait : Bool)
  | whileLoop (test : Expr) (body : Stmt)
  | doWhile (body : Stmt) (test : Expr)
  | tryCatch (body : List Stmt) (handler : Option Catch) (finalizer : Option (List Stmt))
  | switch (subject : Expr) (cases : List Case)
  | labeled (label : String) (body : Stmt)
  | withObject (object : Expr) (body : Stmt)
  | ret (arg : Option Expr)
  | throw (arg : Expr)
  | breakTo (label : Option String)
  | continueTo (label : Option String)
  | empty
  | debugger

end

/-- A module as it is handed in. -/
structure SourceFile where
  id : NodeId
  name : String
  statements : List Stmt
  /-- The name under which the module registers, if it has one. -/
  moduleName : Option String := none
  /-- Replacements of module specifiers; of two for one specifier the later holds. -/
  renames : List (String × String) := []

/-- The name a module specifier stands for. -/
def SourceFile.resolveSpecifier (file : SourceFile) (specifier : String) : String :=
  (file.renames.reverse.lookup specifier).getD specifier

end RegisterForm
