import RegisterForm.Scope.Table
import RegisterForm.Scope.Declaration
/-!
# Binding

Every scope is filled before its statements are read, so that a reference finds its
declaration wherever in the scope that stands. Reading then resolves each reference in the
scopes open around it. Past the deepest level nothing is read.
-/
namespace RegisterForm

namespace NameTable

/-- Declares what a body declares in the scope just opened for it. -/
def declareBody (inModule : Bool) (body : List Stmt) (t : NameTable) : NameTable :=
  (t.declareVars (blockVarBindings body)).declareAll (blockLexicalBindings inModule body)

/-- Runs a step with the name of a function or class expression in a scope of its own. -/
def inNameScope (isExpression : Bool) (name : Option Ident) (roles : Roles)
    (step : NameTable → NameTable) (t : NameTable) : NameTable :=
  match name with
  | some x =>
    if isExpression then t.inScope .expressionName fun t => step (t.declare ⟨x, roles, none⟩)
    else step t
  | none => step t

/-- Resolves the names of a local export clause and notes what each refers to. -/
def bindSpecifiers (specifiers : List ExportSpecifier) (t : NameTable) : NameTable :=
  specifiers.foldl (fun t s =>
    let t := t.resolve s.source
    match t.ofIdent.lookup s.source.id with
    | none => t
    | some id => { t with ofSpecifier := (s.id, id) :: t.ofSpecifier }) t

end NameTable

mutual

def Expr.bind (e : Expr) (t : NameTable) : NameTable :=
  t.deeper fun t => match e with
    | .ident x => t.resolve x
    | .literal _ | .this | .super | .importMeta => t
    | .template _ parts => bindExprs parts t
    | .tagged tag _ parts => bindExprs parts (tag.bind t)
    | .array elements => bindSlots elements t
    | .object properties => bindProperties properties t
    | .function f => f.bind true t
    | .arrow params body _ =>
      t.inScope .function fun t =>
        body.bind (bindParams params
          ((t.declareAll (paramBindings params)).declareBody false body.statements))
    | .classExpr c => c.bind true t
    | .unary _ arg => arg.bind t
    | .update _ _ arg => arg.bind t
    | .binary _ left right => right.bind (left.bind t)
    | .assign _ target value => value.bind (target.bind t)
    | .conditional test yes no => no.bind (yes.bind (test.bind t))
    | .call callee args _ => bindExprs args (callee.bind t)
    | .newBare callee => callee.bind t
    | .newCall callee args => bindExprs args (callee.bind t)
    | .member owner _ _ => owner.bind t
    | .index owner key _ => key.bind (owner.bind t)
    | .sequence exprs => bindExprs exprs t
    | .paren inner => inner.bind t
    | .yield arg _ => bindExpr? arg t
    | .await arg => arg.bind t
    | .spread arg => arg.bind t
    | .importCall specifier => specifier.bind t

def bindExprs : List Expr → NameTable → NameTable
  | [], t => t
  | e :: es, t => bindExprs es (e.bind t)

def bindExpr? : Option Expr → NameTable → NameTable
  | none, t => t
  | some e, t => e.bind t

def bindSlots : List (Option Expr) → NameTable → NameTable
  | [], t => t
  | e :: es, t => bindSlots es (bindExpr? e t)

def Key.bind : Key → NameTable → NameTable
  | .name _, t | .string _, t | .number _, t => t
  | .computed e, t => e.bind t

def Property.bind : Property → NameTable → NameTable
  | .keyed key value, t => value.bind (key.bind t)
  | .shorthand x, t => t.resolve x
  | .method key _ f, t => f.bind false (key.bind t)
  | .spread e, t => e.bind t

def bindProperties : List Property → NameTable → NameTable
  | [], t => t
  | p :: ps, t => bindProperties ps (p.bind t)

/-- The identifiers of a declared pattern already stand for their symbols; what is left are
assignment targets, fallbacks and computed keys. -/
def Pattern.bind : Pattern → NameTable → NameTable
  | .ident x, t => t.resolve x
  | .expr e, t => e.bind t
  | .object properties rest, t => bindPattern? rest (bindPatternProperties properties t)
  | .array elements rest, t => bindPattern? rest (bindPatternSlots elements t)

def bindPattern? : Option Pattern → NameTable → NameTable
  | none, t => t
  | some p, t => p.bind t

def PatternProperty.bind : PatternProperty → NameTable → NameTable
  | .keyed key target fallback, t => bindExpr? fallback (target.bind (key.bind t))
  | .shorthand x fallback, t => bindExpr? fallback (t.resolve x)

def bindPatternProperties : List PatternProperty → NameTable → NameTable
  | [], t => t
  | p :: ps, t => bindPatternProperties ps (p.bind t)

def PatternElement.bind : PatternElement → NameTable → NameTable
  | ⟨target, fallback⟩, t => bindExpr? fallback (target.bind t)

def bindPatternSlot : Option PatternElement → NameTable → NameTable
  | none, t => t
  | some e, t => e.bind t

def bindPatternSlots : List (Option PatternElement) → NameTable → NameTable
  | [], t => t
  | e :: es, t => bindPatternSlots es (bindPatternSlot e t)

def Param.bind : Param → NameTable → NameTable
  | ⟨pattern, fallback, _⟩, t => bindExpr? fallback (pattern.bind t)

def bindParams : List Param → NameTable → NameTable
  | [], t => t
  | p :: ps, t => bindParams ps (p.bind t)

/-- The name of an expression is seen in the function only; a declaration's name is
declared where the declaration stands. -/
def Func.bind (isExpression : Bool) : Func → NameTable → NameTable
  | ⟨name, params, body, _, _⟩, t =>
    t.inNameScope isExpression name { isFunction := true } fun t =>
      t.inScope .function fun t =>
        bindStmts body (bindParams params
          ((t.declareAll (paramBindings params)).declareBody false body))

def ArrowBody.bind : ArrowBody → NameTable → NameTable
  | .block body, t => bindStmts body t
  | .expr e, t => e.bind t

def Class.bind (isExpression : Bool) : Class → NameTable → NameTable
  | ⟨name, base, members⟩, t =>
    t.inNameScope isExpression name { isClass := true } fun t =>
      bindMembers members (bindExpr? base t)

def ClassMember.bind : ClassMember → NameTable → NameTable
  | .method key _ _ f, t => f.bind false (key.bind t)
  | .field key _ value, t => bindExpr? value (key.bind t)
  | .staticBlock body, t =>
    t.inScope .function fun t => bindStmts body (t.declareBody false body)

def bindMembers : List ClassMember → NameTable → NameTable
  | [], t => t
  | m :: ms, t => bindMembers ms (m.bind t)

def Declarator.bind : Declarator → NameTable → NameTable
  | ⟨target, init⟩, t => bindExpr? init (target.bind t)

def bindDeclarators : List Declarator → NameTable → NameTable
  | [], t => t
  | d :: ds, t => bindDeclarators ds (d.bind t)

def VarList.bind : VarList → NameTable → NameTable
  | ⟨_, declarators⟩, t => bindDeclarators declarators t

def ForInit.bind : ForInit → NameTable → NameTable
  | .absent, t => t
  | .var list, t => list.bind t
  | .expr e, t => e.bind t

def ForHead.bind : ForHead → NameTable → NameTable
  | .var list, t => list.bind t
  | .pattern p, t => p.bind t

def Catch.bind : Catch → NameTable → NameTable
  | ⟨param, body⟩, t =>
    t.inScope .catch fun t =>
      bindStmts body ((bindPattern? param (t.declareAll (catchBindings param))).declareAll
        (blockLexicalBindings false body))

def bindCatch? : Option Catch → NameTable → NameTable
  | none, t => t
  | some c, t => c.bind t

def bindFinally? : Option (List Stmt) → NameTable → NameTable
  | none, t => t
  | some body, t =>
    t.inScope .block fun t => bindStmts body (t.declareAll (blockLexicalBindings false body))

def Case.bind : Case → NameTable → NameTable
  | ⟨test, body⟩, t => bindStmts body (bindExpr? test t)

def bindCases : List Case → NameTable → NameTable
  | [], t => t
  | c :: cs, t => bindCases cs (c.bind t)

def bindStmts : List Stmt → NameTable → NameTable
  | [], t => t
  | s :: ss, t => bindStmts ss (s.bind t)

/-- The object of an enumerating loop is read outside the scope of the loop's head. -/
def Stmt.bind (s : Stmt) (t : NameTable) : NameTable :=
  t.deeper fun t => match s with
    | .expr e => e.bind t
    | .var _ list => list.bind t
    | .function _ f => f.bind false t
    | .classDecl _ c => c.bind false t
    | .importFrom _ _ _ _ | .ambient _ _ => t
    | .importEquals _ _ _ .require _ => t
    | .importEquals _ _ _ .entity value => value.bind t
    | .exportFrom _ (some (.named specifiers)) none _ => t.bindSpecifiers specifiers
    | .exportFrom _ _ _ _ => t
    | .exportValue _ _ value => value.bind t
    | .block body =>
      t.inScope .block fun t => bindStmts body (t.declareAll (blockLexicalBindings false body))
    | .ifThen test yes => yes.bind (test.bind t)
    | .ifElse test yes no => no.bind (yes.bind (test.bind t))
    | .forLoop init test update body =>
      t.inScopeIf init.isLexical .block fun t =>
        body.bind (bindExpr? update (bindExpr? test
          (init.bind (t.declareAll init.lexicalBindings))))
    | .forIn head object body =>
      (object.bind t).inScopeIf head.isLexical .block fun t =>
        body.bind (head.bind (t.declareAll head.lexicalBindings))
    | .forOf head iterable body _ =>
      (iterable.bind t).inScopeIf head.isLexical .block fun t =>
        body.bind (head.bind (t.declareAll head.lexicalBindings))
    | .whileLoop test body => body.bind (test.bind t)
    | .doWhile body test => body.bind (test.bind t)
    | .tryCatch body handler finalizer =>
      bindFinally? finalizer (bindCatch? handler (t.inScope .block fun t =>
        bindStmts body (t.declareAll (blockLexicalBindings false body))))
    | .switch subject cases =>
      (subject.bind t).inScope .block fun t =>
        bindCases cases (t.declareAll (cases.flatMap fun c => blockLexicalBindings false c.body))
    | .labeled _ body => body.bind t
    | .withObject object body => body.bind (object.bind t)
    | .ret arg => bindExpr? arg t
    | .throw arg => arg.bind t
    | .breakTo _ | .continueTo _ | .empty | .debugger => t

end

namespace NameTable

/-- Marks the values that a local export names as exported. -/
def markExported (specifiers : List ExportSpecifier) (t : NameTable) : NameTable :=
  specifiers.foldl (fun t s =>
    match t.ofSpecifier.lookup s.id with
    | none => t
    | some id => { t with symbols := t.symbols.modify id fun symbol =>
        if symbol.roles.isValue then
          { symbol with roles := { symbol.roles with isExported := true } }
        else symbol }) t

/-- The names that the local, value-exporting clauses of a module mention. -/
def exportedSpecifiers (stmts : List Stmt) : List ExportSpecifier :=
  stmts.flatMap fun
    | .exportFrom _ (some (.named specifiers)) none false => specifiers.filter (!·.isTypeOnly)
    | _ => []

/-- Drops all that a table holds. -/
def reset (t : NameTable) : NameTable :=
  { t with
    file := none, symbols := #[], scopes := #[], ofIdent := [], ofSpecifier := []
    openScopes := [], depth := 0, resolved := 0, unresolved := 0 }

/-- Binds a file, with the table that was left by the file before. -/
def rebind (file : SourceFile) (t : NameTable) : NameTable :=
  let t := { t.reset with file := some file.id }
  t.inScope .module fun t =>
    (bindStmts file.statements (t.declareBody true file.statements)).markExported
      (exportedSpecifiers file.statements)

/-- What a table held before makes no difference. -/
theorem rebind_eq (file : SourceFile) (t : NameTable) :
    t.rebind file = inScope .module (fun t =>
      (bindStmts file.statements (t.declareBody true file.statements)).markExported
        (exportedSpecifiers file.statements)) { file := some file.id } := rfl

/-- The table of a file. -/
def ofFile (file : SourceFile) : NameTable := rebind file {}

end NameTable
end RegisterForm
