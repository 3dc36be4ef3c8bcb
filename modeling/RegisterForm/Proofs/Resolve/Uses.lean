import RegisterForm.Scope.Declaration
/-!
# Uses of names

The references of a tree, each with the scopes around it, read off the tree alone: nothing here
declares or resolves. The references in parameter lists are left out; what a parameter list sees of
the body that follows it is a question of its own.
-/
namespace RegisterForm

/-- The bindings that the scopes around a place hold, those of the innermost scope first. -/
abbrev Scopes := List (List Binding)

namespace Scopes

/-- The binding that a name means: the first of that name in the innermost scope that has one. -/
def find? (scopes : Scopes) (name : String) : Option Binding :=
  scopes.findSome? fun bs => bs.find? (·.ident.name == name)

/-- One more scope, if one is wanted. -/
def openedIf (wanted : Bool) (bs : List Binding) (scopes : Scopes) : Scopes :=
  if wanted then bs :: scopes else scopes

/-- The scope of the name of a function or class expression. -/
def named (isExpression : Bool) (name : Option Ident) (roles : Roles) (scopes : Scopes) : Scopes :=
  match name with
  | some x => if isExpression then [⟨x, roles, none⟩] :: scopes else scopes
  | none => scopes

end Scopes

/-- A reference, and what it can see. -/
structure NameUse where
  ident : Ident
  scopes : Scopes
  /-- How many statements and expressions it stands in, its own included. -/
  depth : Nat

/-- What a body declares in its own scope. -/
def bodyBindings (body : List Stmt) : List Binding :=
  blockVarBindings body ++ blockLexicalBindings false body

mutual

def Expr.uses : Expr → Scopes → Nat → List NameUse
  | .ident x, s, d => [⟨x, s, d + 1⟩]
  | .literal _, _, _ | .this, _, _ | .super, _, _ | .importMeta, _, _ => []
  | .template _ parts, s, d => exprsUses parts s (d + 1)
  | .tagged tag _ parts, s, d => tag.uses s (d + 1) ++ exprsUses parts s (d + 1)
  | .array elements, s, d => slotsUses elements s (d + 1)
  | .object properties, s, d => propertiesUses properties s (d + 1)
  | .function f, s, d => f.uses true s (d + 1)
  | .arrow params body _, s, d =>
    body.uses ((paramBindings params ++ bodyBindings body.statements) :: s) (d + 1)
  | .classExpr c, s, d => c.uses true s (d + 1)
  | .unary _ arg, s, d => arg.uses s (d + 1)
  | .update _ _ arg, s, d => arg.uses s (d + 1)
  | .binary _ left right, s, d => left.uses s (d + 1) ++ right.uses s (d + 1)
  | .assign _ target value, s, d => target.uses false s (d + 1) ++ value.uses s (d + 1)
  | .conditional test yes no, s, d =>
    test.uses s (d + 1) ++ yes.uses s (d + 1) ++ no.uses s (d + 1)
  | .call callee args _, s, d => callee.uses s (d + 1) ++ exprsUses args s (d + 1)
  | .newBare callee, s, d => callee.uses s (d + 1)
  | .newCall callee args, s, d => callee.uses s (d + 1) ++ exprsUses args s (d + 1)
  | .member owner _ _, s, d => owner.uses s (d + 1)
  | .index owner key _, s, d => owner.uses s (d + 1) ++ key.uses s (d + 1)
  | .sequence exprs, s, d => exprsUses exprs s (d + 1)
  | .paren inner, s, d => inner.uses s (d + 1)
  | .yield arg _, s, d => exprUses? arg s (d + 1)
  | .await arg, s, d => arg.uses s (d + 1)
  | .spread arg, s, d => arg.uses s (d + 1)
  | .importCall specifier, s, d => specifier.uses s (d + 1)

def exprsUses : List Expr → Scopes → Nat → List NameUse
  | [], _, _ => []
  | e :: es, s, d => e.uses s d ++ exprsUses es s d

def exprUses? : Option Expr → Scopes → Nat → List NameUse
  | none, _, _ => []
  | some e, s, d => e.uses s d

def slotsUses : List (Option Expr) → Scopes → Nat → List NameUse
  | [], _, _ => []
  | e :: es, s, d => exprUses? e s d ++ slotsUses es s d

def Key.uses : Key → Scopes → Nat → List NameUse
  | .name _, _, _ | .string _, _, _ | .number _, _, _ => []
  | .computed e, s, d => e.uses s d

def Property.uses : Property → Scopes → Nat → List NameUse
  | .keyed key value, s, d => key.uses s d ++ value.uses s d
  | .shorthand x, s, d => [⟨x, s, d⟩]
  | .method key _ f, s, d => key.uses s d ++ f.uses false s d
  | .spread e, s, d => e.uses s d

def propertiesUses : List Property → Scopes → Nat → List NameUse
  | [], _, _ => []
  | p :: ps, s, d => p.uses s d ++ propertiesUses ps s d

/-- The targets of an assignment are references; what a declared pattern binds is none. -/
def Pattern.uses (declares : Bool) : Pattern → Scopes → Nat → List NameUse
  | .ident x, s, d => if declares then [] else [⟨x, s, d⟩]
  | .expr e, s, d => e.uses s d
  | .object properties rest, s, d =>
    patternPropertiesUses declares properties s d ++ patternUses? declares rest s d
  | .array elements rest, s, d =>
    patternSlotsUses declares elements s d ++ patternUses? declares rest s d

def patternUses? (declares : Bool) : Option Pattern → Scopes → Nat → List NameUse
  | none, _, _ => []
  | some p, s, d => p.uses declares s d

def PatternProperty.uses (declares : Bool) : PatternProperty → Scopes → Nat → List NameUse
  | .keyed key target fallback, s, d =>
    key.uses s d ++ target.uses declares s d ++ exprUses? fallback s d
  | .shorthand x fallback, s, d => (if declares then [] else [⟨x, s, d⟩]) ++ exprUses? fallback s d

def patternPropertiesUses (declares : Bool) : List PatternProperty → Scopes → Nat → List NameUse
  | [], _, _ => []
  | p :: ps, s, d => p.uses declares s d ++ patternPropertiesUses declares ps s d

def PatternElement.uses (declares : Bool) : PatternElement → Scopes → Nat → List NameUse
  | ⟨target, fallback⟩, s, d => target.uses declares s d ++ exprUses? fallback s d

def patternSlotUses (declares : Bool) : Option PatternElement → Scopes → Nat → List NameUse
  | none, _, _ => []
  | some e, s, d => e.uses declares s d

def patternSlotsUses (declares : Bool) :
    List (Option PatternElement) → Scopes → Nat → List NameUse
  | [], _, _ => []
  | e :: es, s, d => patternSlotUses declares e s d ++ patternSlotsUses declares es s d

/-- Parameters, `var`s at any depth of blocks and what the body declares itself share a scope. -/
def Func.uses (isExpression : Bool) : Func → Scopes → Nat → List NameUse
  | ⟨name, params, body, _, _⟩, s, d =>
    stmtsUses body ((paramBindings params ++ bodyBindings body) ::
      s.named isExpression name { isFunction := true }) d

def ArrowBody.uses : ArrowBody → Scopes → Nat → List NameUse
  | .block body, s, d => stmtsUses body s d
  | .expr e, s, d => e.uses s d

def Class.uses (isExpression : Bool) : Class → Scopes → Nat → List NameUse
  | ⟨name, base, members⟩, s, d =>
    exprUses? base (s.named isExpression name { isClass := true }) d ++
      membersUses members (s.named isExpression name { isClass := true }) d

def ClassMember.uses : ClassMember → Scopes → Nat → List NameUse
  | .method key _ _ f, s, d => key.uses s d ++ f.uses false s d
  | .field key _ value, s, d => key.uses s d ++ exprUses? value s d
  | .staticBlock body, s, d => stmtsUses body (bodyBindings body :: s) d

def membersUses : List ClassMember → Scopes → Nat → List NameUse
  | [], _, _ => []
  | m :: ms, s, d => m.uses s d ++ membersUses ms s d

def Declarator.uses : Declarator → Scopes → Nat → List NameUse
  | ⟨target, init⟩, s, d => target.uses true s d ++ exprUses? init s d

def declaratorsUses : List Declarator → Scopes → Nat → List NameUse
  | [], _, _ => []
  | v :: vs, s, d => v.uses s d ++ declaratorsUses vs s d

def VarList.uses : VarList → Scopes → Nat → List NameUse
  | ⟨_, declarators⟩, s, d => declaratorsUses declarators s d

def ForInit.uses : ForInit → Scopes → Nat → List NameUse
  | .absent, _, _ => []
  | .var list, s, d => list.uses s d
  | .expr e, s, d => e.uses s d

def ForHead.uses : ForHead → Scopes → Nat → List NameUse
  | .var list, s, d => list.uses s d
  | .pattern p, s, d => p.uses false s d

/-- The parameter of a clause sees the names that it binds; those that the body declares belong to
the same scope, but only the body sees them. -/
def Catch.uses : Catch → Scopes → Nat → List NameUse
  | ⟨param, body⟩, s, d =>
    patternUses? true param (catchBindings param :: s) d ++
      stmtsUses body ((catchBindings param ++ blockLexicalBindings false body) :: s) d

def catchUses? : Option Catch → Scopes → Nat → List NameUse
  | none, _, _ => []
  | some c, s, d => c.uses s d

def finallyUses? : Option (List Stmt) → Scopes → Nat → List NameUse
  | none, _, _ => []
  | some body, s, d => stmtsUses body (blockLexicalBindings false body :: s) d

def Case.uses : Case → Scopes → Nat → List NameUse
  | ⟨test, body⟩, s, d => exprUses? test s d ++ stmtsUses body s d

def casesUses : List Case → Scopes → Nat → List NameUse
  | [], _, _ => []
  | c :: cs, s, d => c.uses s d ++ casesUses cs s d

def stmtsUses : List Stmt → Scopes → Nat → List NameUse
  | [], _, _ => []
  | st :: ss, s, d => st.uses s d ++ stmtsUses ss s d

/-- The object of an enumerating loop stands outside the scope of the loop's head. The names of a
local export clause are references. -/
def Stmt.uses : Stmt → Scopes → Nat → List NameUse
  | .expr e, s, d => e.uses s (d + 1)
  | .var _ list, s, d => list.uses s (d + 1)
  | .function _ f, s, d => f.uses false s (d + 1)
  | .classDecl _ c, s, d => c.uses false s (d + 1)
  | .importFrom _ _ _ _, _, _ | .ambient _ _, _, _ => []
  | .importEquals _ _ _ .require _, _, _ => []
  | .importEquals _ _ _ .entity value, s, d => value.uses s (d + 1)
  | .exportFrom _ (some (.named specifiers)) none _, s, d =>
    specifiers.map fun spec => ⟨spec.source, s, d + 1⟩
  | .exportFrom _ _ _ _, _, _ => []
  | .exportValue _ _ value, s, d => value.uses s (d + 1)
  | .block body, s, d => stmtsUses body (blockLexicalBindings false body :: s) (d + 1)
  | .ifThen test yes, s, d => test.uses s (d + 1) ++ yes.uses s (d + 1)
  | .ifElse test yes no, s, d => test.uses s (d + 1) ++ yes.uses s (d + 1) ++ no.uses s (d + 1)
  | .forLoop init test update body, s, d =>
    init.uses (s.openedIf init.isLexical init.lexicalBindings) (d + 1) ++
      exprUses? test (s.openedIf init.isLexical init.lexicalBindings) (d + 1) ++
      exprUses? update (s.openedIf init.isLexical init.lexicalBindings) (d + 1) ++
      body.uses (s.openedIf init.isLexical init.lexicalBindings) (d + 1)
  | .forIn head object body, s, d =>
    object.uses s (d + 1) ++
      (head.uses (s.openedIf head.isLexical head.lexicalBindings) (d + 1) ++
        body.uses (s.openedIf head.isLexical head.lexicalBindings) (d + 1))
  | .forOf head iterable body _, s, d =>
    iterable.uses s (d + 1) ++
      (head.uses (s.openedIf head.isLexical head.lexicalBindings) (d + 1) ++
        body.uses (s.openedIf head.isLexical head.lexicalBindings) (d + 1))
  | .whileLoop test body, s, d => test.uses s (d + 1) ++ body.uses s (d + 1)
  | .doWhile body test, s, d => test.uses s (d + 1) ++ body.uses s (d + 1)
  | .tryCatch body handler finalizer, s, d =>
    stmtsUses body (blockLexicalBindings false body :: s) (d + 1) ++
      catchUses? handler s (d + 1) ++ finallyUses? finalizer s (d + 1)
  | .switch subject cases, s, d =>
    subject.uses s (d + 1) ++
      casesUses cases ((cases.flatMap fun c => blockLexicalBindings false c.body) :: s) (d + 1)
  | .labeled _ body, s, d => body.uses s (d + 1)
  | .withObject object body, s, d => object.uses s (d + 1) ++ body.uses s (d + 1)
  | .ret arg, s, d => exprUses? arg s (d + 1)
  | .throw arg, s, d => arg.uses s (d + 1)
  | .breakTo _, _, _ | .continueTo _, _, _ | .empty, _, _ | .debugger, _, _ => []

end

namespace Stmt
variable (s : Scopes) (d : Nat)

theorem uses_var (modifiers : Modifiers) (list : VarList) :
    (Stmt.var modifiers list).uses s d = list.uses s (d + 1) := rfl

theorem uses_block (body : List Stmt) :
    (Stmt.block body).uses s d =
      stmtsUses body (blockLexicalBindings false body :: s) (d + 1) := rfl

theorem uses_forLoop (init : ForInit) (test update : Option Expr) (body : Stmt) :
    (Stmt.forLoop init test update body).uses s d =
      init.uses (s.openedIf init.isLexical init.lexicalBindings) (d + 1) ++
        exprUses? test (s.openedIf init.isLexical init.lexicalBindings) (d + 1) ++
        exprUses? update (s.openedIf init.isLexical init.lexicalBindings) (d + 1) ++
        body.uses (s.openedIf init.isLexical init.lexicalBindings) (d + 1) := rfl

end Stmt

end RegisterForm
