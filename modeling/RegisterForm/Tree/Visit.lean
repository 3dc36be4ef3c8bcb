import RegisterForm.Tree.Node
import Std.Data.TreeSet
/-!
# Visits

The nodes of a tree in the order in which a walk meets them: a node before its parts, the
parts in source order. Everything that only looks for names or identities reads this list.
-/
namespace RegisterForm

/-- One step of a walk. A name is text that is no identifier: a property, a label, an export name. -/
inductive Visit where
  | stmt (s : Stmt)
  | expr (e : Expr)
  | pattern (p : Pattern)
  | func (f : Func)
  | classNode (c : Class)
  | ident (x : Ident)
  | name (s : String)

namespace ImportSpecifier

def visits (s : ImportSpecifier) : List Visit :=
  (s.imported.toList.map .name) ++ [.ident s.binding]

end ImportSpecifier

namespace ImportBindings

def visits : ImportBindings → List Visit
  | star x => [.ident x]
  | named specifiers => specifiers.flatMap (·.visits)

end ImportBindings

namespace ImportClause

def visits (c : ImportClause) : List Visit :=
  (c.default.toList.map .ident) ++ c.bindings.toList.flatMap (·.visits)

end ImportClause

namespace ExportSpecifier

def visits (s : ExportSpecifier) : List Visit :=
  .ident s.source :: s.exported.toList.map .name

end ExportSpecifier

namespace ExportClause

def visits : ExportClause → List Visit
  | named specifiers => specifiers.flatMap (·.visits)
  | star x => [.ident x]

end ExportClause

mutual

def Expr.visits (e : Expr) : List Visit :=
  .expr e :: match e with
  | .ident x => [.ident x]
  | .literal _ | .this | .super | .importMeta => []
  | .template _ parts => exprsVisits parts
  | .tagged tag _ parts => tag.visits ++ exprsVisits parts
  | .array elements => slotsVisits elements
  | .object properties => propertiesVisits properties
  | .function f => f.visits
  | .arrow params body _ => paramsVisits params ++ body.visits
  | .classExpr c => c.visits
  | .unary _ arg => arg.visits
  | .update _ _ arg => arg.visits
  | .binary _ left right => left.visits ++ right.visits
  | .assign _ target value => target.visits ++ value.visits
  | .conditional test yes no => test.visits ++ yes.visits ++ no.visits
  | .call callee args _ => callee.visits ++ exprsVisits args
  | .newBare callee => callee.visits
  | .newCall callee args => callee.visits ++ exprsVisits args
  | .member owner name _ => owner.visits ++ [.name name]
  | .index owner key _ => owner.visits ++ key.visits
  | .sequence exprs => exprsVisits exprs
  | .paren inner => inner.visits
  | .yield arg _ => exprVisits? arg
  | .await arg => arg.visits
  | .spread arg => arg.visits
  | .importCall specifier => specifier.visits

def exprsVisits : List Expr → List Visit
  | [] => []
  | e :: es => e.visits ++ exprsVisits es

def exprVisits? : Option Expr → List Visit
  | none => []
  | some e => e.visits

def slotsVisits : List (Option Expr) → List Visit
  | [] => []
  | e :: es => exprVisits? e ++ slotsVisits es

def Key.visits : Key → List Visit
  | .name s | .string s => [.name s]
  | .number _ => []
  | .computed e => e.visits

def Property.visits : Property → List Visit
  | .keyed key value => key.visits ++ value.visits
  | .shorthand x => [.ident x]
  | .method key _ f => key.visits ++ f.visits
  | .spread e => e.visits

def propertiesVisits : List Property → List Visit
  | [] => []
  | p :: ps => p.visits ++ propertiesVisits ps

def Pattern.visits (p : Pattern) : List Visit :=
  .pattern p :: match p with
  | .ident x => [.ident x]
  | .expr e => e.visits
  | .object properties rest => patternPropertiesVisits properties ++ patternVisits? rest
  | .array elements rest => patternSlotsVisits elements ++ patternVisits? rest

def patternVisits? : Option Pattern → List Visit
  | none => []
  | some p => p.visits

def PatternProperty.visits : PatternProperty → List Visit
  | .keyed key target fallback => key.visits ++ target.visits ++ exprVisits? fallback
  | .shorthand x fallback => .ident x :: exprVisits? fallback

def patternPropertiesVisits : List PatternProperty → List Visit
  | [] => []
  | p :: ps => p.visits ++ patternPropertiesVisits ps

def PatternElement.visits : PatternElement → List Visit
  | ⟨target, fallback⟩ => target.visits ++ exprVisits? fallback

def patternSlotVisits : Option PatternElement → List Visit
  | none => []
  | some e => e.visits

def patternSlotsVisits : List (Option PatternElement) → List Visit
  | [] => []
  | e :: es => patternSlotVisits e ++ patternSlotsVisits es

def Param.visits : Param → List Visit
  | ⟨pattern, fallback, _⟩ => pattern.visits ++ exprVisits? fallback

def paramsVisits : List Param → List Visit
  | [] => []
  | p :: ps => p.visits ++ paramsVisits ps

def Func.visits : Func → List Visit
  | ⟨name, params, body, isAsync, isGenerator⟩ =>
    .func ⟨name, params, body, isAsync, isGenerator⟩ ::
      (name.toList.map .ident ++ paramsVisits params ++ stmtsVisits body)

def ArrowBody.visits : ArrowBody → List Visit
  | .block body => stmtsVisits body
  | .expr e => e.visits

def Class.visits : Class → List Visit
  | ⟨name, base, members⟩ =>
    .classNode ⟨name, base, members⟩ ::
      (name.toList.map .ident ++ exprVisits? base ++ membersVisits members)

def ClassMember.visits : ClassMember → List Visit
  | .method key _ _ f => key.visits ++ f.visits
  | .field key _ value => key.visits ++ exprVisits? value
  | .staticBlock body => stmtsVisits body

def membersVisits : List ClassMember → List Visit
  | [] => []
  | m :: ms => m.visits ++ membersVisits ms

def Declarator.visits : Declarator → List Visit
  | ⟨target, init⟩ => target.visits ++ exprVisits? init

def declaratorsVisits : List Declarator → List Visit
  | [] => []
  | d :: ds => d.visits ++ declaratorsVisits ds

def VarList.visits : VarList → List Visit
  | ⟨_, declarators⟩ => declaratorsVisits declarators

def ForInit.visits : ForInit → List Visit
  | .absent => []
  | .var list => list.visits
  | .expr e => e.visits

def ForHead.visits : ForHead → List Visit
  | .var list => list.visits
  | .pattern p => p.visits

def Catch.visits : Catch → List Visit
  | ⟨param, body⟩ => patternVisits? param ++ stmtsVisits body

def catchVisits? : Option Catch → List Visit
  | none => []
  | some c => c.visits

def Case.visits : Case → List Visit
  | ⟨test, body⟩ => exprVisits? test ++ stmtsVisits body

def casesVisits : List Case → List Visit
  | [] => []
  | c :: cs => c.visits ++ casesVisits cs

def stmtsVisits : List Stmt → List Visit
  | [] => []
  | s :: ss => s.visits ++ stmtsVisits ss

def blockVisits? : Option (List Stmt) → List Visit
  | none => []
  | some body => stmtsVisits body

/-- A trailing test is met before the body that it follows. -/
def Stmt.visits (s : Stmt) : List Visit :=
  .stmt s :: match s with
  | .expr e => e.visits
  | .var _ list => list.visits
  | .function _ f => f.visits
  | .classDecl _ c => c.visits
  | .importFrom _ clause specifier _ => clause.toList.flatMap (·.visits) ++ specifier.visits
  | .importEquals _ _ name _ value => .ident name :: value.visits
  | .exportFrom _ clause specifier _ => clause.toList.flatMap (·.visits) ++ exprVisits? specifier
  | .exportValue _ _ value => value.visits
  | .ambient name _ => [.ident name]
  | .block body => stmtsVisits body
  | .ifThen test yes => test.visits ++ yes.visits
  | .ifElse test yes no => test.visits ++ yes.visits ++ no.visits
  | .forLoop init test update body =>
    init.visits ++ exprVisits? test ++ exprVisits? update ++ body.visits
  | .forIn head object body => head.visits ++ object.visits ++ body.visits
  | .forOf head iterable body _ => head.visits ++ iterable.visits ++ body.visits
  | .whileLoop test body => test.visits ++ body.visits
  | .doWhile body test => test.visits ++ body.visits
  | .tryCatch body handler finalizer =>
    stmtsVisits body ++ catchVisits? handler ++ blockVisits? finalizer
  | .switch subject cases => subject.visits ++ casesVisits cases
  | .labeled label body => .name label :: body.visits
  | .withObject object body => object.visits ++ body.visits
  | .ret arg => exprVisits? arg
  | .throw arg => arg.visits
  | .breakTo label | .continueTo label => label.toList.map .name
  | .empty | .debugger => []

end

def SourceFile.visits (file : SourceFile) : List Visit := stmtsVisits file.statements

def Visit.ident? : Visit → Option Ident
  | .ident x => some x
  | _ => none

/-- The text of an identifier or name. -/
def Visit.text? : Visit → Option String
  | .ident x => some x.name
  | .name s => some s
  | _ => none

/-- Every name text that occurs anywhere in the file. -/
def SourceFile.names (file : SourceFile) : Std.TreeSet String :=
  .ofList (file.visits.filterMap Visit.text?)

end RegisterForm
