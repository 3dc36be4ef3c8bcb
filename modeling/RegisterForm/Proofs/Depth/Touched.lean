import RegisterForm.Registration.Call
/-!
# Touched identifiers

The identifiers that lowering comes to as it reads a tree: those that stand for a value, those that
a pattern assigns, and those that a local export clause names. What lowering leaves unread, such as
a type's name that is exported by default, touches nothing; nor does the name of a declaration,
which stands for what is declared.
-/
namespace RegisterForm

/-- An identifier that lowering comes to. -/
structure Touch where
  ident : Ident
  /-- Whether lowering counts every level around the identifier. -/
  isCounted : Bool := true
  deriving DecidableEq, Repr

namespace Touch

/-- One level around the identifiers is not counted. -/
def uncounted (us : List Touch) : List Touch := us.map fun u => { u with isCounted := false }

/-- The block of an enumerating loop is no level of its own once calls are put into it. -/
def inBlock (exports : List Stmt) (us : List Touch) : List Touch :=
  if exports.isEmpty then us else uncounted us

end Touch

/-- The calls that publish what the head of a loop assigns on each round. -/
def ForHead.exports (s : Setting) (place : Place) : ForHead → List Stmt
  | .var ⟨kind, ⟨target, _⟩ :: _⟩ =>
    if place.hoistsVars && kind == .var then headExports s target else []
  | _ => []

mutual

def Expr.touched (s : Setting) : Expr → List Touch
  | .ident x => [{ ident := x }]
  | .literal _ | .this | .super | .importMeta => []
  | .template _ parts => exprsTouched s parts
  | .tagged tag _ parts => tag.touched s ++ exprsTouched s parts
  | .array elements => slotsTouched s elements
  | .object properties => propertiesTouched s properties
  | .function f => f.touched s
  | .arrow params body _ => paramsTouched s params ++ body.touched s
  | .classExpr c => c.touched s
  | .unary _ arg => arg.touched s
  | .update _ _ arg => arg.touched s
  | .binary _ left right => left.touched s ++ right.touched s
  | .assign _ target value => target.touched s ++ value.touched s
  | .conditional test yes no => test.touched s ++ (yes.touched s ++ no.touched s)
  | .call callee args _ => callee.touched s ++ exprsTouched s args
  | .newBare callee => callee.touched s
  | .newCall callee args => callee.touched s ++ exprsTouched s args
  | .member owner _ _ => owner.touched s
  | .index owner key _ => owner.touched s ++ key.touched s
  | .sequence exprs => exprsTouched s exprs
  | .paren inner => inner.touched s
  | .yield arg _ => exprTouched? s arg
  | .await arg => arg.touched s
  | .spread arg => arg.touched s
  | .importCall specifier => specifier.touched s

def exprsTouched (s : Setting) : List Expr → List Touch
  | [] => []
  | e :: es => e.touched s ++ exprsTouched s es

def exprTouched? (s : Setting) : Option Expr → List Touch
  | none => []
  | some e => e.touched s

def slotsTouched (s : Setting) : List (Option Expr) → List Touch
  | [] => []
  | e :: es => exprTouched? s e ++ slotsTouched s es

def Key.touched (s : Setting) : Key → List Touch
  | .name _ | .string _ | .number _ => []
  | .computed e => e.touched s

def Property.touched (s : Setting) : Property → List Touch
  | .keyed key value => key.touched s ++ value.touched s
  | .shorthand x => [{ ident := x }]
  | .method key _ f => key.touched s ++ f.touched s
  | .spread e => e.touched s

def propertiesTouched (s : Setting) : List Property → List Touch
  | [] => []
  | p :: ps => p.touched s ++ propertiesTouched s ps

def Pattern.touched (s : Setting) : Pattern → List Touch
  | .ident x => [{ ident := x }]
  | .expr e => e.touched s
  | .object properties rest => patternPropertiesTouched s properties ++ patternTouched? s rest
  | .array elements rest => patternSlotsTouched s elements ++ patternTouched? s rest

def patternTouched? (s : Setting) : Option Pattern → List Touch
  | none => []
  | some p => p.touched s

def PatternProperty.touched (s : Setting) : PatternProperty → List Touch
  | .keyed key target fallback => key.touched s ++ (target.touched s ++ exprTouched? s fallback)
  | .shorthand x fallback => { ident := x } :: exprTouched? s fallback

def patternPropertiesTouched (s : Setting) : List PatternProperty → List Touch
  | [] => []
  | p :: ps => p.touched s ++ patternPropertiesTouched s ps

def PatternElement.touched (s : Setting) : PatternElement → List Touch
  | ⟨target, fallback⟩ => target.touched s ++ exprTouched? s fallback

def patternSlotTouched (s : Setting) : Option PatternElement → List Touch
  | none => []
  | some e => e.touched s

def patternSlotsTouched (s : Setting) : List (Option PatternElement) → List Touch
  | [] => []
  | e :: es => patternSlotTouched s e ++ patternSlotsTouched s es

def Param.touched (s : Setting) : Param → List Touch
  | ⟨pattern, fallback, _⟩ => pattern.touched s ++ exprTouched? s fallback

def paramsTouched (s : Setting) : List Param → List Touch
  | [] => []
  | p :: ps => p.touched s ++ paramsTouched s ps

def Func.touched (s : Setting) : Func → List Touch
  | ⟨_, params, body, _, _⟩ => paramsTouched s params ++ stmtsTouched s .function body

def ArrowBody.touched (s : Setting) : ArrowBody → List Touch
  | .block body => stmtsTouched s .function body
  | .expr e => e.touched s

def Class.touched (s : Setting) : Class → List Touch
  | ⟨_, base, members⟩ => exprTouched? s base ++ membersTouched s members

def ClassMember.touched (s : Setting) : ClassMember → List Touch
  | .method key _ _ f => key.touched s ++ f.touched s
  | .field key _ value => key.touched s ++ exprTouched? s value
  | .staticBlock body => stmtsTouched s .function body

def membersTouched (s : Setting) : List ClassMember → List Touch
  | [] => []
  | m :: ms => m.touched s ++ membersTouched s ms

/-- A declaration that is taken apart touches nothing if it has no value. -/
def Declarator.touched (s : Setting) (isHoisted : Bool) : Declarator → List Touch
  | ⟨target, init⟩ =>
    if isHoisted && init.isNone then [] else target.touched s ++ exprTouched? s init

def declaratorsTouched (s : Setting) (isHoisted : Bool) : List Declarator → List Touch
  | [] => []
  | d :: ds => d.touched s isHoisted ++ declaratorsTouched s isHoisted ds

def VarList.touched (s : Setting) (isHoisted : Bool) : VarList → List Touch
  | ⟨_, declarators⟩ => declaratorsTouched s isHoisted declarators

def ForInit.touched (s : Setting) (place : Place) : ForInit → List Touch
  | .absent => []
  | .var list => list.touched s (place.hoistsVars && list.kind == .var)
  | .expr e => e.touched s

def ForHead.touched (s : Setting) (place : Place) : ForHead → List Touch
  | .var ⟨_, []⟩ => []
  | .var ⟨kind, ⟨target, init⟩ :: ds⟩ =>
    if place.hoistsVars && kind == .var then target.touched s
    else target.touched s ++ (exprTouched? s init ++ declaratorsTouched s false ds)
  | .pattern p => p.touched s

def Catch.touched (s : Setting) (place : Place) : Catch → List Touch
  | ⟨param, body⟩ => patternTouched? s param ++ stmtsTouched s place body

def catchTouched? (s : Setting) (place : Place) : Option Catch → List Touch
  | none => []
  | some c => c.touched s place

def blockTouched? (s : Setting) (place : Place) : Option (List Stmt) → List Touch
  | none => []
  | some body => stmtsTouched s place body

def Case.touched (s : Setting) (place : Place) : Case → List Touch
  | ⟨test, body⟩ => exprTouched? s test ++ stmtsTouched s place body

def casesTouched (s : Setting) (place : Place) : List Case → List Touch
  | [] => []
  | c :: cs => c.touched s place ++ casesTouched s place cs

def stmtsTouched (s : Setting) (place : Place) : List Stmt → List Touch
  | [] => []
  | st :: sts => st.touched s place ++ stmtsTouched s place sts

/-- Imports and exports are read at the top level only, and there if they concern values. -/
def Stmt.touched (s : Setting) (place : Place) : Stmt → List Touch
  | .expr e => e.touched s
  | .var _ list => list.touched s (place.takesApart list.kind)
  | .function _ f => f.touched s
  | .classDecl _ c => c.touched s
  | .importFrom _ _ _ _ | .ambient _ _ => []
  | .importEquals _ _ _ .require _ => []
  | .importEquals _ _ _ .entity value =>
    if place = .topLevel ∧ s.names.importEqualsIsValue .entity value then value.touched s else []
  | .exportFrom _ (some (.named specifiers)) none false =>
    if place = .topLevel then specifiers.map fun spec => { ident := spec.source } else []
  | .exportFrom _ _ _ _ => []
  | .exportValue _ _ value =>
    if place = .topLevel ∧ s.names.expressionIsValue value then value.touched s else []
  | .block body => stmtsTouched s place.inner body
  | .ifThen test yes => test.touched s ++ yes.touched s place.inner
  | .ifElse test yes no =>
    test.touched s ++ (yes.touched s place.inner ++ no.touched s place.inner)
  | .forLoop init test update body =>
    init.touched s place ++ (exprTouched? s test ++
      (exprTouched? s update ++ body.touched s place.inner))
  | .forIn head object (.block body) =>
    head.touched s place ++ (object.touched s ++
      Touch.inBlock (head.exports s place) (stmtsTouched s place.inner body))
  | .forIn head object body =>
    head.touched s place ++ (object.touched s ++ body.touched s place.inner)
  | .forOf head iterable (.block body) _ =>
    head.touched s place ++ (iterable.touched s ++
      Touch.inBlock (head.exports s place) (stmtsTouched s place.inner body))
  | .forOf head iterable body _ =>
    head.touched s place ++ (iterable.touched s ++ body.touched s place.inner)
  | .whileLoop test body => test.touched s ++ body.touched s place.inner
  | .doWhile body test => test.touched s ++ body.touched s place.inner
  | .tryCatch body handler finalizer =>
    stmtsTouched s place.inner body ++ (catchTouched? s place.inner handler ++
      blockTouched? s place.inner finalizer)
  | .switch subject cases => subject.touched s ++ casesTouched s place.inner cases
  | .labeled _ body => body.touched s place.inner
  | .withObject object body => object.touched s ++ body.touched s place.inner
  | .ret arg => exprTouched? s arg
  | .throw arg => arg.touched s
  | .breakTo _ | .continueTo _ | .empty | .debugger => []

end

/-- The identifiers of a file that lowering comes to. -/
def SourceFile.touched (options : Options) (file : SourceFile) : List Touch :=
  stmtsTouched (Setting.ofFile options (.ofFile file) file).1 .topLevel file.statements

end RegisterForm
