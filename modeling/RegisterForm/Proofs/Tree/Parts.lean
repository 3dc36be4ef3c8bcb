import RegisterForm.Tree.Shape
import RegisterForm.Tree.Construct
import RegisterForm.Proofs.Tree.WellFormed
/-!
# Parts of nodes

The outermost expressions of a node, in source order: those that stand in it and in no other
expression. What holds of an expression and of all its parts is stated by induction over them.
-/
namespace RegisterForm

def Key.exprs : Key → List Expr
  | .computed e => [e]
  | _ => []

mutual

def Pattern.exprs : Pattern → List Expr
  | .ident _ => []
  | .expr e => [e]
  | .object properties rest => patternPropertiesExprs properties ++ patternExprs? rest
  | .array elements rest => patternSlotsExprs elements ++ patternExprs? rest

def patternExprs? : Option Pattern → List Expr
  | none => []
  | some p => p.exprs

def PatternProperty.exprs : PatternProperty → List Expr
  | .keyed key target fallback => key.exprs ++ target.exprs ++ fallback.toList
  | .shorthand _ fallback => fallback.toList

def patternPropertiesExprs : List PatternProperty → List Expr
  | [] => []
  | p :: ps => p.exprs ++ patternPropertiesExprs ps

def PatternElement.exprs : PatternElement → List Expr
  | ⟨target, fallback⟩ => target.exprs ++ fallback.toList

def patternSlotExprs : Option PatternElement → List Expr
  | none => []
  | some e => e.exprs

def patternSlotsExprs : List (Option PatternElement) → List Expr
  | [] => []
  | e :: es => patternSlotExprs e ++ patternSlotsExprs es

end

def Param.exprs : Param → List Expr
  | ⟨pattern, fallback, _⟩ => pattern.exprs ++ fallback.toList

def Declarator.exprs : Declarator → List Expr
  | ⟨target, init⟩ => target.exprs ++ init.toList

def VarList.exprs (list : VarList) : List Expr := list.declarators.flatMap (·.exprs)

def ForInit.exprs : ForInit → List Expr
  | .absent => []
  | .var list => list.exprs
  | .expr e => [e]

def ForHead.exprs : ForHead → List Expr
  | .var list => list.exprs
  | .pattern p => p.exprs

mutual

def Func.exprs : Func → List Expr
  | ⟨_, params, body, _, _⟩ => params.flatMap (·.exprs) ++ stmtsExprs body

def Class.exprs : Class → List Expr
  | ⟨_, base, members⟩ => base.toList ++ membersExprs members

def ClassMember.exprs : ClassMember → List Expr
  | .method key _ _ f => key.exprs ++ f.exprs
  | .field key _ value => key.exprs ++ value.toList
  | .staticBlock body => stmtsExprs body

def membersExprs : List ClassMember → List Expr
  | [] => []
  | m :: ms => m.exprs ++ membersExprs ms

def Catch.exprs : Catch → List Expr
  | ⟨param, body⟩ => patternExprs? param ++ stmtsExprs body

def catchExprs? : Option Catch → List Expr
  | none => []
  | some c => c.exprs

def blockExprs? : Option (List Stmt) → List Expr
  | none => []
  | some body => stmtsExprs body

def Case.exprs : Case → List Expr
  | ⟨test, body⟩ => test.toList ++ stmtsExprs body

def casesExprs : List Case → List Expr
  | [] => []
  | c :: cs => c.exprs ++ casesExprs cs

def stmtsExprs : List Stmt → List Expr
  | [] => []
  | s :: ss => s.exprs ++ stmtsExprs ss

def Stmt.exprs : Stmt → List Expr
  | .expr e => [e]
  | .var _ list => list.exprs
  | .function _ f => f.exprs
  | .classDecl _ c => c.exprs
  | .importFrom _ _ specifier _ => [specifier]
  | .importEquals _ _ _ _ value => [value]
  | .exportFrom _ _ specifier _ => specifier.toList
  | .exportValue _ _ value => [value]
  | .ambient _ _ => []
  | .block body => stmtsExprs body
  | .ifThen test yes => test :: yes.exprs
  | .ifElse test yes no => test :: (yes.exprs ++ no.exprs)
  | .forLoop init test update body => init.exprs ++ test.toList ++ update.toList ++ body.exprs
  | .forIn head object body => head.exprs ++ object :: body.exprs
  | .forOf head iterable body _ => head.exprs ++ iterable :: body.exprs
  | .whileLoop test body => test :: body.exprs
  | .doWhile body test => body.exprs ++ [test]
  | .tryCatch body handler finalizer =>
    stmtsExprs body ++ catchExprs? handler ++ blockExprs? finalizer
  | .switch subject cases => subject :: casesExprs cases
  | .labeled _ body => body.exprs
  | .withObject object body => object :: body.exprs
  | .ret arg => arg.toList
  | .throw arg => [arg]
  | .breakTo _ | .continueTo _ | .empty | .debugger => []

end

def ArrowBody.exprs : ArrowBody → List Expr
  | .block body => stmtsExprs body
  | .expr e => [e]

def Property.exprs : Property → List Expr
  | .keyed key value => key.exprs ++ [value]
  | .shorthand _ => []
  | .method key _ f => key.exprs ++ f.exprs
  | .spread e => [e]

/-- The outermost expressions inside an expression. -/
def Expr.parts : Expr → List Expr
  | .ident _ | .literal _ | .this | .super | .importMeta => []
  | .template _ parts => parts
  | .tagged tag _ parts => tag :: parts
  | .array elements => elements.flatMap (·.toList)
  | .object properties => properties.flatMap (·.exprs)
  | .function f => f.exprs
  | .arrow params body _ => params.flatMap (·.exprs) ++ body.exprs
  | .classExpr c => c.exprs
  | .unary _ arg => [arg]
  | .update _ _ arg => [arg]
  | .binary _ left right => [left, right]
  | .assign _ target value => target.exprs ++ [value]
  | .conditional test yes no => [test, yes, no]
  | .call callee args _ => callee :: args
  | .newBare callee => [callee]
  | .newCall callee args => callee :: args
  | .member owner _ _ => [owner]
  | .index owner key _ => [owner, key]
  | .sequence exprs => exprs
  | .paren inner => [inner]
  | .yield arg _ => arg.toList
  | .await arg => [arg]
  | .spread arg => [arg]
  | .importCall specifier => [specifier]

section exprs

@[simp] theorem stmtsExprs_append (stmts more : List Stmt) :
    stmtsExprs (stmts ++ more) = stmtsExprs stmts ++ stmtsExprs more := by
  induction stmts with
  | nil => rfl
  | cons st stmts ih => simp [stmtsExprs, ih]

theorem stmtsExprs_eq (stmts : List Stmt) : stmtsExprs stmts = stmts.flatMap (·.exprs) := by
  induction stmts with
  | nil => rfl
  | cons st stmts ih => rw [stmtsExprs, ih, List.flatMap_cons]

@[simp] theorem exprs_exprStmt (e : Expr) : (Stmt.expr e).exprs = [e] := rfl

@[simp] theorem exprs_block (body : List Stmt) : (Stmt.block body).exprs = stmtsExprs body := rfl

@[simp] theorem exprs_ret (arg : Option Expr) : (Stmt.ret arg).exprs = arg.toList := rfl

@[simp] theorem exprs_ofList (stmts : List Stmt) :
    (Stmt.ofList stmts).exprs = stmtsExprs stmts := by
  match stmts with
  | [] => rfl
  | [st] => simp [Stmt.ofList, stmtsExprs]
  | st₁ :: st₂ :: stmts => rfl

theorem exprs_varNames (names : List String) : (Stmt.varNames names).exprs = [] := by
  refine List.flatMap_eq_nil_iff.mpr fun d hd => ?_
  obtain ⟨name, -, rfl⟩ := List.mem_map.mp hd
  rfl

end exprs

/-! ## Sound nodes -/

/-- A node that a parser can give inside a statement of the module. -/
def Visit.isSound : Visit → Bool
  | .ident x => !x.id.isSynthetic
  | .stmt s => !s.isModuleSyntax
  | _ => true

/-- All identifiers are of the source, and nothing imports or exports. -/
def AllSound (vs : List Visit) : Prop := ∀ v ∈ vs, v.isSound = true

section AllSound
variable (vs ws : List Visit)

@[simp] theorem allSound_nil : AllSound [] := by simp [AllSound]

@[simp] theorem allSound_append : AllSound (vs ++ ws) ↔ AllSound vs ∧ AllSound ws :=
  List.forall_mem_append

@[simp] theorem allSound_cons (v : Visit) : AllSound (v :: vs) ↔ v.isSound = true ∧ AllSound vs :=
  List.forall_mem_cons

theorem AllSound.not_synthetic {vs : List Visit} (h : AllSound vs) {x : Ident}
    (hx : x ∈ identsIn vs) : x.id.isSynthetic = false := by
  obtain ⟨v, hv, hvx⟩ := List.mem_filterMap.mp hx
  have hsound := h v hv
  cases v <;> simp_all [Visit.ident?, Visit.isSound]

end AllSound

namespace AllSound
variable {v : Visit} {vs ws : List Visit}

theorem tail (h : AllSound (v :: vs)) : AllSound vs := ((allSound_cons vs v).mp h).2

theorem left (h : AllSound (vs ++ ws)) : AllSound vs := ((allSound_append vs ws).mp h).1

theorem right (h : AllSound (vs ++ ws)) : AllSound ws := ((allSound_append vs ws).mp h).2

end AllSound
end RegisterForm
