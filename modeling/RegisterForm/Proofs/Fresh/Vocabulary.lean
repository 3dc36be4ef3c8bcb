import RegisterForm.Proofs.Fresh.Supply
/-!
# Vocabularies

The names that a tree mentions, declares, assigns and calls, node by node. A tree keeps to a
vocabulary if each of its nodes does; what lowering adds to a tree keeps to any vocabulary that
knows the names it is made from.
-/
namespace RegisterForm

/-! ## Names of one node -/

@[simp] theorem Ident.name_synthetic (name : String) : (Ident.synthetic name).name = name := rfl

def PatternProperty.shorthand? : PatternProperty → Option Ident
  | .shorthand x _ => some x
  | .keyed .. => none

/-- What a pattern itself assigns; its parts are visited on their own. -/
@[grind =] def Pattern.ownTargets : Pattern → List Ident
  | .ident x => [x]
  | .object properties _ => properties.filterMap PatternProperty.shorthand?
  | _ => []

/-- What a statement itself imports. -/
@[grind =] def Stmt.ownTargets : Stmt → List Ident
  | .importFrom _ clause _ _ => identsIn (clause.toList.flatMap (·.visits))
  | .importEquals _ _ name _ _ => [name]
  | .ambient name _ => [name]
  | _ => []

/-- The identifiers that a node declares or assigns. -/
def Visit.targets : Visit → List Ident
  | .pattern p => p.ownTargets
  | .func f => f.name.toList
  | .classNode c => c.name.toList
  | .stmt st => st.ownTargets
  | _ => []

/-- The identifier that an expression calls. -/
@[grind =] def Expr.called? : Expr → Option Ident
  | .call callee _ _ => callee.skipParens.ident?
  | _ => none

def Visit.called? : Visit → Option Ident
  | .expr e => e.called?
  | _ => none

/-- What a tree may say. -/
structure Vocabulary where
  mentions : String → Prop
  /-- The identifiers that may be declared or assigned. -/
  binds : Ident → Prop
  calls : Ident → Prop

namespace Vocabulary

/-- A node keeps to a vocabulary. -/
structure Admits (V : Vocabulary) (v : Visit) : Prop where
  mentions : ∀ x, v.ident? = some x → V.mentions x.name
  binds : ∀ x ∈ v.targets, V.binds x
  calls : ∀ x, v.called? = some x → V.calls x

/-- All nodes keep to a vocabulary. -/
def Covers (V : Vocabulary) (vs : List Visit) : Prop := ∀ v ∈ vs, V.Admits v

variable {V : Vocabulary}

/-! ## Single nodes -/

@[simp] theorem admits_ident (x : Ident) : V.Admits (.ident x) ↔ V.mentions x.name :=
  ⟨fun h => h.mentions x rfl, fun h => ⟨fun _ hx => Option.some.inj hx ▸ h, nofun, nofun⟩⟩

@[simp] theorem admits_name (text : String) : V.Admits (.name text) := ⟨nofun, nofun, nofun⟩

@[simp] theorem admits_expr (e : Expr) :
    V.Admits (.expr e) ↔ ∀ x, e.called? = some x → V.calls x :=
  ⟨fun h => h.calls, fun h => ⟨nofun, nofun, h⟩⟩

@[simp] theorem admits_pattern (p : Pattern) :
    V.Admits (.pattern p) ↔ ∀ x ∈ p.ownTargets, V.binds x :=
  ⟨fun h => h.binds, fun h => ⟨nofun, h, nofun⟩⟩

@[simp] theorem admits_func (f : Func) :
    V.Admits (.func f) ↔ ∀ x, f.name = some x → V.binds x :=
  ⟨fun h x hx => h.binds x (Option.mem_toList.mpr hx),
    fun h => ⟨nofun, fun x hx => h x (Option.mem_toList.mp hx), nofun⟩⟩

@[simp] theorem admits_classNode (c : Class) :
    V.Admits (.classNode c) ↔ ∀ x, c.name = some x → V.binds x :=
  ⟨fun h x hx => h.binds x (Option.mem_toList.mpr hx),
    fun h => ⟨nofun, fun x hx => h x (Option.mem_toList.mp hx), nofun⟩⟩

@[simp] theorem admits_stmt (st : Stmt) :
    V.Admits (.stmt st) ↔ ∀ x ∈ st.ownTargets, V.binds x :=
  ⟨fun h => h.binds, fun h => ⟨nofun, h, nofun⟩⟩

/-! ## Lists of nodes -/

section lists
variable (vs ws : List Visit)

@[simp] theorem covers_nil : V.Covers [] := List.forall_mem_nil _

@[simp] theorem covers_append : V.Covers (vs ++ ws) ↔ V.Covers vs ∧ V.Covers ws :=
  List.forall_mem_append

@[simp] theorem covers_cons (v : Visit) : V.Covers (v :: vs) ↔ V.Admits v ∧ V.Covers vs :=
  List.forall_mem_cons

theorem covers_names (texts : List String) : V.Covers (texts.map .name) := by
  intro v hv
  obtain ⟨text, -, rfl⟩ := List.mem_map.mp hv
  exact admits_name text

theorem covers_idents {xs : List Ident} :
    V.Covers (xs.map .ident) ↔ ∀ x ∈ xs, V.mentions x.name := by
  simp [Covers]

end lists

namespace Covers
variable {v : Visit} {vs ws : List Visit}

theorem head (h : V.Covers (v :: vs)) : V.Admits v := ((covers_cons vs v).mp h).1

theorem tail (h : V.Covers (v :: vs)) : V.Covers vs := ((covers_cons vs v).mp h).2

theorem left (h : V.Covers (vs ++ ws)) : V.Covers vs := ((covers_append vs ws).mp h).1

theorem right (h : V.Covers (vs ++ ws)) : V.Covers ws := ((covers_append vs ws).mp h).2

theorem append (h : V.Covers vs) (h' : V.Covers ws) : V.Covers (vs ++ ws) :=
  (covers_append vs ws).mpr ⟨h, h'⟩

theorem cons (hv : V.Admits v) (h : V.Covers vs) : V.Covers (v :: vs) :=
  (covers_cons vs v).mpr ⟨hv, h⟩

/-- An expression that calls no identifier. -/
theorem expr {e : Expr} (he : e.called? = none) (h : V.Covers vs) : V.Covers (.expr e :: vs) :=
  .cons ((admits_expr e).mpr (by rw [he]; nofun)) h

/-- A statement that imports nothing. -/
theorem stmt {st : Stmt} (hst : st.ownTargets = []) (h : V.Covers vs) :
    V.Covers (.stmt st :: vs) :=
  .cons ((admits_stmt st).mpr (by rw [hst]; nofun)) h

/-- A statement on its own. -/
theorem one {st : Stmt} (h : V.Covers st.visits) : V.Covers (stmtsVisits [st]) :=
  .append h covers_nil

/-- An expression on its own. -/
theorem oneExpr {e : Expr} (h : V.Covers e.visits) : V.Covers (exprsVisits [e]) :=
  .append h covers_nil

end Covers

/-- What is asked of a node that says nothing itself. -/
theorem covers_node {us vs : List Visit} {v : Visit} (hus : us = v :: vs) (hv : V.Admits v) :
    V.Covers us ↔ V.Covers vs := by
  rw [hus, covers_cons]
  exact and_iff_right hv

theorem covers_expr {e : Expr} {vs : List Visit} (he : e.called? = none) :
    V.Covers (.expr e :: vs) ↔ V.Covers vs :=
  ⟨.tail, .expr he⟩

theorem covers_stmt {st : Stmt} {vs : List Visit} (hst : st.ownTargets = []) :
    V.Covers (.stmt st :: vs) ↔ V.Covers vs :=
  ⟨.tail, .stmt hst⟩

theorem covers_exprsVisits {es : List Expr} (h : ∀ e ∈ es, V.Covers e.visits) :
    V.Covers (exprsVisits es) := by
  induction es with
  | nil => exact covers_nil
  | cons e es ih =>
    obtain ⟨he, hes⟩ := List.forall_mem_cons.mp h
    exact (covers_append _ _).mpr ⟨he, ih hes⟩

theorem covers_stmtsVisits {sts : List Stmt} (h : ∀ st ∈ sts, V.Covers st.visits) :
    V.Covers (stmtsVisits sts) := by
  induction sts with
  | nil => exact covers_nil
  | cons st sts ih =>
    obtain ⟨hst, hsts⟩ := List.forall_mem_cons.mp h
    exact (covers_append _ _).mpr ⟨hst, ih hsts⟩

theorem covers_propertiesVisits {ps : List Property} (h : ∀ p ∈ ps, V.Covers p.visits) :
    V.Covers (propertiesVisits ps) := by
  induction ps with
  | nil => exact covers_nil
  | cons p ps ih =>
    obtain ⟨hp, hps⟩ := List.forall_mem_cons.mp h
    exact (covers_append _ _).mpr ⟨hp, ih hps⟩

/-- A pattern mentions what it binds. -/
theorem mentions_of_mem_identsIn {vs : List Visit} (h : V.Covers vs) {x : Ident}
    (hx : x ∈ identsIn vs) : V.mentions x.name := by
  obtain ⟨v, hv, hvx⟩ := List.mem_filterMap.mp hx
  exact (h v hv).mentions x hvx

/-! ## Made-up nodes -/

@[simp] theorem covers_identExpr (x : Ident) :
    V.Covers (Expr.ident x).visits ↔ V.mentions x.name :=
  (covers_expr rfl).trans (by simp)

@[simp] theorem covers_ofName (name : String) :
    V.Covers (Expr.ofName name).visits ↔ V.mentions name := covers_identExpr _

@[simp] theorem covers_literal (value : Literal) : V.Covers (Expr.literal value).visits :=
  .expr rfl covers_nil

@[simp] theorem covers_ofString (text : String) : V.Covers (Expr.ofString text).visits :=
  covers_literal _

@[simp] theorem covers_ofNumber (source : String) : V.Covers (Expr.ofNumber source).visits :=
  covers_literal _

@[simp] theorem covers_ofBool (value : Bool) : V.Covers (Expr.ofBool value).visits :=
  covers_literal _

@[simp] theorem covers_this : V.Covers Expr.this.visits := .expr rfl covers_nil

@[simp] theorem covers_dot (owner : Expr) (name : String) :
    V.Covers (owner.dot name).visits ↔ V.Covers owner.visits :=
  (covers_expr rfl).trans (by simp)

theorem covers_call (callee : Expr) (args : List Expr) (isOptional : Bool) :
    V.Covers (Expr.call callee args isOptional).visits ↔
      (∀ x, callee.skipParens.ident? = some x → V.calls x) ∧ V.Covers callee.visits ∧
        V.Covers (exprsVisits args) := by
  refine (covers_cons _ _).trans (and_congr (admits_expr _) (covers_append _ _))

/-- A call of a made-up name. -/
theorem covers_applyName (name : String) (args : List Expr) :
    V.Covers ((Expr.ofName name).apply args).visits ↔
      V.calls (.synthetic name) ∧ V.mentions name ∧ V.Covers (exprsVisits args) := by
  rw [Expr.apply, covers_call, covers_ofName]
  exact and_congr_left' ⟨fun h => h _ rfl, fun h x hx => Option.some.inj hx ▸ h⟩

/-- A call of a method calls no identifier. -/
theorem covers_applyDot (owner : Expr) (name : String) (args : List Expr) :
    V.Covers ((owner.dot name).apply args).visits ↔
      V.Covers owner.visits ∧ V.Covers (exprsVisits args) := by
  rw [Expr.apply, covers_call, covers_dot]
  exact and_iff_right nofun

@[simp] theorem covers_lookup (owner key : Expr) :
    V.Covers (owner.lookup key).visits ↔ V.Covers owner.visits ∧ V.Covers key.visits :=
  (covers_expr rfl).trans (covers_append _ _)

@[simp] theorem covers_binary (op : BinaryOp) (left right : Expr) :
    V.Covers (Expr.binary op left right).visits ↔ V.Covers left.visits ∧ V.Covers right.visits :=
  (covers_expr rfl).trans (covers_append _ _)

@[simp] theorem covers_unary (op : UnaryOp) (arg : Expr) :
    V.Covers (Expr.unary op arg).visits ↔ V.Covers arg.visits := covers_expr rfl

@[simp] theorem covers_conditional (test yes no : Expr) :
    V.Covers (Expr.conditional test yes no).visits ↔
      V.Covers test.visits ∧ V.Covers yes.visits ∧ V.Covers no.visits := by
  refine (covers_expr rfl).trans ?_
  rw [covers_append, covers_append, and_assoc]

@[simp] theorem covers_paren (inner : Expr) :
    V.Covers (Expr.paren inner).visits ↔ V.Covers inner.visits := covers_expr rfl

@[simp] theorem covers_update (op : UpdateOp) (isPrefix : Bool) (arg : Expr) :
    V.Covers (Expr.update op isPrefix arg).visits ↔ V.Covers arg.visits := covers_expr rfl

@[simp] theorem covers_assign (op : AssignOp) (target : Pattern) (value : Expr) :
    V.Covers (Expr.assign op target value).visits ↔
      V.Covers target.visits ∧ V.Covers value.visits :=
  (covers_expr rfl).trans (covers_append _ _)

@[simp] theorem covers_assignTo (target : Pattern) (value : Expr) :
    V.Covers (Expr.assignTo target value).visits ↔
      V.Covers target.visits ∧ V.Covers value.visits := covers_assign ..

@[simp] theorem covers_identPattern (x : Ident) :
    V.Covers (Pattern.ident x).visits ↔ V.binds x ∧ V.mentions x.name := by
  simp [Pattern.visits, Pattern.ownTargets]

@[simp] theorem covers_exprPattern (e : Expr) :
    V.Covers (Pattern.expr e).visits ↔ V.Covers e.visits := by
  simp [Pattern.visits, Pattern.ownTargets]

@[simp] theorem covers_assignName (name : String) (value : Expr) :
    V.Covers (Expr.assignName name value).visits ↔
      (V.binds (.synthetic name) ∧ V.mentions name) ∧ V.Covers value.visits := by
  simp [Expr.assignName]

@[simp] theorem covers_sequence (es : List Expr) :
    V.Covers (Expr.sequence es).visits ↔ V.Covers (exprsVisits es) := covers_expr rfl

@[simp] theorem covers_array (elements : List (Option Expr)) :
    V.Covers (Expr.array elements).visits ↔ V.Covers (slotsVisits elements) := covers_expr rfl

@[simp] theorem covers_arrayOf (es : List Expr) :
    V.Covers (Expr.arrayOf es).visits ↔ V.Covers (exprsVisits es) := by
  rw [Expr.arrayOf, covers_array, slotsVisits_map_some]

@[simp] theorem covers_object (ps : List Property) :
    V.Covers (Expr.object ps).visits ↔ V.Covers (propertiesVisits ps) := covers_expr rfl

@[simp] theorem covers_functionExpr (f : Func) :
    V.Covers (Expr.function f).visits ↔ V.Covers f.visits := covers_expr rfl

theorem covers_func (name : Option Ident) (params : List Param) (body : List Stmt)
    (isAsync isGenerator : Bool) :
    V.Covers (Func.mk name params body isAsync isGenerator).visits ↔
      (∀ x, name = some x → V.binds x ∧ V.mentions x.name) ∧ V.Covers (paramsVisits params) ∧
        V.Covers (stmtsVisits body) := by
  simp only [Func.visits, covers_cons, covers_append, admits_func, covers_idents,
    Option.mem_toList, forall_and]
  tauto

@[simp] theorem covers_functionOf (params : List Param) (body : List Stmt) :
    V.Covers (Expr.functionOf none params body).visits ↔
      V.Covers (paramsVisits params) ∧ V.Covers (stmtsVisits body) := by
  simp [Expr.functionOf, covers_func]

@[simp] theorem covers_paramOfName (name : String) :
    V.Covers (Param.ofName name).visits ↔ V.binds (.synthetic name) ∧ V.mentions name := by
  simp [Param.ofName, Param.ofPattern, Param.visits, exprVisits?]

theorem covers_ofList {es : List Expr} {e : Expr} (h : V.Covers (exprsVisits es))
    (he : Expr.ofList es = some e) : V.Covers e.visits := by
  match es, he with
  | [_], rfl => simpa [exprsVisits] using h
  | _ :: _ :: _, rfl => exact (covers_sequence _).mpr h

@[simp] theorem covers_exprStmt (e : Expr) :
    V.Covers (Stmt.expr e).visits ↔ V.Covers e.visits := covers_stmt rfl

@[simp] theorem covers_block (body : List Stmt) :
    V.Covers (Stmt.block body).visits ↔ V.Covers (stmtsVisits body) := covers_stmt rfl

@[simp] theorem covers_ifThen (test : Expr) (yes : Stmt) :
    V.Covers (Stmt.ifThen test yes).visits ↔ V.Covers test.visits ∧ V.Covers yes.visits :=
  (covers_stmt rfl).trans (covers_append _ _)

@[simp] theorem covers_forIn (head : ForHead) (object : Expr) (body : Stmt) :
    V.Covers (Stmt.forIn head object body).visits ↔
      V.Covers head.visits ∧ V.Covers object.visits ∧ V.Covers body.visits := by
  refine (covers_stmt rfl).trans ?_
  rw [covers_append, covers_append, and_assoc]

@[simp] theorem covers_forOf (head : ForHead) (iterable : Expr) (body : Stmt) (isAwait : Bool) :
    V.Covers (Stmt.forOf head iterable body isAwait).visits ↔
      V.Covers head.visits ∧ V.Covers iterable.visits ∧ V.Covers body.visits := by
  refine (covers_stmt rfl).trans ?_
  rw [covers_append, covers_append, and_assoc]

@[simp] theorem covers_forLoop (init : ForInit) (test update : Option Expr) (body : Stmt) :
    V.Covers (Stmt.forLoop init test update body).visits ↔ V.Covers init.visits ∧
      V.Covers (exprVisits? test) ∧ V.Covers (exprVisits? update) ∧ V.Covers body.visits := by
  refine (covers_stmt rfl).trans ?_
  rw [covers_append, covers_append, covers_append, and_assoc, and_assoc]

@[simp] theorem covers_ret (arg : Option Expr) :
    V.Covers (Stmt.ret arg).visits ↔ V.Covers (exprVisits? arg) := covers_stmt rfl

@[simp] theorem covers_functionStmt (modifiers : Modifiers) (f : Func) :
    V.Covers (Stmt.function modifiers f).visits ↔ V.Covers f.visits := covers_stmt rfl

@[simp] theorem covers_var (modifiers : Modifiers) (list : VarList) :
    V.Covers (Stmt.var modifiers list).visits ↔ V.Covers list.visits := covers_stmt rfl

@[simp] theorem covers_declaratorOfName (name : String) (init : Option Expr) :
    V.Covers (Declarator.ofName name init).visits ↔
      (V.binds (.synthetic name) ∧ V.mentions name) ∧ V.Covers (exprVisits? init) := by
  simp [Declarator.ofName, Declarator.visits]

@[simp] theorem covers_varInit (name : String) (init : Option Expr) :
    V.Covers (Stmt.varInit name init).visits ↔
      (V.binds (.synthetic name) ∧ V.mentions name) ∧ V.Covers (exprVisits? init) := by
  simp [Stmt.varInit, VarList.visits, declaratorsVisits]

theorem covers_varNames {names : List String}
    (h : ∀ name ∈ names, V.binds (.synthetic name) ∧ V.mentions name) :
    V.Covers (Stmt.varNames names).visits := by
  rw [Stmt.varNames, covers_var]
  induction names with
  | nil => exact covers_nil
  | cons name names ih =>
    obtain ⟨hname, hnames⟩ := List.forall_mem_cons.mp h
    refine (covers_append _ _).mpr ⟨?_, ih hnames⟩
    exact (covers_declaratorOfName name none).mpr ⟨hname, covers_nil⟩

theorem covers_stmtOfList {sts : List Stmt} (h : V.Covers (stmtsVisits sts)) :
    V.Covers (Stmt.ofList sts).visits := by
  match sts with
  | [] => exact .stmt rfl covers_nil
  | [st] => exact ((covers_append _ _).mp h).1
  | _ :: _ :: _ => exact (covers_block _).mpr h

end Vocabulary
end RegisterForm
