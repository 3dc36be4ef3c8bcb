import RegisterForm.Print.Rank
import RegisterForm.Registration.Call
import RegisterForm.Proofs.Scope.Clause
/-!
# Scripts

A script is a tree without module syntax that reads no import by its own name. Everything that
lowering adds to a tree is one, as long as every import has a variable that holds its module.
-/
namespace RegisterForm

/-- Whether a statement imports or exports, or is marked as one that does. -/
def Stmt.isModular : Stmt → Bool
  | .importFrom .. | .importEquals .. | .exportFrom .. | .exportValue .. => true
  | .var modifiers _ | .function modifiers _ | .classDecl modifiers _ => modifiers != {}
  | _ => false

/-- Whether a node may stand inside a statement of the module. -/
def Visit.isUnmarked : Visit → Bool
  | .stmt s => !s.isModular
  | _ => true

/-- Nothing among the visits imports, exports or is marked so. -/
def AllUnmarked (vs : List Visit) : Prop := ∀ v ∈ vs, v.isUnmarked = true

/-- Imports, exports and the modifiers of exports stand directly in the module. -/
def SourceFile.IsStrictlyFlat (file : SourceFile) : Prop :=
  ∀ s ∈ file.statements, AllUnmarked s.visits.tail

section AllUnmarked
variable (vs ws : List Visit)

@[simp] theorem allUnmarked_nil : AllUnmarked [] := List.forall_mem_nil _

@[simp] theorem allUnmarked_append : AllUnmarked (vs ++ ws) ↔ AllUnmarked vs ∧ AllUnmarked ws :=
  List.forall_mem_append

@[simp] theorem allUnmarked_cons (v : Visit) :
    AllUnmarked (v :: vs) ↔ v.isUnmarked = true ∧ AllUnmarked vs := List.forall_mem_cons

end AllUnmarked

namespace AllUnmarked
variable {v : Visit} {vs ws : List Visit}

theorem tail (h : AllUnmarked (v :: vs)) : AllUnmarked vs := ((allUnmarked_cons vs v).mp h).2

theorem left (h : AllUnmarked (vs ++ ws)) : AllUnmarked vs := ((allUnmarked_append vs ws).mp h).1

theorem right (h : AllUnmarked (vs ++ ws)) : AllUnmarked ws := ((allUnmarked_append vs ws).mp h).2

end AllUnmarked

theorem Stmt.isModular_of_isModuleSyntax {s : Stmt} (h : s.isModuleSyntax = true) :
    s.isModular = true := by
  cases s with
  | var modifiers _ | function modifiers _ | classDecl modifiers _ =>
    have hexported : modifiers.isExported = true := h
    have hne : modifiers ≠ {} := by
      rintro rfl
      cases hexported
    exact bne_iff_ne.mpr hne
  | importFrom | importEquals | exportFrom | exportValue => rfl
  | _ => cases h

theorem SourceFile.IsStrictlyFlat.isFlat {file : SourceFile} (h : file.IsStrictlyFlat) :
    file.IsFlat := by
  intro s hs v hv
  have hv' := h s hs v hv
  cases v with
  | stmt s' =>
    cases hm : s'.isModuleSyntax with
    | false => simp [Visit.isInner, hm]
    | true => simp [Visit.isUnmarked, Stmt.isModular_of_isModuleSyntax hm] at hv'
  | _ => rfl

namespace Setting

/-- Whether an identifier may be read as it stands: it stands for no import, or for a module as
a whole that the variable of this name holds. -/
def readsItself (s : Setting) (x : Ident) : Bool :=
  (s.names.importOf? x).all fun origin =>
    match origin.kind with
    | .star | .equals => s.holders.lookup origin.declaration == some x.name
    | .default | .named _ => false

/-- Whether a node may stand in a script. -/
def isScript (s : Setting) : Visit → Bool
  | .stmt st => !st.isModular && !st.isAmbient
  | .expr (.ident x) => s.readsItself x
  | .expr (.object properties) =>
    properties.all fun
      | .shorthand x => s.readsItself x
      | _ => true
  | .expr (.importCall _) | .expr .importMeta => false
  | _ => true

def AllScript (s : Setting) (vs : List Visit) : Prop := ∀ v ∈ vs, s.isScript v = true

/-- Every import has a variable that holds its module. -/
def HoldsImports (s : Setting) : Prop :=
  ∀ x origin, s.names.importOf? x = some origin → (s.holders.lookup origin.declaration).isSome

section AllScript
variable {s : Setting} (vs ws : List Visit)

@[simp] theorem allScript_nil : s.AllScript [] := List.forall_mem_nil _

@[simp] theorem allScript_append : s.AllScript (vs ++ ws) ↔ s.AllScript vs ∧ s.AllScript ws :=
  List.forall_mem_append

@[simp] theorem allScript_cons (v : Visit) :
    s.AllScript (v :: vs) ↔ s.isScript v = true ∧ s.AllScript vs := List.forall_mem_cons

theorem AllScript.append {vs ws : List Visit} (h : s.AllScript vs) (h' : s.AllScript ws) :
    s.AllScript (vs ++ ws) := (allScript_append vs ws).mpr ⟨h, h'⟩

/-- A node whose own kind stands in a script. -/
theorem AllScript.node {v : Visit} {vs : List Visit} (hv : s.isScript v = true)
    (h : s.AllScript vs) : s.AllScript (v :: vs) := (allScript_cons vs v).mpr ⟨hv, h⟩

/-- What is asked of a node whose own kind stands in a script. -/
theorem allScript_node {us : List Visit} {v : Visit} (hus : us = v :: vs)
    (hv : s.isScript v = true) : s.AllScript us ↔ s.AllScript vs := by
  rw [hus, allScript_cons]
  exact and_iff_right hv

@[simp] theorem isScript_pattern (p : Pattern) : s.isScript (.pattern p) = true := rfl

@[simp] theorem isScript_func (f : Func) : s.isScript (.func f) = true := rfl

@[simp] theorem isScript_classNode (c : Class) : s.isScript (.classNode c) = true := rfl

@[simp] theorem isScript_ident (x : Ident) : s.isScript (.ident x) = true := rfl

@[simp] theorem isScript_name (text : String) : s.isScript (.name text) = true := rfl

theorem allScript_idents (xs : List Ident) : s.AllScript (xs.map .ident) := by
  intro v hv
  obtain ⟨x, -, rfl⟩ := List.mem_map.mp hv
  rfl

theorem allScript_names (texts : List String) : s.AllScript (texts.map .name) := by
  intro v hv
  obtain ⟨text, -, rfl⟩ := List.mem_map.mp hv
  rfl

/-- A list of one statement. -/
theorem AllScript.single {st : Stmt} (h : s.AllScript st.visits) : s.AllScript (stmtsVisits [st]) :=
  h.append allScript_nil

end AllScript
end Setting

/-! ## Lists of nodes -/

section lists

@[simp] theorem exprsVisits_append (es fs : List Expr) :
    exprsVisits (es ++ fs) = exprsVisits es ++ exprsVisits fs := by
  induction es with
  | nil => rfl
  | cons e es ih => rw [List.cons_append, exprsVisits, exprsVisits, ih, List.append_assoc]

theorem slotsVisits_map_some (es : List Expr) : slotsVisits (es.map some) = exprsVisits es := by
  induction es with
  | nil => rfl
  | cons e es ih => rw [List.map_cons, slotsVisits, exprsVisits, exprVisits?, ih]

end lists

namespace Setting
variable {s : Setting}

theorem allScript_exprsVisits {es : List Expr} (h : ∀ e ∈ es, s.AllScript e.visits) :
    s.AllScript (exprsVisits es) := by
  induction es with
  | nil => exact allScript_nil
  | cons e es ih =>
    obtain ⟨he, hes⟩ := List.forall_mem_cons.mp h
    exact (allScript_append _ _).mpr ⟨he, ih hes⟩

theorem allScript_stmtsVisits {sts : List Stmt} (h : ∀ st ∈ sts, s.AllScript st.visits) :
    s.AllScript (stmtsVisits sts) := by
  induction sts with
  | nil => exact allScript_nil
  | cons st sts ih =>
    obtain ⟨hst, hsts⟩ := List.forall_mem_cons.mp h
    exact (allScript_append _ _).mpr ⟨hst, ih hsts⟩

theorem allScript_propertiesVisits {ps : List Property} (h : ∀ p ∈ ps, s.AllScript p.visits) :
    s.AllScript (propertiesVisits ps) := by
  induction ps with
  | nil => exact allScript_nil
  | cons p ps ih =>
    obtain ⟨hp, hps⟩ := List.forall_mem_cons.mp h
    exact (allScript_append _ _).mpr ⟨hp, ih hps⟩

/-- An object literal is a script if its properties are and its shorthands read themselves. -/
theorem script_object {ps : List Property} (h : s.AllScript (propertiesVisits ps))
    (hshort : ∀ x, .shorthand x ∈ ps → s.readsItself x = true) :
    s.AllScript (Expr.object ps).visits := by
  have hall : s.isScript (.expr (.object ps)) = true := by
    refine List.all_eq_true.mpr fun p hp => ?_
    cases p with
    | shorthand x => exact hshort x hp
    | _ => rfl
  exact (allScript_node _ rfl hall).mpr h

/-! ## Made-up nodes -/

@[simp] theorem readsItself_synthetic (name : String) : s.readsItself (.synthetic name) = true := rfl

@[simp] theorem script_ofName (name : String) : s.AllScript (Expr.ofName name).visits :=
  (allScript_node _ rfl rfl).mpr (allScript_idents [_])

@[simp] theorem script_literal (value : Literal) : s.AllScript (Expr.literal value).visits :=
  (allScript_node _ rfl rfl).mpr allScript_nil

@[simp] theorem script_ofString (text : String) : s.AllScript (Expr.ofString text).visits :=
  script_literal _

@[simp] theorem script_ofNumber (source : String) : s.AllScript (Expr.ofNumber source).visits :=
  script_literal _

@[simp] theorem script_ofBool (value : Bool) : s.AllScript (Expr.ofBool value).visits :=
  script_literal _

@[simp] theorem script_this : s.AllScript Expr.this.visits :=
  (allScript_node _ rfl rfl).mpr allScript_nil

@[simp] theorem script_apply (callee : Expr) (args : List Expr) :
    s.AllScript (callee.apply args).visits ↔
      s.AllScript callee.visits ∧ s.AllScript (exprsVisits args) :=
  (allScript_node _ rfl rfl).trans (allScript_append _ _)

@[simp] theorem script_dot (owner : Expr) (name : String) :
    s.AllScript (owner.dot name).visits ↔ s.AllScript owner.visits := by
  refine (allScript_node _ rfl rfl).trans ((allScript_append _ _).trans ?_)
  exact and_iff_left (allScript_names [name])

@[simp] theorem script_lookup (owner key : Expr) :
    s.AllScript (owner.lookup key).visits ↔ s.AllScript owner.visits ∧ s.AllScript key.visits :=
  (allScript_node _ rfl rfl).trans (allScript_append _ _)

@[simp] theorem script_binary (op : BinaryOp) (left right : Expr) :
    s.AllScript (Expr.binary op left right).visits ↔
      s.AllScript left.visits ∧ s.AllScript right.visits :=
  (allScript_node _ rfl rfl).trans (allScript_append _ _)

@[simp] theorem script_unary (op : UnaryOp) (arg : Expr) :
    s.AllScript (Expr.unary op arg).visits ↔ s.AllScript arg.visits :=
  allScript_node _ rfl rfl

@[simp] theorem script_conditional (test yes no : Expr) :
    s.AllScript (Expr.conditional test yes no).visits ↔
      s.AllScript test.visits ∧ s.AllScript yes.visits ∧ s.AllScript no.visits := by
  refine (allScript_node _ rfl rfl).trans ?_
  simp only [allScript_append, and_assoc]

@[simp] theorem script_paren (inner : Expr) :
    s.AllScript (Expr.paren inner).visits ↔ s.AllScript inner.visits :=
  allScript_node _ rfl rfl

@[simp] theorem script_update (op : UpdateOp) (isPrefix : Bool) (arg : Expr) :
    s.AllScript (Expr.update op isPrefix arg).visits ↔ s.AllScript arg.visits :=
  allScript_node _ rfl rfl

@[simp] theorem script_assign (op : AssignOp) (target : Pattern) (value : Expr) :
    s.AllScript (Expr.assign op target value).visits ↔
      s.AllScript target.visits ∧ s.AllScript value.visits :=
  (allScript_node _ rfl rfl).trans (allScript_append _ _)

@[simp] theorem script_assignTo (target : Pattern) (value : Expr) :
    s.AllScript (Expr.assignTo target value).visits ↔
      s.AllScript target.visits ∧ s.AllScript value.visits := script_assign ..

@[simp] theorem script_identPattern (x : Ident) : s.AllScript (Pattern.ident x).visits :=
  (allScript_node _ rfl rfl).mpr (allScript_idents [x])

@[simp] theorem script_exprPattern (e : Expr) :
    s.AllScript (Pattern.expr e).visits ↔ s.AllScript e.visits :=
  allScript_node _ rfl rfl

@[simp] theorem script_assignName (name : String) (value : Expr) :
    s.AllScript (Expr.assignName name value).visits ↔ s.AllScript value.visits := by
  simp [Expr.assignName]

@[simp] theorem script_sequence (es : List Expr) :
    s.AllScript (Expr.sequence es).visits ↔ s.AllScript (exprsVisits es) :=
  allScript_node _ rfl rfl

@[simp] theorem script_array (elements : List (Option Expr)) :
    s.AllScript (Expr.array elements).visits ↔ s.AllScript (slotsVisits elements) :=
  allScript_node _ rfl rfl

@[simp] theorem script_arrayOf (es : List Expr) :
    s.AllScript (Expr.arrayOf es).visits ↔ s.AllScript (exprsVisits es) := by
  rw [Expr.arrayOf, script_array, slotsVisits_map_some]

@[simp] theorem script_function (f : Func) :
    s.AllScript (Expr.function f).visits ↔ s.AllScript f.visits :=
  allScript_node _ rfl rfl

theorem script_func (name : Option Ident) (params : List Param) (body : List Stmt)
    (isAsync isGenerator : Bool) :
    s.AllScript (Func.mk name params body isAsync isGenerator).visits ↔
      s.AllScript (paramsVisits params) ∧ s.AllScript (stmtsVisits body) := by
  refine (allScript_node _ rfl rfl).trans ?_
  simp [allScript_idents]

@[simp] theorem script_functionOf (name : Option String) (params : List Param) (body : List Stmt) :
    s.AllScript (Expr.functionOf name params body).visits ↔
      s.AllScript (paramsVisits params) ∧ s.AllScript (stmtsVisits body) := by
  rw [Expr.functionOf, script_function, script_func]

@[simp] theorem script_paramOfName (name : String) : s.AllScript (Param.ofName name).visits :=
  (allScript_append _ _).mpr ⟨script_identPattern _, allScript_nil⟩

theorem script_ofPath (path : String) : s.AllScript (Expr.ofPath path).visits := by
  have hparts : ∀ (parts : List (List Char)) (e : Expr), s.AllScript e.visits →
      s.AllScript (parts.foldl (fun e part => e.dot (String.ofList part)) e).visits := by
    intro parts
    induction parts with
    | nil => exact fun _ h => h
    | cons part parts ih => exact fun e h => ih _ ((script_dot e _).mpr h)
  exact hparts _ _ (script_ofName _)

theorem script_ofList {es : List Expr} {e : Expr} (h : s.AllScript (exprsVisits es))
    (he : Expr.ofList es = some e) : s.AllScript e.visits := by
  match es, he with
  | [_], rfl => simpa [exprsVisits] using h
  | _ :: _ :: _, rfl => exact (script_sequence _).mpr h

@[simp] theorem script_exprStmt (e : Expr) :
    s.AllScript (Stmt.expr e).visits ↔ s.AllScript e.visits :=
  allScript_node _ rfl rfl

@[simp] theorem script_block (body : List Stmt) :
    s.AllScript (Stmt.block body).visits ↔ s.AllScript (stmtsVisits body) :=
  allScript_node _ rfl rfl

@[simp] theorem script_ifThen (test : Expr) (yes : Stmt) :
    s.AllScript (Stmt.ifThen test yes).visits ↔ s.AllScript test.visits ∧ s.AllScript yes.visits :=
  (allScript_node _ rfl rfl).trans (allScript_append _ _)

@[simp] theorem script_forIn (head : ForHead) (object : Expr) (body : Stmt) :
    s.AllScript (Stmt.forIn head object body).visits ↔
      s.AllScript head.visits ∧ s.AllScript object.visits ∧ s.AllScript body.visits := by
  refine (allScript_node _ rfl rfl).trans ?_
  simp only [allScript_append, and_assoc]

@[simp] theorem script_forOf (head : ForHead) (iterable : Expr) (body : Stmt) (isAwait : Bool) :
    s.AllScript (Stmt.forOf head iterable body isAwait).visits ↔
      s.AllScript head.visits ∧ s.AllScript iterable.visits ∧ s.AllScript body.visits := by
  refine (allScript_node _ rfl rfl).trans ?_
  simp only [allScript_append, and_assoc]

@[simp] theorem script_forLoop (init : ForInit) (test update : Option Expr) (body : Stmt) :
    s.AllScript (Stmt.forLoop init test update body).visits ↔ s.AllScript init.visits ∧
      s.AllScript (exprVisits? test) ∧ s.AllScript (exprVisits? update) ∧
        s.AllScript body.visits := by
  refine (allScript_node _ rfl rfl).trans ?_
  simp only [allScript_append, and_assoc]

@[simp] theorem script_ret (arg : Option Expr) :
    s.AllScript (Stmt.ret arg).visits ↔ s.AllScript (exprVisits? arg) :=
  allScript_node _ rfl rfl

@[simp] theorem script_plainFunction (f : Func) :
    s.AllScript (Stmt.function {} f).visits ↔ s.AllScript f.visits :=
  allScript_node _ rfl rfl

@[simp] theorem script_plainVar (list : VarList) :
    s.AllScript (Stmt.var {} list).visits ↔ s.AllScript list.visits :=
  allScript_node _ rfl rfl

theorem script_declaratorOfName (name : String) (init : Option Expr) :
    s.AllScript (Declarator.ofName name init).visits ↔ s.AllScript (exprVisits? init) := by
  refine (allScript_append _ _).trans ?_
  exact and_iff_right (script_identPattern _)

@[simp] theorem script_varInit (name : String) (init : Option Expr) :
    s.AllScript (Stmt.varInit name init).visits ↔ s.AllScript (exprVisits? init) := by
  refine (script_plainVar _).trans ((allScript_append _ _).trans ?_)
  exact (and_iff_left allScript_nil).trans (script_declaratorOfName name init)

theorem script_varNames (names : List String) : s.AllScript (Stmt.varNames names).visits := by
  rw [Stmt.varNames, script_plainVar]
  induction names with
  | nil => exact allScript_nil
  | cons name names ih =>
    refine (allScript_append _ _).mpr ⟨?_, ih⟩
    exact (script_declaratorOfName name none).mpr allScript_nil

theorem script_stmtOfList {sts : List Stmt} (h : s.AllScript (stmtsVisits sts)) :
    s.AllScript (Stmt.ofList sts).visits := by
  match sts with
  | [] =>
    exact (allScript_node _ rfl rfl).mpr allScript_nil
  | [st] => exact ((allScript_append _ _).mp h).1
  | _ :: _ :: _ => exact (script_block _).mpr h

/-! ## Reads and publications -/

@[simp] theorem script_publish (name : String) (value : Expr) :
    s.AllScript (s.publish name value).visits ↔ s.AllScript value.visits := by
  simp [publish, exprsVisits]

theorem script_importedProperty (holder name : String) :
    s.AllScript (s.importedProperty holder name).visits := by
  unfold importedProperty
  split <;> simp

/-- An identifier that reads itself is read by its name. -/
theorem script_ident {x : Ident} (h : s.readsItself x = true) :
    s.AllScript (Expr.ident x).visits :=
  (allScript_node (v := .expr (.ident x)) _ rfl h).mpr (allScript_idents [x])

/-- An import is read off the variable that holds its module, or is that variable. -/
theorem script_read (hheld : s.HoldsImports) (x : Ident) : s.AllScript (s.read x).visits := by
  unfold read
  cases hx : s.names.importOf? x with
  | none => exact script_ident (by simp [readsItself, hx])
  | some origin =>
    obtain ⟨holder, hholder⟩ := Option.isSome_iff_exists.mp (hheld x origin hx)
    simp only [hholder]
    cases hkind : origin.kind with
    | default => exact script_importedProperty holder _
    | named imported => exact script_importedProperty holder imported
    | star | equals =>
      dsimp only
      split
      · next hname =>
        refine script_ident ?_
        simp [readsItself, hx, hkind, hholder, hname]
      · exact script_ofName holder

/-- What a variable of the module reads is no import. -/
theorem readsItself_of_exportNames {x : Ident} (h : s.exportNames x ≠ []) :
    s.readsItself x = true := by
  have hnone : s.names.importOf? x = none := by
    by_contra hsome
    refine h (if_pos ?_)
    simp [Option.isSome_iff_ne_none.mpr hsome]
  simp [readsItself, hnone]

/-- A shorthand property is kept only if it reads itself. -/
theorem readsItself_of_readShorthand {x y : Ident} (hheld : s.HoldsImports)
    (h : s.readShorthand x = .shorthand y) : s.readsItself y = true := by
  unfold readShorthand at h
  cases hread : s.read x with
  | ident z =>
    simp only [hread] at h
    split at h
    · next hname =>
      cases h
      have hscript := script_read hheld x
      rw [hread] at hscript
      have hz : s.readsItself z = true := hscript (.expr (.ident z)) (.head _)
      by_cases hzx : z = x
      · rwa [← hzx]
      · -- what is read otherwise is a holder of another name
        unfold read importedProperty at hread
        repeat' split at hread
        all_goals first
          | cases hread; exact absurd rfl hzx
          | cases hread; exact absurd hname ‹_›
          | cases hread
    · cases h
  | _ =>
    simp only [hread] at h
    cases h

theorem script_readShorthand {x : Ident} (hheld : s.HoldsImports) :
    s.AllScript (s.readShorthand x).visits := by
  have hread := script_read hheld x
  unfold readShorthand
  split
  · next y hy =>
    split
    · exact allScript_idents [x]
    · rw [← hy]
      exact (allScript_append _ _).mpr ⟨allScript_names [x.name], hread⟩
  · exact (allScript_append _ _).mpr ⟨allScript_names [x.name], hread⟩

theorem script_published (x : Ident) {value : Expr} (h : s.AllScript value.visits) :
    s.AllScript (s.published x value).visits := by
  unfold published
  generalize s.exportNames x = names
  induction names generalizing value with
  | nil => exact h
  | cons name names ih => exact ih ((script_publish name value).mpr h)

theorem script_publishedTo (target : Pattern) {value : Expr} (h : s.AllScript value.visits) :
    s.AllScript (s.publishedTo target value).visits := by
  unfold publishedTo
  split
  · exact script_published _ h
  · exact h

theorem script_bindingAssignment (x : Ident) {value : Expr} (h : s.AllScript value.visits) :
    s.AllScript (s.bindingAssignment x value).visits :=
  script_published x ((script_assignTo _ _).mpr ⟨script_identPattern x, h⟩)

theorem script_publishedUpdate? {op : UpdateOp} {isPrefix isUsed : Bool} {arg e : Expr}
    (h : s.publishedUpdate? op isPrefix isUsed arg = some e) : s.AllScript e.visits := by
  unfold publishedUpdate? at h
  split at h
  · next x _ =>
    split at h
    · cases h
    · next hnames =>
      have hx : s.readsItself x = true :=
        readsItself_of_exportNames (by simpa using hnames)
      have hupdated : s.AllScript (s.published x (.update op true (.ident x))).visits :=
        script_published x ((script_update _ _ _).mpr (script_ident hx))
      split at h <;> cases h
      · exact hupdated
      · exact (script_binary _ _ _).mpr ⟨hupdated, script_ofNumber _⟩
  · cases h

/-! ## Patterns taken apart -/

theorem script_orFallback {value fallback : Expr} (h : s.AllScript value.visits)
    (hfallback : s.AllScript fallback.visits) :
    s.AllScript (orFallback value fallback).visits := by
  simp [orFallback, Expr.voidZero, h, hfallback]

theorem script_propertyKey {key : Expr} (h : s.AllScript key.visits) :
    s.AllScript (propertyKey key).visits := by
  simp [propertyKey, h]

theorem script_restCall {value : Expr} {keys : List Expr} (h : s.AllScript value.visits)
    (hkeys : s.AllScript (exprsVisits keys)) : s.AllScript (restCall value keys).visits := by
  simp [restCall, exprsVisits, h, hkeys]

theorem script_restSlice {value : Expr} (index : Nat) (h : s.AllScript value.visits) :
    s.AllScript (restSlice value index).visits := by
  simp [restSlice, exprsVisits, h]

theorem script_headExports (target : Pattern) : s.AllScript (stmtsVisits (headExports s target)) := by
  refine allScript_stmtsVisits fun st hst => ?_
  obtain ⟨x, -, hst⟩ := List.mem_flatMap.mp hst
  obtain ⟨name, -, rfl⟩ := List.mem_map.mp hst
  simp

end Setting
end RegisterForm
