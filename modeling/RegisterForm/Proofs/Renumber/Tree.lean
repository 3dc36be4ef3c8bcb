import RegisterForm.Tree.Construct
import RegisterForm.Tree.Shape
import Mathlib.Logic.Function.Basic
/-!
# New numbers for nodes

The numbers of nodes may be drawn in any order. A renumbering gives every node another number and
keeps different nodes apart; it is carried through every kind of node. What can be read off the
outside of a node does not depend on its number.
-/
namespace RegisterForm

/-- New numbers for nodes. Nodes that differ still differ, and the made-up ones stay made up. -/
structure Renumbering where
  apply : NodeId → NodeId
  injective : Function.Injective apply
  apply_synthetic : apply .synthetic = .synthetic

namespace Renumbering

instance : CoeFun Renumbering fun _ => NodeId → NodeId := ⟨apply⟩

attribute [simp] apply_synthetic

/-- All numbers moved up by the same amount. -/
def shift (k : Nat) : Renumbering where
  apply
    | .numbered n => .numbered (n + k)
    | .synthetic => .synthetic
  injective a b h := by
    cases a <;> cases b <;> simp_all
  apply_synthetic := rfl

example : (shift 7) (.numbered 3) = .numbered 10 := rfl

variable (r : Renumbering)

@[simp] theorem apply_inj {a b : NodeId} : r a = r b ↔ a = b := r.injective.eq_iff

@[simp] theorem apply_beq (a b : NodeId) : (r a == r b) = (a == b) := by
  rw [Bool.eq_iff_iff, beq_iff_eq, beq_iff_eq, r.apply_inj]

/-- No node of the source becomes a made-up one. -/
@[simp] theorem isSynthetic_apply (a : NodeId) : (r a).isSynthetic = a.isSynthetic := by
  rw [Bool.eq_iff_iff, NodeId.isSynthetic_eq_true, NodeId.isSynthetic_eq_true]
  exact ⟨fun h => r.injective (h.trans r.apply_synthetic.symm), fun h => by rw [h, apply_synthetic]⟩

/-- An association list under new numbers. -/
def pairs {α : Type} (entries : List (NodeId × α)) : List (NodeId × α) :=
  entries.map fun entry => (r entry.1, entry.2)

@[simp] theorem pairs_nil {α : Type} : r.pairs ([] : List (NodeId × α)) = [] := rfl

@[simp] theorem pairs_cons {α : Type} (a : NodeId) (v : α) (entries : List (NodeId × α)) :
    r.pairs ((a, v) :: entries) = (r a, v) :: r.pairs entries := rfl

/-- A node is found under its new number exactly where it was found under its old one. -/
@[simp] theorem lookup_pairs {α : Type} (entries : List (NodeId × α)) (a : NodeId) :
    (r.pairs entries).lookup (r a) = entries.lookup a := by
  induction entries with
  | nil => rfl
  | cons entry entries ih =>
    obtain ⟨b, v⟩ := entry
    rw [pairs_cons, List.lookup_cons, List.lookup_cons, apply_beq, ih]

theorem mem_pairs {α : Type} {entries : List (NodeId × α)} {a : NodeId} {v : α} :
    (r a, v) ∈ r.pairs entries ↔ (a, v) ∈ entries := by
  simp [pairs]

end Renumbering

variable (r : Renumbering)

/-! ## Clauses -/

def Ident.renumber (x : Ident) : Ident := ⟨r x.id, x.name⟩

@[simp] theorem Ident.id_renumber (x : Ident) : (x.renumber r).id = r x.id := rfl

@[simp] theorem Ident.name_renumber (x : Ident) : (x.renumber r).name = x.name := rfl

@[simp] theorem Ident.renumber_synthetic (name : String) :
    (Ident.synthetic name).renumber r = .synthetic name := by
  rw [renumber, synthetic, r.apply_synthetic]

theorem Ident.map_name_renumber (xs : List Ident) :
    (xs.map (·.renumber r)).map Ident.name = xs.map Ident.name := by
  rw [List.map_map]
  rfl

def Site.renumber (site : Site) : Site := ⟨r site.id, site.span⟩

@[simp] theorem Site.id_renumber (site : Site) : (site.renumber r).id = r site.id := rfl

@[simp] theorem Site.span_renumber (site : Site) : (site.renumber r).span = site.span := rfl

def ImportSpecifier.renumber (s : ImportSpecifier) : ImportSpecifier :=
  ⟨s.imported, s.binding.renumber r, s.isTypeOnly⟩

def ImportBindings.renumber : ImportBindings → ImportBindings
  | star x => star (x.renumber r)
  | named specifiers => named (specifiers.map (·.renumber r))

def ImportClause.renumber (c : ImportClause) : ImportClause :=
  ⟨c.default.map (·.renumber r), c.bindings.map (·.renumber r)⟩

def ExportSpecifier.renumber (s : ExportSpecifier) : ExportSpecifier :=
  ⟨r s.id, s.source.renumber r, s.exported, s.isTypeOnly⟩

@[simp] theorem ExportSpecifier.exportedName_renumber (s : ExportSpecifier) :
    (s.renumber r).exportedName = s.exportedName := rfl

def ExportClause.renumber : ExportClause → ExportClause
  | named specifiers => named (specifiers.map (·.renumber r))
  | star x => star (x.renumber r)

/-! ## Trees -/

mutual

def Expr.renumber : Expr → Expr
  | .ident x => .ident (x.renumber r)
  | .literal value => .literal value
  | .template chunks parts => .template chunks (renumberExprs parts)
  | .tagged tag chunks parts => .tagged tag.renumber chunks (renumberExprs parts)
  | .this => .this
  | .super => .super
  | .array elements => .array (renumberSlots elements)
  | .object properties => .object (renumberProperties properties)
  | .function f => .function f.renumber
  | .arrow params body isAsync => .arrow (renumberParams params) body.renumber isAsync
  | .classExpr c => .classExpr c.renumber
  | .unary op arg => .unary op arg.renumber
  | .update op isPrefix arg => .update op isPrefix arg.renumber
  | .binary op left right => .binary op left.renumber right.renumber
  | .assign op target value => .assign op target.renumber value.renumber
  | .conditional test yes no => .conditional test.renumber yes.renumber no.renumber
  | .call callee args isOptional => .call callee.renumber (renumberExprs args) isOptional
  | .newBare callee => .newBare callee.renumber
  | .newCall callee args => .newCall callee.renumber (renumberExprs args)
  | .member owner name isOptional => .member owner.renumber name isOptional
  | .index owner key isOptional => .index owner.renumber key.renumber isOptional
  | .sequence exprs => .sequence (renumberExprs exprs)
  | .paren inner => .paren inner.renumber
  | .yield arg isDelegate => .yield (renumberExpr? arg) isDelegate
  | .await arg => .await arg.renumber
  | .spread arg => .spread arg.renumber
  | .importCall specifier => .importCall specifier.renumber
  | .importMeta => .importMeta

def renumberExprs : List Expr → List Expr
  | [] => []
  | e :: es => e.renumber :: renumberExprs es

def renumberExpr? : Option Expr → Option Expr
  | none => none
  | some e => some e.renumber

def renumberSlots : List (Option Expr) → List (Option Expr)
  | [] => []
  | e :: es => renumberExpr? e :: renumberSlots es

def Key.renumber : Key → Key
  | .name text => .name text
  | .string text => .string text
  | .number source => .number source
  | .computed e => .computed e.renumber

def Property.renumber : Property → Property
  | .keyed key value => .keyed key.renumber value.renumber
  | .shorthand x => .shorthand (x.renumber r)
  | .method key kind f => .method key.renumber kind f.renumber
  | .spread e => .spread e.renumber

def renumberProperties : List Property → List Property
  | [] => []
  | p :: ps => p.renumber :: renumberProperties ps

def Pattern.renumber : Pattern → Pattern
  | .ident x => .ident (x.renumber r)
  | .expr e => .expr e.renumber
  | .object properties rest => .object (renumberPatternProperties properties) (renumberPattern? rest)
  | .array elements rest => .array (renumberPatternSlots elements) (renumberPattern? rest)

def renumberPattern? : Option Pattern → Option Pattern
  | none => none
  | some p => some p.renumber

def PatternProperty.renumber : PatternProperty → PatternProperty
  | .keyed key target fallback => .keyed key.renumber target.renumber (renumberExpr? fallback)
  | .shorthand x fallback => .shorthand (x.renumber r) (renumberExpr? fallback)

def renumberPatternProperties : List PatternProperty → List PatternProperty
  | [] => []
  | p :: ps => p.renumber :: renumberPatternProperties ps

def PatternElement.renumber : PatternElement → PatternElement
  | ⟨target, fallback⟩ => ⟨target.renumber, renumberExpr? fallback⟩

def renumberPatternSlot : Option PatternElement → Option PatternElement
  | none => none
  | some e => some e.renumber

def renumberPatternSlots : List (Option PatternElement) → List (Option PatternElement)
  | [] => []
  | e :: es => renumberPatternSlot e :: renumberPatternSlots es

def Param.renumber : Param → Param
  | ⟨pattern, fallback, isRest⟩ => ⟨pattern.renumber, renumberExpr? fallback, isRest⟩

def renumberParams : List Param → List Param
  | [] => []
  | p :: ps => p.renumber :: renumberParams ps

def Func.renumber : Func → Func
  | ⟨name, params, body, isAsync, isGenerator⟩ =>
    ⟨name.map (·.renumber r), renumberParams params, renumberStmts body, isAsync, isGenerator⟩

def ArrowBody.renumber : ArrowBody → ArrowBody
  | .block body => .block (renumberStmts body)
  | .expr e => .expr e.renumber

def Class.renumber : Class → Class
  | ⟨name, base, members⟩ =>
    ⟨name.map (·.renumber r), renumberExpr? base, renumberMembers members⟩

def ClassMember.renumber : ClassMember → ClassMember
  | .method key kind isStatic f => .method key.renumber kind isStatic f.renumber
  | .field key isStatic value => .field key.renumber isStatic (renumberExpr? value)
  | .staticBlock body => .staticBlock (renumberStmts body)

def renumberMembers : List ClassMember → List ClassMember
  | [] => []
  | m :: ms => m.renumber :: renumberMembers ms

def Declarator.renumber : Declarator → Declarator
  | ⟨target, init⟩ => ⟨target.renumber, renumberExpr? init⟩

def renumberDeclarators : List Declarator → List Declarator
  | [] => []
  | d :: ds => d.renumber :: renumberDeclarators ds

def VarList.renumber : VarList → VarList
  | ⟨kind, declarators⟩ => ⟨kind, renumberDeclarators declarators⟩

def ForInit.renumber : ForInit → ForInit
  | .absent => .absent
  | .var list => .var list.renumber
  | .expr e => .expr e.renumber

def ForHead.renumber : ForHead → ForHead
  | .var list => .var list.renumber
  | .pattern p => .pattern p.renumber

def Catch.renumber : Catch → Catch
  | ⟨param, body⟩ => ⟨renumberPattern? param, renumberStmts body⟩

def renumberCatch? : Option Catch → Option Catch
  | none => none
  | some c => some c.renumber

def renumberBlock? : Option (List Stmt) → Option (List Stmt)
  | none => none
  | some body => some (renumberStmts body)

def Case.renumber : Case → Case
  | ⟨test, body⟩ => ⟨renumberExpr? test, renumberStmts body⟩

def renumberCases : List Case → List Case
  | [] => []
  | c :: cs => c.renumber :: renumberCases cs

def Stmt.renumber : Stmt → Stmt
  | .expr e => .expr e.renumber
  | .var modifiers list => .var modifiers list.renumber
  | .function modifiers f => .function modifiers f.renumber
  | .classDecl modifiers c => .classDecl modifiers c.renumber
  | .importFrom site clause specifier isTypeOnly =>
    .importFrom (site.renumber r) (clause.map (·.renumber r)) specifier.renumber isTypeOnly
  | .importEquals site isExported name kind value =>
    .importEquals (site.renumber r) isExported (name.renumber r) kind value.renumber
  | .exportFrom site clause specifier isTypeOnly =>
    .exportFrom (site.renumber r) (clause.map (·.renumber r)) (renumberExpr? specifier) isTypeOnly
  | .exportValue site form value => .exportValue (site.renumber r) form value.renumber
  | .ambient name isExported => .ambient (name.renumber r) isExported
  | .block body => .block (renumberStmts body)
  | .ifThen test yes => .ifThen test.renumber yes.renumber
  | .ifElse test yes no => .ifElse test.renumber yes.renumber no.renumber
  | .forLoop init test update body =>
    .forLoop init.renumber (renumberExpr? test) (renumberExpr? update) body.renumber
  | .forIn head object body => .forIn head.renumber object.renumber body.renumber
  | .forOf head iterable body isAwait =>
    .forOf head.renumber iterable.renumber body.renumber isAwait
  | .whileLoop test body => .whileLoop test.renumber body.renumber
  | .doWhile body test => .doWhile body.renumber test.renumber
  | .tryCatch body handler finalizer =>
    .tryCatch (renumberStmts body) (renumberCatch? handler) (renumberBlock? finalizer)
  | .switch subject cases => .switch subject.renumber (renumberCases cases)
  | .labeled label body => .labeled label body.renumber
  | .withObject object body => .withObject object.renumber body.renumber
  | .ret arg => .ret (renumberExpr? arg)
  | .throw arg => .throw arg.renumber
  | .breakTo label => .breakTo label
  | .continueTo label => .continueTo label
  | .empty => .empty
  | .debugger => .debugger

def renumberStmts : List Stmt → List Stmt
  | [] => []
  | s :: ss => s.renumber :: renumberStmts ss

end

/-! ## Lists of nodes -/

section lists
variable {α : Type} {f : List α → List α} {g : α → α}

/-- A function that changes a list element by element maps over it. -/
theorem map_of_cons (hnil : f [] = []) (hcons : ∀ a as, f (a :: as) = g a :: f as) (as : List α) :
    f as = as.map g := by
  induction as with
  | nil => exact hnil
  | cons a as ih => rw [hcons, ih, List.map_cons]

@[simp] theorem renumberExprs_eq (es : List Expr) : renumberExprs r es = es.map (·.renumber r) :=
  map_of_cons rfl (fun _ _ => rfl) es

@[simp] theorem renumberExpr?_eq (e : Option Expr) :
    renumberExpr? r e = e.map (·.renumber r) := by
  cases e <;> rfl

@[simp] theorem renumberSlots_eq (es : List (Option Expr)) :
    renumberSlots r es = es.map (Option.map (·.renumber r)) :=
  map_of_cons rfl (fun e es => congrArg (· :: renumberSlots r es) (renumberExpr?_eq r e)) es

@[simp] theorem renumberProperties_eq (ps : List Property) :
    renumberProperties r ps = ps.map (·.renumber r) := map_of_cons rfl (fun _ _ => rfl) ps

@[simp] theorem renumberPattern?_eq (p : Option Pattern) :
    renumberPattern? r p = p.map (·.renumber r) := by
  cases p <;> rfl

@[simp] theorem renumberPatternProperties_eq (ps : List PatternProperty) :
    renumberPatternProperties r ps = ps.map (·.renumber r) := map_of_cons rfl (fun _ _ => rfl) ps

@[simp] theorem renumberPatternSlot_eq (e : Option PatternElement) :
    renumberPatternSlot r e = e.map (·.renumber r) := by
  cases e <;> rfl

@[simp] theorem renumberPatternSlots_eq (es : List (Option PatternElement)) :
    renumberPatternSlots r es = es.map (Option.map (·.renumber r)) :=
  map_of_cons rfl
    (fun e es => congrArg (· :: renumberPatternSlots r es) (renumberPatternSlot_eq r e)) es

@[simp] theorem renumberParams_eq (ps : List Param) :
    renumberParams r ps = ps.map (·.renumber r) := map_of_cons rfl (fun _ _ => rfl) ps

@[simp] theorem renumberMembers_eq (ms : List ClassMember) :
    renumberMembers r ms = ms.map (·.renumber r) := map_of_cons rfl (fun _ _ => rfl) ms

@[simp] theorem renumberDeclarators_eq (ds : List Declarator) :
    renumberDeclarators r ds = ds.map (·.renumber r) := map_of_cons rfl (fun _ _ => rfl) ds

@[simp] theorem renumberStmts_eq (ss : List Stmt) : renumberStmts r ss = ss.map (·.renumber r) :=
  map_of_cons rfl (fun _ _ => rfl) ss

@[simp] theorem renumberCatch?_eq (c : Option Catch) :
    renumberCatch? r c = c.map (·.renumber r) := by
  cases c <;> rfl

@[simp] theorem renumberBlock?_eq (body : Option (List Stmt)) :
    renumberBlock? r body = body.map (List.map (·.renumber r)) := by
  cases body with
  | none => rfl
  | some body => exact congrArg some (renumberStmts_eq r body)

@[simp] theorem renumberCases_eq (cs : List Case) :
    renumberCases r cs = cs.map (·.renumber r) := map_of_cons rfl (fun _ _ => rfl) cs

end lists

/-! ## Shapes -/

@[simp] theorem Expr.skipParens_renumber :
    (e : Expr) → (e.renumber r).skipParens = e.skipParens.renumber r
  | .paren inner => inner.skipParens_renumber
  | .ident _ | .literal _ | .template _ _ | .tagged _ _ _ | .this | .super | .array _ | .object _
  | .function _ | .arrow _ _ _ | .classExpr _ | .unary _ _ | .update _ _ _ | .binary _ _ _
  | .assign _ _ _ | .conditional _ _ _ | .call _ _ _ | .newBare _ | .newCall _ _ | .member _ _ _
  | .index _ _ _ | .sequence _ | .yield _ _ | .await _ | .spread _ | .importCall _
  | .importMeta => rfl

@[simp] theorem Expr.ident?_renumber (e : Expr) :
    (e.renumber r).ident? = e.ident?.map (·.renumber r) := by
  cases e <;> rfl

@[simp] theorem Expr.string?_renumber (e : Expr) : (e.renumber r).string? = e.string? := by
  cases e <;> rfl

@[simp] theorem Expr.root?_renumber :
    (e : Expr) → (e.renumber r).root? = e.root?.map (·.renumber r)
  | .ident _ => rfl
  | .paren inner => inner.root?_renumber
  | .member owner _ _ => owner.root?_renumber
  | .index owner _ _ => owner.root?_renumber
  | .literal _ | .template _ _ | .tagged _ _ _ | .this | .super | .array _ | .object _
  | .function _ | .arrow _ _ _ | .classExpr _ | .unary _ _ | .update _ _ _ | .binary _ _ _
  | .assign _ _ _ | .conditional _ _ _ | .call _ _ _ | .newBare _ | .newCall _ _
  | .sequence _ | .yield _ _ | .await _ | .spread _ | .importCall _ | .importMeta => rfl

@[simp] theorem Pattern.ident?_renumber (p : Pattern) :
    (p.renumber r).ident? = p.ident?.map (·.renumber r) := by
  cases p <;> rfl

@[simp] theorem Pattern.isDestructuring_renumber (p : Pattern) :
    (p.renumber r).isDestructuring = p.isDestructuring := by
  cases p <;> rfl

@[simp] theorem ArrowBody.statements_renumber (body : ArrowBody) :
    (body.renumber r).statements = body.statements.map (·.renumber r) := by
  cases body with
  | block body => exact renumberStmts_eq r body
  | expr e => rfl

/-- What two parts make is mapped if what each makes is. -/
theorem map_append_of {α : Type} {change : α → α} {as bs as' bs' : List α}
    (h : as' = as.map change) (h' : bs' = bs.map change) : as' ++ bs' = (as ++ bs).map change := by
  rw [h, h', List.map_append]

mutual

theorem Pattern.boundIdents_renumber :
    (p : Pattern) → (p.renumber r).boundIdents = p.boundIdents.map (·.renumber r)
  | .ident _ | .expr _ => rfl
  | .object properties rest =>
    map_append_of (propertyIdents_renumber properties) (restIdents_renumber rest)
  | .array elements rest =>
    map_append_of (elementIdents_renumber elements) (restIdents_renumber rest)

theorem PatternProperty.boundIdents_renumber :
    (p : PatternProperty) → (p.renumber r).boundIdents = p.boundIdents.map (·.renumber r)
  | .keyed _ target _ => target.boundIdents_renumber
  | .shorthand _ _ => rfl

theorem PatternElement.boundIdents_renumber :
    (e : PatternElement) → (e.renumber r).boundIdents = e.boundIdents.map (·.renumber r)
  | ⟨target, _⟩ => target.boundIdents_renumber

theorem propertyIdents_renumber : (ps : List PatternProperty) →
    propertyIdents (renumberPatternProperties r ps) = (propertyIdents ps).map (·.renumber r)
  | [] => rfl
  | p :: ps => map_append_of p.boundIdents_renumber (propertyIdents_renumber ps)

theorem slotIdents_renumber : (e : Option PatternElement) →
    slotIdents (renumberPatternSlot r e) = (slotIdents e).map (·.renumber r)
  | none => rfl
  | some e => e.boundIdents_renumber

theorem elementIdents_renumber : (es : List (Option PatternElement)) →
    elementIdents (renumberPatternSlots r es) = (elementIdents es).map (·.renumber r)
  | [] => rfl
  | e :: es => map_append_of (slotIdents_renumber e) (elementIdents_renumber es)

theorem restIdents_renumber : (p : Option Pattern) →
    restIdents (renumberPattern? r p) = (restIdents p).map (·.renumber r)
  | none => rfl
  | some p => p.boundIdents_renumber

end

attribute [simp] Pattern.boundIdents_renumber

@[simp] theorem Pattern.boundNames_renumber (p : Pattern) :
    (p.renumber r).boundNames = p.boundNames := by
  rw [boundNames, boundIdents_renumber, Ident.map_name_renumber, boundNames]

@[simp] theorem VarList.kind_renumber (list : VarList) : (list.renumber r).kind = list.kind := by
  cases list
  rfl

theorem Declarator.boundIdents_target_renumber (d : Declarator) :
    (d.renumber r).target.boundIdents = d.target.boundIdents.map (·.renumber r) := by
  cases d
  exact Pattern.boundIdents_renumber r _

@[simp] theorem VarList.boundIdents_renumber (list : VarList) :
    (list.renumber r).boundIdents = list.boundIdents.map (·.renumber r) := by
  obtain ⟨kind, declarators⟩ := list
  change (renumberDeclarators r declarators).flatMap (·.target.boundIdents) = _
  rw [renumberDeclarators_eq, boundIdents, List.flatMap_map, List.map_flatMap]
  exact congrArg (declarators.flatMap ·) (funext fun d => d.boundIdents_target_renumber r)

/-! ## Nodes that passes add -/

namespace Expr

@[simp] theorem renumber_ident (x : Ident) : (ident x).renumber r = ident (x.renumber r) := rfl

@[simp] theorem renumber_literal (value : Literal) :
    (literal value).renumber r = literal value := rfl

@[simp] theorem renumber_this : this.renumber r = this := rfl

@[simp] theorem renumber_paren (inner : Expr) :
    (paren inner).renumber r = paren (inner.renumber r) := rfl

@[simp] theorem renumber_object (ps : List Property) :
    (object ps).renumber r = object (ps.map (·.renumber r)) :=
  congrArg object (renumberProperties_eq r ps)

@[simp] theorem renumber_unary (op : UnaryOp) (arg : Expr) :
    (unary op arg).renumber r = unary op (arg.renumber r) := rfl

@[simp] theorem renumber_update (op : UpdateOp) (isPrefix : Bool) (arg : Expr) :
    (update op isPrefix arg).renumber r = update op isPrefix (arg.renumber r) := rfl

@[simp] theorem renumber_binary (op : BinaryOp) (left right : Expr) :
    (binary op left right).renumber r = binary op (left.renumber r) (right.renumber r) := rfl

end Expr

@[simp] theorem Pattern.renumber_expr (e : Expr) :
    (Pattern.expr e).renumber r = .expr (e.renumber r) := rfl

@[simp] theorem VarList.renumber_mk (kind : VarKind) (ds : List Declarator) :
    (VarList.mk kind ds).renumber r = ⟨kind, ds.map (·.renumber r)⟩ :=
  congrArg (VarList.mk kind) (renumberDeclarators_eq r ds)

@[simp] theorem ForInit.renumber_var (list : VarList) :
    (ForInit.var list).renumber r = .var (list.renumber r) := rfl

@[simp] theorem ForHead.renumber_var (list : VarList) :
    (ForHead.var list).renumber r = .var (list.renumber r) := rfl

namespace Stmt

@[simp] theorem renumber_expr (e : Expr) : (expr e).renumber r = expr (e.renumber r) := rfl

@[simp] theorem renumber_block (body : List Stmt) :
    (block body).renumber r = block (body.map (·.renumber r)) :=
  congrArg block (renumberStmts_eq r body)

@[simp] theorem renumber_ifThen (test : Expr) (yes : Stmt) :
    (ifThen test yes).renumber r = ifThen (test.renumber r) (yes.renumber r) := rfl

@[simp] theorem renumber_forLoop (init : ForInit) (test update : Option Expr) (body : Stmt) :
    (forLoop init test update body).renumber r =
      forLoop (init.renumber r) (test.map (·.renumber r)) (update.map (·.renumber r))
        (body.renumber r) :=
  congrArg₂ (forLoop (init.renumber r) · · (body.renumber r)) (renumberExpr?_eq r test)
    (renumberExpr?_eq r update)

@[simp] theorem renumber_forIn (head : ForHead) (object : Expr) (body : Stmt) :
    (forIn head object body).renumber r =
      forIn (head.renumber r) (object.renumber r) (body.renumber r) := rfl

@[simp] theorem renumber_ret (arg : Option Expr) :
    (ret arg).renumber r = ret (arg.map (·.renumber r)) :=
  congrArg ret (renumberExpr?_eq r arg)

end Stmt

/-! ## Made-up nodes -/

section construct
namespace Expr

@[simp] theorem renumber_ofName (name : String) : (ofName name).renumber r = ofName name :=
  congrArg ident (Ident.renumber_synthetic r name)

@[simp] theorem renumber_ofString (value : String) :
    (ofString value).renumber r = ofString value := rfl

@[simp] theorem renumber_ofNumber (source : String) :
    (ofNumber source).renumber r = ofNumber source := rfl

@[simp] theorem renumber_ofBool (value : Bool) : (ofBool value).renumber r = ofBool value := rfl

@[simp] theorem renumber_voidZero : voidZero.renumber r = voidZero := rfl

@[simp] theorem renumber_apply (callee : Expr) (args : List Expr) :
    (callee.apply args).renumber r = (callee.renumber r).apply (args.map (·.renumber r)) :=
  congrArg (callee.renumber r).apply (renumberExprs_eq r args)

@[simp] theorem renumber_dot (owner : Expr) (name : String) :
    (owner.dot name).renumber r = (owner.renumber r).dot name := rfl

@[simp] theorem renumber_lookup (owner key : Expr) :
    (owner.lookup key).renumber r = (owner.renumber r).lookup (key.renumber r) := rfl

@[simp] theorem renumber_ofPath (path : String) : (ofPath path).renumber r = ofPath path := by
  have hdots : ∀ (parts : List (List Char)) (e : Expr), e.renumber r = e →
      (parts.foldl (fun e part => e.dot (String.ofList part)) e).renumber r =
        parts.foldl (fun e part => e.dot (String.ofList part)) e := by
    intro parts
    induction parts with
    | nil => exact fun _ he => he
    | cons part parts ih => exact fun e he => ih _ (by rw [renumber_dot, he])
  exact hdots _ _ (renumber_ofName r _)

@[simp] theorem renumber_assignTo (target : Pattern) (value : Expr) :
    (assignTo target value).renumber r = assignTo (target.renumber r) (value.renumber r) := rfl

@[simp] theorem renumber_assignName (name : String) (value : Expr) :
    (assignName name value).renumber r = assignName name (value.renumber r) :=
  congrArg (fun x => assignTo (.ident x) (value.renumber r)) (Ident.renumber_synthetic r name)

@[simp] theorem renumber_negate (e : Expr) : e.negate.renumber r = (e.renumber r).negate := rfl

@[simp] theorem ofList_renumber (es : List Expr) :
    ofList (es.map (·.renumber r)) = (ofList es).map (·.renumber r) := by
  cases es with
  | nil => rfl
  | cons e₁ es =>
    cases es with
    | nil => rfl
    | cons e₂ es =>
      exact congrArg (some ∘ sequence) (renumberExprs_eq r (e₁ :: e₂ :: es)).symm

@[simp] theorem renumber_arrayOf (es : List Expr) :
    (arrayOf es).renumber r = arrayOf (es.map (·.renumber r)) := by
  change array (renumberSlots r (es.map some)) = _
  rw [renumberSlots_eq, List.map_map, arrayOf, List.map_map]
  rfl

@[simp] theorem renumber_functionOf (name : Option String) (params : List Param)
    (body : List Stmt) :
    (functionOf name params body).renumber r =
      functionOf name (params.map (·.renumber r)) (body.map (·.renumber r)) := by
  change function ⟨(name.map Ident.synthetic).map (Ident.renumber r), renumberParams r params,
    renumberStmts r body, false, false⟩ = _
  rw [renumberParams_eq, renumberStmts_eq, Option.map_map, functionOf]
  exact congrArg (fun name => function ⟨name, _, _, false, false⟩)
    (congrArg (Option.map · name) (funext (Ident.renumber_synthetic r)))

end Expr

@[simp] theorem Declarator.renumber_ofName (name : String) (init : Option Expr) :
    (Declarator.ofName name init).renumber r = .ofName name (init.map (·.renumber r)) :=
  congrArg₂ (fun x init => (⟨.ident x, init⟩ : Declarator)) (Ident.renumber_synthetic r name)
    (renumberExpr?_eq r init)

namespace Stmt

@[simp] theorem renumber_varNames (names : List String) :
    (varNames names).renumber r = varNames names := by
  change var {} ⟨.var, renumberDeclarators r (names.map (Declarator.ofName · none))⟩ = _
  rw [renumberDeclarators_eq, List.map_map]
  exact congrArg (fun ds => var {} ⟨.var, ds⟩)
    (List.map_congr_left fun name _ => Declarator.renumber_ofName r name none)

@[simp] theorem renumber_varInit (name : String) (init : Option Expr) :
    (varInit name init).renumber r = varInit name (init.map (·.renumber r)) :=
  congrArg (fun d => var {} ⟨.var, [d]⟩) (Declarator.renumber_ofName r name init)

@[simp] theorem renumber_functionNamed (name : String) (params : List Param) (body : List Stmt) :
    (functionNamed name params body).renumber r =
      functionNamed name (params.map (·.renumber r)) (body.map (·.renumber r)) := by
  change function {} ⟨some ((Ident.synthetic name).renumber r), renumberParams r params,
    renumberStmts r body, false, false⟩ = _
  rw [renumberParams_eq, renumberStmts_eq, Ident.renumber_synthetic, functionNamed]

@[simp] theorem ofList_renumber :
    (ss : List Stmt) → ofList (ss.map (·.renumber r)) = (ofList ss).renumber r
  | [] | [_] => rfl
  | s₁ :: s₂ :: ss => congrArg block (renumberStmts_eq r (s₁ :: s₂ :: ss)).symm

end Stmt

@[simp] theorem Param.renumber_ofName (name : String) :
    (Param.ofName name).renumber r = .ofName name :=
  congrArg (fun x => ofPattern (.ident x)) (Ident.renumber_synthetic r name)

@[simp] theorem Property.renumber_ofName (name : String) (value : Expr) :
    (Property.ofName name value).renumber r = .ofName name (value.renumber r) := rfl

@[simp] theorem Property.renumber_ofString (name : String) (value : Expr) :
    (Property.ofString name value).renumber r = .ofString name (value.renumber r) := rfl

end construct

/-! ## Files -/

/-- A file under new numbers, the file's own included. -/
def SourceFile.renumber (file : SourceFile) : SourceFile :=
  { file with id := r file.id, statements := file.statements.map (·.renumber r) }

@[simp] theorem SourceFile.statements_renumber (file : SourceFile) :
    (file.renumber r).statements = file.statements.map (·.renumber r) := rfl

@[simp] theorem SourceFile.resolveSpecifier_renumber (file : SourceFile) (specifier : String) :
    (file.renumber r).resolveSpecifier specifier = file.resolveSpecifier specifier := rfl

end RegisterForm
