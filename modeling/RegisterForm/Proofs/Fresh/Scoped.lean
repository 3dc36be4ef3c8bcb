import RegisterForm.Proofs.Fresh.Vocabulary
import RegisterForm.Proofs.Resolve.Uses
/-!
# Scopes of covered trees

A tree that keeps to a vocabulary declares only what the vocabulary binds. So the scopes that its
references see hold, beyond the scopes around the tree, only such bindings.
-/
namespace RegisterForm
open Vocabulary

/-- All bindings are of identifiers that may be bound. -/
def Vocabulary.Binds (V : Vocabulary) (bs : List Binding) : Prop := ∀ b ∈ bs, V.binds b.ident

/-- What the references see beyond the given scopes may be bound. -/
def Vocabulary.Bounds (V : Vocabulary) (scopes : Scopes) (us : List NameUse) : Prop :=
  ∀ u ∈ us, ∃ inner, u.scopes = inner ++ scopes ∧ ∀ bs ∈ inner, V.Binds bs

namespace Vocabulary
variable {V : Vocabulary} {scopes : Scopes} {us vs : List NameUse} {bs cs : List Binding}

@[simp] theorem binds_nil : V.Binds [] := List.forall_mem_nil _

@[simp] theorem binds_append : V.Binds (bs ++ cs) ↔ V.Binds bs ∧ V.Binds cs :=
  List.forall_mem_append

theorem binds_bindingsOf {roles : Roles} {xs : List Ident} :
    V.Binds (bindingsOf roles xs) ↔ ∀ x ∈ xs, V.binds x := by
  simp [Binds, bindingsOf]

@[simp] theorem bounds_nil : V.Bounds scopes [] := List.forall_mem_nil _

@[simp] theorem bounds_append :
    V.Bounds scopes (us ++ vs) ↔ V.Bounds scopes us ∧ V.Bounds scopes vs :=
  List.forall_mem_append

theorem bounds_here (x : Ident) (depth : Nat) : V.Bounds scopes [⟨x, scopes, depth⟩] := by
  intro u hu
  obtain rfl := List.mem_singleton.mp hu
  exact ⟨[], rfl, nofun⟩

/-- A scope of bindings that may be bound is one more such scope. -/
theorem Bounds.within (h : V.Bounds (bs :: scopes) us) (hbs : V.Binds bs) : V.Bounds scopes us := by
  intro u hu
  obtain ⟨inner, hscopes, hinner⟩ := h u hu
  refine ⟨inner ++ [bs], by simp [hscopes], List.forall_mem_append.mpr ⟨hinner, ?_⟩⟩
  exact fun cs hcs => List.mem_singleton.mp hcs ▸ hbs

theorem Bounds.withinIf {wanted : Bool} (h : V.Bounds (scopes.openedIf wanted bs) us)
    (hbs : V.Binds bs) : V.Bounds scopes us := by
  cases wanted with
  | true => exact h.within hbs
  | false => exact h

theorem Bounds.withinName {isExpression : Bool} {name : Option Ident} {roles : Roles}
    (h : V.Bounds (scopes.named isExpression name roles) us)
    (hname : ∀ x, name = some x → V.binds x) : V.Bounds scopes us := by
  cases name with
  | none => exact h
  | some x =>
    cases isExpression with
    | false => exact h
    | true =>
      refine h.within fun b hb => ?_
      obtain rfl := List.mem_singleton.mp hb
      exact hname x rfl

end Vocabulary

variable {V : Vocabulary}

/-! ## Declarations -/

mutual

theorem Pattern.binds_boundIdents : (p : Pattern) → V.Covers p.visits →
    ∀ x ∈ p.boundIdents, V.binds x
  | .ident _, h => h.head.binds
  | .expr _, _ => List.forall_mem_nil _
  | .object properties rest, h =>
    List.forall_mem_append.mpr ⟨binds_propertyIdents properties h.head.binds h.tail.left,
      binds_restIdents rest h.tail.right⟩
  | .array elements rest, h =>
    List.forall_mem_append.mpr ⟨binds_elementIdents elements h.tail.left,
      binds_restIdents rest h.tail.right⟩

/-- What a property names only, its pattern assigns itself. -/
theorem binds_propertyIdents : (ps : List PatternProperty) →
    (∀ x ∈ ps.filterMap PatternProperty.shorthand?, V.binds x) →
    V.Covers (patternPropertiesVisits ps) → ∀ x ∈ propertyIdents ps, V.binds x
  | [], _, _ => List.forall_mem_nil _
  | .keyed key target fallback :: ps, hown, h =>
    List.forall_mem_append.mpr
      ⟨target.binds_boundIdents h.left.left.right, binds_propertyIdents ps hown h.right⟩
  | .shorthand x fallback :: ps, hown, h => by
    obtain ⟨hx, hrest⟩ := List.forall_mem_cons.mp hown
    exact List.forall_mem_append.mpr
      ⟨fun y hy => List.mem_singleton.mp hy ▸ hx, binds_propertyIdents ps hrest h.right⟩

theorem binds_elementIdents : (es : List (Option PatternElement)) →
    V.Covers (patternSlotsVisits es) → ∀ x ∈ elementIdents es, V.binds x
  | [], _ => List.forall_mem_nil _
  | none :: es, h => binds_elementIdents es h.right
  | some ⟨target, _⟩ :: es, h =>
    List.forall_mem_append.mpr
      ⟨target.binds_boundIdents h.left.left, binds_elementIdents es h.right⟩

theorem binds_restIdents : (p : Option Pattern) → V.Covers (patternVisits? p) →
    ∀ x ∈ restIdents p, V.binds x
  | none, _ => List.forall_mem_nil _
  | some p, h => p.binds_boundIdents h

end

theorem binds_declaratorIdents : (ds : List Declarator) → V.Covers (declaratorsVisits ds) →
    ∀ x ∈ ds.flatMap (·.target.boundIdents), V.binds x
  | [], _ => List.forall_mem_nil _
  | ⟨target, _⟩ :: ds, h =>
    List.forall_mem_append.mpr ⟨target.binds_boundIdents h.left.left,
      binds_declaratorIdents ds h.right⟩

theorem VarList.binds_boundIdents {list : VarList} (h : V.Covers list.visits) :
    ∀ x ∈ list.boundIdents, V.binds x := by
  cases list
  exact binds_declaratorIdents _ h

theorem VarList.binds_varBindings {list : VarList} (isExported : Bool) (h : V.Covers list.visits) :
    V.Binds (list.varBindings isExported) := by
  unfold VarList.varBindings
  split
  · exact binds_nil
  · exact binds_bindingsOf.mpr (VarList.binds_boundIdents h)

theorem VarList.binds_lexicalBindings {list : VarList} (isExported : Bool)
    (h : V.Covers list.visits) : V.Binds (list.lexicalBindings isExported) := by
  unfold VarList.lexicalBindings
  split
  · exact binds_bindingsOf.mpr (VarList.binds_boundIdents h)
  · exact binds_nil

theorem ForInit.binds_bindings {init : ForInit} (h : V.Covers init.visits) :
    V.Binds init.varBindings ∧ V.Binds init.lexicalBindings := by
  cases init with
  | var list => exact ⟨VarList.binds_varBindings false h, VarList.binds_lexicalBindings false h⟩
  | absent => exact ⟨binds_nil, binds_nil⟩
  | expr e => exact ⟨binds_nil, binds_nil⟩

theorem ForHead.binds_bindings {head : ForHead} (h : V.Covers head.visits) :
    V.Binds head.varBindings ∧ V.Binds head.lexicalBindings := by
  cases head with
  | var list => exact ⟨VarList.binds_varBindings false h, VarList.binds_lexicalBindings false h⟩
  | pattern p => exact ⟨binds_nil, binds_nil⟩

mutual

theorem Stmt.binds_varBindings : (st : Stmt) → V.Covers st.visits → V.Binds st.varBindings
  | .var modifiers list, h => VarList.binds_varBindings _ ((covers_var modifiers list).mp h)
  | .block body, h => binds_blockVarBindings body ((covers_block body).mp h)
  | .ifThen _ yes, h => yes.binds_varBindings ((covers_ifThen _ yes).mp h).2
  | .ifElse _ yes no, h =>
    binds_append.mpr ⟨yes.binds_varBindings h.tail.left.right, no.binds_varBindings h.tail.right⟩
  | .forLoop init _ _ body, h => by
    rw [covers_forLoop] at h
    exact binds_append.mpr ⟨(ForInit.binds_bindings h.1).1, body.binds_varBindings h.2.2.2⟩
  | .forIn head _ body, h => by
    rw [covers_forIn] at h
    exact binds_append.mpr ⟨(ForHead.binds_bindings h.1).1, body.binds_varBindings h.2.2⟩
  | .forOf head _ body _, h => by
    rw [covers_forOf] at h
    exact binds_append.mpr ⟨(ForHead.binds_bindings h.1).1, body.binds_varBindings h.2.2⟩
  | .whileLoop _ body, h => body.binds_varBindings h.tail.right
  | .doWhile body _, h => body.binds_varBindings h.tail.right
  | .labeled _ body, h => body.binds_varBindings h.tail.tail
  | .withObject _ body, h => body.binds_varBindings h.tail.right
  | .tryCatch body handler finalizer, h =>
    binds_append.mpr ⟨binds_append.mpr ⟨binds_blockVarBindings body h.tail.left.left,
      binds_catchVarBindings handler h.tail.left.right⟩,
      binds_finallyVarBindings finalizer h.tail.right⟩
  | .switch _ cases, h => binds_casesVarBindings cases h.tail.right
  | .expr _, _ | .function _ _, _ | .classDecl _ _, _ | .importFrom _ _ _ _, _
  | .importEquals _ _ _ _ _, _ | .exportFrom _ _ _ _, _ | .exportValue _ _ _, _ | .ambient _ _, _
  | .ret _, _ | .throw _, _ | .breakTo _, _ | .continueTo _, _ | .empty, _ | .debugger, _ =>
    binds_nil

theorem binds_blockVarBindings : (sts : List Stmt) → V.Covers (stmtsVisits sts) →
    V.Binds (blockVarBindings sts)
  | [], _ => binds_nil
  | st :: sts, h => by
    obtain ⟨hst, hsts⟩ := (covers_append _ _).mp h
    exact binds_append.mpr ⟨st.binds_varBindings hst, binds_blockVarBindings sts hsts⟩

theorem binds_catchVarBindings : (c : Option Catch) → V.Covers (catchVisits? c) →
    V.Binds (catchVarBindings c)
  | none, _ => binds_nil
  | some ⟨_, body⟩, h => binds_blockVarBindings body ((covers_append _ _).mp h).2

theorem binds_finallyVarBindings : (body : Option (List Stmt)) → V.Covers (blockVisits? body) →
    V.Binds (finallyVarBindings body)
  | none, _ => binds_nil
  | some body, h => binds_blockVarBindings body h

theorem binds_casesVarBindings : (cs : List Case) → V.Covers (casesVisits cs) →
    V.Binds (casesVarBindings cs)
  | [], _ => binds_nil
  | ⟨_, body⟩ :: cs, h =>
    binds_append.mpr ⟨binds_blockVarBindings body h.left.right, binds_casesVarBindings cs h.right⟩

end

theorem Func.binds_name {f : Func} (h : V.Covers f.visits) : ∀ x ∈ f.name.toList, V.binds x := by
  obtain ⟨name, params, body, isAsync, isGenerator⟩ := f
  rw [covers_func] at h
  exact fun x hx => (h.1 x (Option.mem_toList.mp hx)).1

theorem Class.binds_name {c : Class} (h : V.Covers c.visits) : ∀ x ∈ c.name.toList, V.binds x := by
  obtain ⟨name, base, members⟩ := c
  exact h.head.binds

theorem Stmt.binds_lexicalBindings {st : Stmt} (h : V.Covers st.visits) :
    V.Binds (st.lexicalBindings false) := by
  cases st with
  | var modifiers list => exact VarList.binds_lexicalBindings _ ((covers_var modifiers list).mp h)
  | function modifiers f =>
    exact binds_bindingsOf.mpr (Func.binds_name ((covers_functionStmt modifiers f).mp h))
  | classDecl modifiers c => exact binds_bindingsOf.mpr (Class.binds_name h.tail)
  | ambient name isExported => exact binds_bindingsOf.mpr h.head.binds
  | _ => exact binds_nil

theorem binds_blockLexicalBindings {sts : List Stmt} (h : V.Covers (stmtsVisits sts)) :
    V.Binds (blockLexicalBindings false sts) := by
  intro b hb
  obtain ⟨st, hst, hb⟩ := List.mem_flatMap.mp hb
  exact Stmt.binds_lexicalBindings (fun v hv => h v (stmt_visits_subset hst hv)) b hb

theorem binds_bodyBindings {sts : List Stmt} (h : V.Covers (stmtsVisits sts)) :
    V.Binds (bodyBindings sts) :=
  binds_append.mpr ⟨binds_blockVarBindings sts h, binds_blockLexicalBindings h⟩

theorem binds_paramBindings : (params : List Param) → V.Covers (paramsVisits params) →
    V.Binds (paramBindings params)
  | [], _ => binds_nil
  | ⟨pattern, _, _⟩ :: params, h =>
    binds_append.mpr ⟨binds_bindingsOf.mpr (pattern.binds_boundIdents h.left.left),
      binds_paramBindings params h.right⟩

theorem binds_catchBindings : (param : Option Pattern) → V.Covers (patternVisits? param) →
    V.Binds (catchBindings param)
  | none, _ => binds_nil
  | some p, h => by
    rw [catchBindings, Option.toList_some, List.flatMap_singleton]
    exact binds_bindingsOf.mpr (p.binds_boundIdents h)

/-- The cases of a switch share one scope. -/
theorem binds_casesLexical : (cs : List Case) → V.Covers (casesVisits cs) →
    V.Binds (cs.flatMap fun c => blockLexicalBindings false c.body)
  | [], _ => binds_nil
  | ⟨_, _⟩ :: cs, h =>
    binds_append.mpr ⟨binds_blockLexicalBindings h.left.right, binds_casesLexical cs h.right⟩

/-! ## References -/

mutual

theorem Expr.bounds_uses : (e : Expr) → (sc : Scopes) → (d : Nat) → V.Covers e.visits →
    V.Bounds sc (e.uses sc d)
  | .ident x, sc, d, _ => bounds_here x _
  | .literal _, _, _, _ | .this, _, _, _ | .super, _, _, _ | .importMeta, _, _, _ => bounds_nil
  | .template _ parts, sc, d, h => bounds_exprsUses parts sc (d + 1) h.tail
  | .tagged tag _ parts, sc, d, h =>
    bounds_append.mpr ⟨tag.bounds_uses sc (d + 1) h.tail.left,
      bounds_exprsUses parts sc (d + 1) h.tail.right⟩
  | .array elements, sc, d, h => bounds_slotsUses elements sc (d + 1) h.tail
  | .object properties, sc, d, h => bounds_propertiesUses properties sc (d + 1) h.tail
  | .function f, sc, d, h => f.bounds_uses true sc (d + 1) h.tail
  | .arrow params body _, sc, d, h => by
    refine (body.bounds_uses _ (d + 1) h.tail.right).within ?_
    refine binds_append.mpr ⟨binds_paramBindings params h.tail.left, ?_⟩
    cases body with
    | block body => exact binds_bodyBindings h.tail.right
    | expr e => exact binds_nil
  | .classExpr c, sc, d, h => c.bounds_uses true sc (d + 1) h.tail
  | .unary _ arg, sc, d, h => arg.bounds_uses sc (d + 1) h.tail
  | .update _ _ arg, sc, d, h => arg.bounds_uses sc (d + 1) h.tail
  | .binary _ left right, sc, d, h =>
    bounds_append.mpr ⟨left.bounds_uses sc (d + 1) h.tail.left,
      right.bounds_uses sc (d + 1) h.tail.right⟩
  | .assign _ target value, sc, d, h =>
    bounds_append.mpr
      ⟨target.bounds_uses false sc (d + 1) h.tail.left, value.bounds_uses sc (d + 1) h.tail.right⟩
  | .conditional test yes no, sc, d, h =>
    bounds_append.mpr ⟨bounds_append.mpr ⟨test.bounds_uses sc (d + 1) h.tail.left.left,
      yes.bounds_uses sc (d + 1) h.tail.left.right⟩, no.bounds_uses sc (d + 1) h.tail.right⟩
  | .call callee args _, sc, d, h =>
    bounds_append.mpr
      ⟨callee.bounds_uses sc (d + 1) h.tail.left, bounds_exprsUses args sc (d + 1) h.tail.right⟩
  | .newBare callee, sc, d, h => callee.bounds_uses sc (d + 1) h.tail
  | .newCall callee args, sc, d, h =>
    bounds_append.mpr
      ⟨callee.bounds_uses sc (d + 1) h.tail.left, bounds_exprsUses args sc (d + 1) h.tail.right⟩
  | .member owner _ _, sc, d, h => owner.bounds_uses sc (d + 1) h.tail.left
  | .index owner key _, sc, d, h =>
    bounds_append.mpr
      ⟨owner.bounds_uses sc (d + 1) h.tail.left, key.bounds_uses sc (d + 1) h.tail.right⟩
  | .sequence exprs, sc, d, h => bounds_exprsUses exprs sc (d + 1) h.tail
  | .paren inner, sc, d, h => inner.bounds_uses sc (d + 1) h.tail
  | .yield arg _, sc, d, h => bounds_exprUses? arg sc (d + 1) h.tail
  | .await arg, sc, d, h | .spread arg, sc, d, h => arg.bounds_uses sc (d + 1) h.tail
  | .importCall specifier, sc, d, h => specifier.bounds_uses sc (d + 1) h.tail

theorem bounds_exprsUses : (es : List Expr) → (sc : Scopes) → (d : Nat) →
    V.Covers (exprsVisits es) → V.Bounds sc (exprsUses es sc d)
  | [], _, _, _ => bounds_nil
  | e :: es, sc, d, h => by
    obtain ⟨he, hes⟩ := (covers_append _ _).mp h
    exact bounds_append.mpr ⟨e.bounds_uses sc d he, bounds_exprsUses es sc d hes⟩

theorem bounds_exprUses? : (e : Option Expr) → (sc : Scopes) → (d : Nat) →
    V.Covers (exprVisits? e) → V.Bounds sc (exprUses? e sc d)
  | none, _, _, _ => bounds_nil
  | some e, sc, d, h => e.bounds_uses sc d h

theorem bounds_slotsUses : (es : List (Option Expr)) → (sc : Scopes) → (d : Nat) →
    V.Covers (slotsVisits es) → V.Bounds sc (slotsUses es sc d)
  | [], _, _, _ => bounds_nil
  | e :: es, sc, d, h => by
    obtain ⟨he, hes⟩ := (covers_append _ _).mp h
    exact bounds_append.mpr ⟨bounds_exprUses? e sc d he, bounds_slotsUses es sc d hes⟩

theorem Key.bounds_uses : (key : Key) → (sc : Scopes) → (d : Nat) → V.Covers key.visits →
    V.Bounds sc (key.uses sc d)
  | .name _, _, _, _ | .string _, _, _, _ | .number _, _, _, _ => bounds_nil
  | .computed e, sc, d, h => e.bounds_uses sc d h

theorem Property.bounds_uses : (p : Property) → (sc : Scopes) → (d : Nat) → V.Covers p.visits →
    V.Bounds sc (p.uses sc d)
  | .keyed key value, sc, d, h => by
    obtain ⟨hkey, hvalue⟩ := (covers_append _ _).mp h
    exact bounds_append.mpr ⟨key.bounds_uses sc d hkey, value.bounds_uses sc d hvalue⟩
  | .shorthand x, sc, d, _ => bounds_here x _
  | .method key _ f, sc, d, h => by
    obtain ⟨hkey, hf⟩ := (covers_append _ _).mp h
    exact bounds_append.mpr ⟨key.bounds_uses sc d hkey, f.bounds_uses false sc d hf⟩
  | .spread e, sc, d, h => e.bounds_uses sc d h

theorem bounds_propertiesUses : (ps : List Property) → (sc : Scopes) → (d : Nat) →
    V.Covers (propertiesVisits ps) → V.Bounds sc (propertiesUses ps sc d)
  | [], _, _, _ => bounds_nil
  | p :: ps, sc, d, h => by
    obtain ⟨hp, hps⟩ := (covers_append _ _).mp h
    exact bounds_append.mpr ⟨p.bounds_uses sc d hp, bounds_propertiesUses ps sc d hps⟩

theorem Pattern.bounds_uses (declares : Bool) : (p : Pattern) → (sc : Scopes) → (d : Nat) →
    V.Covers p.visits → V.Bounds sc (p.uses declares sc d)
  | .ident x, sc, d, _ => by
    unfold Pattern.uses
    split
    · exact bounds_nil
    · exact bounds_here x d
  | .expr e, sc, d, h => e.bounds_uses sc d ((covers_exprPattern e).mp h)
  | .object properties rest, sc, d, h =>
    bounds_append.mpr ⟨bounds_patternPropertiesUses declares properties sc d h.tail.left,
      bounds_patternUses? declares rest sc d h.tail.right⟩
  | .array elements rest, sc, d, h =>
    bounds_append.mpr ⟨bounds_patternSlotsUses declares elements sc d h.tail.left,
      bounds_patternUses? declares rest sc d h.tail.right⟩

theorem bounds_patternUses? (declares : Bool) : (p : Option Pattern) → (sc : Scopes) → (d : Nat) →
    V.Covers (patternVisits? p) → V.Bounds sc (patternUses? declares p sc d)
  | none, _, _, _ => bounds_nil
  | some p, sc, d, h => p.bounds_uses declares sc d h

theorem PatternProperty.bounds_uses (declares : Bool) : (p : PatternProperty) → (sc : Scopes) →
    (d : Nat) → V.Covers p.visits → V.Bounds sc (p.uses declares sc d)
  | .keyed key target fallback, sc, d, h =>
    bounds_append.mpr ⟨bounds_append.mpr ⟨key.bounds_uses sc d h.left.left,
      target.bounds_uses declares sc d h.left.right⟩, bounds_exprUses? fallback sc d h.right⟩
  | .shorthand x fallback, sc, d, h => by
    refine bounds_append.mpr ⟨?_, bounds_exprUses? fallback sc d h.tail⟩
    split
    · exact bounds_nil
    · exact bounds_here x d

theorem bounds_patternPropertiesUses (declares : Bool) : (ps : List PatternProperty) →
    (sc : Scopes) → (d : Nat) → V.Covers (patternPropertiesVisits ps) →
    V.Bounds sc (patternPropertiesUses declares ps sc d)
  | [], _, _, _ => bounds_nil
  | p :: ps, sc, d, h => by
    obtain ⟨hp, hps⟩ := (covers_append _ _).mp h
    exact bounds_append.mpr ⟨p.bounds_uses declares sc d hp,
      bounds_patternPropertiesUses declares ps sc d hps⟩

theorem PatternElement.bounds_uses (declares : Bool) : (e : PatternElement) → (sc : Scopes) →
    (d : Nat) → V.Covers e.visits → V.Bounds sc (e.uses declares sc d)
  | ⟨target, fallback⟩, sc, d, h => by
    obtain ⟨htarget, hfallback⟩ := (covers_append _ _).mp h
    exact bounds_append.mpr ⟨target.bounds_uses declares sc d htarget,
      bounds_exprUses? fallback sc d hfallback⟩

theorem bounds_patternSlotUses (declares : Bool) : (e : Option PatternElement) → (sc : Scopes) →
    (d : Nat) → V.Covers (patternSlotVisits e) → V.Bounds sc (patternSlotUses declares e sc d)
  | none, _, _, _ => bounds_nil
  | some e, sc, d, h => e.bounds_uses declares sc d h

theorem bounds_patternSlotsUses (declares : Bool) : (es : List (Option PatternElement)) →
    (sc : Scopes) → (d : Nat) → V.Covers (patternSlotsVisits es) →
    V.Bounds sc (patternSlotsUses declares es sc d)
  | [], _, _, _ => bounds_nil
  | e :: es, sc, d, h => by
    obtain ⟨he, hes⟩ := (covers_append _ _).mp h
    exact bounds_append.mpr ⟨bounds_patternSlotUses declares e sc d he,
      bounds_patternSlotsUses declares es sc d hes⟩

theorem Func.bounds_uses (isExpression : Bool) : (f : Func) → (sc : Scopes) → (d : Nat) →
    V.Covers f.visits → V.Bounds sc (f.uses isExpression sc d)
  | ⟨name, params, body, isAsync, isGenerator⟩, sc, d, h => by
    rw [covers_func] at h
    obtain ⟨hname, hparams, hbody⟩ := h
    refine Bounds.withinName (Bounds.within (bounds_stmtsUses body _ d hbody) ?_) fun x hx =>
      (hname x hx).1
    exact binds_append.mpr ⟨binds_paramBindings params hparams, binds_bodyBindings hbody⟩

theorem ArrowBody.bounds_uses : (body : ArrowBody) → (sc : Scopes) → (d : Nat) →
    V.Covers body.visits → V.Bounds sc (body.uses sc d)
  | .block body, sc, d, h => bounds_stmtsUses body sc d h
  | .expr e, sc, d, h => e.bounds_uses sc d h

theorem Class.bounds_uses (isExpression : Bool) : (c : Class) → (sc : Scopes) → (d : Nat) →
    V.Covers c.visits → V.Bounds sc (c.uses isExpression sc d)
  | ⟨name, base, members⟩, sc, d, h => by
    have hname := (admits_classNode _).mp h.head
    have hparts : V.Bounds (sc.named isExpression name { isClass := true })
        (Class.uses isExpression ⟨name, base, members⟩ sc d) :=
      bounds_append.mpr ⟨bounds_exprUses? base _ d h.tail.left.right,
        bounds_membersUses members _ d h.tail.right⟩
    exact hparts.withinName hname

theorem ClassMember.bounds_uses : (m : ClassMember) → (sc : Scopes) → (d : Nat) →
    V.Covers m.visits → V.Bounds sc (m.uses sc d)
  | .method key _ _ f, sc, d, h => by
    obtain ⟨hkey, hf⟩ := (covers_append _ _).mp h
    exact bounds_append.mpr ⟨key.bounds_uses sc d hkey, f.bounds_uses false sc d hf⟩
  | .field key _ value, sc, d, h => by
    obtain ⟨hkey, hvalue⟩ := (covers_append _ _).mp h
    exact bounds_append.mpr ⟨key.bounds_uses sc d hkey, bounds_exprUses? value sc d hvalue⟩
  | .staticBlock body, sc, d, h => (bounds_stmtsUses body _ d h).within (binds_bodyBindings h)

theorem bounds_membersUses : (ms : List ClassMember) → (sc : Scopes) → (d : Nat) →
    V.Covers (membersVisits ms) → V.Bounds sc (membersUses ms sc d)
  | [], _, _, _ => bounds_nil
  | m :: ms, sc, d, h => by
    obtain ⟨hm, hms⟩ := (covers_append _ _).mp h
    exact bounds_append.mpr ⟨m.bounds_uses sc d hm, bounds_membersUses ms sc d hms⟩

theorem Declarator.bounds_uses : (v : Declarator) → (sc : Scopes) → (d : Nat) →
    V.Covers v.visits → V.Bounds sc (v.uses sc d)
  | ⟨target, init⟩, sc, d, h => by
    obtain ⟨htarget, hinit⟩ := (covers_append _ _).mp h
    exact bounds_append.mpr ⟨target.bounds_uses true sc d htarget, bounds_exprUses? init sc d hinit⟩

theorem bounds_declaratorsUses : (vs : List Declarator) → (sc : Scopes) → (d : Nat) →
    V.Covers (declaratorsVisits vs) → V.Bounds sc (declaratorsUses vs sc d)
  | [], _, _, _ => bounds_nil
  | v :: vs, sc, d, h => by
    obtain ⟨hv, hvs⟩ := (covers_append _ _).mp h
    exact bounds_append.mpr ⟨v.bounds_uses sc d hv, bounds_declaratorsUses vs sc d hvs⟩

theorem VarList.bounds_uses : (list : VarList) → (sc : Scopes) → (d : Nat) →
    V.Covers list.visits → V.Bounds sc (list.uses sc d)
  | ⟨_, declarators⟩, sc, d, h => bounds_declaratorsUses declarators sc d h

theorem ForInit.bounds_uses : (init : ForInit) → (sc : Scopes) → (d : Nat) →
    V.Covers init.visits → V.Bounds sc (init.uses sc d)
  | .absent, _, _, _ => bounds_nil
  | .var list, sc, d, h => list.bounds_uses sc d h
  | .expr e, sc, d, h => e.bounds_uses sc d h

theorem ForHead.bounds_uses : (head : ForHead) → (sc : Scopes) → (d : Nat) →
    V.Covers head.visits → V.Bounds sc (head.uses sc d)
  | .var list, sc, d, h => list.bounds_uses sc d h
  | .pattern p, sc, d, h => p.bounds_uses false sc d h

theorem Catch.bounds_uses : (c : Catch) → (sc : Scopes) → (d : Nat) → V.Covers c.visits →
    V.Bounds sc (c.uses sc d)
  | ⟨param, body⟩, sc, d, h => by
    obtain ⟨hparam, hbody⟩ := (covers_append _ _).mp h
    have hcaught := binds_catchBindings param hparam
    refine bounds_append.mpr ⟨(bounds_patternUses? true param _ d hparam).within hcaught, ?_⟩
    refine (bounds_stmtsUses body _ d hbody).within ?_
    exact binds_append.mpr ⟨hcaught, binds_blockLexicalBindings hbody⟩

theorem bounds_catchUses? : (c : Option Catch) → (sc : Scopes) → (d : Nat) →
    V.Covers (catchVisits? c) → V.Bounds sc (catchUses? c sc d)
  | none, _, _, _ => bounds_nil
  | some c, sc, d, h => c.bounds_uses sc d h

theorem bounds_finallyUses? : (body : Option (List Stmt)) → (sc : Scopes) → (d : Nat) →
    V.Covers (blockVisits? body) → V.Bounds sc (finallyUses? body sc d)
  | none, _, _, _ => bounds_nil
  | some body, _, d, h => (bounds_stmtsUses body _ d h).within (binds_blockLexicalBindings h)

theorem Case.bounds_uses : (c : Case) → (sc : Scopes) → (d : Nat) → V.Covers c.visits →
    V.Bounds sc (c.uses sc d)
  | ⟨test, body⟩, sc, d, h => by
    obtain ⟨htest, hbody⟩ := (covers_append _ _).mp h
    exact bounds_append.mpr ⟨bounds_exprUses? test sc d htest, bounds_stmtsUses body sc d hbody⟩

theorem bounds_casesUses : (cs : List Case) → (sc : Scopes) → (d : Nat) →
    V.Covers (casesVisits cs) → V.Bounds sc (casesUses cs sc d)
  | [], _, _, _ => bounds_nil
  | c :: cs, sc, d, h => by
    obtain ⟨hc, hcs⟩ := (covers_append _ _).mp h
    exact bounds_append.mpr ⟨c.bounds_uses sc d hc, bounds_casesUses cs sc d hcs⟩

theorem bounds_stmtsUses : (sts : List Stmt) → (sc : Scopes) → (d : Nat) →
    V.Covers (stmtsVisits sts) → V.Bounds sc (stmtsUses sts sc d)
  | [], _, _, _ => bounds_nil
  | st :: sts, sc, d, h => by
    obtain ⟨hst, hsts⟩ := (covers_append _ _).mp h
    exact bounds_append.mpr ⟨st.bounds_uses sc d hst, bounds_stmtsUses sts sc d hsts⟩

theorem Stmt.bounds_uses : (st : Stmt) → (sc : Scopes) → (d : Nat) → V.Covers st.visits →
    V.Bounds sc (st.uses sc d)
  | .expr e, sc, d, h => e.bounds_uses sc (d + 1) ((covers_exprStmt e).mp h)
  | .var modifiers list, sc, d, h => list.bounds_uses sc (d + 1) ((covers_var modifiers list).mp h)
  | .function modifiers f, sc, d, h =>
    f.bounds_uses false sc (d + 1) ((covers_functionStmt modifiers f).mp h)
  | .classDecl _ c, sc, d, h => c.bounds_uses false sc (d + 1) h.tail
  | .importFrom _ _ _ _, _, _, _ | .ambient _ _, _, _, _ => bounds_nil
  | .importEquals _ _ _ .require _, _, _, _ => bounds_nil
  | .importEquals _ _ _ .entity value, sc, d, h => value.bounds_uses sc (d + 1) h.tail.tail
  | .exportFrom _ (some (.named specifiers)) none _, sc, d, _ => by
    intro u hu
    obtain ⟨spec, -, rfl⟩ := List.mem_map.mp hu
    exact ⟨[], rfl, nofun⟩
  | .exportFrom _ none _ _, _, _, _ | .exportFrom _ (some (.star _)) _ _, _, _, _
  | .exportFrom _ (some (.named _)) (some _) _, _, _, _ => bounds_nil
  | .exportValue _ _ value, sc, d, h => value.bounds_uses sc (d + 1) h.tail
  | .block body, sc, d, h =>
    (bounds_stmtsUses body _ (d + 1) h.tail).within (binds_blockLexicalBindings h.tail)
  | .ifThen test yes, sc, d, h =>
    bounds_append.mpr ⟨test.bounds_uses sc (d + 1) h.tail.left,
      yes.bounds_uses sc (d + 1) h.tail.right⟩
  | .ifElse test yes no, sc, d, h =>
    bounds_append.mpr ⟨bounds_append.mpr ⟨test.bounds_uses sc (d + 1) h.tail.left.left,
      yes.bounds_uses sc (d + 1) h.tail.left.right⟩, no.bounds_uses sc (d + 1) h.tail.right⟩
  | .forLoop init test update body, sc, d, h => by
    rw [covers_forLoop] at h
    obtain ⟨hinit, htest, hupdate, hbody⟩ := h
    have hhead := (ForInit.binds_bindings hinit).2
    refine bounds_append.mpr ⟨bounds_append.mpr ⟨bounds_append.mpr ⟨?_, ?_⟩, ?_⟩, ?_⟩
    · exact (init.bounds_uses _ (d + 1) hinit).withinIf hhead
    · exact (bounds_exprUses? test _ (d + 1) htest).withinIf hhead
    · exact (bounds_exprUses? update _ (d + 1) hupdate).withinIf hhead
    · exact (body.bounds_uses _ (d + 1) hbody).withinIf hhead
  | .forIn head object body, sc, d, h => by
    rw [covers_forIn] at h
    obtain ⟨hhead, hobject, hbody⟩ := h
    have hbindings := (ForHead.binds_bindings hhead).2
    refine bounds_append.mpr ⟨object.bounds_uses sc (d + 1) hobject, bounds_append.mpr ⟨?_, ?_⟩⟩
    · exact (head.bounds_uses _ (d + 1) hhead).withinIf hbindings
    · exact (body.bounds_uses _ (d + 1) hbody).withinIf hbindings
  | .forOf head iterable body _, sc, d, h => by
    rw [covers_forOf] at h
    obtain ⟨hhead, hiterable, hbody⟩ := h
    have hbindings := (ForHead.binds_bindings hhead).2
    refine bounds_append.mpr ⟨iterable.bounds_uses sc (d + 1) hiterable, bounds_append.mpr ⟨?_, ?_⟩⟩
    · exact (head.bounds_uses _ (d + 1) hhead).withinIf hbindings
    · exact (body.bounds_uses _ (d + 1) hbody).withinIf hbindings
  | .whileLoop test body, sc, d, h =>
    bounds_append.mpr ⟨test.bounds_uses sc (d + 1) h.tail.left,
      body.bounds_uses sc (d + 1) h.tail.right⟩
  | .doWhile body test, sc, d, h =>
    bounds_append.mpr ⟨test.bounds_uses sc (d + 1) h.tail.left,
      body.bounds_uses sc (d + 1) h.tail.right⟩
  | .tryCatch body handler finalizer, sc, d, h => by
    refine bounds_append.mpr ⟨bounds_append.mpr ⟨?_, ?_⟩, ?_⟩
    · exact (bounds_stmtsUses body _ (d + 1) h.tail.left.left).within
        (binds_blockLexicalBindings h.tail.left.left)
    · exact bounds_catchUses? handler sc (d + 1) h.tail.left.right
    · exact bounds_finallyUses? finalizer sc (d + 1) h.tail.right
  | .switch subject cases, sc, d, h => by
    refine bounds_append.mpr ⟨subject.bounds_uses sc (d + 1) h.tail.left, ?_⟩
    exact (bounds_casesUses cases _ (d + 1) h.tail.right).within
      (binds_casesLexical cases h.tail.right)
  | .labeled _ body, sc, d, h => body.bounds_uses sc (d + 1) h.tail.tail
  | .withObject object body, sc, d, h =>
    bounds_append.mpr ⟨object.bounds_uses sc (d + 1) h.tail.left,
      body.bounds_uses sc (d + 1) h.tail.right⟩
  | .ret arg, sc, d, h => bounds_exprUses? arg sc (d + 1) ((covers_ret arg).mp h)
  | .throw arg, sc, d, h => arg.bounds_uses sc (d + 1) h.tail
  | .breakTo _, _, _, _ | .continueTo _, _, _, _ | .empty, _, _, _ | .debugger, _, _, _ =>
    bounds_nil

end

end RegisterForm
