import RegisterForm.Proofs.Fresh.Vocabulary
import RegisterForm.Proofs.Scope.Declared
/-!
# The vocabulary of a source

Whatever a node declares, assigns or calls by name stands in it as an identifier. So a tree keeps
to every vocabulary that knows its identifiers.
-/
namespace RegisterForm
open Vocabulary

/-- An identifier may be mentioned, bound and called. -/
structure Vocabulary.Knows (V : Vocabulary) (x : Ident) : Prop where
  mentions : V.mentions x.name
  binds : V.binds x
  calls : V.calls x

variable {V : Vocabulary}

/-- All identifiers of the nodes are known. -/
def Vocabulary.KnowsAll (V : Vocabulary) (vs : List Visit) : Prop := ∀ x ∈ identsIn vs, V.Knows x

namespace Vocabulary.KnowsAll
variable {v : Visit} {vs ws : List Visit}

theorem knows {x : Ident} (h : V.KnowsAll (.ident x :: vs)) : V.Knows x :=
  h x (List.mem_cons_self ..)

theorem tail (h : V.KnowsAll (v :: vs)) : V.KnowsAll vs :=
  fun x hx => h x (identsIn_subset (List.subset_cons_self ..) hx)

theorem left (h : V.KnowsAll (vs ++ ws)) : V.KnowsAll vs :=
  fun x hx => h x (identsIn_subset (List.subset_append_left ..) hx)

theorem right (h : V.KnowsAll (vs ++ ws)) : V.KnowsAll ws :=
  fun x hx => h x (identsIn_subset (List.subset_append_right ..) hx)

theorem idents {xs : List Ident} (h : V.KnowsAll (xs.map .ident)) : ∀ x ∈ xs, V.Knows x := by
  rwa [KnowsAll, identsIn_map_ident] at h

end Vocabulary.KnowsAll

/-- What is called by name stands in the callee. -/
theorem Expr.knows_skipParens {e : Expr} (h : V.KnowsAll e.visits) {x : Ident}
    (hx : e.skipParens.ident? = some x) : V.Knows x := by
  induction e using Expr.skipParens.induct with
  | case1 inner ih => exact ih h.tail hx
  | case2 e hne =>
    rw [Expr.skipParens.eq_2 e hne] at hx
    cases e with
    | ident y =>
      cases hx
      exact h.tail.knows
    | _ => cases hx

/-- The names of import and export clauses stand in them. -/
theorem covers_leaves {vs : List Visit}
    (hvs : ∀ v ∈ vs, (∃ x, v = .ident x) ∨ ∃ text, v = .name text) (h : V.KnowsAll vs) :
    V.Covers vs := by
  intro v hv
  rcases hvs v hv with ⟨x, rfl⟩ | ⟨text, rfl⟩
  · exact (admits_ident x).mpr (h x (List.mem_filterMap.mpr ⟨_, hv, rfl⟩)).mentions
  · exact admits_name text

theorem ImportClause.leaves (c : ImportClause) :
    ∀ v ∈ c.visits, (∃ x, v = .ident x) ∨ ∃ text, v = .name text := by
  obtain ⟨default, bindings⟩ := c
  intro v hv
  rcases List.mem_append.mp hv with hdefault | hbindings
  · obtain ⟨x, -, rfl⟩ := List.mem_map.mp hdefault
    exact .inl ⟨x, rfl⟩
  · obtain ⟨bindings, -, hv⟩ := List.mem_flatMap.mp hbindings
    cases bindings with
    | star x => exact .inl ⟨x, List.mem_singleton.mp hv⟩
    | named specifiers =>
      obtain ⟨spec, -, hv⟩ := List.mem_flatMap.mp hv
      rcases List.mem_append.mp hv with himported | hbinding
      · obtain ⟨text, -, rfl⟩ := List.mem_map.mp himported
        exact .inr ⟨text, rfl⟩
      · exact .inl ⟨_, List.mem_singleton.mp hbinding⟩

theorem ExportClause.leaves (c : ExportClause) :
    ∀ v ∈ c.visits, (∃ x, v = .ident x) ∨ ∃ text, v = .name text := by
  intro v hv
  cases c with
  | star x => exact .inl ⟨x, List.mem_singleton.mp hv⟩
  | named specifiers =>
    obtain ⟨spec, -, hv⟩ := List.mem_flatMap.mp hv
    rcases List.mem_cons.mp hv with rfl | hexported
    · exact .inl ⟨_, rfl⟩
    · obtain ⟨text, -, rfl⟩ := List.mem_map.mp hexported
      exact .inr ⟨text, rfl⟩

theorem knows_shorthands : (ps : List PatternProperty) → V.KnowsAll (patternPropertiesVisits ps) →
    ∀ x ∈ ps.filterMap PatternProperty.shorthand?, V.Knows x
  | [], _ => List.forall_mem_nil _
  | .keyed _ _ _ :: ps, h => knows_shorthands ps h.right
  | .shorthand _ _ :: ps, h => List.forall_mem_cons.mpr ⟨h.left.knows, knows_shorthands ps h.right⟩

/-! ## Trees -/

mutual

theorem Expr.covers_known : (e : Expr) → V.KnowsAll e.visits → V.Covers e.visits
  | .ident x, h => (covers_identExpr x).mpr h.tail.knows.mentions
  | .literal value, _ => covers_literal value
  | .this, _ => covers_this
  | .super, _ | .importMeta, _ => .expr rfl covers_nil
  | .template _ parts, h => .expr rfl (covers_known_exprs parts h.tail)
  | .tagged tag _ parts, h =>
    .expr rfl (.append (tag.covers_known h.tail.left) (covers_known_exprs parts h.tail.right))
  | .array elements, h => .expr rfl (covers_known_slots elements h.tail)
  | .object properties, h => .expr rfl (covers_known_properties properties h.tail)
  | .function f, h => .expr rfl (f.covers_known h.tail)
  | .arrow params body _, h =>
    .expr rfl (.append (covers_known_params params h.tail.left) (body.covers_known h.tail.right))
  | .classExpr c, h => .expr rfl (c.covers_known h.tail)
  | .unary _ arg, h | .update _ _ arg, h => .expr rfl (arg.covers_known h.tail)
  | .binary _ left right, h =>
    .expr rfl (.append (left.covers_known h.tail.left) (right.covers_known h.tail.right))
  | .assign _ target value, h =>
    .expr rfl (.append (target.covers_known h.tail.left) (value.covers_known h.tail.right))
  | .conditional test yes no, h => by
    have htest := test.covers_known h.tail.left.left
    have hyes := yes.covers_known h.tail.left.right
    exact .expr rfl (.append (.append htest hyes) (no.covers_known h.tail.right))
  | .call callee args isOptional, h => by
    refine (covers_call callee args isOptional).mpr
      ⟨fun x hx => (Expr.knows_skipParens h.tail.left hx).calls, ?_⟩
    exact ⟨callee.covers_known h.tail.left, covers_known_exprs args h.tail.right⟩
  | .newBare callee, h => .expr rfl (callee.covers_known h.tail)
  | .newCall callee args, h =>
    .expr rfl (.append (callee.covers_known h.tail.left) (covers_known_exprs args h.tail.right))
  | .member owner name _, h =>
    .expr rfl (.append (owner.covers_known h.tail.left) (covers_names [name]))
  | .index owner key _, h =>
    .expr rfl (.append (owner.covers_known h.tail.left) (key.covers_known h.tail.right))
  | .sequence exprs, h => .expr rfl (covers_known_exprs exprs h.tail)
  | .paren inner, h => .expr rfl (inner.covers_known h.tail)
  | .yield arg _, h => .expr rfl (covers_known_expr? arg h.tail)
  | .await arg, h | .spread arg, h => .expr rfl (arg.covers_known h.tail)
  | .importCall specifier, h => .expr rfl (specifier.covers_known h.tail)

theorem covers_known_exprs : (es : List Expr) → V.KnowsAll (exprsVisits es) →
    V.Covers (exprsVisits es)
  | [], _ => covers_nil
  | e :: es, h => .append (e.covers_known h.left) (covers_known_exprs es h.right)

theorem covers_known_expr? : (e : Option Expr) → V.KnowsAll (exprVisits? e) →
    V.Covers (exprVisits? e)
  | none, _ => covers_nil
  | some e, h => e.covers_known h

theorem covers_known_slots : (es : List (Option Expr)) → V.KnowsAll (slotsVisits es) →
    V.Covers (slotsVisits es)
  | [], _ => covers_nil
  | e :: es, h => .append (covers_known_expr? e h.left) (covers_known_slots es h.right)

theorem Key.covers_known : (key : Key) → V.KnowsAll key.visits → V.Covers key.visits
  | .name text, _ | .string text, _ => covers_names [text]
  | .number _, _ => covers_nil
  | .computed e, h => e.covers_known h

theorem Property.covers_known : (p : Property) → V.KnowsAll p.visits → V.Covers p.visits
  | .keyed key value, h => .append (key.covers_known h.left) (value.covers_known h.right)
  | .shorthand x, h => .cons ((admits_ident x).mpr h.knows.mentions) covers_nil
  | .method key _ f, h => .append (key.covers_known h.left) (f.covers_known h.right)
  | .spread e, h => e.covers_known h

theorem covers_known_properties : (ps : List Property) → V.KnowsAll (propertiesVisits ps) →
    V.Covers (propertiesVisits ps)
  | [], _ => covers_nil
  | p :: ps, h => .append (p.covers_known h.left) (covers_known_properties ps h.right)

theorem Pattern.covers_known : (p : Pattern) → V.KnowsAll p.visits → V.Covers p.visits
  | .ident x, h => (covers_identPattern x).mpr ⟨h.tail.knows.binds, h.tail.knows.mentions⟩
  | .expr e, h => (covers_exprPattern e).mpr (e.covers_known h.tail)
  | .object properties rest, h => by
    refine .cons ((admits_pattern _).mpr fun x hx => ?_) ?_
    · exact (knows_shorthands properties h.tail.left x hx).binds
    · exact .append (covers_known_patternProperties properties h.tail.left)
        (covers_known_pattern? rest h.tail.right)
  | .array elements rest, h => by
    refine .cons ((admits_pattern _).mpr nofun) ?_
    exact .append (covers_known_patternSlots elements h.tail.left)
      (covers_known_pattern? rest h.tail.right)

theorem covers_known_pattern? : (p : Option Pattern) → V.KnowsAll (patternVisits? p) →
    V.Covers (patternVisits? p)
  | none, _ => covers_nil
  | some p, h => p.covers_known h

theorem PatternProperty.covers_known : (p : PatternProperty) → V.KnowsAll p.visits →
    V.Covers p.visits
  | .keyed key target fallback, h =>
    .append (.append (key.covers_known h.left.left) (target.covers_known h.left.right))
      (covers_known_expr? fallback h.right)
  | .shorthand x fallback, h =>
    .cons ((admits_ident x).mpr h.knows.mentions) (covers_known_expr? fallback h.tail)

theorem covers_known_patternProperties : (ps : List PatternProperty) →
    V.KnowsAll (patternPropertiesVisits ps) → V.Covers (patternPropertiesVisits ps)
  | [], _ => covers_nil
  | p :: ps, h => .append (p.covers_known h.left) (covers_known_patternProperties ps h.right)

theorem PatternElement.covers_known : (e : PatternElement) → V.KnowsAll e.visits →
    V.Covers e.visits
  | ⟨target, fallback⟩, h =>
    .append (target.covers_known h.left) (covers_known_expr? fallback h.right)

theorem covers_known_patternSlots : (es : List (Option PatternElement)) →
    V.KnowsAll (patternSlotsVisits es) → V.Covers (patternSlotsVisits es)
  | [], _ => covers_nil
  | none :: es, h => .append covers_nil (covers_known_patternSlots es h.right)
  | some e :: es, h => .append (e.covers_known h.left) (covers_known_patternSlots es h.right)

theorem Param.covers_known : (p : Param) → V.KnowsAll p.visits → V.Covers p.visits
  | ⟨pattern, fallback, _⟩, h =>
    .append (pattern.covers_known h.left) (covers_known_expr? fallback h.right)

theorem covers_known_params : (ps : List Param) → V.KnowsAll (paramsVisits ps) →
    V.Covers (paramsVisits ps)
  | [], _ => covers_nil
  | p :: ps, h => .append (p.covers_known h.left) (covers_known_params ps h.right)

theorem Func.covers_known : (f : Func) → V.KnowsAll f.visits → V.Covers f.visits
  | ⟨name, params, body, _, _⟩, h => by
    refine (covers_func _ _ _ _ _).mpr ⟨fun x hx => ?_,
      covers_known_params params h.tail.left.right, covers_known_stmts body h.tail.right⟩
    have hx := h.tail.left.left.idents x (Option.mem_toList.mpr hx)
    exact ⟨hx.binds, hx.mentions⟩

theorem ArrowBody.covers_known : (body : ArrowBody) → V.KnowsAll body.visits →
    V.Covers body.visits
  | .block body, h => covers_known_stmts body h
  | .expr e, h => e.covers_known h

theorem Class.covers_known : (c : Class) → V.KnowsAll c.visits → V.Covers c.visits
  | ⟨name, base, members⟩, h => by
    have hname := h.tail.left.left.idents
    refine .cons ((admits_classNode _).mpr fun x hx => ?_) ?_
    · exact (hname x (Option.mem_toList.mpr hx)).binds
    · have hmentions := covers_idents.mpr fun x hx => (hname x hx).mentions
      exact .append (.append hmentions (covers_known_expr? base h.tail.left.right))
        (covers_known_members members h.tail.right)

theorem ClassMember.covers_known : (m : ClassMember) → V.KnowsAll m.visits → V.Covers m.visits
  | .method key _ _ f, h => .append (key.covers_known h.left) (f.covers_known h.right)
  | .field key _ value, h => .append (key.covers_known h.left) (covers_known_expr? value h.right)
  | .staticBlock body, h => covers_known_stmts body h

theorem covers_known_members : (ms : List ClassMember) → V.KnowsAll (membersVisits ms) →
    V.Covers (membersVisits ms)
  | [], _ => covers_nil
  | m :: ms, h => .append (m.covers_known h.left) (covers_known_members ms h.right)

theorem Declarator.covers_known : (d : Declarator) → V.KnowsAll d.visits → V.Covers d.visits
  | ⟨target, init⟩, h => .append (target.covers_known h.left) (covers_known_expr? init h.right)

theorem covers_known_declarators : (ds : List Declarator) → V.KnowsAll (declaratorsVisits ds) →
    V.Covers (declaratorsVisits ds)
  | [], _ => covers_nil
  | d :: ds, h => .append (d.covers_known h.left) (covers_known_declarators ds h.right)

theorem VarList.covers_known : (list : VarList) → V.KnowsAll list.visits → V.Covers list.visits
  | ⟨_, declarators⟩, h => covers_known_declarators declarators h

theorem ForInit.covers_known : (init : ForInit) → V.KnowsAll init.visits → V.Covers init.visits
  | .absent, _ => covers_nil
  | .var list, h => list.covers_known h
  | .expr e, h => e.covers_known h

theorem ForHead.covers_known : (head : ForHead) → V.KnowsAll head.visits → V.Covers head.visits
  | .var list, h => list.covers_known h
  | .pattern p, h => p.covers_known h

theorem Catch.covers_known : (c : Catch) → V.KnowsAll c.visits → V.Covers c.visits
  | ⟨param, body⟩, h =>
    .append (covers_known_pattern? param h.left) (covers_known_stmts body h.right)

theorem covers_known_catch? : (c : Option Catch) → V.KnowsAll (catchVisits? c) →
    V.Covers (catchVisits? c)
  | none, _ => covers_nil
  | some c, h => c.covers_known h

theorem covers_known_block? : (body : Option (List Stmt)) → V.KnowsAll (blockVisits? body) →
    V.Covers (blockVisits? body)
  | none, _ => covers_nil
  | some body, h => covers_known_stmts body h

theorem Case.covers_known : (c : Case) → V.KnowsAll c.visits → V.Covers c.visits
  | ⟨test, body⟩, h => .append (covers_known_expr? test h.left) (covers_known_stmts body h.right)

theorem covers_known_cases : (cs : List Case) → V.KnowsAll (casesVisits cs) →
    V.Covers (casesVisits cs)
  | [], _ => covers_nil
  | c :: cs, h => .append (c.covers_known h.left) (covers_known_cases cs h.right)

theorem covers_known_stmts : (sts : List Stmt) → V.KnowsAll (stmtsVisits sts) →
    V.Covers (stmtsVisits sts)
  | [], _ => covers_nil
  | st :: sts, h => .append (st.covers_known h.left) (covers_known_stmts sts h.right)

theorem Stmt.covers_known : (st : Stmt) → V.KnowsAll st.visits → V.Covers st.visits
  | .expr e, h => .stmt rfl (e.covers_known h.tail)
  | .var _ list, h => .stmt rfl (list.covers_known h.tail)
  | .function _ f, h => .stmt rfl (f.covers_known h.tail)
  | .classDecl _ c, h => .stmt rfl (c.covers_known h.tail)
  | .importFrom _ clause specifier _, h => by
    refine .cons ((admits_stmt _).mpr fun x hx => (h.tail.left x hx).binds) ?_
    refine .append (covers_leaves (fun v hv => ?_) h.tail.left)
      (specifier.covers_known h.tail.right)
    obtain ⟨c, -, hv⟩ := List.mem_flatMap.mp hv
    exact c.leaves v hv
  | .importEquals _ _ name _ value, h => by
    refine .cons ((admits_stmt _).mpr (List.forall_mem_singleton.mpr h.tail.knows.binds)) ?_
    exact .cons ((admits_ident name).mpr h.tail.knows.mentions) (value.covers_known h.tail.tail)
  | .exportFrom _ clause specifier _, h => by
    refine .stmt rfl (.append (covers_leaves (fun v hv => ?_) h.tail.left)
      (covers_known_expr? specifier h.tail.right))
    obtain ⟨c, -, hv⟩ := List.mem_flatMap.mp hv
    exact c.leaves v hv
  | .exportValue _ _ value, h => .stmt rfl (value.covers_known h.tail)
  | .ambient name _, h => by
    refine .cons ((admits_stmt _).mpr (List.forall_mem_singleton.mpr h.tail.knows.binds)) ?_
    exact .cons ((admits_ident name).mpr h.tail.knows.mentions) covers_nil
  | .block body, h => .stmt rfl (covers_known_stmts body h.tail)
  | .ifThen test yes, h =>
    .stmt rfl (.append (test.covers_known h.tail.left) (yes.covers_known h.tail.right))
  | .ifElse test yes no, h => by
    have htest := test.covers_known h.tail.left.left
    have hyes := yes.covers_known h.tail.left.right
    exact .stmt rfl (.append (.append htest hyes) (no.covers_known h.tail.right))
  | .forLoop init test update body, h => by
    have hinit := init.covers_known h.tail.left.left.left
    have htest := covers_known_expr? test h.tail.left.left.right
    have hupdate := covers_known_expr? update h.tail.left.right
    exact .stmt rfl
      (.append (.append (.append hinit htest) hupdate) (body.covers_known h.tail.right))
  | .forIn head object body, h => by
    have hhead := head.covers_known h.tail.left.left
    have hobject := object.covers_known h.tail.left.right
    exact .stmt rfl (.append (.append hhead hobject) (body.covers_known h.tail.right))
  | .forOf head iterable body _, h => by
    have hhead := head.covers_known h.tail.left.left
    have hiterable := iterable.covers_known h.tail.left.right
    exact .stmt rfl (.append (.append hhead hiterable) (body.covers_known h.tail.right))
  | .whileLoop test body, h | .doWhile body test, h =>
    .stmt rfl (.append (test.covers_known h.tail.left) (body.covers_known h.tail.right))
  | .tryCatch body handler finalizer, h => by
    have hbody := covers_known_stmts body h.tail.left.left
    have hhandler := covers_known_catch? handler h.tail.left.right
    exact .stmt rfl (.append (.append hbody hhandler) (covers_known_block? finalizer h.tail.right))
  | .switch subject cases, h =>
    .stmt rfl (.append (subject.covers_known h.tail.left) (covers_known_cases cases h.tail.right))
  | .labeled label body, h => .stmt rfl (.cons (admits_name label) (body.covers_known h.tail.tail))
  | .withObject object body, h =>
    .stmt rfl (.append (object.covers_known h.tail.left) (body.covers_known h.tail.right))
  | .ret arg, h => .stmt rfl (covers_known_expr? arg h.tail)
  | .throw arg, h => .stmt rfl (arg.covers_known h.tail)
  | .breakTo label, _ | .continueTo label, _ => .stmt rfl (covers_names label.toList)
  | .empty, _ | .debugger, _ => .stmt rfl covers_nil

end
end RegisterForm
