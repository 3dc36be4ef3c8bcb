import RegisterForm.Proofs.Renumber.Tree
import RegisterForm.Lowering.Hoisting
/-!
# Walks over renumbered trees

A walk over a renumbered tree meets the renumbered nodes in the same order. The names of a file
are therefore the same, and so are the fresh names that avoid them.
-/
namespace RegisterForm

variable (r : Renumbering)

def Visit.renumber : Visit → Visit
  | .stmt s => .stmt (s.renumber r)
  | .expr e => .expr (e.renumber r)
  | .pattern p => .pattern (p.renumber r)
  | .func f => .func (f.renumber r)
  | .classNode c => .classNode (c.renumber r)
  | .ident x => .ident (x.renumber r)
  | .name s => .name s

@[simp] theorem Visit.text?_renumber (v : Visit) : (v.renumber r).text? = v.text? := by
  cases v <;> rfl

/-- The second walk meets the renumbered nodes of the first. -/
def Visit.Follows (visits visits' : List Visit) : Prop := visits' = visits.map (Visit.renumber r)

namespace Visit.Follows

variable {r} {v : Visit} {as as' bs bs' : List Visit}

theorem nil : Follows r [] [] := rfl

theorem cons (h : Follows r as as') : Follows r (v :: as) (v.renumber r :: as') :=
  congrArg (v.renumber r :: ·) h

theorem append (ha : Follows r as as') (hb : Follows r bs bs') :
    Follows r (as ++ bs) (as' ++ bs') := by
  rw [Follows, ha, hb, List.map_append]

theorem names (names : List String) : Follows r (names.map .name) (names.map .name) := by
  rw [Follows, List.map_map]
  rfl

theorem ident? : (x : Option Ident) →
    Follows r (x.toList.map .ident) ((x.map (·.renumber r)).toList.map .ident)
  | none => nil
  | some _ => cons nil

theorem flatMap {α : Type} {visits : α → List Visit} {change : α → α}
    (h : ∀ a, Follows r (visits a) (visits (change a))) :
    (as : List α) → Follows r (as.flatMap visits) ((as.map change).flatMap visits)
  | [] => nil
  | a :: as => append (h a) (flatMap h as)

theorem option {α : Type} {visits : α → List Visit} {change : α → α}
    (h : ∀ a, Follows r (visits a) (visits (change a))) :
    (a : Option α) → Follows r (a.toList.flatMap visits) ((a.map change).toList.flatMap visits)
  | none => nil
  | some a => append (h a) nil

end Visit.Follows

open Visit.Follows

/-! ## Clauses -/

theorem ImportSpecifier.visits_renumber (s : ImportSpecifier) :
    Visit.Follows r s.visits (s.renumber r).visits :=
  (names _).append (cons nil)

theorem ImportBindings.visits_renumber :
    (b : ImportBindings) → Visit.Follows r b.visits (b.renumber r).visits
  | .star _ => cons nil
  | .named specifiers => flatMap (ImportSpecifier.visits_renumber r) specifiers

theorem ImportClause.visits_renumber (c : ImportClause) :
    Visit.Follows r c.visits (c.renumber r).visits :=
  (ident? _).append (option (ImportBindings.visits_renumber r) _)

theorem ExportSpecifier.visits_renumber (s : ExportSpecifier) :
    Visit.Follows r s.visits (s.renumber r).visits :=
  cons (names _)

theorem ExportClause.visits_renumber :
    (c : ExportClause) → Visit.Follows r c.visits (c.renumber r).visits
  | .named specifiers => flatMap (ExportSpecifier.visits_renumber r) specifiers
  | .star _ => cons nil

/-! ## Trees -/

mutual

theorem Expr.visits_renumber : (e : Expr) → Visit.Follows r e.visits (e.renumber r).visits
  | .ident _ => cons (cons nil)
  | .literal _ | .this | .super | .importMeta => cons nil
  | .template _ parts => cons (exprsVisits_renumber parts)
  | .tagged tag _ parts => cons (tag.visits_renumber.append (exprsVisits_renumber parts))
  | .array elements => cons (slotsVisits_renumber elements)
  | .object properties => cons (propertiesVisits_renumber properties)
  | .function f => cons f.visits_renumber
  | .arrow params body _ => cons ((paramsVisits_renumber params).append body.visits_renumber)
  | .classExpr c => cons c.visits_renumber
  | .unary _ arg => cons arg.visits_renumber
  | .update _ _ arg => cons arg.visits_renumber
  | .binary _ left right => cons (left.visits_renumber.append right.visits_renumber)
  | .assign _ target value => cons (target.visits_renumber.append value.visits_renumber)
  | .conditional test yes no =>
    cons ((test.visits_renumber.append yes.visits_renumber).append no.visits_renumber)
  | .call callee args _ => cons (callee.visits_renumber.append (exprsVisits_renumber args))
  | .newBare callee => cons callee.visits_renumber
  | .newCall callee args => cons (callee.visits_renumber.append (exprsVisits_renumber args))
  | .member owner _ _ => cons (owner.visits_renumber.append (cons nil))
  | .index owner key _ => cons (owner.visits_renumber.append key.visits_renumber)
  | .sequence exprs => cons (exprsVisits_renumber exprs)
  | .paren inner => cons inner.visits_renumber
  | .yield arg _ => cons (exprVisits?_renumber arg)
  | .await arg => cons arg.visits_renumber
  | .spread arg => cons arg.visits_renumber
  | .importCall specifier => cons specifier.visits_renumber

theorem exprsVisits_renumber :
    (es : List Expr) → Visit.Follows r (exprsVisits es) (exprsVisits (renumberExprs r es))
  | [] => nil
  | e :: es => e.visits_renumber.append (exprsVisits_renumber es)

theorem exprVisits?_renumber :
    (e : Option Expr) → Visit.Follows r (exprVisits? e) (exprVisits? (renumberExpr? r e))
  | none => nil
  | some e => e.visits_renumber

theorem slotsVisits_renumber :
    (es : List (Option Expr)) → Visit.Follows r (slotsVisits es) (slotsVisits (renumberSlots r es))
  | [] => nil
  | e :: es => (exprVisits?_renumber e).append (slotsVisits_renumber es)

theorem Key.visits_renumber : (key : Key) → Visit.Follows r key.visits (key.renumber r).visits
  | .name _ | .string _ => cons nil
  | .number _ => nil
  | .computed e => e.visits_renumber

theorem Property.visits_renumber :
    (p : Property) → Visit.Follows r p.visits (p.renumber r).visits
  | .keyed key value => key.visits_renumber.append value.visits_renumber
  | .shorthand _ => cons nil
  | .method key _ f => key.visits_renumber.append f.visits_renumber
  | .spread e => e.visits_renumber

theorem propertiesVisits_renumber : (ps : List Property) →
    Visit.Follows r (propertiesVisits ps) (propertiesVisits (renumberProperties r ps))
  | [] => nil
  | p :: ps => p.visits_renumber.append (propertiesVisits_renumber ps)

theorem Pattern.visits_renumber : (p : Pattern) → Visit.Follows r p.visits (p.renumber r).visits
  | .ident _ => cons (cons nil)
  | .expr e => cons e.visits_renumber
  | .object properties rest =>
    cons ((patternPropertiesVisits_renumber properties).append (patternVisits?_renumber rest))
  | .array elements rest =>
    cons ((patternSlotsVisits_renumber elements).append (patternVisits?_renumber rest))

theorem patternVisits?_renumber : (p : Option Pattern) →
    Visit.Follows r (patternVisits? p) (patternVisits? (renumberPattern? r p))
  | none => nil
  | some p => p.visits_renumber

theorem PatternProperty.visits_renumber :
    (p : PatternProperty) → Visit.Follows r p.visits (p.renumber r).visits
  | .keyed key target fallback =>
    (key.visits_renumber.append target.visits_renumber).append (exprVisits?_renumber fallback)
  | .shorthand _ fallback => cons (exprVisits?_renumber fallback)

theorem patternPropertiesVisits_renumber : (ps : List PatternProperty) → Visit.Follows r
    (patternPropertiesVisits ps) (patternPropertiesVisits (renumberPatternProperties r ps))
  | [] => nil
  | p :: ps => p.visits_renumber.append (patternPropertiesVisits_renumber ps)

theorem PatternElement.visits_renumber :
    (e : PatternElement) → Visit.Follows r e.visits (e.renumber r).visits
  | ⟨target, fallback⟩ => target.visits_renumber.append (exprVisits?_renumber fallback)

theorem patternSlotVisits_renumber : (e : Option PatternElement) →
    Visit.Follows r (patternSlotVisits e) (patternSlotVisits (renumberPatternSlot r e))
  | none => nil
  | some e => e.visits_renumber

theorem patternSlotsVisits_renumber : (es : List (Option PatternElement)) →
    Visit.Follows r (patternSlotsVisits es) (patternSlotsVisits (renumberPatternSlots r es))
  | [] => nil
  | e :: es => (patternSlotVisits_renumber e).append (patternSlotsVisits_renumber es)

theorem Param.visits_renumber : (p : Param) → Visit.Follows r p.visits (p.renumber r).visits
  | ⟨pattern, fallback, _⟩ => pattern.visits_renumber.append (exprVisits?_renumber fallback)

theorem paramsVisits_renumber :
    (ps : List Param) → Visit.Follows r (paramsVisits ps) (paramsVisits (renumberParams r ps))
  | [] => nil
  | p :: ps => p.visits_renumber.append (paramsVisits_renumber ps)

theorem Func.visits_renumber : (f : Func) → Visit.Follows r f.visits (f.renumber r).visits
  | ⟨name, params, body, _, _⟩ =>
    cons (((ident? name).append (paramsVisits_renumber params)).append (stmtsVisits_renumber body))

theorem ArrowBody.visits_renumber :
    (body : ArrowBody) → Visit.Follows r body.visits (body.renumber r).visits
  | .block body => stmtsVisits_renumber body
  | .expr e => e.visits_renumber

theorem Class.visits_renumber : (c : Class) → Visit.Follows r c.visits (c.renumber r).visits
  | ⟨name, base, members⟩ =>
    cons (((ident? name).append (exprVisits?_renumber base)).append (membersVisits_renumber members))

theorem ClassMember.visits_renumber :
    (m : ClassMember) → Visit.Follows r m.visits (m.renumber r).visits
  | .method key _ _ f => key.visits_renumber.append f.visits_renumber
  | .field key _ value => key.visits_renumber.append (exprVisits?_renumber value)
  | .staticBlock body => stmtsVisits_renumber body

theorem membersVisits_renumber : (ms : List ClassMember) →
    Visit.Follows r (membersVisits ms) (membersVisits (renumberMembers r ms))
  | [] => nil
  | m :: ms => m.visits_renumber.append (membersVisits_renumber ms)

theorem Declarator.visits_renumber :
    (d : Declarator) → Visit.Follows r d.visits (d.renumber r).visits
  | ⟨target, init⟩ => target.visits_renumber.append (exprVisits?_renumber init)

theorem declaratorsVisits_renumber : (ds : List Declarator) →
    Visit.Follows r (declaratorsVisits ds) (declaratorsVisits (renumberDeclarators r ds))
  | [] => nil
  | d :: ds => d.visits_renumber.append (declaratorsVisits_renumber ds)

theorem VarList.visits_renumber :
    (list : VarList) → Visit.Follows r list.visits (list.renumber r).visits
  | ⟨_, declarators⟩ => declaratorsVisits_renumber declarators

theorem ForInit.visits_renumber :
    (init : ForInit) → Visit.Follows r init.visits (init.renumber r).visits
  | .absent => nil
  | .var list => list.visits_renumber
  | .expr e => e.visits_renumber

theorem ForHead.visits_renumber :
    (head : ForHead) → Visit.Follows r head.visits (head.renumber r).visits
  | .var list => list.visits_renumber
  | .pattern p => p.visits_renumber

theorem Catch.visits_renumber : (c : Catch) → Visit.Follows r c.visits (c.renumber r).visits
  | ⟨param, body⟩ => (patternVisits?_renumber param).append (stmtsVisits_renumber body)

theorem catchVisits?_renumber :
    (c : Option Catch) → Visit.Follows r (catchVisits? c) (catchVisits? (renumberCatch? r c))
  | none => nil
  | some c => c.visits_renumber

theorem Case.visits_renumber : (c : Case) → Visit.Follows r c.visits (c.renumber r).visits
  | ⟨test, body⟩ => (exprVisits?_renumber test).append (stmtsVisits_renumber body)

theorem casesVisits_renumber :
    (cs : List Case) → Visit.Follows r (casesVisits cs) (casesVisits (renumberCases r cs))
  | [] => nil
  | c :: cs => c.visits_renumber.append (casesVisits_renumber cs)

theorem stmtsVisits_renumber :
    (ss : List Stmt) → Visit.Follows r (stmtsVisits ss) (stmtsVisits (renumberStmts r ss))
  | [] => nil
  | s :: ss => s.visits_renumber.append (stmtsVisits_renumber ss)

theorem blockVisits?_renumber : (body : Option (List Stmt)) →
    Visit.Follows r (blockVisits? body) (blockVisits? (renumberBlock? r body))
  | none => nil
  | some body => stmtsVisits_renumber body

theorem Stmt.visits_renumber : (s : Stmt) → Visit.Follows r s.visits (s.renumber r).visits
  | .expr e => cons e.visits_renumber
  | .var _ list => cons list.visits_renumber
  | .function _ f => cons f.visits_renumber
  | .classDecl _ c => cons c.visits_renumber
  | .importFrom _ clause specifier _ =>
    cons ((option (ImportClause.visits_renumber r) clause).append specifier.visits_renumber)
  | .importEquals _ _ _ _ value => cons (cons value.visits_renumber)
  | .exportFrom _ clause specifier _ =>
    cons ((option (ExportClause.visits_renumber r) clause).append (exprVisits?_renumber specifier))
  | .exportValue _ _ value => cons value.visits_renumber
  | .ambient _ _ => cons (cons nil)
  | .block body => cons (stmtsVisits_renumber body)
  | .ifThen test yes => cons (test.visits_renumber.append yes.visits_renumber)
  | .ifElse test yes no =>
    cons ((test.visits_renumber.append yes.visits_renumber).append no.visits_renumber)
  | .forLoop init test update body =>
    cons (((init.visits_renumber.append (exprVisits?_renumber test)).append
      (exprVisits?_renumber update)).append body.visits_renumber)
  | .forIn head object body =>
    cons ((head.visits_renumber.append object.visits_renumber).append body.visits_renumber)
  | .forOf head iterable body _ =>
    cons ((head.visits_renumber.append iterable.visits_renumber).append body.visits_renumber)
  | .whileLoop test body => cons (test.visits_renumber.append body.visits_renumber)
  | .doWhile body test => cons (test.visits_renumber.append body.visits_renumber)
  | .tryCatch body handler finalizer =>
    cons (((stmtsVisits_renumber body).append (catchVisits?_renumber handler)).append
      (blockVisits?_renumber finalizer))
  | .switch subject cases => cons (subject.visits_renumber.append (casesVisits_renumber cases))
  | .labeled _ body => cons (cons body.visits_renumber)
  | .withObject object body => cons (object.visits_renumber.append body.visits_renumber)
  | .ret arg => cons (exprVisits?_renumber arg)
  | .throw arg => cons arg.visits_renumber
  | .breakTo label | .continueTo label => cons (names label.toList)
  | .empty | .debugger => cons nil

end

/-! ## Names -/

/-- Names are not renumbered. -/
@[simp] theorem SourceFile.names_renumber (file : SourceFile) :
    (file.renumber r).names = file.names := by
  have hvisits : (file.renumber r).visits = file.visits.map (Visit.renumber r) := by
    rw [visits, statements_renumber, ← renumberStmts_eq, stmtsVisits_renumber r file.statements,
      visits]
  rw [names, hvisits, List.filterMap_map, names]
  exact congrArg (fun text? => Std.TreeSet.ofList (file.visits.filterMap text?))
    (funext (Visit.text?_renumber r))

end RegisterForm
