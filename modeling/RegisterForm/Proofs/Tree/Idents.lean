import RegisterForm.Proofs.Tree.WellFormed
/-!
# Identifiers of a tree

The identifier nodes of a tree in the order of its parts, and what a walk makes of that order. A walk
meets each of them once. It meets them in order but for a trailing test, which it meets before the
body.
-/
namespace RegisterForm

def ImportBindings.idents : ImportBindings → List Ident
  | star x => [x]
  | named specifiers => specifiers.map (·.binding)

def ImportClause.idents (c : ImportClause) : List Ident :=
  c.default.toList ++ c.bindings.toList.flatMap (·.idents)

def ExportClause.idents : ExportClause → List Ident
  | named specifiers => specifiers.map (·.source)
  | star x => [x]

mutual

def Expr.idents : Expr → List Ident
  | .ident x => [x]
  | .literal _ | .this | .super | .importMeta => []
  | .template _ parts => exprsIdents parts
  | .tagged tag _ parts => tag.idents ++ exprsIdents parts
  | .array elements => exprSlotsIdents elements
  | .object properties => propertiesIdents properties
  | .function f => f.idents
  | .arrow params body _ => paramsIdents params ++ body.idents
  | .classExpr c => c.idents
  | .unary _ arg => arg.idents
  | .update _ _ arg => arg.idents
  | .binary _ left right => left.idents ++ right.idents
  | .assign _ target value => target.idents ++ value.idents
  | .conditional test yes no => test.idents ++ yes.idents ++ no.idents
  | .call callee args _ => callee.idents ++ exprsIdents args
  | .newBare callee => callee.idents
  | .newCall callee args => callee.idents ++ exprsIdents args
  | .member owner _ _ => owner.idents
  | .index owner key _ => owner.idents ++ key.idents
  | .sequence exprs => exprsIdents exprs
  | .paren inner => inner.idents
  | .yield arg _ => exprIdents? arg
  | .await arg => arg.idents
  | .spread arg => arg.idents
  | .importCall specifier => specifier.idents

def exprsIdents : List Expr → List Ident
  | [] => []
  | e :: es => e.idents ++ exprsIdents es

def exprIdents? : Option Expr → List Ident
  | none => []
  | some e => e.idents

def exprSlotsIdents : List (Option Expr) → List Ident
  | [] => []
  | e :: es => exprIdents? e ++ exprSlotsIdents es

def Key.idents : Key → List Ident
  | .name _ | .string _ | .number _ => []
  | .computed e => e.idents

def Property.idents : Property → List Ident
  | .keyed key value => key.idents ++ value.idents
  | .shorthand x => [x]
  | .method key _ f => key.idents ++ f.idents
  | .spread e => e.idents

def propertiesIdents : List Property → List Ident
  | [] => []
  | p :: ps => p.idents ++ propertiesIdents ps

def Pattern.idents : Pattern → List Ident
  | .ident x => [x]
  | .expr e => e.idents
  | .object properties rest => patternPropertiesIdents properties ++ patternIdents? rest
  | .array elements rest => patternSlotsIdents elements ++ patternIdents? rest

def patternIdents? : Option Pattern → List Ident
  | none => []
  | some p => p.idents

def PatternProperty.idents : PatternProperty → List Ident
  | .keyed key target fallback => key.idents ++ target.idents ++ exprIdents? fallback
  | .shorthand x fallback => x :: exprIdents? fallback

def patternPropertiesIdents : List PatternProperty → List Ident
  | [] => []
  | p :: ps => p.idents ++ patternPropertiesIdents ps

def PatternElement.idents : PatternElement → List Ident
  | ⟨target, fallback⟩ => target.idents ++ exprIdents? fallback

def patternSlotIdents : Option PatternElement → List Ident
  | none => []
  | some e => e.idents

def patternSlotsIdents : List (Option PatternElement) → List Ident
  | [] => []
  | e :: es => patternSlotIdents e ++ patternSlotsIdents es

def Param.idents : Param → List Ident
  | ⟨pattern, fallback, _⟩ => pattern.idents ++ exprIdents? fallback

def paramsIdents : List Param → List Ident
  | [] => []
  | p :: ps => p.idents ++ paramsIdents ps

def Func.idents : Func → List Ident
  | ⟨name, params, body, _, _⟩ => name.toList ++ paramsIdents params ++ stmtsIdents body

def ArrowBody.idents : ArrowBody → List Ident
  | .block body => stmtsIdents body
  | .expr e => e.idents

def Class.idents : Class → List Ident
  | ⟨name, base, members⟩ => name.toList ++ exprIdents? base ++ membersIdents members

def ClassMember.idents : ClassMember → List Ident
  | .method key _ _ f => key.idents ++ f.idents
  | .field key _ value => key.idents ++ exprIdents? value
  | .staticBlock body => stmtsIdents body

def membersIdents : List ClassMember → List Ident
  | [] => []
  | m :: ms => m.idents ++ membersIdents ms

def Declarator.idents : Declarator → List Ident
  | ⟨target, init⟩ => target.idents ++ exprIdents? init

def declaratorsIdents : List Declarator → List Ident
  | [] => []
  | d :: ds => d.idents ++ declaratorsIdents ds

def VarList.idents : VarList → List Ident
  | ⟨_, declarators⟩ => declaratorsIdents declarators

def ForInit.idents : ForInit → List Ident
  | .absent => []
  | .var list => list.idents
  | .expr e => e.idents

def ForHead.idents : ForHead → List Ident
  | .var list => list.idents
  | .pattern p => p.idents

def Catch.idents : Catch → List Ident
  | ⟨param, body⟩ => patternIdents? param ++ stmtsIdents body

def catchIdents? : Option Catch → List Ident
  | none => []
  | some c => c.idents

def Case.idents : Case → List Ident
  | ⟨test, body⟩ => exprIdents? test ++ stmtsIdents body

def casesIdents : List Case → List Ident
  | [] => []
  | c :: cs => c.idents ++ casesIdents cs

def stmtsIdents : List Stmt → List Ident
  | [] => []
  | s :: ss => s.idents ++ stmtsIdents ss

def blockIdents? : Option (List Stmt) → List Ident
  | none => []
  | some body => stmtsIdents body

def Stmt.idents : Stmt → List Ident
  | .expr e => e.idents
  | .var _ list => list.idents
  | .function _ f => f.idents
  | .classDecl _ c => c.idents
  | .importFrom _ clause specifier _ => clause.toList.flatMap (·.idents) ++ specifier.idents
  | .importEquals _ _ name _ value => name :: value.idents
  | .exportFrom _ clause specifier _ =>
    clause.toList.flatMap (·.idents) ++ exprIdents? specifier
  | .exportValue _ _ value => value.idents
  | .ambient name _ => [name]
  | .block body => stmtsIdents body
  | .ifThen test yes => test.idents ++ yes.idents
  | .ifElse test yes no => test.idents ++ yes.idents ++ no.idents
  | .forLoop init test update body =>
    init.idents ++ exprIdents? test ++ exprIdents? update ++ body.idents
  | .forIn head object body => head.idents ++ object.idents ++ body.idents
  | .forOf head iterable body _ => head.idents ++ iterable.idents ++ body.idents
  | .whileLoop test body => test.idents ++ body.idents
  | .doWhile body test => body.idents ++ test.idents
  | .tryCatch body handler finalizer =>
    stmtsIdents body ++ catchIdents? handler ++ blockIdents? finalizer
  | .switch subject cases => subject.idents ++ casesIdents cases
  | .labeled _ body => body.idents
  | .withObject object body => object.idents ++ body.idents
  | .ret arg => exprIdents? arg
  | .throw arg => arg.idents
  | .breakTo _ | .continueTo _ | .empty | .debugger => []

end

/-! ## Order of a walk -/

/-- Of the body and the trailing test of a loop, one has no identifiers. -/
def Visit.isOneSided : Visit → Bool
  | .stmt (.doWhile body test) => body.idents.isEmpty || test.idents.isEmpty
  | _ => true

def OneSided (vs : List Visit) : Prop := ∀ v ∈ vs, v.isOneSided = true

/-- A walk meets each of the identifiers once, and it meets them in order just if no loop has
identifiers both in its body and in its trailing test. -/
structure Walks (vs : List Visit) (xs : List Ident) : Prop where
  perm : (identsIn vs).Perm xs
  ordered : OneSided vs → identsIn vs = xs
  oneSided : xs.Nodup → identsIn vs = xs → OneSided vs

namespace Walks
variable {vs ws : List Visit} {xs ys : List Ident}

theorem nil : Walks [] [] := ⟨.refl _, fun _ => rfl, fun _ _ _ h => nomatch h⟩

theorem append (h : Walks vs xs) (h' : Walks ws ys) : Walks (vs ++ ws) (xs ++ ys) where
  perm := by
    rw [identsIn_append]
    exact h.perm.append h'.perm
  ordered hone := by
    obtain ⟨hvs, hws⟩ := List.forall_mem_append.mp hone
    rw [identsIn_append, h.ordered hvs, h'.ordered hws]
  oneSided hnodup heq := by
    obtain ⟨hxs, hys, -⟩ := List.nodup_append.mp hnodup
    rw [identsIn_append] at heq
    obtain ⟨hv, hw⟩ := List.append_inj heq h.perm.length_eq
    exact List.forall_mem_append.mpr ⟨h.oneSided hxs hv, h'.oneSided hys hw⟩

theorem ident (x : Ident) (h : Walks vs xs) : Walks (.ident x :: vs) (x :: xs) where
  perm := h.perm.cons x
  ordered hone := by rw [identsIn_ident, h.ordered (List.forall_mem_cons.mp hone).2]
  oneSided hnodup heq :=
    List.forall_mem_cons.mpr ⟨rfl, h.oneSided hnodup.of_cons (List.cons.inj heq).2⟩

theorem idents (xs : List Ident) : Walks (xs.map .ident) xs := by
  induction xs with
  | nil => exact nil
  | cons x xs ih => exact ih.ident x

/-- A visit of something that is no identifier and no loop with a trailing test. -/
theorem skip {v : Visit} (hident : v.ident? = none) (hone : v.isOneSided = true)
    (h : Walks vs xs) : Walks (v :: vs) xs := by
  have hidents : identsIn (v :: vs) = identsIn vs := List.filterMap_cons_none hident
  refine ⟨hidents ▸ h.perm, fun hvs => ?_, fun hnodup heq => ?_⟩
  · exact hidents.trans (h.ordered (List.forall_mem_cons.mp hvs).2)
  · exact List.forall_mem_cons.mpr ⟨hone, h.oneSided hnodup (hidents.symm.trans heq)⟩

/-- The test of the loop is met first. -/
theorem doWhile {body : Stmt} {test : Expr} (hbody : Walks body.visits body.idents)
    (htest : Walks test.visits test.idents) :
    Walks (.stmt (.doWhile body test) :: (test.visits ++ body.visits))
      (body.idents ++ test.idents) where
  perm := by
    rw [identsIn_stmt, identsIn_append]
    exact (htest.perm.append hbody.perm).trans List.perm_append_comm
  ordered hone := by
    obtain ⟨hloop, hparts⟩ := List.forall_mem_cons.mp hone
    obtain ⟨htests, hbodies⟩ := List.forall_mem_append.mp hparts
    rw [identsIn_stmt, identsIn_append, htest.ordered htests, hbody.ordered hbodies]
    simp only [Visit.isOneSided, Bool.or_eq_true, List.isEmpty_iff] at hloop
    rcases hloop with hempty | hempty <;> simp [hempty]
  oneSided hnodup heq := by
    obtain ⟨hnodupBody, hnodupTest, hdisjoint⟩ := List.nodup_append.mp hnodup
    rw [identsIn_stmt, identsIn_append] at heq
    -- What stands first is of the test as it is met and of the body as the loop is written.
    have hempty : body.idents = [] ∨ test.idents = [] := by
      cases hx : body.idents with
      | nil => exact .inl rfl
      | cons x xs =>
        cases hy : identsIn test.visits with
        | nil => exact .inr (List.nil_perm.mp (hy ▸ htest.perm))
        | cons y ys =>
          rw [hx, hy] at heq
          have hyx : y = x := (List.cons.inj heq).1
          have hmem : y ∈ test.idents := htest.perm.subset (hy ▸ List.mem_cons_self)
          exact absurd hyx.symm (hdisjoint x (hx ▸ List.mem_cons_self) y hmem)
    have hmet : identsIn test.visits = test.idents ∧ identsIn body.visits = body.idents := by
      rcases hempty with hnil | hnil
      · have hbodyNil : identsIn body.visits = [] := List.perm_nil.mp (hnil ▸ hbody.perm)
        rw [hnil, hbodyNil, List.append_nil, List.nil_append] at heq
        exact ⟨heq, hbodyNil.trans hnil.symm⟩
      · have htestNil : identsIn test.visits = [] := List.perm_nil.mp (hnil ▸ htest.perm)
        rw [hnil, htestNil, List.append_nil, List.nil_append] at heq
        exact ⟨htestNil.trans hnil.symm, heq⟩
    refine List.forall_mem_cons.mpr ⟨?_, List.forall_mem_append.mpr
      ⟨htest.oneSided hnodupTest hmet.1, hbody.oneSided hnodupBody hmet.2⟩⟩
    simpa [Visit.isOneSided] using hempty

end Walks

/-! ## Walks of clauses -/

theorem ImportBindings.walks (b : ImportBindings) : Walks b.visits b.idents := by
  cases b with
  | star x => exact .idents [x]
  | named specifiers =>
    induction specifiers with
    | nil => exact .nil
    | cons s specifiers ih =>
      have hone : Walks s.visits [s.binding] := by
        cases hs : s.imported with
        | none => simpa [ImportSpecifier.visits, hs] using Walks.idents [s.binding]
        | some name =>
          simpa [ImportSpecifier.visits, hs] using (Walks.idents [s.binding]).skip rfl rfl
      exact hone.append ih

theorem ImportClause.walks (c : ImportClause) : Walks c.visits c.idents := by
  refine (Walks.idents c.default.toList).append ?_
  cases c.bindings with
  | none => exact .nil
  | some b => simpa using b.walks

theorem ExportClause.walks (c : ExportClause) : Walks c.visits c.idents := by
  cases c with
  | star x => exact .idents [x]
  | named specifiers =>
    induction specifiers with
    | nil => exact .nil
    | cons s specifiers ih =>
      have hone : Walks s.visits [s.source] := by
        cases hs : s.exported with
        | none => simpa [ExportSpecifier.visits, hs] using Walks.idents [s.source]
        | some name =>
          have hname : Walks [.name name] [] := Walks.nil.skip rfl rfl
          simpa [ExportSpecifier.visits, hs] using hname.ident s.source
      exact hone.append ih

theorem Walks.option {α : Type} {visits : α → List Visit} {idents : α → List Ident}
    (h : ∀ a, Walks (visits a) (idents a)) (a : Option α) :
    Walks (a.toList.flatMap visits) (a.toList.flatMap idents) := by
  cases a with
  | none => exact .nil
  | some a => simpa using h a

theorem walks_label (label : Option String) : Walks (label.toList.map .name) [] := by
  cases label with
  | none => exact .nil
  | some label => exact Walks.nil.skip rfl rfl

/-! ## Walks of trees -/

mutual

theorem Expr.walks : (e : Expr) → Walks e.visits e.idents
  | .ident x => (Walks.idents [x]).skip rfl rfl
  | .literal _ | .this | .super | .importMeta => Walks.nil.skip rfl rfl
  | .template _ parts => (walks_exprs parts).skip rfl rfl
  | .tagged tag _ parts => (tag.walks.append (walks_exprs parts)).skip rfl rfl
  | .array elements => (walks_exprSlots elements).skip rfl rfl
  | .object properties => (walks_properties properties).skip rfl rfl
  | .function f => f.walks.skip rfl rfl
  | .arrow params body _ => ((walks_params params).append body.walks).skip rfl rfl
  | .classExpr c => c.walks.skip rfl rfl
  | .unary _ arg | .update _ _ arg | .paren arg | .await arg | .spread arg | .importCall arg
  | .newBare arg => arg.walks.skip rfl rfl
  | .binary _ left right => (left.walks.append right.walks).skip rfl rfl
  | .assign _ target value => (target.walks.append value.walks).skip rfl rfl
  | .conditional test yes no => ((test.walks.append yes.walks).append no.walks).skip rfl rfl
  | .call callee args _ | .newCall callee args =>
    (callee.walks.append (walks_exprs args)).skip rfl rfl
  | .member owner name _ => by
    have hname : Walks [.name name] [] := Walks.nil.skip rfl rfl
    have hparts := owner.walks.append hname
    rw [List.append_nil] at hparts
    exact hparts.skip rfl rfl
  | .index owner key _ => (owner.walks.append key.walks).skip rfl rfl
  | .sequence exprs => (walks_exprs exprs).skip rfl rfl
  | .yield arg _ => (walks_expr? arg).skip rfl rfl
termination_by structural e => e

theorem walks_exprs : (es : List Expr) → Walks (exprsVisits es) (exprsIdents es)
  | [] => .nil
  | e :: es => e.walks.append (walks_exprs es)
termination_by structural es => es

theorem walks_expr? : (e : Option Expr) → Walks (exprVisits? e) (exprIdents? e)
  | none => .nil
  | some e => e.walks
termination_by structural e => e

theorem walks_exprSlots : (es : List (Option Expr)) → Walks (slotsVisits es) (exprSlotsIdents es)
  | [] => .nil
  | e :: es => (walks_expr? e).append (walks_exprSlots es)
termination_by structural es => es

theorem Key.walks : (key : Key) → Walks key.visits key.idents
  | .name _ | .string _ => Walks.nil.skip rfl rfl
  | .number _ => .nil
  | .computed e => e.walks
termination_by structural key => key

theorem Property.walks : (p : Property) → Walks p.visits p.idents
  | .keyed key value => key.walks.append value.walks
  | .shorthand x => .idents [x]
  | .method key _ f => key.walks.append f.walks
  | .spread e => e.walks
termination_by structural p => p

theorem walks_properties : (ps : List Property) → Walks (propertiesVisits ps) (propertiesIdents ps)
  | [] => .nil
  | p :: ps => p.walks.append (walks_properties ps)
termination_by structural ps => ps

theorem Pattern.walks : (p : Pattern) → Walks p.visits p.idents
  | .ident x => (Walks.idents [x]).skip rfl rfl
  | .expr e => e.walks.skip rfl rfl
  | .object properties rest =>
    ((walks_patternProperties properties).append (walks_pattern? rest)).skip rfl rfl
  | .array elements rest =>
    ((walks_patternSlots elements).append (walks_pattern? rest)).skip rfl rfl
termination_by structural p => p

theorem walks_pattern? : (p : Option Pattern) → Walks (patternVisits? p) (patternIdents? p)
  | none => .nil
  | some p => p.walks
termination_by structural p => p

theorem PatternProperty.walks : (p : PatternProperty) → Walks p.visits p.idents
  | .keyed key target fallback => (key.walks.append target.walks).append (walks_expr? fallback)
  | .shorthand x fallback => (walks_expr? fallback).ident x
termination_by structural p => p

theorem walks_patternProperties : (ps : List PatternProperty) →
    Walks (patternPropertiesVisits ps) (patternPropertiesIdents ps)
  | [] => .nil
  | p :: ps => p.walks.append (walks_patternProperties ps)
termination_by structural ps => ps

theorem PatternElement.walks : (e : PatternElement) → Walks e.visits e.idents
  | ⟨target, fallback⟩ => target.walks.append (walks_expr? fallback)
termination_by structural e => e

theorem walks_patternSlot : (e : Option PatternElement) →
    Walks (patternSlotVisits e) (patternSlotIdents e)
  | none => .nil
  | some e => e.walks
termination_by structural e => e

theorem walks_patternSlots : (es : List (Option PatternElement)) →
    Walks (patternSlotsVisits es) (patternSlotsIdents es)
  | [] => .nil
  | e :: es => (walks_patternSlot e).append (walks_patternSlots es)
termination_by structural es => es

theorem Param.walks : (p : Param) → Walks p.visits p.idents
  | ⟨pattern, fallback, _⟩ => pattern.walks.append (walks_expr? fallback)
termination_by structural p => p

theorem walks_params : (ps : List Param) → Walks (paramsVisits ps) (paramsIdents ps)
  | [] => .nil
  | p :: ps => p.walks.append (walks_params ps)
termination_by structural ps => ps

theorem Func.walks : (f : Func) → Walks f.visits f.idents
  | ⟨name, params, body, _, _⟩ =>
    (((Walks.idents name.toList).append (walks_params params)).append (walks_stmts body)).skip rfl rfl
termination_by structural f => f

theorem ArrowBody.walks : (b : ArrowBody) → Walks b.visits b.idents
  | .block body => walks_stmts body
  | .expr e => e.walks
termination_by structural b => b

theorem Class.walks : (c : Class) → Walks c.visits c.idents
  | ⟨name, base, members⟩ =>
    (((Walks.idents name.toList).append (walks_expr? base)).append (walks_members members)).skip
      rfl rfl
termination_by structural c => c

theorem ClassMember.walks : (m : ClassMember) → Walks m.visits m.idents
  | .method key _ _ f => key.walks.append f.walks
  | .field key _ value => key.walks.append (walks_expr? value)
  | .staticBlock body => walks_stmts body
termination_by structural m => m

theorem walks_members : (ms : List ClassMember) → Walks (membersVisits ms) (membersIdents ms)
  | [] => .nil
  | m :: ms => m.walks.append (walks_members ms)
termination_by structural ms => ms

theorem Declarator.walks : (d : Declarator) → Walks d.visits d.idents
  | ⟨target, init⟩ => target.walks.append (walks_expr? init)
termination_by structural d => d

theorem walks_declarators : (ds : List Declarator) →
    Walks (declaratorsVisits ds) (declaratorsIdents ds)
  | [] => .nil
  | d :: ds => d.walks.append (walks_declarators ds)
termination_by structural ds => ds

theorem VarList.walks : (list : VarList) → Walks list.visits list.idents
  | ⟨_, declarators⟩ => walks_declarators declarators
termination_by structural list => list

theorem ForInit.walks : (init : ForInit) → Walks init.visits init.idents
  | .absent => .nil
  | .var list => list.walks
  | .expr e => e.walks
termination_by structural init => init

theorem ForHead.walks : (head : ForHead) → Walks head.visits head.idents
  | .var list => list.walks
  | .pattern p => p.walks
termination_by structural head => head

theorem Catch.walks : (c : Catch) → Walks c.visits c.idents
  | ⟨param, body⟩ => (walks_pattern? param).append (walks_stmts body)
termination_by structural c => c

theorem walks_catch? : (c : Option Catch) → Walks (catchVisits? c) (catchIdents? c)
  | none => .nil
  | some c => c.walks
termination_by structural c => c

theorem Case.walks : (c : Case) → Walks c.visits c.idents
  | ⟨test, body⟩ => (walks_expr? test).append (walks_stmts body)
termination_by structural c => c

theorem walks_cases : (cs : List Case) → Walks (casesVisits cs) (casesIdents cs)
  | [] => .nil
  | c :: cs => c.walks.append (walks_cases cs)
termination_by structural cs => cs

theorem walks_stmts : (ss : List Stmt) → Walks (stmtsVisits ss) (stmtsIdents ss)
  | [] => .nil
  | s :: ss => s.walks.append (walks_stmts ss)
termination_by structural ss => ss

theorem walks_block? : (body : Option (List Stmt)) → Walks (blockVisits? body) (blockIdents? body)
  | none => .nil
  | some body => walks_stmts body
termination_by structural body => body

theorem Stmt.walks : (s : Stmt) → Walks s.visits s.idents
  | .expr e | .exportValue _ _ e | .throw e => e.walks.skip rfl rfl
  | .var _ list => list.walks.skip rfl rfl
  | .function _ f => f.walks.skip rfl rfl
  | .classDecl _ c => c.walks.skip rfl rfl
  | .importFrom _ clause specifier _ =>
    ((Walks.option ImportClause.walks clause).append specifier.walks).skip rfl rfl
  | .importEquals _ _ name _ value => (value.walks.ident name).skip rfl rfl
  | .exportFrom _ clause specifier _ =>
    ((Walks.option ExportClause.walks clause).append (walks_expr? specifier)).skip rfl rfl
  | .ambient name _ => (Walks.idents [name]).skip rfl rfl
  | .block body => (walks_stmts body).skip rfl rfl
  | .ifThen test yes => (test.walks.append yes.walks).skip rfl rfl
  | .ifElse test yes no => ((test.walks.append yes.walks).append no.walks).skip rfl rfl
  | .forLoop init test update body =>
    (((init.walks.append (walks_expr? test)).append (walks_expr? update)).append body.walks).skip
      rfl rfl
  | .forIn head object body => ((head.walks.append object.walks).append body.walks).skip rfl rfl
  | .forOf head iterable body _ =>
    ((head.walks.append iterable.walks).append body.walks).skip rfl rfl
  | .whileLoop test body => (test.walks.append body.walks).skip rfl rfl
  | .doWhile body test => body.walks.doWhile test.walks
  | .tryCatch body handler finalizer =>
    (((walks_stmts body).append (walks_catch? handler)).append (walks_block? finalizer)).skip rfl rfl
  | .switch subject cases => (subject.walks.append (walks_cases cases)).skip rfl rfl
  | .labeled label body =>
    (body.walks.skip (v := .name label) rfl rfl).skip (v := .stmt (.labeled label body)) rfl rfl
  | .withObject object body => (object.walks.append body.walks).skip rfl rfl
  | .ret arg => (walks_expr? arg).skip rfl rfl
  | .breakTo label | .continueTo label => (walks_label label).skip rfl rfl
  | .empty | .debugger => Walks.nil.skip rfl rfl
termination_by structural s => s

end

end RegisterForm
