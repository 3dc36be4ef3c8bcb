import RegisterForm.Proofs.Resolve.Follows
/-!
# Every part of a tree is followed

The binder takes the steps of a part, and the references of the part are among them.
-/
namespace RegisterForm
open BindStep NameTable

/-! ## What is declared around a part -/

@[simp] theorem map_ident_bindingsOf (roles : Roles) (xs : List Ident) :
    (bindingsOf roles xs).map (·.ident) = xs := by
  simp [bindingsOf, Function.comp_def]

theorem ImportClause.map_ident_bindingsOf (c : ImportClause) (declaration : NodeId)
    (isTypeOnly : Bool) :
    (c.bindingsOf declaration isTypeOnly).map (·.ident) = identsIn c.visits := by
  obtain ⟨default, bindings⟩ := c
  have hnamed : ∀ specifiers : List ImportSpecifier,
      identsIn (specifiers.flatMap (·.visits)) = specifiers.map (·.binding) := by
    intro specifiers
    induction specifiers with
    | nil => rfl
    | cons spec specifiers ih =>
      have himported : identsIn (spec.imported.toList.map Visit.name) = [] := by
        cases spec.imported <;> rfl
      rw [List.flatMap_cons, identsIn_append, ih, ImportSpecifier.visits, identsIn_append, himported]
      rfl
  have hdefault : identsIn (default.toList.map Visit.ident) = default.toList := identsIn_map_ident _
  simp only [ImportClause.bindingsOf, ImportClause.visits, List.map_append, identsIn_append,
    List.map_map, hdefault]
  congr 1
  · simp [Function.comp_def]
  · cases bindings with
    | none => rfl
    | some bindings =>
      cases bindings with
      | star x => rfl
      | named specifiers =>
        simp [ImportBindings.visits, hnamed, Function.comp_def]

theorem VarList.map_ident_bindings (list : VarList) (isExported : Bool) :
    (list.varBindings isExported ++ list.lexicalBindings isExported).map (·.ident) =
      list.boundIdents := by
  unfold VarList.varBindings VarList.lexicalBindings
  split <;> simp

/-- Only imports are left out where no module stands. -/
theorem Stmt.lexicalBindings_sublist (st : Stmt) :
    (st.lexicalBindings false).Sublist (st.lexicalBindings true) := by
  cases st <;> simp [Stmt.lexicalBindings]

theorem blockLexicalBindings_sublist (body : List Stmt) :
    (blockLexicalBindings false body).Sublist (blockLexicalBindings true body) := by
  induction body with
  | nil => exact .refl _
  | cons st body ih => exact st.lexicalBindings_sublist.append ih

/-- A statement around another one declares its `var`s, and nothing else of what it declares. -/
theorem Stmt.count_varBindings (st : Stmt) (x : Ident) :
    (st.varBindings.map (·.ident)).count x ≤ (st.moduleBindings.map (·.ident)).count x := by
  rw [Stmt.moduleBindings, List.map_append, List.count_append]
  exact Nat.le_add_right _ _

theorem count_blockLexicalBindings (body : List Stmt) (x : Ident) :
    ((blockLexicalBindings false body).map (·.ident)).count x ≤
      ((blockLexicalBindings true body).map (·.ident)).count x :=
  ((blockLexicalBindings_sublist body).map _).count_le x

private theorem count_if_append (declares : Bool) (xs ys : List Ident) (x : Ident) :
    (if declares then xs ++ ys else []).count x ≤
      ((if declares then xs else []) ++ if declares then ys else []).count x := by
  cases declares <;> simp

namespace Follows
variable {vs : List Visit} {own : List Ident} {f : NameTable → NameTable}
  {σ : Nat → List BindStep} {us : Scopes → Nat → List NameUse}

/-- Nothing is said any more about what is declared around the part. -/
theorem none_own (h : Follows vs own f σ us) : Follows vs [] f σ us :=
  h.mono (fun _ => Nat.le_refl _) fun _ => Nat.zero_le _

/-- Imports are declared by a module's own statements alone. -/
theorem body {body : List Stmt}
    (h : Follows vs ((blockVarBindings body ++ blockLexicalBindings true body).map (·.ident)) f σ us) :
    Follows vs ((bodyBindings body).map (·.ident)) f σ us :=
  h.mono (fun _ => Nat.le_refl _) fun x => by
    have hc := count_blockLexicalBindings body x
    simp only [bodyBindings, List.map_append, List.count_append]
    omega

/-- A scope that holds what a list of statements declares, the `var`s of the list excepted. -/
theorem block {body : List Stmt}
    (h : Follows vs ((blockVarBindings body ++ blockLexicalBindings true body).map (·.ident)) f σ us) :
    Follows vs ((blockVarBindings body).map (·.ident))
      (·.inScope .block fun t => f (t.declareAll (blockLexicalBindings false body)))
      (fun d => BindStep.inside .block (declaring (blockLexicalBindings false body) ++ σ d))
      fun s d => us (blockLexicalBindings false body :: s) d := by
  refine (h.mono (fun _ => Nat.le_refl _) fun x => ?_).inside (.declaring _)
  have hc := count_blockLexicalBindings body x
  simp only [List.map_append, List.count_append]
  omega

/-- The head and the body of an enumerating loop. Of what the body declares its `var`s alone are
declared around the loop. -/
theorem loop {bs cs ds : List Binding} {vs' : List Visit} {inner : List Ident} {wanted : Bool}
    {g : NameTable → NameTable} {τ : Nat → List BindStep} {us' : Scopes → Nat → List NameUse}
    (hhead : Follows vs ((bs ++ cs).map (·.ident)) f σ us) (hbody : Follows vs' inner g τ us')
    (hinner : ∀ x, (ds.map (·.ident)).count x ≤ inner.count x) (hw : wanted = false → cs = []) :
    Follows (vs ++ vs') ((bs ++ ds).map (·.ident))
      (·.inScopeIf wanted .block fun t => g (f (t.declareAll cs)))
      (fun d => BindStep.insideIf wanted .block (declaring cs ++ (σ d ++ τ d)))
      fun s d => us (s.openedIf wanted cs) d ++ us' (s.openedIf wanted cs) d := by
  refine ((hhead.comp hbody).mono (fun _ => Nat.le_refl _) fun x => ?_).insideIf hw
  have hds := hinner x
  simp only [List.map_append, List.count_append]
  omega

/-- A clause's parameter is read before the body's names are declared in their scope. -/
theorem handler {bs cs : List Binding} {vs' : List Visit} {own' : List Ident}
    {g : NameTable → NameTable} {τ : Nat → List BindStep} {us' : Scopes → Nat → List NameUse}
    (hp : Follows vs (bs.map (·.ident)) f σ us)
    (hb : Follows vs' (cs.map (·.ident) ++ own') g τ us') :
    Follows (vs ++ vs') own'
      (·.inScope .catch fun t => g ((f (t.declareAll bs)).declareAll cs))
      (fun d => BindStep.inside .catch (declaring bs ++ σ d ++ declaring cs ++ τ d))
      fun s d => us (bs :: s) d ++ us' ((bs ++ cs) :: s) d where
  bind t := by
    have hdeclare : (t.enter .catch |>.declareAll bs).depth = t.depth := by
      rw [← runAll_declaring, depth_runAll]
      rfl
    have hparam : (f (t.enter .catch |>.declareAll bs)).depth = t.depth := by
      rw [hp.bind, depth_runAll, hdeclare]
    have hbody : ((f (t.enter .catch |>.declareAll bs)).declareAll cs).depth = t.depth := by
      rw [← runAll_declaring, depth_runAll, hparam]
    simp only [NameTable.inScope, BindStep.inside, runAll_cons, runAll_append, runAll_nil,
      runAll_declaring]
    rw [hb.bind, hbody, hp.bind, hdeclare]
    rfl
  closed d fr := by
    simp only [BindStep.inside, framesAfter_cons, framesAfter_append, framesAfter_nil,
      BindStep.frames, framesAfter_declaring, hp.closed, hb.closed, List.tail_cons]
  relative d fr := by
    have hinside : ∀ gs, trace (BindStep.inside .catch (declaring bs ++ σ d ++ declaring cs ++ τ d)) gs =
        trace (σ d) (⟨.catch, bs⟩ :: gs) ++ trace (τ d) (⟨.catch, bs ++ cs⟩ :: gs) := by
      intro gs
      simp [BindStep.inside, trace, BindStep.frames, BindStep.resolved?, framesAfter_declaring,
        trace_of_resolved _ (resolved_declaring _), hp.closed]
    rw [hinside, hinside, hp.relative d, hp.relative d [_], hb.relative d, hb.relative d [_]]
    simp [OpenScope.scopes, Function.comp_def]
  traced {d fr u} hu hd := by
    simp only [BindStep.inside, trace, trace_append, framesAfter_append, BindStep.frames,
      framesAfter_declaring, hp.closed, List.nil_append, List.mem_append]
    rcases List.mem_append.mp hu with hu | hu
    · exact .inr (.inl (.inl (.inl (.inr (hp.traced hu hd)))))
    · exact .inr (.inl (.inr (hb.traced hu hd)))
  deep hu := (List.mem_append.mp hu).elim hp.deep hb.deep
  counted s d x := by
    have h₁ := hp.counted (bs :: s) d x
    have h₂ := hb.counted ((bs ++ cs) :: s) d x
    simp only [List.count_append] at h₂
    simp only [BindStep.inside, declared_cons, declared_append, declared_nil, declared_declaring,
      BindStep.binding?, Option.toList_none, List.map_nil, List.nil_append, List.append_nil,
      List.map_append, identsIn_append, List.count_append]
    omega
  once s d x hd := by
    have h₁ := hp.once (bs :: s) x hd
    have h₂ := hb.once ((bs ++ cs) :: s) x hd
    simp only [BindStep.inside, resolved_cons, resolved_append, resolved_nil, resolved_declaring,
      BindStep.resolved?, Option.toList_none, List.nil_append, List.append_nil, tooDeep_append,
      identsIn_append, List.count_append]
    omega

end Follows

/-! ## The parts -/

mutual

theorem Expr.follows : (e : Expr) → Follows e.visits [] e.bind e.bindSteps e.uses
  | .ident x => .node rfl (.resolve x)
  | .literal value => .node rfl .leaf
  | .this => .node rfl .leaf
  | .super => .node rfl .leaf
  | .importMeta => .node rfl .leaf
  | .template chunks parts => .node rfl (follows_exprs parts)
  | .tagged tag chunks parts => .node rfl (tag.follows.comp (follows_exprs parts))
  | .array elements => .node rfl (follows_slots elements)
  | .object properties => .node rfl (follows_properties properties)
  | .function f => .node rfl (f.follows true)
  | .arrow params body isAsync => by
    have hinside := (follows_params params).comp body.follows
    have hbody : Follows (paramsVisits params ++ body.visits) [] _ _ _ :=
      (hinside.mono (fun _ => Nat.le_refl _) fun x => by simp).inside
        (.body (paramBindings params) body.statements)
    exact .node rfl hbody
  | .classExpr c => .node rfl (c.follows true)
  | .unary op arg => .node rfl arg.follows
  | .update op isPrefix arg => .node rfl arg.follows
  | .binary op left right => .node rfl (left.follows.comp right.follows)
  | .assign op target value => .node rfl ((target.follows false).comp value.follows)
  | .conditional test yes no => .node rfl ((test.follows.comp yes.follows).comp no.follows)
  | .call callee args isOptional => .node rfl (callee.follows.comp (follows_exprs args))
  | .newBare callee => .node rfl callee.follows
  | .newCall callee args => .node rfl (callee.follows.comp (follows_exprs args))
  | .member owner name isOptional => by
    have howner : Follows (owner.visits ++ [.name name]) _ _ _ _ :=
      owner.follows.mono (fun _ => by simp) fun _ => Nat.le_refl _
    exact .node rfl howner
  | .index owner key isOptional => .node rfl (owner.follows.comp key.follows)
  | .sequence exprs => .node rfl (follows_exprs exprs)
  | .paren inner => .node rfl inner.follows
  | .yield arg isDelegate => .node rfl (follows_expr? arg)
  | .await arg => .node rfl arg.follows
  | .spread arg => .node rfl arg.follows
  | .importCall specifier => .node rfl specifier.follows

theorem follows_exprs : (es : List Expr) →
    Follows (exprsVisits es) [] (bindExprs es) (exprsBindSteps es) (exprsUses es)
  | [] => .leaf
  | e :: es => e.follows.comp (follows_exprs es)

theorem follows_expr? : (e : Option Expr) →
    Follows (exprVisits? e) [] (bindExpr? e) (exprBindSteps? e) (exprUses? e)
  | none => .leaf
  | some e => e.follows

theorem follows_slots : (es : List (Option Expr)) →
    Follows (slotsVisits es) [] (bindSlots es) (slotsBindSteps es) (slotsUses es)
  | [] => .leaf
  | e :: es => (follows_expr? e).comp (follows_slots es)

theorem Key.follows : (k : Key) → Follows k.visits [] k.bind k.bindSteps k.uses
  | .name _ | .string _ | .number _ => .leaf
  | .computed e => e.follows

theorem Property.follows : (p : Property) → Follows p.visits [] p.bind p.bindSteps p.uses
  | .keyed key value => key.follows.comp value.follows
  | .shorthand x => .resolve x
  | .method key _ f => (key.follows.comp (f.follows false)).none_own
  | .spread e => e.follows

theorem follows_properties : (ps : List Property) →
    Follows (propertiesVisits ps) [] (bindProperties ps) (propertiesBindSteps ps) (propertiesUses ps)
  | [] => .leaf
  | p :: ps => p.follows.comp (follows_properties ps)

/-- What a declared pattern binds is declared around it. -/
theorem Pattern.follows (declares : Bool) : (p : Pattern) →
    Follows p.visits (if declares then p.boundIdents else []) p.bind p.bindSteps (p.uses declares)
  | .ident x => by
    simp only [Pattern.visits]
    cases declares with
    | true => exact (Follows.declared x).mono (fun _ => by simp) fun _ => Nat.le_refl _
    | false => exact (Follows.resolve x).mono (fun _ => by simp) fun _ => Nat.le_refl _
  | .expr e => by
    simp only [Pattern.visits, Pattern.boundIdents, ite_self]
    exact e.follows.mono (fun _ => by simp) fun _ => Nat.le_refl _
  | .object properties rest => by
    simp only [Pattern.visits]
    exact ((follows_patternProperties declares properties).comp
      (follows_pattern? declares rest)).mono (fun _ => by simp) (count_if_append _ _ _)
  | .array elements rest => by
    simp only [Pattern.visits]
    exact ((follows_patternSlots declares elements).comp
      (follows_pattern? declares rest)).mono (fun _ => by simp) (count_if_append _ _ _)

theorem follows_pattern? (declares : Bool) : (p : Option Pattern) →
    Follows (patternVisits? p) (if declares then restIdents p else []) (bindPattern? p)
      (patternBindSteps? p) (patternUses? declares p)
  | none => .skip fun _ => by simp [restIdents]
  | some p => p.follows declares

theorem PatternProperty.follows (declares : Bool) : (p : PatternProperty) →
    Follows p.visits (if declares then p.boundIdents else []) p.bind p.bindSteps (p.uses declares)
  | .keyed key target fallback =>
    ((key.follows.comp (target.follows declares)).comp (follows_expr? fallback)).mono
      (fun _ => Nat.le_refl _) fun _ => by simp [PatternProperty.boundIdents]
  | .shorthand x fallback => by
    cases declares with
    | true => exact (Follows.declared x).comp (follows_expr? fallback)
    | false => exact (Follows.resolve x).comp (follows_expr? fallback)

theorem follows_patternProperties (declares : Bool) : (ps : List PatternProperty) →
    Follows (patternPropertiesVisits ps) (if declares then propertyIdents ps else [])
      (bindPatternProperties ps) (patternPropertiesBindSteps ps) (patternPropertiesUses declares ps)
  | [] => .skip fun _ => by simp [propertyIdents]
  | p :: ps => ((p.follows declares).comp (follows_patternProperties declares ps)).mono
      (fun _ => Nat.le_refl _) (count_if_append _ _ _)

theorem PatternElement.follows (declares : Bool) : (p : PatternElement) →
    Follows p.visits (if declares then p.boundIdents else []) p.bind p.bindSteps (p.uses declares)
  | ⟨target, fallback⟩ => ((target.follows declares).comp (follows_expr? fallback)).mono
      (fun _ => Nat.le_refl _) fun _ => by simp [PatternElement.boundIdents]

theorem follows_patternSlot (declares : Bool) : (e : Option PatternElement) →
    Follows (patternSlotVisits e) (if declares then slotIdents e else []) (bindPatternSlot e)
      (patternSlotBindSteps e) (patternSlotUses declares e)
  | none => .skip fun _ => by simp [slotIdents]
  | some e => e.follows declares

theorem follows_patternSlots (declares : Bool) : (es : List (Option PatternElement)) →
    Follows (patternSlotsVisits es) (if declares then elementIdents es else [])
      (bindPatternSlots es) (patternSlotsBindSteps es) (patternSlotsUses declares es)
  | [] => .skip fun _ => by simp [elementIdents]
  | e :: es => ((follows_patternSlot declares e).comp (follows_patternSlots declares es)).mono
      (fun _ => Nat.le_refl _) (count_if_append _ _ _)

theorem Param.follows : (p : Param) →
    Follows p.visits p.pattern.boundIdents p.bind p.bindSteps fun _ _ => []
  | ⟨pattern, fallback, _⟩ => ((pattern.follows true).comp (follows_expr? fallback)).drop.mono
      (fun _ => Nat.le_refl _) fun _ => by simp

theorem follows_params : (ps : List Param) →
    Follows (paramsVisits ps) ((paramBindings ps).map (·.ident)) (bindParams ps) (paramsBindSteps ps)
      fun _ _ => []
  | [] => .leaf
  | p :: ps => (p.follows.comp (follows_params ps)).mono (fun _ => Nat.le_refl _)
      fun _ => by simp [paramBindings]

theorem Func.follows (isExpression : Bool) : (f : Func) →
    Follows f.visits (if isExpression then [] else f.name.toList) (f.bind isExpression)
      (f.bindSteps isExpression) (f.uses isExpression)
  | ⟨name, params, body, isAsync, isGenerator⟩ => by
    have hinside := (follows_params params).comp (follows_stmts body).body
    have hall : Follows (paramsVisits params ++ stmtsVisits body) [] _ _ _ :=
      (hinside.mono (fun _ => Nat.le_refl _) fun x => by simp).inside
        (.body (paramBindings params) body)
    have hnamed := hall.insideName { isFunction := true } isExpression name
    exact hnamed.mono (fun _ => by simp [Func.visits]) fun _ => by simp

theorem ArrowBody.follows : (body : ArrowBody) →
    Follows body.visits ((bodyBindings body.statements).map (·.ident)) body.bind body.bindSteps
      body.uses
  | .block body => (follows_stmts body).body
  | .expr e => e.follows

theorem Class.follows (isExpression : Bool) : (c : Class) →
    Follows c.visits (if isExpression then [] else c.name.toList) (c.bind isExpression)
      (c.bindSteps isExpression) (c.uses isExpression)
  | ⟨name, base, members⟩ => by
    have hinside := (follows_expr? base).comp (follows_members members)
    have hnamed := hinside.insideName { isClass := true } isExpression name
    exact hnamed.mono (fun _ => by simp [Class.visits]) fun _ => by simp

theorem ClassMember.follows : (m : ClassMember) → Follows m.visits [] m.bind m.bindSteps m.uses
  | .method key _ _ f => (key.follows.comp (f.follows false)).none_own
  | .field key _ value => key.follows.comp (follows_expr? value)
  | .staticBlock body =>
    ((follows_stmts body).body.mono (fun _ => Nat.le_refl _) fun _ => by simp).inside
      (.body [] body)

theorem follows_members : (ms : List ClassMember) →
    Follows (membersVisits ms) [] (bindMembers ms) (membersBindSteps ms) (membersUses ms)
  | [] => .leaf
  | m :: ms => m.follows.comp (follows_members ms)

theorem Declarator.follows : (v : Declarator) →
    Follows v.visits v.target.boundIdents v.bind v.bindSteps v.uses
  | ⟨target, init⟩ => ((target.follows true).comp (follows_expr? init)).mono
      (fun _ => Nat.le_refl _) fun _ => by simp

theorem follows_declarators : (vs : List Declarator) →
    Follows (declaratorsVisits vs) (vs.flatMap (·.target.boundIdents)) (bindDeclarators vs)
      (declaratorsBindSteps vs) (declaratorsUses vs)
  | [] => .leaf
  | v :: vs => v.follows.comp (follows_declarators vs)

theorem VarList.follows : (list : VarList) →
    Follows list.visits list.boundIdents list.bind list.bindSteps list.uses
  | ⟨_, declarators⟩ => follows_declarators declarators

theorem ForInit.follows : (init : ForInit) →
    Follows init.visits ((init.varBindings ++ init.lexicalBindings).map (·.ident)) init.bind
      init.bindSteps init.uses
  | .absent => .leaf
  | .var list => list.follows.mono (fun _ => Nat.le_refl _) fun x =>
      Nat.le_of_eq (congrArg (List.count x) (list.map_ident_bindings false))
  | .expr e => e.follows

theorem ForHead.follows : (head : ForHead) →
    Follows head.visits ((head.varBindings ++ head.lexicalBindings).map (·.ident)) head.bind
      head.bindSteps head.uses
  | .var list => list.follows.mono (fun _ => Nat.le_refl _) fun x =>
      Nat.le_of_eq (congrArg (List.count x) (list.map_ident_bindings false))
  | .pattern p => p.follows false

theorem Catch.follows : (c : Catch) →
    Follows c.visits ((blockVarBindings c.body).map (·.ident)) c.bind c.bindSteps c.uses
  | ⟨param, body⟩ => by
    have hparam := (follows_pattern? true param).mono (fun _ => Nat.le_refl _)
      fun x => show ((catchBindings param).map Binding.ident).count x ≤ _ by
        cases param <;> simp [catchBindings, restIdents]
    have hbody := (follows_stmts body).mono (fun _ => Nat.le_refl _)
      fun x => show ((blockLexicalBindings false body).map (·.ident) ++
          (blockVarBindings body).map (·.ident)).count x ≤ _ by
        have hc := count_blockLexicalBindings body x
        simp only [List.map_append, List.count_append]
        omega
    exact hparam.handler hbody

theorem follows_catch? : (c : Option Catch) →
    Follows (catchVisits? c) ((catchVarBindings c).map (·.ident)) (bindCatch? c) (catchBindSteps? c)
      (catchUses? c)
  | none => .leaf
  | some ⟨param, body⟩ => Catch.follows ⟨param, body⟩

theorem follows_finally? : (body : Option (List Stmt)) →
    Follows (blockVisits? body) ((finallyVarBindings body).map (·.ident)) (bindFinally? body)
      (finallyBindSteps? body) (finallyUses? body)
  | none => .leaf
  | some body => (follows_stmts body).block

theorem Case.follows : (c : Case) →
    Follows c.visits ((blockVarBindings c.body ++ blockLexicalBindings true c.body).map (·.ident))
      c.bind c.bindSteps c.uses
  | ⟨test, body⟩ => (follows_expr? test).comp (follows_stmts body)

theorem follows_cases : (cs : List Case) →
    Follows (casesVisits cs)
      ((cs.flatMap fun c => blockLexicalBindings false c.body).map (·.ident) ++
        (casesVarBindings cs).map (·.ident))
      (bindCases cs) (casesBindSteps cs) (casesUses cs)
  | [] => .leaf
  | ⟨test, body⟩ :: cs => ((Case.follows ⟨test, body⟩).comp (follows_cases cs)).mono
      (fun _ => Nat.le_refl _) fun x => by
        have hc := count_blockLexicalBindings body x
        simp only [List.flatMap_cons, casesVarBindings, List.map_append, List.count_append]
        omega

theorem follows_stmts : (body : List Stmt) →
    Follows (stmtsVisits body)
      ((blockVarBindings body ++ blockLexicalBindings true body).map (·.ident)) (bindStmts body)
      (stmtsBindSteps body) (stmtsUses body)
  | [] => .leaf
  | st :: body => (st.follows.comp (follows_stmts body)).mono (fun _ => Nat.le_refl _) fun x => by
      simp only [blockVarBindings, blockLexicalBindings, List.flatMap_cons, Stmt.moduleBindings,
        List.map_append, List.count_append]
      omega

theorem Stmt.follows : (st : Stmt) →
    Follows st.visits (st.moduleBindings.map (·.ident)) st.bind st.bindSteps st.uses
  | .expr e => .node rfl e.follows
  | .var modifiers list => .node rfl (list.follows.mono (fun _ => Nat.le_refl _) fun x =>
      Nat.le_of_eq (congrArg (List.count x) (list.map_ident_bindings modifiers.isExported)))
  | .function modifiers f => .node rfl ((f.follows false).mono (fun _ => Nat.le_refl _) fun x =>
      Nat.le_of_eq (congrArg (List.count x) (map_ident_bindingsOf _ f.name.toList)))
  | .classDecl modifiers c => .node rfl ((c.follows false).mono (fun _ => Nat.le_refl _) fun x =>
      Nat.le_of_eq (congrArg (List.count x) (map_ident_bindingsOf _ c.name.toList)))
  | .importFrom site clause specifier isTypeOnly => by
    refine .node rfl (.skip fun x => ?_)
    cases clause with
    | none => exact Nat.zero_le _
    | some clause =>
      have hown : (Stmt.importFrom site (some clause) specifier isTypeOnly).moduleBindings =
        clause.bindingsOf site.id isTypeOnly := List.append_nil _
      rw [hown, clause.map_ident_bindingsOf]
      simp
  | .importEquals site isExported name kind value => by
    cases kind with
    | require =>
      have hname : (Stmt.importEquals site isExported name .require value).moduleBindings.map
          (·.ident) = [name] := rfl
      exact .node rfl (.skip fun x => by
        rw [hname]
        exact List.Sublist.count_le x (by simp))
    | entity =>
      exact .node rfl (value.follows.named name)
  | .exportFrom site clause specifier isTypeOnly => by
    cases clause with
    | none =>
      exact .node rfl .leaf
    | some clause =>
      cases clause with
      | star x =>
        exact .node rfl .leaf
      | named specs =>
        cases specifier with
        | some specifier =>
          exact .node rfl .leaf
        | none =>
          have hnames : Follows (ExportClause.visits (.named specs)) _ _ _ _ :=
            Follows.referAll specs
          exact .node rfl (hnames.mono (fun x => by simp) fun _ => Nat.le_refl _)
  | .exportValue site form value => .node rfl value.follows
  | .ambient name isExported =>
    .node rfl (.skip fun _ => Nat.le_refl _)
  | .block body => by
    have hown : (Stmt.block body).moduleBindings = blockVarBindings body := List.append_nil _
    rw [hown]
    exact .node rfl (follows_stmts body).block
  | .ifThen test yes => by
    have hown : (Stmt.ifThen test yes).moduleBindings = yes.varBindings := List.append_nil _
    rw [hown]
    exact .node rfl ((test.follows.comp yes.follows).mono (fun _ => Nat.le_refl _)
      yes.count_varBindings)
  | .ifElse test yes no => by
    have hown : (Stmt.ifElse test yes no).moduleBindings = yes.varBindings ++ no.varBindings :=
      List.append_nil _
    refine .node rfl (((test.follows.comp yes.follows).comp no.follows).mono
      (fun _ => Nat.le_refl _) fun x => ?_)
    have hyes := yes.count_varBindings x
    have hno := no.count_varBindings x
    simp only [hown, List.map_append, List.count_append, List.nil_append]
    omega
  | .forLoop init test update body => by
    have hown : (Stmt.forLoop init test update body).moduleBindings =
      init.varBindings ++ body.varBindings := List.append_nil _
    have hinside := ((init.follows.comp (follows_expr? test)).comp (follows_expr? update)).comp
      body.follows
    have hloop := (hinside.mono (fun _ => Nat.le_refl _) fun x =>
      show (init.lexicalBindings.map (·.ident) ++
          (Stmt.forLoop init test update body).moduleBindings.map (·.ident)).count x ≤ _ by
        have hbody := body.count_varBindings x
        simp only [hown, List.map_append, List.count_append, List.append_nil]
        omega).insideIf init.lexicalBindings_eq_nil
    exact .node rfl hloop
  | .forIn head object body => by
    have hown : (Stmt.forIn head object body).moduleBindings =
      head.varBindings ++ body.varBindings := List.append_nil _
    rw [hown]
    have hloop := head.follows.loop body.follows body.count_varBindings
      head.lexicalBindings_eq_nil
    exact .node rfl ((object.follows.comp hloop).mono
      (fun x => by simp only [identsIn_append, List.count_append]; omega) fun _ => Nat.le_refl _)
  | .forOf head iterable body isAwait => by
    have hown : (Stmt.forOf head iterable body isAwait).moduleBindings =
      head.varBindings ++ body.varBindings := List.append_nil _
    rw [hown]
    have hloop := head.follows.loop body.follows body.count_varBindings
      head.lexicalBindings_eq_nil
    exact .node rfl ((iterable.follows.comp hloop).mono
      (fun x => by simp only [identsIn_append, List.count_append]; omega) fun _ => Nat.le_refl _)
  | .whileLoop test body => by
    have hown : (Stmt.whileLoop test body).moduleBindings = body.varBindings := List.append_nil _
    rw [hown]
    exact .node rfl ((test.follows.comp body.follows).mono (fun _ => Nat.le_refl _)
      body.count_varBindings)
  | .doWhile body test => by
    have hown : (Stmt.doWhile body test).moduleBindings = body.varBindings := List.append_nil _
    rw [hown]
    exact .node rfl ((test.follows.comp body.follows).mono (fun _ => Nat.le_refl _)
      body.count_varBindings)
  | .tryCatch body handler finalizer => by
    have hown : (Stmt.tryCatch body handler finalizer).moduleBindings = blockVarBindings body ++
      catchVarBindings handler ++ finallyVarBindings finalizer := List.append_nil _
    rw [hown, List.map_append, List.map_append]
    exact .node rfl (((follows_stmts body).block.comp (follows_catch? handler)).comp
      (follows_finally? finalizer))
  | .switch subject cases => by
    have hown : (Stmt.switch subject cases).moduleBindings = casesVarBindings cases :=
      List.append_nil _
    have hscope : Fills .block (cases.flatMap fun c => blockLexicalBindings false c.body) _ _ :=
      .declaring _
    rw [hown]
    exact .node rfl (subject.follows.comp ((follows_cases cases).inside hscope))
  | .labeled label body => by
    have hown : (Stmt.labeled label body).moduleBindings = body.varBindings := List.append_nil _
    rw [hown]
    exact .node rfl (body.follows.mono (fun _ => Nat.le_refl _) body.count_varBindings)
  | .withObject object body => by
    have hown : (Stmt.withObject object body).moduleBindings = body.varBindings :=
      List.append_nil _
    rw [hown]
    exact .node rfl ((object.follows.comp body.follows).mono (fun _ => Nat.le_refl _)
      body.count_varBindings)
  | .ret arg => .node rfl (follows_expr? arg)
  | .throw arg => .node rfl arg.follows
  | .breakTo label => .node rfl .leaf
  | .continueTo label => .node rfl .leaf
  | .empty => .node rfl .leaf
  | .debugger => .node rfl .leaf

end

end RegisterForm
