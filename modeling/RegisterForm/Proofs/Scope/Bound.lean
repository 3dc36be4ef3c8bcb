import RegisterForm.Proofs.Scope.Declared
/-!
# Binding a part of a tree

Every part of a tree leaves the scopes that were there before it as they are. What it adds
are scopes of its own, with the symbols that are declared in them, and the symbols that its
own identifiers stand for.
-/
namespace RegisterForm.NameTable

/-- A step that binds a part of the tree with the visits `vs`. Where none of the visits `ws`
is a module declaration, it declares nothing exported or imported. -/
def Binds (vs ws : List Visit) (step : NameTable → NameTable) : Prop :=
  ∀ t, t.Wf → Within t.scopes.size vs (AllInner ws) t (step t)

/-- The same in a scope just opened, in which the step may declare. -/
def BindsIn (kind : ScopeKind) (vs ws : List Visit) (step : NameTable → NameTable) : Prop :=
  ∀ t k, t.Wf → t.openScopes.head? = some k →
    (∃ scope, t.scope? k = some scope ∧ scope.kind = kind) →
    Within k vs (AllInner ws) t (step t)

variable {kind : ScopeKind} {vs vs' ws ws' : List Visit} {step step' : NameTable → NameTable}
  {bs : List Binding}

namespace Binds

theorem skip : Binds vs ws fun t => t := fun _ h => .refl h

theorem mono (h : Binds vs ws step) (hv : vs ⊆ vs') (hw : ws ⊆ ws') : Binds vs' ws' step :=
  fun t ht => (h t ht).mono (Nat.le_refl _) hv fun ha v hm => ha v (hw hm)

theorem comp (h : Binds vs ws step) (h' : Binds vs' ws' step') :
    Binds (vs ++ vs') (ws ++ ws') fun t => step' (step t) := by
  intro t ht
  have h₁ := h t ht
  have h₂ := (h' _ h₁.wf).mono h₁.size (List.Subset.refl _) id
  exact (h₁.trans h₂).mono (Nat.le_refl _) (List.Subset.refl _) (allInner_append ws ws').mp

theorem resolve (x : Ident) : Binds [.ident x] ws (·.resolve x) :=
  fun _ h => within_resolve h (by simp)

/-- Going one level deeper changes nothing but what is reached. -/
theorem deeper (h : Binds vs ws step) : Binds vs ws (·.deeper step) := by
  intro t ht
  dsimp only [NameTable.deeper]
  split
  · have hd : Wf { t with depth := t.depth + 1 } :=
      ht.of_arenas rfl rfl (Wf.isChain_of_scopes ht.opened rfl)
    have hs := h _ hd
    have hdepth : (step { t with depth := t.depth + 1 }).depth - 1 = t.depth := by
      rw [hs.depth]
      rfl
    have hwf : Wf { step { t with depth := t.depth + 1 } with
        depth := (step { t with depth := t.depth + 1 }).depth - 1 } :=
      hs.wf.of_arenas rfl rfl (Wf.isChain_of_scopes hs.wf.opened rfl)
    exact { hs with wf := hwf, depth := hdepth }
  · exact .refl ht

end Binds

namespace BindsIn

theorem of_binds (h : Binds vs ws step) : BindsIn kind vs ws step := by
  intro t k ht hk _
  have hlt := ht.opened.lt_size k (List.mem_of_mem_head? hk)
  exact (h t ht).mono (Nat.le_of_lt hlt) (List.Subset.refl _) id

theorem mono (h : BindsIn kind vs ws step) (hv : vs ⊆ vs') (hw : ws ⊆ ws') :
    BindsIn kind vs' ws' step :=
  fun t k ht hk hkind => (h t k ht hk hkind).mono (Nat.le_refl _) hv fun ha v hm => ha v (hw hm)

theorem comp (h : BindsIn kind vs ws step) (h' : BindsIn kind vs' ws' step') :
    BindsIn kind (vs ++ vs') (ws ++ ws') fun t => step' (step t) := by
  intro t k ht hk hkind
  have h₁ := h t k ht hk hkind
  obtain ⟨scope, hscope, hk'⟩ := hkind
  obtain ⟨scope', hscope', hsame⟩ := h₁.kind hscope
  have h₂ := h' _ k h₁.wf (h₁.openScopes ▸ hk) ⟨scope', hscope', hsame.trans hk'⟩
  exact (h₁.trans h₂).mono (Nat.le_refl _) (List.Subset.refl _) (allInner_append ws ws').mp

theorem declareAll (hx : ∀ b ∈ bs, b.ident ∈ identsIn vs)
    (hp : AllInner ws → ∀ b ∈ bs, b.IsPlain) : BindsIn kind vs ws (·.declareAll bs) := by
  intro t k ht hk _
  refine (within_declareAll ht (fun i hi => ?_) hx).mono (Nat.le_refl _)
    (List.Subset.refl _) hp
  rw [hk] at hi
  exact Nat.le_of_eq (Option.some.inj hi)

end BindsIn

/-- In a scope that holds variables, a `var` is declared like any other name. -/
theorem declareVars_eq_declareAll {k : ScopeId} : ∀ (bs : List Binding) {t : NameTable}, t.Wf →
    t.openScopes.head? = some k →
    (∃ scope, t.scope? k = some scope ∧ scope.kind.holdsVars = true) →
    t.declareVars bs = t.declareAll bs
  | [], _, _, _, _ => rfl
  | b :: bs, t, ht, hk, ⟨scope, hscope, hkind⟩ => by
    have hvar : t.varScope? = some k := by
      unfold varScope?
      cases hopen : t.openScopes with
      | nil => rw [hopen] at hk; cases hk
      | cons i rest =>
        rw [hopen, List.head?_cons, Option.some.injEq] at hk
        subst hk
        simp [hscope, hkind]
    have hfirst : t.declareVar b = t.declare b := by simp only [declareVar, declare, hvar, hk]
    have hw : Within k [.ident b.ident] b.IsPlain t (t.declare b) :=
      within_declare ht (fun i hi => by rw [hk] at hi; exact Nat.le_of_eq (Option.some.inj hi))
        (by simp)
    obtain ⟨scope', hscope', hsame⟩ := hw.kind hscope
    have hrest := declareVars_eq_declareAll bs hw.wf (hw.openScopes ▸ hk)
      ⟨scope', hscope', by rw [hsame, hkind]⟩
    simp only [declareVars, declareAll, List.foldl_cons, hfirst] at hrest ⊢
    exact hrest

theorem BindsIn.declareVars (h : Declares vs bs) (hkind : kind.holdsVars = true) :
    BindsIn kind vs vs (·.declareVars bs) := by
  intro t k ht hk hscope
  obtain ⟨scope, hs, hk'⟩ := hscope
  have heq := declareVars_eq_declareAll bs ht hk ⟨scope, hs, by rw [hk', hkind]⟩
  have hall := BindsIn.declareAll h.ident h.plain t k ht hk ⟨scope, hs, hk'⟩
  dsimp only at hall ⊢
  rw [heq]
  exact hall

theorem BindsIn.declareBody (body : List Stmt) (hkind : kind.holdsVars = true) :
    BindsIn kind (stmtsVisits body) (stmtsVisits body) (·.declareBody false body) :=
  (BindsIn.comp (.declareVars (declares_blockVarBindings body) hkind)
    (.declareAll (declares_blockLexicalBindings body).ident
      (declares_blockLexicalBindings body).plain)).mono (by simp) (by simp)

/-- What happens in a scope of its own leaves every older scope as it was. -/
theorem Binds.inScope (h : BindsIn kind vs ws step) : Binds vs ws (·.inScope kind step) := by
  intro t ht
  have hw := h (t.enter kind) t.scopes.size (ht.enter kind) rfl
    ⟨_, scope?_enter_new kind t, rfl⟩
  exact {
    wf := hw.wf.leave
    file := hw.file
    openScopes := congrArg List.tail hw.openScopes
    depth := hw.depth
    size := Nat.le_trans (by simp [NameTable.enter]) hw.size
    scope := fun hi hs => hw.scope hi ((scope?_enter_old kind hi).trans hs)
    kind := fun hs => hw.kind ((scope?_enter_old kind (scope?_lt hs)).trans hs)
    symbol := fun hs => hw.symbol hs
    fresh := fun hn hs => hw.fresh hn hs
    plain := fun p _ _ hs => hw.plain p hs
    ident := fun hx => hw.ident hx
    entry := fun he => hw.entry he
    specifier := fun hs => hw.specifier hs }

theorem Binds.inScopeIf {wanted : Bool} (h : BindsIn kind vs ws step)
    (h' : wanted = false → Binds vs ws step) : Binds vs ws (·.inScopeIf wanted kind step) := by
  intro t ht
  dsimp only [NameTable.inScopeIf]
  split
  · exact Binds.inScope h t ht
  · next hw => exact h' (by simpa using hw) t ht

theorem Binds.inNameScope {isExpression : Bool} {name : Option Ident} {roles : Roles}
    (hr : roles.isExported = false) (h : Binds vs ws step) :
    Binds (name.toList.map .ident ++ vs) ws (·.inNameScope isExpression name roles step) := by
  intro t ht
  dsimp only [NameTable.inNameScope]
  cases name with
  | none => exact h.mono (by simp) (List.Subset.refl _) t ht
  | some x =>
    dsimp only
    split
    · have hd : BindsIn .expressionName [.ident x] [] (·.declareAll [⟨x, roles, none⟩]) :=
        .declareAll (by simp) fun _ => by simp [Binding.IsPlain, hr]
      exact Binds.inScope ((hd.comp (.of_binds h)).mono (by simp) (by simp)) t ht
    · exact h.mono (by simp) (List.Subset.refl _) t ht

/-- Resolves one name of a local export clause and notes what it refers to. -/
def bindSpecifier (spec : ExportSpecifier) (t : NameTable) : NameTable :=
  let t := t.resolve spec.source
  match t.ofIdent.lookup spec.source.id with
  | none => t
  | some id => { t with ofSpecifier := (spec.id, id) :: t.ofSpecifier }

theorem Binds.bindSpecifiers : ∀ {specs : List ExportSpecifier}, specs ⊆ specifiersIn vs →
    specs.map (·.source) ⊆ identsIn vs → Binds vs ws (·.bindSpecifiers specs)
  | [], _, _ => .skip
  | spec :: specs, hs, hx => by
    have hfirst : Binds vs ws (·.bindSpecifier spec) := by
      intro t ht
      have hr : Within t.scopes.size vs (AllInner ws) t (t.resolve spec.source) :=
        within_resolve ht (hx (by simp))
      unfold bindSpecifier
      dsimp only
      split
      · exact hr
      · next id _ =>
        have hspec : spec ∈ specifiersIn vs := hs (by simp)
        have hn : Within t.scopes.size vs True (t.resolve spec.source) _ :=
          within_refer hr.wf hspec id
        exact (hr.trans hn).mono (Nat.le_refl _) (by simp) fun ha => ⟨ha, trivial⟩
    have hrest : Binds vs ws (·.bindSpecifiers specs) :=
      Binds.bindSpecifiers (fun s hm => hs (List.mem_cons_of_mem _ hm))
        fun x hm => hx (List.mem_cons_of_mem _ hm)
    exact (hfirst.comp hrest).mono (by simp) (by simp)

end RegisterForm.NameTable

namespace RegisterForm
open NameTable

/-- Binding a node goes one level deeper than its parts. -/
private theorem binds_node {v : Visit} {vs ws : List Visit} {step : NameTable → NameTable}
    (h : Binds vs ws step) : Binds (v :: vs) (v :: ws) (·.deeper step) :=
  h.deeper.mono (List.subset_cons_self ..) (List.subset_cons_self ..)

/-- What a statement is itself does not matter for what it declares inside. -/
private theorem binds_stmt {s : Stmt} {vs : List Visit} {step : NameTable → NameTable}
    (h : Binds vs vs step) : Binds (.stmt s :: vs) vs (·.deeper step) :=
  h.deeper.mono (List.subset_cons_self ..) (List.Subset.refl _)

/-- Naming identifiers in a local export clause is all that such a clause does. -/
private theorem binds_exportNamed (site : Site) (specs : List ExportSpecifier) (isTypeOnly : Bool) :
    Binds (Stmt.exportFrom site (some (.named specs)) none isTypeOnly).visits
      (Stmt.exportFrom site (some (.named specs)) none isTypeOnly).visits.tail
      (Stmt.exportFrom site (some (.named specs)) none isTypeOnly).bind := by
  refine Binds.deeper (.bindSpecifiers ?_ ?_)
  · intro spec hs
    simp [Stmt.visits_exportFrom, specifiersIn, hs]
  · intro x hx
    obtain ⟨spec, hs, rfl⟩ := List.mem_map.mp hx
    exact source_mem_identsIn hs

/-- A function's parameters and its body share a scope. -/
private theorem bindsIn_body {vs : List Visit} {step : NameTable → NameTable} (params : List Param)
    {body : List Stmt} (hbody : stmtsVisits body ⊆ vs)
    (hp : Binds (paramsVisits params) (paramsVisits params) (bindParams params))
    (hb : Binds vs vs step) :
    BindsIn .function (paramsVisits params ++ vs) (paramsVisits params ++ vs) fun t =>
      step (bindParams params ((t.declareAll (paramBindings params)).declareBody false body)) := by
  have hparams := declares_paramBindings params
  have hdecl : BindsIn .function _ _ fun t =>
      (t.declareAll (paramBindings params)).declareBody false body :=
    (BindsIn.declareAll hparams.ident hparams.plain).comp (.declareBody body rfl)
  have hall := (hdecl.comp (.of_binds hp)).comp (.of_binds hb)
  refine hall.mono ?_ ?_ <;>
  · simp only [List.append_subset, List.subset_append_left, List.subset_append_right, true_and,
      and_true]
    exact List.Subset.trans hbody (List.subset_append_right _ _)

/-- A statement inside another one. -/
private theorem binds_inner {vs : List Visit} {f : NameTable → NameTable}
    (h : Binds vs vs.tail f) : Binds vs vs f :=
  h.mono (List.Subset.refl _) fun _ hv => List.mem_of_mem_tail hv

theorem ArrowBody.statements_subset (body : ArrowBody) :
    stmtsVisits body.statements ⊆ body.visits := by
  cases body with
  | block stmts => exact List.Subset.refl _
  | expr e => simp [ArrowBody.statements, stmtsVisits]

/-- A scope that holds what a list of statements declares. -/
private theorem bindsIn_block {kind : ScopeKind} {body : List Stmt}
    (hb : Binds (stmtsVisits body) (stmtsVisits body) (bindStmts body)) :
    BindsIn kind (stmtsVisits body) (stmtsVisits body) fun t =>
      bindStmts body (t.declareAll (blockLexicalBindings false body)) := by
  have hdecl := declares_blockLexicalBindings body
  exact ((BindsIn.declareAll hdecl.ident hdecl.plain).comp (.of_binds hb)).mono (by simp) (by simp)

/-- A loop with a lexical head has a scope for it. -/
private theorem binds_loop {vs head : List Visit} {wanted : Bool} {bs : List Binding}
    {step : NameTable → NameTable} (hd : Declares head bs) (hw : wanted = false → bs = [])
    (hv : head ⊆ vs) (hs : Binds vs vs step) :
    Binds vs vs (·.inScopeIf wanted .block fun t => step (t.declareAll bs)) := by
  refine .inScopeIf ?_ fun h => ?_
  · have hdecl : BindsIn .block head head (·.declareAll bs) := .declareAll hd.ident hd.plain
    refine (hdecl.comp (.of_binds hs)).mono ?_ ?_ <;> simpa using hv
  · rw [hw h]
    exact hs

theorem ForInit.lexicalBindings_eq_nil {init : ForInit} (h : init.isLexical = false) :
    init.lexicalBindings = [] := by
  cases init with
  | var list =>
    have hkind : list.kind.isBlockScoped = false := h
    simp [ForInit.lexicalBindings, VarList.lexicalBindings, hkind]
  | absent => rfl
  | expr e => rfl

theorem ForHead.lexicalBindings_eq_nil {head : ForHead} (h : head.isLexical = false) :
    head.lexicalBindings = [] := by
  cases head with
  | var list =>
    have hkind : list.kind.isBlockScoped = false := h
    simp [ForHead.lexicalBindings, VarList.lexicalBindings, hkind]
  | pattern p => rfl

mutual

theorem Expr.binds : (e : Expr) → Binds e.visits e.visits e.bind
  | .ident x => binds_node (.resolve x)
  | .literal value => binds_node .skip
  | .this => binds_node .skip
  | .super => binds_node .skip
  | .importMeta => binds_node .skip
  | .template chunks parts => binds_node (binds_exprs parts)
  | .tagged tag chunks parts => binds_node (tag.binds.comp (binds_exprs parts))
  | .array elements => binds_node (binds_slots elements)
  | .object properties => binds_node (binds_properties properties)
  | .function f => binds_node (f.binds true)
  | .arrow params body isAsync => by
    refine binds_node ?_
    exact .inScope (bindsIn_body params body.statements_subset (binds_params params) body.binds)
  | .classExpr c => binds_node (c.binds true)
  | .unary op arg => binds_node arg.binds
  | .update op isPrefix arg => binds_node arg.binds
  | .binary op left right => binds_node (left.binds.comp right.binds)
  | .assign op target value => binds_node (target.binds.comp value.binds)
  | .conditional test yes no => binds_node ((test.binds.comp yes.binds).comp no.binds)
  | .call callee args isOptional => binds_node (callee.binds.comp (binds_exprs args))
  | .newBare callee => binds_node callee.binds
  | .newCall callee args => binds_node (callee.binds.comp (binds_exprs args))
  | .member owner name isOptional =>
    binds_node (owner.binds.mono (List.subset_append_left ..) (List.subset_append_left ..))
  | .index owner key isOptional => binds_node (owner.binds.comp key.binds)
  | .sequence exprs => binds_node (binds_exprs exprs)
  | .paren inner => binds_node inner.binds
  | .yield arg isDelegate => binds_node (binds_expr? arg)
  | .await arg => binds_node arg.binds
  | .spread arg => binds_node arg.binds
  | .importCall specifier => binds_node specifier.binds

theorem binds_exprs : (es : List Expr) → Binds (exprsVisits es) (exprsVisits es) (bindExprs es)
  | [] => .skip
  | e :: es => e.binds.comp (binds_exprs es)

theorem binds_expr? : (e : Option Expr) → Binds (exprVisits? e) (exprVisits? e) (bindExpr? e)
  | none => .skip
  | some e => e.binds

theorem binds_slots :
    (es : List (Option Expr)) → Binds (slotsVisits es) (slotsVisits es) (bindSlots es)
  | [] => .skip
  | e :: es => (binds_expr? e).comp (binds_slots es)

theorem Key.binds : (key : Key) → Binds key.visits key.visits key.bind
  | .name _ | .string _ | .number _ => .skip
  | .computed e => e.binds

theorem Property.binds : (p : Property) → Binds p.visits p.visits p.bind
  | .keyed key value => key.binds.comp value.binds
  | .shorthand x => .resolve x
  | .method key _ f => key.binds.comp (f.binds false)
  | .spread e => e.binds

theorem binds_properties : (ps : List Property) →
    Binds (propertiesVisits ps) (propertiesVisits ps) (bindProperties ps)
  | [] => .skip
  | p :: ps => p.binds.comp (binds_properties ps)

theorem Pattern.binds : (p : Pattern) → Binds p.visits p.visits p.bind
  | .ident x => (Binds.resolve x).mono (by simp [Pattern.visits]) (List.Subset.refl _)
  | .expr e => by
    simp only [Pattern.visits]
    exact e.binds.mono (List.subset_cons_self ..) (List.subset_cons_self ..)
  | .object properties rest => by
    simp only [Pattern.visits]
    exact ((binds_patternProperties properties).comp (binds_pattern? rest)).mono
      (List.subset_cons_self ..) (List.subset_cons_self ..)
  | .array elements rest => by
    simp only [Pattern.visits]
    exact ((binds_patternSlots elements).comp (binds_pattern? rest)).mono
      (List.subset_cons_self ..) (List.subset_cons_self ..)

theorem binds_pattern? :
    (p : Option Pattern) → Binds (patternVisits? p) (patternVisits? p) (bindPattern? p)
  | none => .skip
  | some p => p.binds

theorem PatternProperty.binds : (p : PatternProperty) → Binds p.visits p.visits p.bind
  | .keyed key target fallback => (key.binds.comp target.binds).comp (binds_expr? fallback)
  | .shorthand x fallback =>
    have hx : Binds [.ident x] [.ident x] (·.resolve x) := .resolve x
    hx.comp (binds_expr? fallback)

theorem binds_patternProperties : (ps : List PatternProperty) →
    Binds (patternPropertiesVisits ps) (patternPropertiesVisits ps) (bindPatternProperties ps)
  | [] => .skip
  | p :: ps => p.binds.comp (binds_patternProperties ps)

theorem PatternElement.binds : (p : PatternElement) → Binds p.visits p.visits p.bind
  | ⟨target, fallback⟩ => target.binds.comp (binds_expr? fallback)

theorem binds_patternSlot : (p : Option PatternElement) →
    Binds (patternSlotVisits p) (patternSlotVisits p) (bindPatternSlot p)
  | none => .skip
  | some p => p.binds

theorem binds_patternSlots : (ps : List (Option PatternElement)) →
    Binds (patternSlotsVisits ps) (patternSlotsVisits ps) (bindPatternSlots ps)
  | [] => .skip
  | p :: ps => (binds_patternSlot p).comp (binds_patternSlots ps)

theorem Param.binds : (p : Param) → Binds p.visits p.visits p.bind
  | ⟨pattern, fallback, _⟩ => pattern.binds.comp (binds_expr? fallback)

theorem binds_params :
    (ps : List Param) → Binds (paramsVisits ps) (paramsVisits ps) (bindParams ps)
  | [] => .skip
  | p :: ps => p.binds.comp (binds_params ps)

theorem Func.binds (isExpression : Bool) :
    (f : Func) → Binds f.visits f.visits (f.bind isExpression)
  | ⟨name, params, body, _, _⟩ => by
    simp only [Func.visits, List.append_assoc]
    have hb := Binds.inScope
      (bindsIn_body params (List.Subset.refl _) (binds_params params) (binds_stmts body))
    exact (Binds.inNameScope rfl hb).mono (List.subset_cons_self ..)
      (List.Subset.trans (List.subset_append_right _ _) (List.subset_cons_self ..))

theorem ArrowBody.binds : (body : ArrowBody) → Binds body.visits body.visits body.bind
  | .block body => binds_stmts body
  | .expr e => e.binds

theorem Class.binds (isExpression : Bool) :
    (c : Class) → Binds c.visits c.visits (c.bind isExpression)
  | ⟨name, base, members⟩ => by
    simp only [Class.visits, List.append_assoc]
    exact (Binds.inNameScope rfl ((binds_expr? base).comp (binds_members members))).mono
      (List.subset_cons_self ..)
      (List.Subset.trans (List.subset_append_right _ _) (List.subset_cons_self ..))

theorem ClassMember.binds : (m : ClassMember) → Binds m.visits m.visits m.bind
  | .method key _ _ f => key.binds.comp (f.binds false)
  | .field key _ value => key.binds.comp (binds_expr? value)
  | .staticBlock body => by
    have hb : BindsIn .function _ _ fun t => bindStmts body (t.declareBody false body) :=
      (BindsIn.declareBody body rfl).comp (.of_binds (binds_stmts body))
    simp only [ClassMember.visits]
    exact (Binds.inScope hb).mono (by simp) (by simp)

theorem binds_members : (ms : List ClassMember) →
    Binds (membersVisits ms) (membersVisits ms) (bindMembers ms)
  | [] => .skip
  | m :: ms => m.binds.comp (binds_members ms)

theorem Declarator.binds : (d : Declarator) → Binds d.visits d.visits d.bind
  | ⟨target, init⟩ => target.binds.comp (binds_expr? init)

theorem binds_declarators : (ds : List Declarator) →
    Binds (declaratorsVisits ds) (declaratorsVisits ds) (bindDeclarators ds)
  | [] => .skip
  | d :: ds => d.binds.comp (binds_declarators ds)

theorem VarList.binds : (list : VarList) → Binds list.visits list.visits list.bind
  | ⟨_, declarators⟩ => binds_declarators declarators

theorem ForInit.binds : (init : ForInit) → Binds init.visits init.visits init.bind
  | .absent => .skip
  | .var list => list.binds
  | .expr e => e.binds

theorem ForHead.binds : (head : ForHead) → Binds head.visits head.visits head.bind
  | .var list => list.binds
  | .pattern p => p.binds

theorem Catch.binds : (c : Catch) → Binds c.visits c.visits c.bind
  | ⟨param, body⟩ => by
    have hparam := declares_catchBindings param
    have hbody := declares_blockLexicalBindings body
    have hp : BindsIn .catch _ _ fun t => bindPattern? param (t.declareAll (catchBindings param)) :=
      (BindsIn.declareAll hparam.ident hparam.plain).comp (.of_binds (binds_pattern? param))
    have hb := (hp.comp (.declareAll hbody.ident hbody.plain)).comp (.of_binds (binds_stmts body))
    simp only [Catch.visits]
    exact (Binds.inScope hb).mono (by simp) (by simp)

theorem binds_catch? : (c : Option Catch) → Binds (catchVisits? c) (catchVisits? c) (bindCatch? c)
  | none => .skip
  | some c => c.binds

theorem binds_finally? : (body : Option (List Stmt)) →
    Binds (blockVisits? body) (blockVisits? body) (bindFinally? body)
  | none => .skip
  | some body => .inScope (bindsIn_block (binds_stmts body))

theorem Case.binds : (c : Case) → Binds c.visits c.visits c.bind
  | ⟨test, body⟩ => (binds_expr? test).comp (binds_stmts body)

theorem binds_cases : (cs : List Case) → Binds (casesVisits cs) (casesVisits cs) (bindCases cs)
  | [] => .skip
  | c :: cs => c.binds.comp (binds_cases cs)

theorem binds_stmts : (ss : List Stmt) → Binds (stmtsVisits ss) (stmtsVisits ss) (bindStmts ss)
  | [] => .skip
  | s :: ss =>
    (binds_inner s.binds).comp (binds_stmts ss)

/-- What a statement of the module exports or imports itself was declared before it is read. -/
theorem Stmt.binds : (s : Stmt) → Binds s.visits s.visits.tail s.bind
  | .expr e => binds_stmt e.binds
  | .var modifiers list => binds_stmt list.binds
  | .function modifiers f => binds_stmt (f.binds false)
  | .classDecl modifiers c => binds_stmt (c.binds false)
  | .importFrom site clause specifier isTypeOnly => binds_stmt .skip
  | .importEquals site isExported name kind value => by
    cases kind with
    | require => exact binds_stmt .skip
    | entity =>
      exact binds_stmt (value.binds.mono (List.subset_cons_self ..) (List.subset_cons_self ..))
  | .exportFrom site clause specifier isTypeOnly => by
    cases clause with
    | none => exact binds_stmt .skip
    | some clause =>
      cases clause with
      | star x => exact binds_stmt .skip
      | named specs =>
        cases specifier with
        | some specifier => exact binds_stmt .skip
        | none => exact binds_exportNamed site specs isTypeOnly
  | .exportValue site form value => binds_stmt value.binds
  | .ambient name isExported => binds_stmt .skip
  | .block body => binds_stmt (.inScope (bindsIn_block (binds_stmts body)))
  | .ifThen test yes => binds_stmt (test.binds.comp (binds_inner yes.binds))
  | .ifElse test yes no =>
    binds_stmt ((test.binds.comp (binds_inner yes.binds)).comp (binds_inner no.binds))
  | .forLoop init test update body => by
    refine binds_stmt ?_
    exact binds_loop init.declares_lexicalBindings init.lexicalBindings_eq_nil
      (by simp only [List.append_assoc, List.subset_append_left])
      (((init.binds.comp (binds_expr? test)).comp (binds_expr? update)).comp
        (binds_inner body.binds))
  | .forIn head object body => by
    refine binds_stmt ?_
    have hloop := binds_loop head.declares_lexicalBindings head.lexicalBindings_eq_nil
      (List.subset_append_left ..)
      (head.binds.comp (binds_inner body.binds))
    exact (object.binds.comp hloop).mono (by simp) (by simp)
  | .forOf head iterable body isAwait => by
    refine binds_stmt ?_
    have hloop := binds_loop head.declares_lexicalBindings head.lexicalBindings_eq_nil
      (List.subset_append_left ..)
      (head.binds.comp (binds_inner body.binds))
    exact (iterable.binds.comp hloop).mono (by simp) (by simp)
  | .whileLoop test body => binds_stmt (test.binds.comp (binds_inner body.binds))
  | .doWhile body test => binds_stmt (test.binds.comp (binds_inner body.binds))
  | .tryCatch body handler finalizer => by
    have hblock : BindsIn .block (stmtsVisits body) (stmtsVisits body) _ :=
      bindsIn_block (binds_stmts body)
    have hbody : Binds (stmtsVisits body) (stmtsVisits body) _ := .inScope hblock
    exact binds_stmt ((hbody.comp (binds_catch? handler)).comp (binds_finally? finalizer))
  | .switch subject cases => by
    have hdecl := declares_switchBindings cases
    have hcases : BindsIn .block _ _ fun t => bindCases cases (t.declareAll _) :=
      (BindsIn.declareAll hdecl.ident hdecl.plain).comp (.of_binds (binds_cases cases))
    refine binds_stmt ?_
    exact (subject.binds.comp (.inScope hcases)).mono (by simp) (by simp)
  | .labeled label body =>
    binds_stmt ((binds_inner body.binds).mono (List.subset_cons_self ..)
      (List.subset_cons_self ..))
  | .withObject object body => binds_stmt (object.binds.comp (binds_inner body.binds))
  | .ret arg => binds_stmt (binds_expr? arg)
  | .throw arg => binds_stmt arg.binds
  | .breakTo label => binds_stmt .skip
  | .continueTo label => binds_stmt .skip
  | .empty => binds_stmt .skip
  | .debugger => binds_stmt .skip

end
end RegisterForm
