import RegisterForm.Proofs.Renumber.Tree
import RegisterForm.Scope.Bind
import RegisterForm.Scope.Query
/-!
# Binding renumbered files

The table of a renumbered file is the renumbered table of the file: scopes and symbols come in the
same order, and each node stands for the same symbol as before. Binding compares numbers, and does
nothing else with them.
-/
namespace RegisterForm

variable (r : Renumbering)

/-! ## Symbols -/

def ImportOrigin.renumber (o : ImportOrigin) : ImportOrigin := ⟨r o.declaration, o.kind⟩

@[simp] theorem ImportOrigin.renumber_inj {o o' : ImportOrigin} :
    o.renumber r = o'.renumber r ↔ o = o' := by
  cases o
  cases o'
  simp [renumber]

def Symbol.renumber (s : Symbol) : Symbol :=
  { s with declaration := r s.declaration, origin := s.origin.map (·.renumber r) }

@[simp] theorem Symbol.roles_renumber (s : Symbol) : (s.renumber r).roles = s.roles := rfl

@[simp] theorem Symbol.declaration_renumber (s : Symbol) :
    (s.renumber r).declaration = r s.declaration := rfl

@[simp] theorem Symbol.origin_renumber (s : Symbol) :
    (s.renumber r).origin = s.origin.map (·.renumber r) := rfl

def Binding.renumber (b : Binding) : Binding :=
  ⟨b.ident.renumber r, b.roles, b.origin.map (·.renumber r)⟩

/-! ## Declarations -/

theorem bindingsOf_renumber (roles : Roles) (xs : List Ident) :
    bindingsOf roles (xs.map (·.renumber r)) = (bindingsOf roles xs).map (·.renumber r) := by
  simp only [bindingsOf, List.map_map]
  rfl

theorem VarList.varBindings_renumber (isExported : Bool) (list : VarList) :
    (list.renumber r).varBindings isExported =
      (list.varBindings isExported).map (·.renumber r) := by
  simp only [varBindings, kind_renumber, boundIdents_renumber, bindingsOf_renumber]
  split <;> rfl

theorem VarList.lexicalBindings_renumber (isExported : Bool) (list : VarList) :
    (list.renumber r).lexicalBindings isExported =
      (list.lexicalBindings isExported).map (·.renumber r) := by
  simp only [lexicalBindings, kind_renumber, boundIdents_renumber, bindingsOf_renumber]
  split <;> rfl

theorem ForInit.varBindings_renumber (init : ForInit) :
    (init.renumber r).varBindings = init.varBindings.map (·.renumber r) := by
  cases init with
  | var list => exact list.varBindings_renumber r false
  | _ => rfl

theorem ForInit.lexicalBindings_renumber (init : ForInit) :
    (init.renumber r).lexicalBindings = init.lexicalBindings.map (·.renumber r) := by
  cases init with
  | var list => exact list.lexicalBindings_renumber r false
  | _ => rfl

theorem ForInit.isLexical_renumber (init : ForInit) :
    (init.renumber r).isLexical = init.isLexical := by
  cases init with
  | var list => exact congrArg VarKind.isBlockScoped (list.kind_renumber r)
  | _ => rfl

theorem ForHead.varBindings_renumber (head : ForHead) :
    (head.renumber r).varBindings = head.varBindings.map (·.renumber r) := by
  cases head with
  | var list => exact list.varBindings_renumber r false
  | pattern p => rfl

theorem ForHead.lexicalBindings_renumber (head : ForHead) :
    (head.renumber r).lexicalBindings = head.lexicalBindings.map (·.renumber r) := by
  cases head with
  | var list => exact list.lexicalBindings_renumber r false
  | pattern p => rfl

theorem ForHead.isLexical_renumber (head : ForHead) :
    (head.renumber r).isLexical = head.isLexical := by
  cases head with
  | var list => exact congrArg VarKind.isBlockScoped (list.kind_renumber r)
  | pattern p => rfl

private theorem map_append_of_eq {α : Type} {change : α → α} {as as' bs bs' : List α}
    (ha : as' = as.map change) (hb : bs' = bs.map change) :
    as' ++ bs' = (as ++ bs).map change := by
  rw [ha, hb, List.map_append]

mutual

theorem Stmt.varBindings_renumber :
    (s : Stmt) → (s.renumber r).varBindings = s.varBindings.map (·.renumber r)
  | .var modifiers list => list.varBindings_renumber r modifiers.isExported
  | .block body => blockVarBindings_renumber body
  | .ifThen _ yes => yes.varBindings_renumber
  | .ifElse _ yes no => map_append_of_eq yes.varBindings_renumber no.varBindings_renumber
  | .forLoop init _ _ body =>
    map_append_of_eq (init.varBindings_renumber r) body.varBindings_renumber
  | .forIn head _ body => map_append_of_eq (head.varBindings_renumber r) body.varBindings_renumber
  | .forOf head _ body _ =>
    map_append_of_eq (head.varBindings_renumber r) body.varBindings_renumber
  | .whileLoop _ body => body.varBindings_renumber
  | .doWhile body _ => body.varBindings_renumber
  | .labeled _ body => body.varBindings_renumber
  | .withObject _ body => body.varBindings_renumber
  | .tryCatch body handler finalizer =>
    map_append_of_eq
      (map_append_of_eq (blockVarBindings_renumber body) (catchVarBindings_renumber handler))
      (finallyVarBindings_renumber finalizer)
  | .switch _ cases => casesVarBindings_renumber cases
  | .expr _ | .function _ _ | .classDecl _ _ | .importFrom _ _ _ _ | .importEquals _ _ _ _ _
  | .exportFrom _ _ _ _ | .exportValue _ _ _ | .ambient _ _ | .ret _ | .throw _ | .breakTo _
  | .continueTo _ | .empty | .debugger => rfl

theorem blockVarBindings_renumber : (ss : List Stmt) →
    blockVarBindings (renumberStmts r ss) = (blockVarBindings ss).map (·.renumber r)
  | [] => rfl
  | s :: ss => map_append_of_eq s.varBindings_renumber (blockVarBindings_renumber ss)

theorem catchVarBindings_renumber : (c : Option Catch) →
    catchVarBindings (renumberCatch? r c) = (catchVarBindings c).map (·.renumber r)
  | none => rfl
  | some ⟨_, body⟩ => blockVarBindings_renumber body

theorem finallyVarBindings_renumber : (body : Option (List Stmt)) →
    finallyVarBindings (renumberBlock? r body) = (finallyVarBindings body).map (·.renumber r)
  | none => rfl
  | some body => blockVarBindings_renumber body

theorem casesVarBindings_renumber : (cs : List Case) →
    casesVarBindings (renumberCases r cs) = (casesVarBindings cs).map (·.renumber r)
  | [] => rfl
  | ⟨_, body⟩ :: cs =>
    map_append_of_eq (blockVarBindings_renumber body) (casesVarBindings_renumber cs)

end

theorem ImportClause.bindingsOf_renumber (declaration : NodeId) (isTypeOnly : Bool)
    (c : ImportClause) :
    (c.renumber r).bindingsOf (r declaration) isTypeOnly =
      (c.bindingsOf declaration isTypeOnly).map (·.renumber r) := by
  obtain ⟨default, bindings⟩ := c
  refine map_append_of_eq ?_ ?_
  · cases default <;> rfl
  · cases bindings with
    | none => rfl
    | some b =>
      cases b with
      | star x => rfl
      | named specifiers =>
        simp only [renumber, ImportBindings.renumber, Option.map_some, List.map_map]
        rfl

theorem Stmt.lexicalBindings_renumber (inModule : Bool) (s : Stmt) :
    (s.renumber r).lexicalBindings inModule = (s.lexicalBindings inModule).map (·.renumber r) := by
  cases s with
  | var modifiers list => exact list.lexicalBindings_renumber r modifiers.isExported
  | function modifiers f =>
    obtain ⟨name, params, body, isAsync, isGenerator⟩ := f
    cases name <;> rfl
  | classDecl modifiers c =>
    obtain ⟨name, base, members⟩ := c
    cases name <;> rfl
  | importFrom site clause specifier isTypeOnly =>
    cases inModule with
    | false => rfl
    | true =>
      cases clause with
      | none => rfl
      | some c =>
        change [c.renumber r].flatMap _ = ([c].flatMap _).map _
        rw [List.flatMap_singleton, List.flatMap_singleton]
        exact c.bindingsOf_renumber r site.id isTypeOnly
  | importEquals site isExported name kind value =>
    cases inModule with
    | false => rfl
    | true => cases kind <;> rfl
  | _ => rfl

theorem blockLexicalBindings_renumber (inModule : Bool) : (ss : List Stmt) →
    blockLexicalBindings inModule (ss.map (·.renumber r)) =
      (blockLexicalBindings inModule ss).map (·.renumber r)
  | [] => rfl
  | s :: ss =>
    map_append_of_eq (s.lexicalBindings_renumber r inModule)
      (blockLexicalBindings_renumber inModule ss)

theorem paramBindings_renumber : (ps : List Param) →
    paramBindings (ps.map (·.renumber r)) = (paramBindings ps).map (·.renumber r)
  | [] => rfl
  | ⟨pattern, _, _⟩ :: ps => by
    refine map_append_of_eq ?_ (paramBindings_renumber ps)
    exact (congrArg (bindingsOf _) (pattern.boundIdents_renumber r)).trans
      (bindingsOf_renumber r _ _)

theorem catchBindings_renumber (param : Option Pattern) :
    catchBindings (param.map (·.renumber r)) = (catchBindings param).map (·.renumber r) := by
  cases param with
  | none => rfl
  | some p =>
    simp only [catchBindings, Option.map_some, Option.toList_some, List.flatMap_singleton,
      p.boundIdents_renumber, bindingsOf_renumber]

/-! ## Tables -/

namespace NameTable

/-- A table under new numbers. -/
def renumber (t : NameTable) : NameTable :=
  { t with
    file := t.file.map r
    symbols := t.symbols.map (·.renumber r)
    ofIdent := r.pairs t.ofIdent
    ofSpecifier := r.pairs t.ofSpecifier }

@[simp] theorem symbol?_renumber (t : NameTable) (id : SymbolId) :
    (t.renumber r).symbol? id = (t.symbol? id).map (·.renumber r) := by
  simp [symbol?, renumber]

@[simp] theorem scope?_renumber (t : NameTable) (id : ScopeId) :
    (t.renumber r).scope? id = t.scope? id := rfl

@[simp] theorem openScopes_renumber (t : NameTable) :
    (t.renumber r).openScopes = t.openScopes := rfl

@[simp] theorem ofIdent_renumber (t : NameTable) :
    (t.renumber r).ofIdent = r.pairs t.ofIdent := rfl

@[simp] theorem ofSpecifier_renumber (t : NameTable) :
    (t.renumber r).ofSpecifier = r.pairs t.ofSpecifier := rfl

@[simp] theorem varScope?_renumber (t : NameTable) : (t.renumber r).varScope? = t.varScope? := rfl

theorem scopesFrom_renumber (t : NameTable) (bound : Nat) (id : ScopeId) :
    (t.renumber r).scopesFrom bound id = t.scopesFrom bound id := by
  induction bound generalizing id with
  | zero => rfl
  | succ bound ih => simp only [scopesFrom, scope?_renumber, ih]

@[simp] theorem lookup?_renumber (t : NameTable) (name : String) :
    (t.renumber r).lookup? name = t.lookup? name := by
  have hchain : (t.renumber r).chain = t.chain := funext fun id =>
    t.scopesFrom_renumber r (id + 1) id
  simp only [lookup?, hchain, scope?_renumber]
  rfl

/-- The second step does to a renumbered table what the first does to the table. -/
def Carries (step step' : NameTable → NameTable) : Prop :=
  ∀ t, step' (t.renumber r) = (step t).renumber r

private theorem map_modify {α : Type} {g f f' : α → α} (h : ∀ a, g (f a) = f' (g a))
    (as : Array α) (i : Nat) : (as.modify i f).map g = (as.map g).modify i f' := by
  refine Array.ext_getElem? fun j => ?_
  simp only [Array.getElem?_map, Array.getElem?_modify]
  by_cases hij : i = j
  · simp only [hij, if_true, Option.map_map]
    exact congrArg (Option.map · as[j]?) (funext h)
  · simp only [hij, if_false]

variable {r}

namespace Carries

variable {step step' next next' : NameTable → NameTable}

theorem rfl : Carries r id id := fun _ => Eq.refl _

theorem comp (hnext : Carries r next next') (hstep : Carries r step step') :
    Carries r (fun t => next (step t)) fun t => next' (step' t) := fun t =>
  (congrArg next' (hstep t)).trans (hnext _)

theorem inScope (kind : ScopeKind) (h : Carries r step step') :
    Carries r (NameTable.inScope kind step) (NameTable.inScope kind step') := fun t =>
  congrArg leave (h (t.enter kind))

theorem inScopeIf (wanted : Bool) (kind : ScopeKind) (h : Carries r step step') :
    Carries r (NameTable.inScopeIf wanted kind step) (NameTable.inScopeIf wanted kind step') := by
  cases wanted with
  | false => exact h
  | true => exact h.inScope kind

theorem deeper (h : Carries r step step') :
    Carries r (NameTable.deeper step) (NameTable.deeper step') := fun t => by
  have hstep := h { t with depth := t.depth + 1 }
  simp only [NameTable.deeper]
  by_cases hdepth : t.depth < maxTreeDepth
  · rw [if_pos hdepth, if_pos (show (t.renumber r).depth < maxTreeDepth from hdepth)]
    exact congrArg (fun t : NameTable => { t with depth := t.depth - 1 }) hstep
  · rw [if_neg hdepth, if_neg (show ¬(t.renumber r).depth < maxTreeDepth from hdepth)]

theorem foldl {α : Type} {step step' : NameTable → α → NameTable} {change : α → α}
    (h : ∀ a, Carries r (step · a) (step' · (change a))) : (as : List α) →
    Carries r (fun t => as.foldl step t) fun t => (as.map change).foldl step' t
  | [] => rfl
  | a :: as => (foldl h as).comp (h a)

theorem declareIn (b : Binding) (scope : ScopeId) :
    Carries r (NameTable.declareIn b scope) (NameTable.declareIn (b.renumber r) scope) := by
  intro t
  unfold NameTable.declareIn
  rw [scope?_renumber]
  cases t.scope? scope with
  | none => exact Eq.refl _
  | some s =>
    dsimp only [Binding.renumber, Ident.name_renumber, Ident.id_renumber]
    cases s.symbols.lookup b.ident.name with
    | some id =>
      have hsymbols : (t.symbols.modify id fun s =>
            { s with roles := s.roles.union b.roles, origin := b.origin.or s.origin }).map
            (·.renumber r) =
          (t.symbols.map (·.renumber r)).modify id fun s =>
            { s with roles := s.roles.union b.roles,
                     origin := (b.origin.map (·.renumber r)).or s.origin } :=
        map_modify (fun s => by simp [Symbol.renumber, Option.map_or]) t.symbols id
      simp only [NameTable.renumber, hsymbols, Renumbering.pairs_cons]
    | none =>
      simp only [NameTable.renumber, Array.size_map, Array.map_push, Renumbering.pairs_cons,
        Symbol.renumber]

theorem declare (b : Binding) :
    Carries r (NameTable.declare b) (NameTable.declare (b.renumber r)) := by
  intro t
  unfold NameTable.declare
  rw [openScopes_renumber]
  cases t.openScopes.head? with
  | none => exact Eq.refl _
  | some scope => exact declareIn b scope t

theorem declareVar (b : Binding) :
    Carries r (NameTable.declareVar b) (NameTable.declareVar (b.renumber r)) := by
  intro t
  unfold NameTable.declareVar
  rw [varScope?_renumber]
  cases t.varScope? with
  | none => exact Eq.refl _
  | some scope => exact declareIn b scope t

theorem declareAll (bs : List Binding) :
    Carries r (NameTable.declareAll bs) (NameTable.declareAll (bs.map (·.renumber r))) :=
  foldl declare bs

theorem declareVars (bs : List Binding) :
    Carries r (NameTable.declareVars bs) (NameTable.declareVars (bs.map (·.renumber r))) :=
  foldl declareVar bs

theorem declareBody (inModule : Bool) (body : List Stmt) :
    Carries r (NameTable.declareBody inModule body)
      (NameTable.declareBody inModule (renumberStmts r body)) := by
  unfold NameTable.declareBody
  rw [blockVarBindings_renumber, renumberStmts_eq, blockLexicalBindings_renumber]
  exact (declareAll _).comp (declareVars _)

theorem declareArrowBody (body : ArrowBody) :
    Carries r (NameTable.declareBody false body.statements)
      (NameTable.declareBody false (body.renumber r).statements) := by
  rw [ArrowBody.statements_renumber, ← renumberStmts_eq]
  exact declareBody false body.statements

theorem declareLexical (body : List Stmt) :
    Carries r (NameTable.declareAll (blockLexicalBindings false body))
      (NameTable.declareAll (blockLexicalBindings false (renumberStmts r body))) := by
  rw [renumberStmts_eq, blockLexicalBindings_renumber]
  exact declareAll _

theorem declareParams (params : List Param) :
    Carries r (NameTable.declareAll (paramBindings params))
      (NameTable.declareAll (paramBindings (renumberParams r params))) := by
  rw [renumberParams_eq, paramBindings_renumber]
  exact declareAll _

theorem declareCaught (param : Option Pattern) :
    Carries r (NameTable.declareAll (catchBindings param))
      (NameTable.declareAll (catchBindings (renumberPattern? r param))) := by
  rw [renumberPattern?_eq, catchBindings_renumber]
  exact declareAll _

theorem declareCases (cases : List Case) :
    Carries r (NameTable.declareAll (cases.flatMap fun c => blockLexicalBindings false c.body))
      (NameTable.declareAll
        ((renumberCases r cases).flatMap fun c => blockLexicalBindings false c.body)) := by
  have hbody : ∀ c : Case, blockLexicalBindings false (c.renumber r).body =
      (blockLexicalBindings false c.body).map (·.renumber r) := by
    rintro ⟨test, body⟩
    exact (congrArg _ (renumberStmts_eq r body)).trans (blockLexicalBindings_renumber r false body)
  rw [renumberCases_eq, List.flatMap_map, funext hbody, ← List.map_flatMap]
  exact declareAll _

/-- The scope of a counting loop holds what its first part declares. -/
theorem forInit (init : ForInit) (h : Carries r step step') :
    Carries r
      (fun t => t.inScopeIf init.isLexical .block fun t =>
        step (t.declareAll init.lexicalBindings))
      fun t => t.inScopeIf (init.renumber r).isLexical .block fun t =>
        step' (t.declareAll (init.renumber r).lexicalBindings) := by
  rw [init.isLexical_renumber, init.lexicalBindings_renumber]
  exact (h.comp (declareAll _)).inScopeIf _ _

/-- The scope of an enumerating loop holds what its head declares. -/
theorem forHead (head : ForHead) (h : Carries r step step') :
    Carries r
      (fun t => t.inScopeIf head.isLexical .block fun t =>
        step (t.declareAll head.lexicalBindings))
      fun t => t.inScopeIf (head.renumber r).isLexical .block fun t =>
        step' (t.declareAll (head.renumber r).lexicalBindings) := by
  rw [head.isLexical_renumber, head.lexicalBindings_renumber]
  exact (h.comp (declareAll _)).inScopeIf _ _

theorem inNameScope (isExpression : Bool) (name : Option Ident) (roles : Roles)
    (h : Carries r step step') :
    Carries r (NameTable.inNameScope isExpression name roles step)
      (NameTable.inNameScope isExpression (name.map (·.renumber r)) roles step') := by
  cases name with
  | none => exact h
  | some x =>
    cases isExpression with
    | false => exact h
    | true => exact (h.comp (declare ⟨x, roles, none⟩)).inScope .expressionName

theorem resolve (x : Ident) :
    Carries r (NameTable.resolve x) (NameTable.resolve (x.renumber r)) := by
  intro t
  unfold NameTable.resolve
  rw [Ident.id_renumber, ofIdent_renumber, r.lookup_pairs, Ident.name_renumber, lookup?_renumber]
  by_cases hknown : (t.ofIdent.lookup x.id).isSome
  · rw [if_pos hknown, if_pos hknown]
  · rw [if_neg hknown, if_neg hknown]
    cases t.lookup? x.name <;> exact Eq.refl _

theorem bindSpecifiers (specifiers : List ExportSpecifier) :
    Carries r (NameTable.bindSpecifiers specifiers)
      (NameTable.bindSpecifiers (specifiers.map (·.renumber r))) := by
  refine foldl (fun s t => ?_) specifiers
  have hresolve := resolve (r := r) s.source t
  dsimp only [ExportSpecifier.renumber]
  rw [hresolve, ofIdent_renumber, Ident.id_renumber, r.lookup_pairs]
  cases (t.resolve s.source).ofIdent.lookup s.source.id <;> exact Eq.refl _

theorem markExported (specifiers : List ExportSpecifier) :
    Carries r (NameTable.markExported specifiers)
      (NameTable.markExported (specifiers.map (·.renumber r))) := by
  refine foldl (fun s t => ?_) specifiers
  dsimp only [ExportSpecifier.renumber]
  rw [ofSpecifier_renumber, r.lookup_pairs]
  cases t.ofSpecifier.lookup s.id with
  | none => exact Eq.refl _
  | some id =>
    have hsymbols : (t.symbols.modify id fun s =>
          if s.roles.isValue then { s with roles := { s.roles with isExported := true } }
          else s).map (·.renumber r) =
        (t.symbols.map (·.renumber r)).modify id fun s =>
          if s.roles.isValue then { s with roles := { s.roles with isExported := true } }
          else s :=
      map_modify (fun s => by rw [Symbol.roles_renumber]; split <;> exact Eq.refl _) t.symbols id
    simp only [NameTable.renumber, hsymbols]

end Carries
end NameTable

open NameTable.Carries

/-! ## Reading -/

mutual

theorem Expr.bind_renumber :
    (e : Expr) → NameTable.Carries r e.bind (e.renumber r).bind
  | .ident x => deeper (resolve x)
  | .literal _ | .this | .super | .importMeta => deeper rfl
  | .template _ parts => deeper (bindExprs_renumber parts)
  | .tagged tag _ parts => deeper ((bindExprs_renumber parts).comp tag.bind_renumber)
  | .array elements => deeper (bindSlots_renumber elements)
  | .object properties => deeper (bindProperties_renumber properties)
  | .function f => deeper (f.bind_renumber true)
  | .arrow params body _ =>
    deeper ((body.bind_renumber.comp ((bindParams_renumber params).comp
      ((declareArrowBody body).comp (declareParams params)))).inScope .function)
  | .classExpr c => deeper (c.bind_renumber true)
  | .unary _ arg => deeper arg.bind_renumber
  | .update _ _ arg => deeper arg.bind_renumber
  | .binary _ left right => deeper (right.bind_renumber.comp left.bind_renumber)
  | .assign _ target value => deeper (value.bind_renumber.comp target.bind_renumber)
  | .conditional test yes no =>
    deeper (no.bind_renumber.comp (yes.bind_renumber.comp test.bind_renumber))
  | .call callee args _ => deeper ((bindExprs_renumber args).comp callee.bind_renumber)
  | .newBare callee => deeper callee.bind_renumber
  | .newCall callee args => deeper ((bindExprs_renumber args).comp callee.bind_renumber)
  | .member owner _ _ => deeper owner.bind_renumber
  | .index owner key _ => deeper (key.bind_renumber.comp owner.bind_renumber)
  | .sequence exprs => deeper (bindExprs_renumber exprs)
  | .paren inner => deeper inner.bind_renumber
  | .yield arg _ => deeper (bindExpr?_renumber arg)
  | .await arg => deeper arg.bind_renumber
  | .spread arg => deeper arg.bind_renumber
  | .importCall specifier => deeper specifier.bind_renumber

theorem bindExprs_renumber :
    (es : List Expr) → NameTable.Carries r (bindExprs es) (bindExprs (renumberExprs r es))
  | [] => rfl
  | e :: es => (bindExprs_renumber es).comp e.bind_renumber

theorem bindExpr?_renumber :
    (e : Option Expr) → NameTable.Carries r (bindExpr? e) (bindExpr? (renumberExpr? r e))
  | none => rfl
  | some e => e.bind_renumber

theorem bindSlots_renumber : (es : List (Option Expr)) →
    NameTable.Carries r (bindSlots es) (bindSlots (renumberSlots r es))
  | [] => rfl
  | e :: es => (bindSlots_renumber es).comp (bindExpr?_renumber e)

theorem Key.bind_renumber : (key : Key) → NameTable.Carries r key.bind (key.renumber r).bind
  | .name _ | .string _ | .number _ => rfl
  | .computed e => e.bind_renumber

theorem Property.bind_renumber :
    (p : Property) → NameTable.Carries r p.bind (p.renumber r).bind
  | .keyed key value => value.bind_renumber.comp key.bind_renumber
  | .shorthand x => resolve x
  | .method key _ f => (f.bind_renumber false).comp key.bind_renumber
  | .spread e => e.bind_renumber

theorem bindProperties_renumber : (ps : List Property) →
    NameTable.Carries r (bindProperties ps) (bindProperties (renumberProperties r ps))
  | [] => rfl
  | p :: ps => (bindProperties_renumber ps).comp p.bind_renumber

theorem Pattern.bind_renumber : (p : Pattern) → NameTable.Carries r p.bind (p.renumber r).bind
  | .ident x => resolve x
  | .expr e => e.bind_renumber
  | .object properties rest =>
    (bindPattern?_renumber rest).comp (bindPatternProperties_renumber properties)
  | .array elements rest =>
    (bindPattern?_renumber rest).comp (bindPatternSlots_renumber elements)

theorem bindPattern?_renumber : (p : Option Pattern) →
    NameTable.Carries r (bindPattern? p) (bindPattern? (renumberPattern? r p))
  | none => rfl
  | some p => p.bind_renumber

theorem PatternProperty.bind_renumber :
    (p : PatternProperty) → NameTable.Carries r p.bind (p.renumber r).bind
  | .keyed key target fallback =>
    (bindExpr?_renumber fallback).comp (target.bind_renumber.comp key.bind_renumber)
  | .shorthand x fallback => (bindExpr?_renumber fallback).comp (resolve x)

theorem bindPatternProperties_renumber : (ps : List PatternProperty) → NameTable.Carries r
    (bindPatternProperties ps) (bindPatternProperties (renumberPatternProperties r ps))
  | [] => rfl
  | p :: ps => (bindPatternProperties_renumber ps).comp p.bind_renumber

theorem PatternElement.bind_renumber :
    (e : PatternElement) → NameTable.Carries r e.bind (e.renumber r).bind
  | ⟨target, fallback⟩ => (bindExpr?_renumber fallback).comp target.bind_renumber

theorem bindPatternSlot_renumber : (e : Option PatternElement) →
    NameTable.Carries r (bindPatternSlot e) (bindPatternSlot (renumberPatternSlot r e))
  | none => rfl
  | some e => e.bind_renumber

theorem bindPatternSlots_renumber : (es : List (Option PatternElement)) →
    NameTable.Carries r (bindPatternSlots es) (bindPatternSlots (renumberPatternSlots r es))
  | [] => rfl
  | e :: es => (bindPatternSlots_renumber es).comp (bindPatternSlot_renumber e)

theorem Param.bind_renumber : (p : Param) → NameTable.Carries r p.bind (p.renumber r).bind
  | ⟨pattern, fallback, _⟩ => (bindExpr?_renumber fallback).comp pattern.bind_renumber

theorem bindParams_renumber :
    (ps : List Param) → NameTable.Carries r (bindParams ps) (bindParams (renumberParams r ps))
  | [] => rfl
  | p :: ps => (bindParams_renumber ps).comp p.bind_renumber

theorem Func.bind_renumber (isExpression : Bool) :
    (f : Func) → NameTable.Carries r (f.bind isExpression) ((f.renumber r).bind isExpression)
  | ⟨name, params, body, _, _⟩ =>
    inNameScope isExpression name _ (((bindStmts_renumber body).comp
      ((bindParams_renumber params).comp
        ((declareBody false body).comp (declareParams params)))).inScope .function)

theorem ArrowBody.bind_renumber :
    (body : ArrowBody) → NameTable.Carries r body.bind (body.renumber r).bind
  | .block body => bindStmts_renumber body
  | .expr e => e.bind_renumber

theorem Class.bind_renumber (isExpression : Bool) :
    (c : Class) → NameTable.Carries r (c.bind isExpression) ((c.renumber r).bind isExpression)
  | ⟨name, base, members⟩ =>
    inNameScope isExpression name _ ((bindMembers_renumber members).comp (bindExpr?_renumber base))

theorem ClassMember.bind_renumber :
    (m : ClassMember) → NameTable.Carries r m.bind (m.renumber r).bind
  | .method key _ _ f => (f.bind_renumber false).comp key.bind_renumber
  | .field key _ value => (bindExpr?_renumber value).comp key.bind_renumber
  | .staticBlock body =>
    ((bindStmts_renumber body).comp (declareBody false body)).inScope .function

theorem bindMembers_renumber : (ms : List ClassMember) →
    NameTable.Carries r (bindMembers ms) (bindMembers (renumberMembers r ms))
  | [] => rfl
  | m :: ms => (bindMembers_renumber ms).comp m.bind_renumber

theorem Declarator.bind_renumber :
    (d : Declarator) → NameTable.Carries r d.bind (d.renumber r).bind
  | ⟨target, init⟩ => (bindExpr?_renumber init).comp target.bind_renumber

theorem bindDeclarators_renumber : (ds : List Declarator) →
    NameTable.Carries r (bindDeclarators ds) (bindDeclarators (renumberDeclarators r ds))
  | [] => rfl
  | d :: ds => (bindDeclarators_renumber ds).comp d.bind_renumber

theorem VarList.bind_renumber :
    (list : VarList) → NameTable.Carries r list.bind (list.renumber r).bind
  | ⟨_, declarators⟩ => bindDeclarators_renumber declarators

theorem ForInit.bind_renumber :
    (init : ForInit) → NameTable.Carries r init.bind (init.renumber r).bind
  | .absent => rfl
  | .var list => list.bind_renumber
  | .expr e => e.bind_renumber

theorem ForHead.bind_renumber :
    (head : ForHead) → NameTable.Carries r head.bind (head.renumber r).bind
  | .var list => list.bind_renumber
  | .pattern p => p.bind_renumber

theorem Catch.bind_renumber : (c : Catch) → NameTable.Carries r c.bind (c.renumber r).bind
  | ⟨param, body⟩ =>
    ((bindStmts_renumber body).comp ((declareLexical body).comp
      ((bindPattern?_renumber param).comp (declareCaught param)))).inScope .catch

theorem bindCatch?_renumber :
    (c : Option Catch) → NameTable.Carries r (bindCatch? c) (bindCatch? (renumberCatch? r c))
  | none => rfl
  | some c => c.bind_renumber

theorem bindFinally?_renumber : (body : Option (List Stmt)) →
    NameTable.Carries r (bindFinally? body) (bindFinally? (renumberBlock? r body))
  | none => rfl
  | some body => ((bindStmts_renumber body).comp (declareLexical body)).inScope .block

theorem Case.bind_renumber : (c : Case) → NameTable.Carries r c.bind (c.renumber r).bind
  | ⟨test, body⟩ => (bindStmts_renumber body).comp (bindExpr?_renumber test)

theorem bindCases_renumber :
    (cs : List Case) → NameTable.Carries r (bindCases cs) (bindCases (renumberCases r cs))
  | [] => rfl
  | c :: cs => (bindCases_renumber cs).comp c.bind_renumber

theorem bindStmts_renumber :
    (ss : List Stmt) → NameTable.Carries r (bindStmts ss) (bindStmts (renumberStmts r ss))
  | [] => rfl
  | s :: ss => (bindStmts_renumber ss).comp s.bind_renumber

theorem Stmt.bind_renumber : (s : Stmt) → NameTable.Carries r s.bind (s.renumber r).bind
  | .expr e => deeper e.bind_renumber
  | .var _ list => deeper list.bind_renumber
  | .function _ f => deeper (f.bind_renumber false)
  | .classDecl _ c => deeper (c.bind_renumber false)
  | .importFrom _ _ _ _ | .ambient _ _ => deeper rfl
  | .importEquals _ _ _ .require _ => deeper rfl
  | .importEquals _ _ _ .entity value => deeper value.bind_renumber
  | .exportFrom _ (some (.named specifiers)) none _ => deeper (bindSpecifiers specifiers)
  | .exportFrom _ none _ _ => deeper rfl
  | .exportFrom _ (some (.star _)) _ _ => deeper rfl
  | .exportFrom _ (some (.named _)) (some _) _ => deeper rfl
  | .exportValue _ _ value => deeper value.bind_renumber
  | .block body => deeper (((bindStmts_renumber body).comp (declareLexical body)).inScope .block)
  | .ifThen test yes => deeper (yes.bind_renumber.comp test.bind_renumber)
  | .ifElse test yes no =>
    deeper (no.bind_renumber.comp (yes.bind_renumber.comp test.bind_renumber))
  | .forLoop init test update body =>
    deeper (forInit init (body.bind_renumber.comp ((bindExpr?_renumber update).comp
      ((bindExpr?_renumber test).comp init.bind_renumber))))
  | .forIn head object body =>
    deeper ((forHead head (body.bind_renumber.comp head.bind_renumber)).comp object.bind_renumber)
  | .forOf head iterable body _ =>
    deeper ((forHead head (body.bind_renumber.comp head.bind_renumber)).comp
      iterable.bind_renumber)
  | .whileLoop test body => deeper (body.bind_renumber.comp test.bind_renumber)
  | .doWhile body test => deeper (body.bind_renumber.comp test.bind_renumber)
  | .tryCatch body handler finalizer =>
    deeper ((bindFinally?_renumber finalizer).comp ((bindCatch?_renumber handler).comp
      (((bindStmts_renumber body).comp (declareLexical body)).inScope .block)))
  | .switch subject cases =>
    deeper ((((bindCases_renumber cases).comp (declareCases cases)).inScope .block).comp
      subject.bind_renumber)
  | .labeled _ body => deeper body.bind_renumber
  | .withObject object body => deeper (body.bind_renumber.comp object.bind_renumber)
  | .ret arg => deeper (bindExpr?_renumber arg)
  | .throw arg => deeper arg.bind_renumber
  | .breakTo _ | .continueTo _ | .empty | .debugger => deeper rfl

end

/-! ## Files -/

theorem NameTable.exportedSpecifiers_renumber (ss : List Stmt) :
    exportedSpecifiers (ss.map (·.renumber r)) =
      (exportedSpecifiers ss).map (·.renumber r) := by
  induction ss with
  | nil => rfl
  | cons s ss ih =>
    refine map_append_of_eq ?_ ih
    cases s with
    | exportFrom site clause specifier isTypeOnly =>
      cases specifier with
      | some e => cases clause with
        | none => rfl
        | some c => cases c <;> rfl
      | none =>
        cases clause with
        | none => rfl
        | some c =>
          cases c with
          | star x => rfl
          | named specifiers =>
            cases isTypeOnly with
            | true => rfl
            | false =>
              exact List.filter_map ..
    | _ => rfl

/-- Binding takes a file under new numbers to its table under new numbers. -/
@[simp] theorem NameTable.ofFile_renumber (file : SourceFile) :
    ofFile (file.renumber r) = (ofFile file).renumber r := by
  have hstep := (((Carries.markExported (r := r) (exportedSpecifiers file.statements)).comp
    ((bindStmts_renumber r file.statements).comp
      (Carries.declareBody true file.statements))).inScope .module) { file := some file.id }
  have hempty : renumber r { file := some file.id } = { file := some (r file.id) } := by
    simp [renumber]
  simp only [renumberStmts_eq, ← exportedSpecifiers_renumber, hempty] at hstep
  exact hstep

end RegisterForm
