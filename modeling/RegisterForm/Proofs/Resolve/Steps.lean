import RegisterForm.Proofs.Scope.Clause
/-!
# Binding as a list of steps

Reading a tree into a table of names is a list of steps: a scope is entered or left, a name is
declared, an identifier is resolved. Which steps are taken depends on the tree alone, and how deep
the tree is read on the depth at which it stands.
-/
namespace RegisterForm
open NameTable

/-- One change of a table of names. -/
inductive BindStep where
  | enter (kind : ScopeKind)
  | leave
  | declare (b : Binding)
  | declareVar (b : Binding)
  | resolve (x : Ident)
  /-- Resolves a name of a local export clause and notes what it refers to. -/
  | refer (s : ExportSpecifier)

namespace BindStep

def run : BindStep → NameTable → NameTable
  | enter kind, t => t.enter kind
  | leave, t => t.leave
  | declare b, t => t.declare b
  | declareVar b, t => t.declareVar b
  | resolve x, t => t.resolve x
  | refer s, t => t.bindSpecifier s

def runAll (σ : List BindStep) (t : NameTable) : NameTable := σ.foldl (fun t step => step.run t) t

/-- The binding that a step makes. -/
def binding? : BindStep → Option Binding
  | declare b | declareVar b => some b
  | _ => none

/-- The identifier that a step resolves. -/
def resolved? : BindStep → Option Ident
  | resolve x => some x
  | refer s => some s.source
  | _ => none

/-- The identifiers that the steps declare, in order. -/
def declared (σ : List BindStep) : List Ident := (σ.filterMap binding?).map (·.ident)

/-- The identifiers that the steps resolve, in order. -/
def resolved (σ : List BindStep) : List Ident := σ.filterMap resolved?

section lists
variable (σ τ : List BindStep)

@[simp] theorem runAll_nil (t : NameTable) : runAll [] t = t := rfl

@[simp] theorem runAll_cons (step : BindStep) (t : NameTable) :
    runAll (step :: σ) t = runAll σ (step.run t) := rfl

@[simp] theorem runAll_append (t : NameTable) : runAll (σ ++ τ) t = runAll τ (runAll σ t) :=
  List.foldl_append

@[simp] theorem declared_nil : declared [] = [] := rfl

@[simp] theorem declared_append : declared (σ ++ τ) = declared σ ++ declared τ := by
  simp [declared]

@[simp] theorem resolved_nil : resolved [] = [] := rfl

@[simp] theorem resolved_append : resolved (σ ++ τ) = resolved σ ++ resolved τ := by
  simp [resolved]

@[simp] theorem resolved_cons (step : BindStep) :
    resolved (step :: σ) = step.resolved?.toList ++ resolved σ := by
  unfold resolved
  rw [List.filterMap_cons]
  cases step.resolved? <;> rfl

@[simp] theorem declared_cons (step : BindStep) :
    declared (step :: σ) = step.binding?.toList.map (·.ident) ++ declared σ := by
  unfold declared
  rw [List.filterMap_cons]
  cases step.binding? <;> rfl

end lists

/-! ## Depth does not matter for a step -/

end BindStep

namespace NameTable
variable (d : Nat) (t : NameTable)

theorem declareIn_withDepth (b : Binding) (k : ScopeId) :
    ({ t with depth := d } : NameTable).declareIn b k = { t.declareIn b k with depth := d } := by
  have hscope : ({ t with depth := d } : NameTable).scope? k = t.scope? k := rfl
  unfold declareIn
  rw [hscope]
  cases t.scope? k with
  | none => rfl
  | some scope =>
    dsimp only
    cases scope.symbols.lookup b.ident.name <;> rfl

theorem declare_withDepth (b : Binding) :
    ({ t with depth := d } : NameTable).declare b = { t.declare b with depth := d } := by
  unfold declare
  dsimp only
  split
  · rfl
  · exact declareIn_withDepth d t b _

theorem declareVar_withDepth (b : Binding) :
    ({ t with depth := d } : NameTable).declareVar b = { t.declareVar b with depth := d } := by
  have hvar : ({ t with depth := d } : NameTable).varScope? = t.varScope? := rfl
  unfold declareVar
  rw [hvar]
  split
  · rfl
  · exact declareIn_withDepth d t b _

theorem scopesFrom_withDepth (bound : Nat) (id : ScopeId) :
    ({ t with depth := d } : NameTable).scopesFrom bound id = t.scopesFrom bound id := by
  induction bound generalizing id with
  | zero => rfl
  | succ bound ih =>
    have hscope : ({ t with depth := d } : NameTable).scope? id = t.scope? id := rfl
    simp only [scopesFrom, hscope, ih]

theorem resolve_withDepth (x : Ident) :
    ({ t with depth := d } : NameTable).resolve x = { t.resolve x with depth := d } := by
  have hlookup : ({ t with depth := d } : NameTable).lookup? x.name = t.lookup? x.name := by
    have hchain : ({ t with depth := d } : NameTable).chain = t.chain :=
      funext fun id => scopesFrom_withDepth d t (id + 1) id
    unfold lookup?
    rw [hchain]
    rfl
  unfold NameTable.resolve
  rw [hlookup]
  dsimp only
  split
  · rfl
  · split <;> rfl

theorem bindSpecifier_withDepth (s : ExportSpecifier) :
    ({ t with depth := d } : NameTable).bindSpecifier s = { t.bindSpecifier s with depth := d } := by
  unfold bindSpecifier
  rw [resolve_withDepth]
  dsimp only
  split <;> rfl

end NameTable

namespace BindStep

theorem run_withDepth (d : Nat) (t : NameTable) : (step : BindStep) →
    step.run { t with depth := d } = { step.run t with depth := d }
  | enter _ => rfl
  | leave => rfl
  | declare b => declare_withDepth d t b
  | declareVar b => declareVar_withDepth d t b
  | resolve x => resolve_withDepth d t x
  | refer s => bindSpecifier_withDepth d t s

theorem runAll_withDepth (d : Nat) (t : NameTable) (σ : List BindStep) :
    runAll σ { t with depth := d } = { runAll σ t with depth := d } := by
  induction σ generalizing t with
  | nil => rfl
  | cons step σ ih => rw [runAll_cons, run_withDepth, ih, runAll_cons]

theorem depth_runAll (t : NameTable) (σ : List BindStep) : (runAll σ t).depth = t.depth := by
  have h : runAll σ t = { runAll σ t with depth := t.depth } := runAll_withDepth t.depth t σ
  exact (congrArg NameTable.depth h).trans rfl

/-! ## The steps of a tree -/

/-- What is read one level deeper, and not at all below the deepest level. -/
def nested (depth : Nat) (σ : Nat → List BindStep) : List BindStep :=
  if depth < maxTreeDepth then σ (depth + 1) else []

def inside (kind : ScopeKind) (σ : List BindStep) : List BindStep :=
  .enter kind :: (σ ++ [.leave])

def insideIf (wanted : Bool) (kind : ScopeKind) (σ : List BindStep) : List BindStep :=
  if wanted then inside kind σ else σ

def declaring (bs : List Binding) : List BindStep := bs.map .declare

def declaringVars (bs : List Binding) : List BindStep := bs.map .declareVar

def declaringBody (inModule : Bool) (body : List Stmt) : List BindStep :=
  declaringVars (blockVarBindings body) ++ declaring (blockLexicalBindings inModule body)

/-- The name of a function or class expression is declared in a scope around it. -/
def insideName (isExpression : Bool) (name : Option Ident) (roles : Roles) (σ : List BindStep) :
    List BindStep :=
  match name with
  | some x => if isExpression then inside .expressionName (.declare ⟨x, roles, none⟩ :: σ) else σ
  | none => σ

end BindStep

open BindStep

mutual

def Expr.bindSteps (e : Expr) (depth : Nat) : List BindStep :=
  nested depth fun d => match e with
    | .ident x => [.resolve x]
    | .literal _ | .this | .super | .importMeta => []
    | .template _ parts => exprsBindSteps parts d
    | .tagged tag _ parts => tag.bindSteps d ++ exprsBindSteps parts d
    | .array elements => slotsBindSteps elements d
    | .object properties => propertiesBindSteps properties d
    | .function f => f.bindSteps true d
    | .arrow params body _ =>
      inside .function (declaring (paramBindings params) ++ declaringBody false body.statements ++
        (paramsBindSteps params d ++ body.bindSteps d))
    | .classExpr c => c.bindSteps true d
    | .unary _ arg => arg.bindSteps d
    | .update _ _ arg => arg.bindSteps d
    | .binary _ left right => left.bindSteps d ++ right.bindSteps d
    | .assign _ target value => target.bindSteps d ++ value.bindSteps d
    | .conditional test yes no => test.bindSteps d ++ yes.bindSteps d ++ no.bindSteps d
    | .call callee args _ => callee.bindSteps d ++ exprsBindSteps args d
    | .newBare callee => callee.bindSteps d
    | .newCall callee args => callee.bindSteps d ++ exprsBindSteps args d
    | .member owner _ _ => owner.bindSteps d
    | .index owner key _ => owner.bindSteps d ++ key.bindSteps d
    | .sequence exprs => exprsBindSteps exprs d
    | .paren inner => inner.bindSteps d
    | .yield arg _ => exprBindSteps? arg d
    | .await arg => arg.bindSteps d
    | .spread arg => arg.bindSteps d
    | .importCall specifier => specifier.bindSteps d

def exprsBindSteps : List Expr → Nat → List BindStep
  | [], _ => []
  | e :: es, d => e.bindSteps d ++ exprsBindSteps es d

def exprBindSteps? : Option Expr → Nat → List BindStep
  | none, _ => []
  | some e, d => e.bindSteps d

def slotsBindSteps : List (Option Expr) → Nat → List BindStep
  | [], _ => []
  | e :: es, d => exprBindSteps? e d ++ slotsBindSteps es d

def Key.bindSteps : Key → Nat → List BindStep
  | .name _, _ | .string _, _ | .number _, _ => []
  | .computed e, d => e.bindSteps d

def Property.bindSteps : Property → Nat → List BindStep
  | .keyed key value, d => key.bindSteps d ++ value.bindSteps d
  | .shorthand x, _ => [.resolve x]
  | .method key _ f, d => key.bindSteps d ++ f.bindSteps false d
  | .spread e, d => e.bindSteps d

def propertiesBindSteps : List Property → Nat → List BindStep
  | [], _ => []
  | p :: ps, d => p.bindSteps d ++ propertiesBindSteps ps d

def Pattern.bindSteps : Pattern → Nat → List BindStep
  | .ident x, _ => [.resolve x]
  | .expr e, d => e.bindSteps d
  | .object properties rest, d =>
    patternPropertiesBindSteps properties d ++ patternBindSteps? rest d
  | .array elements rest, d => patternSlotsBindSteps elements d ++ patternBindSteps? rest d

def patternBindSteps? : Option Pattern → Nat → List BindStep
  | none, _ => []
  | some p, d => p.bindSteps d

def PatternProperty.bindSteps : PatternProperty → Nat → List BindStep
  | .keyed key target fallback, d =>
    key.bindSteps d ++ target.bindSteps d ++ exprBindSteps? fallback d
  | .shorthand x fallback, d => .resolve x :: exprBindSteps? fallback d

def patternPropertiesBindSteps : List PatternProperty → Nat → List BindStep
  | [], _ => []
  | p :: ps, d => p.bindSteps d ++ patternPropertiesBindSteps ps d

def PatternElement.bindSteps : PatternElement → Nat → List BindStep
  | ⟨target, fallback⟩, d => target.bindSteps d ++ exprBindSteps? fallback d

def patternSlotBindSteps : Option PatternElement → Nat → List BindStep
  | none, _ => []
  | some e, d => e.bindSteps d

def patternSlotsBindSteps : List (Option PatternElement) → Nat → List BindStep
  | [], _ => []
  | e :: es, d => patternSlotBindSteps e d ++ patternSlotsBindSteps es d

def Param.bindSteps : Param → Nat → List BindStep
  | ⟨pattern, fallback, _⟩, d => pattern.bindSteps d ++ exprBindSteps? fallback d

def paramsBindSteps : List Param → Nat → List BindStep
  | [], _ => []
  | p :: ps, d => p.bindSteps d ++ paramsBindSteps ps d

def Func.bindSteps (isExpression : Bool) : Func → Nat → List BindStep
  | ⟨name, params, body, _, _⟩, d =>
    insideName isExpression name { isFunction := true } (inside .function
      (declaring (paramBindings params) ++ declaringBody false body ++
        (paramsBindSteps params d ++ stmtsBindSteps body d)))

def ArrowBody.bindSteps : ArrowBody → Nat → List BindStep
  | .block body, d => stmtsBindSteps body d
  | .expr e, d => e.bindSteps d

def Class.bindSteps (isExpression : Bool) : Class → Nat → List BindStep
  | ⟨name, base, members⟩, d =>
    insideName isExpression name { isClass := true }
      (exprBindSteps? base d ++ membersBindSteps members d)

def ClassMember.bindSteps : ClassMember → Nat → List BindStep
  | .method key _ _ f, d => key.bindSteps d ++ f.bindSteps false d
  | .field key _ value, d => key.bindSteps d ++ exprBindSteps? value d
  | .staticBlock body, d => inside .function (declaringBody false body ++ stmtsBindSteps body d)

def membersBindSteps : List ClassMember → Nat → List BindStep
  | [], _ => []
  | m :: ms, d => m.bindSteps d ++ membersBindSteps ms d

def Declarator.bindSteps : Declarator → Nat → List BindStep
  | ⟨target, init⟩, d => target.bindSteps d ++ exprBindSteps? init d

def declaratorsBindSteps : List Declarator → Nat → List BindStep
  | [], _ => []
  | v :: vs, d => v.bindSteps d ++ declaratorsBindSteps vs d

def VarList.bindSteps : VarList → Nat → List BindStep
  | ⟨_, declarators⟩, d => declaratorsBindSteps declarators d

def ForInit.bindSteps : ForInit → Nat → List BindStep
  | .absent, _ => []
  | .var list, d => list.bindSteps d
  | .expr e, d => e.bindSteps d

def ForHead.bindSteps : ForHead → Nat → List BindStep
  | .var list, d => list.bindSteps d
  | .pattern p, d => p.bindSteps d

def Catch.bindSteps : Catch → Nat → List BindStep
  | ⟨param, body⟩, d =>
    inside .catch (declaring (catchBindings param) ++ patternBindSteps? param d ++
      declaring (blockLexicalBindings false body) ++ stmtsBindSteps body d)

def catchBindSteps? : Option Catch → Nat → List BindStep
  | none, _ => []
  | some c, d => c.bindSteps d

def finallyBindSteps? : Option (List Stmt) → Nat → List BindStep
  | none, _ => []
  | some body, d =>
    inside .block (declaring (blockLexicalBindings false body) ++ stmtsBindSteps body d)

def Case.bindSteps : Case → Nat → List BindStep
  | ⟨test, body⟩, d => exprBindSteps? test d ++ stmtsBindSteps body d

def casesBindSteps : List Case → Nat → List BindStep
  | [], _ => []
  | c :: cs, d => c.bindSteps d ++ casesBindSteps cs d

def stmtsBindSteps : List Stmt → Nat → List BindStep
  | [], _ => []
  | s :: ss, d => s.bindSteps d ++ stmtsBindSteps ss d

def Stmt.bindSteps (s : Stmt) (depth : Nat) : List BindStep :=
  nested depth fun d => match s with
    | .expr e => e.bindSteps d
    | .var _ list => list.bindSteps d
    | .function _ f => f.bindSteps false d
    | .classDecl _ c => c.bindSteps false d
    | .importFrom _ _ _ _ | .ambient _ _ => []
    | .importEquals _ _ _ .require _ => []
    | .importEquals _ _ _ .entity value => value.bindSteps d
    | .exportFrom _ (some (.named specifiers)) none _ => specifiers.map .refer
    | .exportFrom _ _ _ _ => []
    | .exportValue _ _ value => value.bindSteps d
    | .block body =>
      inside .block (declaring (blockLexicalBindings false body) ++ stmtsBindSteps body d)
    | .ifThen test yes => test.bindSteps d ++ yes.bindSteps d
    | .ifElse test yes no => test.bindSteps d ++ yes.bindSteps d ++ no.bindSteps d
    | .forLoop init test update body =>
      insideIf init.isLexical .block (declaring init.lexicalBindings ++
        (init.bindSteps d ++ exprBindSteps? test d ++ exprBindSteps? update d ++ body.bindSteps d))
    | .forIn head object body =>
      object.bindSteps d ++ insideIf head.isLexical .block (declaring head.lexicalBindings ++
        (head.bindSteps d ++ body.bindSteps d))
    | .forOf head iterable body _ =>
      iterable.bindSteps d ++ insideIf head.isLexical .block (declaring head.lexicalBindings ++
        (head.bindSteps d ++ body.bindSteps d))
    | .whileLoop test body => test.bindSteps d ++ body.bindSteps d
    | .doWhile body test => test.bindSteps d ++ body.bindSteps d
    | .tryCatch body handler finalizer =>
      inside .block (declaring (blockLexicalBindings false body) ++ stmtsBindSteps body d) ++
        catchBindSteps? handler d ++ finallyBindSteps? finalizer d
    | .switch subject cases =>
      subject.bindSteps d ++ inside .block (declaring (cases.flatMap fun c =>
        blockLexicalBindings false c.body) ++ casesBindSteps cases d)
    | .labeled _ body => body.bindSteps d
    | .withObject object body => object.bindSteps d ++ body.bindSteps d
    | .ret arg => exprBindSteps? arg d
    | .throw arg => arg.bindSteps d
    | .breakTo _ | .continueTo _ | .empty | .debugger => []

end

theorem Expr.bindSteps_arrow (params : List Param) (body : ArrowBody) (isAsync : Bool)
    (depth : Nat) :
    (Expr.arrow params body isAsync).bindSteps depth = nested depth fun d =>
      inside .function (declaring (paramBindings params) ++ declaringBody false body.statements ++
        (paramsBindSteps params d ++ body.bindSteps d)) := rfl

/-- The steps that bind a module, from its scope on; the scope stays open. -/
def SourceFile.bindSteps (file : SourceFile) : List BindStep :=
  .enter .module :: (declaringBody true file.statements ++ stmtsBindSteps file.statements 0)

end RegisterForm
