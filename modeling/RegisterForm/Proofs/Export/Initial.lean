import RegisterForm.Proofs.Export.Names
import RegisterForm.Proofs.Export.Publication
import RegisterForm.Proofs.Lowering.Execute
import RegisterForm.Proofs.Lowering.Loops
/-!
# Initial values

From the step on that gives a variable of the module its initial value, a name of the variable
is published by that step itself, or else by a later statement of the module. A declaration of
variables publishes all names of a variable with its initial value; the declaration of a class
publishes only the name that its own modifiers give.
-/
namespace RegisterForm
open Lowering NameTable

/-- The variables that a statement of the module gives their initial values, in order. -/
def Stmt.initialised (t : NameTable) : Stmt → List Ident
  | .var _ list =>
    list.declarators.flatMap fun d => if d.init.isSome then d.target.boundIdents else []
  | .classDecl _ c => c.name.toList
  | .importEquals _ _ name .entity value =>
    if t.importEqualsIsValue .entity value then [name] else []
  | _ => []

/-- The names under which such a statement publishes one of them. -/
def Setting.initialNames (s : Setting) (st : Stmt) (x : Ident) : List String :=
  match st with
  | .classDecl modifiers _ =>
    if modifiers.isExported then [Interface.exportNameOf modifiers x.name] else []
  | _ => s.exportNames x

/-- What a name of a local export clause publishes where the clause stands. -/
def Setting.specifierPublishes (s : Setting) (spec : ExportSpecifier) : List (String × String) :=
  if s.names.specifierIsValue spec && (s.names.importOf? spec.source).isNone
      && !(s.names.valueDeclaration? spec.source).any s.interface.functions.contains then
    [(spec.source.name, spec.exportedName)]
  else []

/-- What a statement of the module publishes as one of its own steps. -/
def Stmt.publishes (s : Setting) : Stmt → List (String × String)
  | .expr e => e.publishes s false
  | .exportValue _ _ value =>
    if s.names.expressionIsValue value then value.publishes s true else []
  | .exportFrom _ (some (.named specs)) none false => specs.flatMap s.specifierPublishes
  | st => (st.initialised s.names).flatMap fun x =>
      (s.initialNames st x).map fun name => (x.name, name)

/-- A statement that exports a value or a class without a name, and as what. -/
def Stmt.ExportsUnnamed (name : String) : Stmt → Prop
  | .exportValue _ _ _ => name = "default"
  | .classDecl modifiers ⟨none, _, _⟩ =>
    modifiers.isExported = true ∧ (modifiers.isDefault = true → name = "default")
  | _ => False

/-- The steps of the statements that are expressions, in order. -/
def topSteps (stmts : List Stmt) : List Expr :=
  stmts.flatMap fun
    | .expr e => e.steps
    | _ => []

/-- What the steps of some statements publish. -/
def stepPublications (exporter : String) (steps : List Expr) : List (String × String) :=
  steps.flatMap (·.publications exporter)

/-- The step gives the variable its initial value: what the calls of the exporter surround is an
assignment to it, or one of a class that bears its name. -/
def Expr.Initialises (exporter : String) (x : Ident) (e : Expr) : Prop :=
  (∃ value, (e.peel exporter).2 = .assignTo (.ident x) value) ∨
    ∃ base members, (e.peel exporter).2 = .assignName x.name (.classExpr ⟨some x, base, members⟩)

section steps
variable {exporter : String}

@[simp] theorem topSteps_append (stmts more : List Stmt) :
    topSteps (stmts ++ more) = topSteps stmts ++ topSteps more := List.flatMap_append

@[simp] theorem stepPublications_append (steps more : List Expr) :
    stepPublications exporter (steps ++ more) =
      stepPublications exporter steps ++ stepPublications exporter more := List.flatMap_append

theorem stepPublications_expr (e : Expr) :
    stepPublications exporter (topSteps [.expr e]) = e.publications exporter := by
  simp [stepPublications, topSteps, e.steps_publications]

theorem stepPublications_ofList (es : List Expr) :
    stepPublications exporter (topSteps ((Expr.ofList es).toList.map .expr)) =
      es.flatMap (·.publications exporter) := by
  cases es with
  | nil => rfl
  | cons e es =>
    have hsome : ∃ joined, Expr.ofList (e :: es) = some joined := by
      cases es <;> exact ⟨_, rfl⟩
    obtain ⟨joined, hjoined⟩ := hsome
    have hpub : ((Expr.ofList (e :: es)).getD e).publications exporter =
        (e :: es).flatMap (·.publications exporter) := publications_ofList (List.cons_ne_nil e es)
    rw [hjoined] at hpub ⊢
    exact (stepPublications_expr joined).trans hpub

end steps

variable {s : Setting}

/-- The assignments of a pattern are steps of their own. -/
theorem Setting.Assigns.steps {xs : List Ident} {es : List Expr} (h : s.Assigns xs es) :
    exprsSteps es = es := by
  induction h with
  | nil => rfl
  | leaf x value _ ih =>
    have hone : (s.bindingAssignment x value).steps = [s.bindingAssignment x value] :=
      Setting.steps_published x rfl
    rw [exprsSteps, hone, ih]
    rfl
  | temporary name value _ ih => rw [exprsSteps, ih]; rfl
  | target target value _ ih => rw [exprsSteps, ih]; rfl

theorem topSteps_ofList {es : List Expr} (h : exprsSteps es = es) :
    topSteps ((Expr.ofList es).toList.map .expr) = es := by
  match es with
  | [] => rfl
  | [e] => simpa [Expr.ofList, topSteps, exprsSteps] using h
  | e₁ :: e₂ :: es => simpa [Expr.ofList, topSteps, Expr.steps] using h

/-! ## Declarations -/

theorem hoistedDeclarators_assigns : ∀ ds : List Declarator,
    Yields Any (hoistedDeclarators s ds) (s.Assigns
      (ds.flatMap fun d => if d.init.isSome then d.target.boundIdents else []))
  | [] => .pure .nil
  | ⟨target, none⟩ :: ds => by
    have hfirst : Yields Any (Declarator.hoisted s ⟨target, none⟩) (s.Assigns []) :=
      (yields_any _).bind fun _ _ => .pure .nil
    exact hfirst.bind fun exprs hexprs => (hoistedDeclarators_assigns ds).bind
      fun more hmore => .pure (hexprs.append hmore)
  | ⟨target, some init⟩ :: ds => by
    have hfirst : Yields Any (Declarator.hoisted s ⟨target, some init⟩)
        (s.Assigns target.boundIdents) :=
      (yields_any _).bind fun _ _ => (yields_any _).bind fun value _ =>
        target.flatten_assigns _ 0 value
    exact hfirst.bind fun exprs hexprs => (hoistedDeclarators_assigns ds).bind
      fun more hmore => .pure (hexprs.append hmore)

/-- A declaration of the module leaves the assignments of what it initialises. -/
theorem var_lower_assigns (modifiers : Modifiers) (list : VarList) :
    Yields Any ((Stmt.var modifiers list).lower s .topLevel) fun stmts =>
      ∃ es, s.Assigns ((Stmt.var modifiers list).initialised s.names) es ∧
        stmts = (Expr.ofList es).toList.map .expr := by
  obtain ⟨kind, ds⟩ := list
  refine .deeper s (.ite (fun _ => ?_) fun h => absurd rfl h)
  have hlist : Yields Any (VarList.hoisted s ⟨kind, ds⟩)
      (s.Assigns ((Stmt.var modifiers ⟨kind, ds⟩).initialised s.names)) :=
    hoistedDeclarators_assigns ds
  refine .ite (fun _ => (yields_any _).bind fun _ _ => ?_) fun _ => ?_
  · exact hlist.bind fun es hes => .pure ⟨es, hes, rfl⟩
  · exact hlist.bind fun es hes => .pure ⟨es, hes, rfl⟩

theorem Class.lower_name (c : Class) : Yields Any (c.lower s) fun c' => c'.name = c.name := by
  obtain ⟨name, base, members⟩ := c
  exact (yields_any _).bind fun _ _ => (yields_any _).bind fun _ _ => .pure rfl

/-- A class of the module leaves the assignment of the class and maybe one publication. -/
theorem classDecl_lower (modifiers : Modifiers) (c : Class) :
    Yields Any ((Stmt.classDecl modifiers c).lower s .topLevel) fun stmts => ∃ name c',
      c'.name = c.name ∧ (∀ x, c.name = some x → name = x.name) ∧
        stmts = .expr (.assignName name (.classExpr c')) ::
          if modifiers.isExported then
            [.expr (s.publish (Interface.exportNameOf modifiers name) (.ofName name))]
          else [] := by
  refine .deeper s (.ite (fun _ => ?_) fun h => absurd rfl h)
  have hname : Yields Any (hoistClassName c.name) fun name => ∀ x, c.name = some x →
      name = x.name := by
    unfold hoistClassName
    cases c.name with
    | none =>
      refine (yields_any _).bind fun _ _ => (yields_any _).bind fun _ _ => .pure ?_
      rintro x ⟨⟩
    | some x =>
      refine (Yields.pure rfl : Yields Any _ fun name => name = x.name).bind fun name hname => ?_
      refine (yields_any _).bind fun _ _ => .pure ?_
      rintro _ ⟨⟩
      exact hname
  refine hname.bind fun name hname => c.lower_name.bind fun c' hc => ?_
  unfold classAssignment
  refine .ite (fun he => ?_) fun he => .pure ⟨name, c', hc, hname, by rw [if_neg he]⟩
  have hcall : Yields Any (exportCall s modifiers name) fun call =>
      call = s.publish (Interface.exportNameOf modifiers name) (.ofName name) := by
    unfold exportCall
    exact .ite (fun _ => (yields_any _).bind fun _ _ => .pure rfl) fun _ => .pure rfl
  exact hcall.bind fun call hcall => .pure ⟨name, c', hc, hname, by rw [if_pos he, hcall]⟩

/-- An alias of the module leaves its assignment, if it is a value. -/
theorem importEquals_lower (site : Site) (isExported : Bool) (x : Ident) (kind : Reference)
    (value : Expr) :
    Yields Any ((Stmt.importEquals site isExported x kind value).lower s .topLevel) fun stmts =>
      (stmts = [] ∧ (Stmt.importEquals site isExported x kind value).initialised s.names = []) ∨
        ∃ e, stmts = [.expr (s.bindingAssignment x e)] ∧
          (Stmt.importEquals site isExported x kind value).initialised s.names = [x] := by
  refine .deeper s (.ite (fun _ => ?_) fun h => absurd rfl h)
  cases kind with
  | require =>
    refine .ite (fun _ => .pure (.inl ⟨rfl, rfl⟩)) fun _ => (yields_any _).bind fun _ _ => ?_
    exact .ite (fun _ => (yields_any _).bind fun _ _ => .pure (.inl ⟨rfl, rfl⟩))
      fun _ => .pure (.inl ⟨rfl, rfl⟩)
  | entity =>
    refine .ite (fun hv => .pure (.inl ⟨rfl, if_neg (by simpa using hv)⟩)) fun hv =>
      (yields_any _).bind fun _ _ => ?_
    have hx : (Stmt.importEquals site isExported x .entity value).initialised s.names = [x] :=
      if_pos (by simpa using hv)
    exact .ite (fun _ => (yields_any _).bind fun _ _ => (yields_any _).bind fun e _ =>
      .pure (.inr ⟨e, rfl, hx⟩)) fun _ => (yields_any _).bind fun e _ => .pure (.inr ⟨e, rfl, hx⟩)

/-! ## Statements of the module -/

/-- A name of a clause publishes where the clause stands, unless a setter or a function does. -/
theorem exportSpecifier_publishes (spec : ExportSpecifier) :
    Yields Any (exportSpecifier s spec) fun stmts =>
      stepPublications s.exporter (topSteps stmts) = s.specifierPublishes spec := by
  unfold exportSpecifier Setting.specifierPublishes
  refine .ite (fun hv => .pure ?_) fun hv => (yields_any _).bind fun _ _ => ?_
  · have hv' : s.names.specifierIsValue spec = false := by simpa using hv
    simp [hv', topSteps, stepPublications]
  · have hv' : s.names.specifierIsValue spec = true := by simpa using hv
    refine .ite (fun hi => .pure ?_) fun hi => .ite (fun hf => ?_) fun hf => .pure ?_
    · simp [Option.isSome_iff_ne_none.mp hi, topSteps, stepPublications]
    · refine (yields_any _).bind fun _ _ => .pure ?_
      simp [hf, topSteps, stepPublications]
    · have hi' : s.names.importOf? spec.source = none := by simpa using hi
      rw [if_pos (by simp [hv', hi', Bool.eq_false_iff.mpr hf]), stepPublications_expr,
        Setting.publications_publish]
      rfl

theorem exportSpecifiers_publishes : ∀ specs : List ExportSpecifier,
    Yields Any (exportSpecifiers s specs) fun stmts =>
      stepPublications s.exporter (topSteps stmts) = specs.flatMap s.specifierPublishes
  | [] => .pure rfl
  | spec :: specs => by
    refine (exportSpecifier_publishes spec).bind fun stmts h => ?_
    refine (exportSpecifiers_publishes specs).bind fun more hmore => .pure ?_
    rw [topSteps_append, stepPublications_append, h, hmore, List.flatMap_cons]

/-- A call that publishes the value of an expression as the default export. -/
theorem publications_default {name : String} (hname : name ≠ "default") (x : String) (e : Expr) :
    (x, name) ∈ (s.publish "default" e).publications s.exporter ↔
      (x, name) ∈ e.publications s.exporter := by
  rw [Setting.publications_publish, List.mem_append]
  simp [Ne.symm hname]

/-- What a statement of the module leaves publishes what its source says. -/
theorem Stmt.lower_publishes (st : Stmt)
    (hread : ∀ x ∈ identsIn st.visits, s.read x ≠ .ofName s.exporter) :
    Yields Any (st.lower s .topLevel) fun stmts => ∀ x name, ¬st.ExportsUnnamed name →
      ((x, name) ∈ stepPublications s.exporter (topSteps stmts) ↔ (x, name) ∈ st.publishes s) := by
  have hnone : ∀ {stmt : Stmt}, topSteps [stmt] = [] → ∀ {st : Stmt}, st.publishes s = [] →
      ∀ x name, ¬st.ExportsUnnamed name →
        ((x, name) ∈ stepPublications s.exporter (topSteps [stmt]) ↔ (x, name) ∈ st.publishes s) := by
    intro stmt hstmt st hst x name _
    rw [hstmt, hst]
    rfl
  have hgone : ∀ {st : Stmt}, st.publishes s = [] → ∀ x name, ¬st.ExportsUnnamed name →
      ((x, name) ∈ stepPublications s.exporter (topSteps []) ↔ (x, name) ∈ st.publishes s) := by
    intro st hst x name _
    rw [hst]
    rfl
  cases st with
  | expr e =>
    have he := e.lower_publishes false hread
    refine .deeper s (he.bind fun e' h => .pure fun x name _ => ?_)
    rw [stepPublications_expr, h]
    rfl
  | var modifiers list =>
    refine (var_lower_assigns modifiers list).mono ?_
    rintro _ ⟨es, hes, rfl⟩ x name -
    rw [stepPublications_ofList, hes.publications]
    rfl
  | function modifiers f =>
    refine .deeper s ((yields_any _).bind fun f _ => .ite (fun _ => ?_) fun h => absurd rfl h)
    exact (yields_any _).bind fun _ _ => .pure (hgone rfl)
  | classDecl modifiers c =>
    refine (classDecl_lower modifiers c).mono ?_
    rintro _ ⟨made, c', -, hmade, rfl⟩ x name hx
    obtain ⟨className, base, members⟩ := c
    have hassign : ∀ rest, stepPublications s.exporter
        (topSteps (.expr (.assignName made (.classExpr c')) :: rest)) =
          stepPublications s.exporter (topSteps rest) := fun rest => rfl
    rw [hassign]
    by_cases he : modifiers.isExported = true
    · rw [if_pos he, stepPublications_expr, Setting.publications_publish]
      cases className with
      | none =>
        have hdefault : ∃ _ : modifiers.isDefault = true, name ≠ "default" := by
          by_contra hall
          refine hx ⟨he, fun hd => ?_⟩
          by_contra hn
          exact hall ⟨hd, hn⟩
        obtain ⟨hd, hn⟩ := hdefault
        simp [Stmt.publishes, Stmt.initialised, Interface.exportNameOf, hd, hn, Expr.publications,
          Expr.ofName, Expr.peel, Expr.subject?]
      | some y =>
        rw [hmade y rfl]
        simp [Stmt.publishes, Stmt.initialised, Setting.initialNames, he, Expr.publications,
          Expr.ofName, Expr.peel, Expr.subject?, Ident.synthetic]
    · rw [if_neg he]
      cases className with
      | none => simp [Stmt.publishes, Stmt.initialised, topSteps, stepPublications]
      | some y =>
        simp [Stmt.publishes, Stmt.initialised, Setting.initialNames, he, topSteps,
          stepPublications]
  | importFrom site clause specifier isTypeOnly =>
    refine .deeper s (.ite (fun _ => ?_) fun h => absurd rfl h)
    exact (yields_any _).bind fun _ _ => .pure (hgone rfl)
  | importEquals site isExported y kind value =>
    refine (importEquals_lower site isExported y kind value).mono ?_
    rintro _ (⟨rfl, hnil⟩ | ⟨e, rfl, hone⟩) x name -
    · rw [Stmt.publishes, hnil]
      · rfl
      all_goals simp
    · rw [stepPublications_expr, Setting.publications_bindingAssignment, Stmt.publishes, hone]
      · simp [Setting.publications, Setting.initialNames]
      all_goals simp
  | exportFrom site clause specifier isTypeOnly =>
    refine .deeper s (.ite (fun _ => ?_) fun h => absurd rfl h)
    split
    · next specs =>
      refine (exportSpecifiers_publishes specs).mono fun stmts h x name _ => ?_
      rw [h]
      rfl
    · next hother =>
      refine .pure (hgone ?_)
      unfold Stmt.publishes
      split
      · next heq => cases heq
      · next heq => cases heq
      · next heq =>
        cases heq
        exact (hother _ rfl rfl rfl).elim
      · rfl
  | exportValue site form value =>
    refine .deeper s (.ite (fun _ => ?_) fun h => absurd rfl h)
    have hvalue := value.lower_publishes true hread
    refine .ite (fun hv => .pure fun x name _ => ?_) fun hv => hvalue.bind fun e h =>
      .pure fun x name hx => ?_
    · have hv' : s.names.expressionIsValue value = false := by simpa using hv
      simp [Stmt.publishes, hv', topSteps, stepPublications]
    · have hv' : s.names.expressionIsValue value = true := by simpa using hv
      rw [stepPublications_expr, publications_default hx, h, Stmt.publishes, if_pos hv']
  | ambient name isExported =>
    exact .deeper s (.pure (hgone rfl))
  | block body =>
    exact .deeper s ((yields_any _).bind fun _ _ => .pure (hnone rfl rfl))
  | ifThen test yes =>
    exact .deeper s ((yields_any _).bind fun _ _ => (yields_any _).bind fun _ _ =>
      .pure (hnone rfl rfl))
  | ifElse test yes no =>
    exact .deeper s ((yields_any _).bind fun _ _ => (yields_any _).bind fun _ _ =>
      (yields_any _).bind fun _ _ => .pure (hnone rfl rfl))
  | forLoop init test update body =>
    exact .deeper s ((yields_any _).bind fun _ _ => (yields_any _).bind fun _ _ =>
      (yields_any _).bind fun _ _ => (yields_any _).bind fun _ _ => .pure (hnone rfl rfl))
  | forIn head object body =>
    rw [Stmt.lower_forIn]
    exact .deeper s ((yields_any _).bind fun _ _ => (yields_any _).bind fun _ _ =>
      (yields_any _).bind fun _ _ => .pure (hnone rfl rfl))
  | forOf head iterable body isAwait =>
    rw [Stmt.lower_forOf]
    exact .deeper s ((yields_any _).bind fun _ _ => (yields_any _).bind fun _ _ =>
      (yields_any _).bind fun _ _ => .pure (hnone rfl rfl))
  | whileLoop test body =>
    exact .deeper s ((yields_any _).bind fun _ _ => (yields_any _).bind fun _ _ =>
      .pure (hnone rfl rfl))
  | doWhile body test =>
    exact .deeper s ((yields_any _).bind fun _ _ => (yields_any _).bind fun _ _ =>
      .pure (hnone rfl rfl))
  | tryCatch body handler finalizer =>
    exact .deeper s ((yields_any _).bind fun _ _ => (yields_any _).bind fun _ _ =>
      (yields_any _).bind fun _ _ => .pure (hnone rfl rfl))
  | switch subject cases =>
    exact .deeper s ((yields_any _).bind fun _ _ => (yields_any _).bind fun _ _ =>
      .pure (hnone rfl rfl))
  | labeled label body =>
    exact .deeper s ((yields_any _).bind fun _ _ => .pure (hnone rfl rfl))
  | withObject object body =>
    exact .deeper s ((yields_any _).bind fun _ _ => (yields_any _).bind fun _ _ =>
      .pure (hnone rfl rfl))
  | ret arg =>
    exact .deeper s ((yields_any _).bind fun _ _ => .pure (hnone rfl rfl))
  | throw arg =>
    exact .deeper s ((yields_any _).bind fun _ _ => .pure (hnone rfl rfl))
  | breakTo label =>
    exact .deeper s (.pure (hnone rfl rfl))
  | continueTo label =>
    exact .deeper s (.pure (hnone rfl rfl))
  | empty =>
    exact .deeper s (.pure (hnone rfl rfl))
  | debugger =>
    exact .deeper s (.pure (hnone rfl rfl))

/-- The step that gives a variable its initial value, and what is published from there on by the
statement that the step belongs to. -/
structure Setting.InitialStep (s : Setting) (st : Stmt) (x : Ident) (later : List Ident)
    (pre : List Expr) (step : Expr) (post : List Expr) : Prop where
  initialises : step.Initialises s.exporter x
  publishes : ∀ y name, (y, name) ∈ stepPublications s.exporter (step :: post) ↔
    ∃ z ∈ x :: later, z.name = y ∧ name ∈ s.initialNames st z

/-- Each variable that a statement initialises has a step of its own, in order. -/
theorem Stmt.lower_initialStep {st : Stmt} {xs ys : List Ident} {y : Ident}
    (hinit : st.initialised s.names = xs ++ y :: ys) :
    Yields Any (st.lower s .topLevel) fun stmts => ∃ pre step post,
      topSteps stmts = pre ++ step :: post ∧ s.InitialStep st y ys pre step post := by
  have hleaves : ∀ {es : List Expr}, s.Assigns (xs ++ y :: ys) es →
      (∀ z, s.initialNames st z = s.exportNames z) → ∃ pre step post,
        es = pre ++ step :: post ∧ s.InitialStep st y ys pre step post := by
    intro es hes hnames
    obtain ⟨before, value, after, rfl, -, hafter⟩ := hes.split
    have hpeel : (s.bindingAssignment y value).peel s.exporter =
        (s.exportNames y, .assignTo (.ident y) value) := Setting.peel_published y rfl
    refine ⟨before, _, after, rfl, .inl ⟨value, congrArg Prod.snd hpeel⟩, fun z name => ?_⟩
    have hpub : stepPublications s.exporter (s.bindingAssignment y value :: after) =
        (y :: ys).flatMap s.publications := by
      rw [stepPublications, List.flatMap_cons, List.flatMap_cons, hafter.publications,
        Setting.publications_bindingAssignment]
    rw [hpub, List.mem_flatMap]
    simp only [Setting.publications, hnames, List.mem_map, Prod.mk.injEq]
    grind
  cases st with
  | var modifiers list =>
    refine (var_lower_assigns modifiers list).mono ?_
    rintro _ ⟨es, hes, rfl⟩
    rw [hinit] at hes
    rw [topSteps_ofList hes.steps]
    exact hleaves hes fun _ => rfl
  | classDecl modifiers c =>
    refine (classDecl_lower modifiers c).mono ?_
    rintro _ ⟨made, ⟨className, base, members⟩, hname, hmade, rfl⟩
    have hc : c.name.toList = xs ++ y :: ys := hinit
    cases hx : c.name with
    | none =>
      rw [hx] at hc
      simp at hc
    | some x =>
      rw [hx] at hc hname
      have hxs : xs = [] ∧ x = y ∧ ys = [] := by
        cases xs with
        | nil => simpa [eq_comm] using hc
        | cons z zs => simp at hc
      obtain ⟨rfl, rfl, rfl⟩ := hxs
      obtain rfl := hmade x hx
      obtain rfl := hname
      refine ⟨[], _, _, rfl, .inr ⟨base, members, rfl⟩, fun z name => ?_⟩
      have hstep : ∀ rest, stepPublications s.exporter
          (.assignName x.name (.classExpr ⟨some x, base, members⟩) :: rest) =
            stepPublications s.exporter rest := fun rest => rfl
      rw [hstep]
      by_cases he : modifiers.isExported = true
      · simp only [he, if_true]
        have hcall : stepPublications s.exporter (topSteps [.expr (s.publish
            (Interface.exportNameOf modifiers x.name) (.ofName x.name))]) =
              [(x.name, Interface.exportNameOf modifiers x.name)] := by
          rw [stepPublications_expr, Setting.publications_publish]
          rfl
        refine Iff.trans (Iff.of_eq (congrArg ((z, name) ∈ ·) hcall)) ?_
        simp [Setting.initialNames, he, eq_comm]
      · simp only [he]
        simp [Setting.initialNames, he, stepPublications]
  | importEquals site isExported x kind value =>
    refine (importEquals_lower site isExported x kind value).mono ?_
    rintro _ (⟨-, hnil⟩ | ⟨e, rfl, hone⟩)
    · rw [hnil] at hinit
      simp at hinit
    · rw [hone] at hinit
      have hassign : s.Assigns (xs ++ y :: ys) [s.bindingAssignment x e] :=
        hinit ▸ Setting.Assigns.single s x e
      have hstep : topSteps [.expr (s.bindingAssignment x e)] = [s.bindingAssignment x e] :=
        topSteps_ofList (Setting.Assigns.single s x e).steps
      rw [hstep]
      exact hleaves hassign fun _ => rfl
  | _ => simp [Stmt.initialised] at hinit

/-! ## The module -/

/-- The statements at the end of a list are lowered to the end of what the list is lowered to. -/
theorem lowerStmts_append_yields {place : Place} {Q : List Stmt → Prop} {rest : List Stmt}
    (h : Yields Any (lowerStmts s place rest) Q) (before : List Stmt) :
    Yields Any (lowerStmts s place (before ++ rest)) fun stmts => ∃ pre post,
      stmts = pre ++ post ∧ Q post := by
  induction before with
  | nil => exact h.mono fun post hpost => ⟨[], post, rfl, hpost⟩
  | cons st before ih =>
    refine (yields_any _).bind fun stmts _ => ?_
    refine ih.bind ?_
    rintro _ ⟨pre, post, hmore, hpost⟩
    refine .pure ?_
    exact ⟨stmts ++ pre, post, by rw [hmore, List.append_assoc], hpost⟩

theorem lowerStmts_publishes : ∀ stmts : List Stmt,
    (∀ x ∈ identsIn (stmtsVisits stmts), s.read x ≠ .ofName s.exporter) →
    Yields Any (lowerStmts s .topLevel stmts) fun lowered => ∀ x name,
      (∀ st ∈ stmts, ¬st.ExportsUnnamed name) →
        ((x, name) ∈ stepPublications s.exporter (topSteps lowered) ↔
          ∃ st ∈ stmts, (x, name) ∈ st.publishes s)
  | [], _ => .pure fun x name _ => by simp [topSteps, stepPublications]
  | st :: stmts, hread => by
    have hfirst := st.lower_publishes fun x hx => hread x (by simp [stmtsVisits, hx])
    have hrest := lowerStmts_publishes stmts fun x hx => hread x (by simp [stmtsVisits, hx])
    refine hfirst.bind fun lowered h => hrest.bind fun more hmore => .pure fun x name hx => ?_
    rw [topSteps_append, stepPublications_append, List.mem_append,
      h x name (hx st List.mem_cons_self),
      hmore x name fun st' hst => hx st' (List.mem_cons_of_mem _ hst)]
    simp

/-- No identifier of a file reads as the exporter, if no variable for a module bears its name. -/
theorem Setting.read_ne_exporter {x : Ident} (hx : x.id.isSynthetic = false)
    (hholders : ∀ entry ∈ s.holders, entry.2 ≠ s.exporter) : s.read x ≠ .ofName s.exporter := by
  have hown : Expr.ident x ≠ .ofName s.exporter := by
    intro he
    rw [Expr.ofName, Expr.ident.injEq] at he
    rw [he] at hx
    cases hx
  unfold read
  split
  · exact hown
  · next origin _ =>
    split
    · exact hown
    · next holder hl =>
      obtain ⟨l₁, l₂, heq, -⟩ := List.lookup_eq_some_iff.mp hl
      have hne : holder ≠ s.exporter := hholders (origin.declaration, holder) (by simp [heq])
      have hproperty : ∀ name, s.importedProperty holder name ≠ .ofName s.exporter := by
        intro name
        unfold importedProperty
        split <;> exact fun he => by cases he
      have hholder : Expr.ofName holder ≠ .ofName s.exporter := by
        simpa [Expr.ofName, Ident.synthetic] using hne
      split
      · exact hproperty _
      · exact hproperty _
      · split
        · exact hown
        · exact hholder
      · split
        · exact hown
        · exact hholder

/-- What the body of a module publishes for a variable from its initial value on: the names that
the initialising statement gives it, once more for each time it initialises the variable again,
and what later statements publish. -/
theorem initial_publications_iff {options : Options} {file : SourceFile} {lowered : Lowered}
    {execute before after : List Stmt} {st : Stmt} {xs ys : List Ident} {y : Ident} {s : Setting}
    (hw : file.WellNumbered)
    (hs : s = (Setting.ofFile options (ofFile file) file).1)
    (hl : lower options (ofFile file) file = .ok lowered)
    (hexecute : lowered.execute? = some execute)
    (hholders : ∀ entry ∈ s.holders, entry.2 ≠ s.exporter)
    (hfile : file.statements = before ++ st :: after)
    (hinit : st.initialised s.names = xs ++ y :: ys) :
    ∃ pre step post, topSteps execute = pre ++ step :: post ∧ step.Initialises s.exporter y ∧
      ∀ name, (∀ later ∈ after, ¬later.ExportsUnnamed name) →
        ((y.name, name) ∈ stepPublications s.exporter (step :: post) ↔
          (∃ z ∈ y :: ys, z.name = y.name ∧ name ∈ s.initialNames st z) ∨
            ∃ later ∈ after, (y.name, name) ∈ later.publishes s) := by
  obtain ⟨groups, made, p, hrun, rfl⟩ := lower_eq_ok hl
  rw [Setting.execute?_assemble] at hexecute
  cases hexecute
  rw [← hs, hfile] at hrun
  have hread : ∀ x ∈ identsIn (stmtsVisits after), s.read x ≠ .ofName s.exporter := by
    refine fun x hx => Setting.read_ne_exporter (hw.not_synthetic ?_) hholders
    rw [SourceFile.visits, hfile, stmtsVisits_append, identsIn_append]
    exact List.mem_append_right _ (by simp [stmtsVisits, hx])
  have hrest : Yields Any (lowerStmts s .topLevel (st :: after)) fun stmts =>
      ∃ pre step post later, topSteps stmts = pre ++ step :: post ++ later ∧
        s.InitialStep st y ys pre step post ∧ ∀ x name,
          (∀ st ∈ after, ¬st.ExportsUnnamed name) →
            ((x, name) ∈ stepPublications s.exporter later ↔
              ∃ st ∈ after, (x, name) ∈ st.publishes s) := by
    refine (Stmt.lower_initialStep hinit).bind ?_
    rintro first ⟨pre, step, post, hfirst, hstep⟩
    refine (lowerStmts_publishes after hread).bind fun more hmore => .pure ?_
    exact ⟨pre, step, post, topSteps more, by rw [topSteps_append, hfirst], hstep, hmore⟩
  have hall := lowerStmts_append_yields hrest before hrun
  obtain ⟨-, pre, stmts, rfl, inner, step, post, later, hstmts, hstep, hlater⟩ := hall
  refine ⟨topSteps pre ++ inner, step, post ++ later, ?_, hstep.initialises, fun name hname => ?_⟩
  · rw [topSteps_append, hstmts]
    simp
  · rw [← List.cons_append, stepPublications_append, List.mem_append, hstep.publishes,
      hlater _ _ hname]

/-- `export { C }; class C {}` -/
def earlyClause : SourceFile where
  id := .numbered 4
  name := "m.ts"
  statements := [
    .exportFrom ⟨.numbered 2, {}⟩ (some (.named [⟨.numbered 0, ⟨.numbered 1, "C"⟩, none, false⟩]))
      none false,
    .classDecl {} ⟨some ⟨.numbered 3, "C"⟩, none, []⟩]

/-- The class of `earlyClause`. -/
def earlyClass : Ident := ⟨.numbered 3, "C"⟩

theorem earlyClause_wellNumbered : earlyClause.WellNumbered := ⟨by decide, by decide⟩

/-- What the module runs: `exports_1("C", C); C = class C {};` -/
def earlyExecute : List Stmt := [
  .expr ((Setting.ofFile {} (ofFile earlyClause) earlyClause).1.publish "C"
    (.ident ⟨.numbered 1, "C"⟩)),
  .expr (.assignName "C" (.classExpr ⟨some earlyClass, none, []⟩))]

theorem earlyClause_lowered : ∃ lowered,
    lower {} (ofFile earlyClause) earlyClause = .ok lowered ∧
      lowered.execute? = some earlyExecute := ⟨_, rfl, rfl⟩

/-- Neither the class nor a later statement publishes `C`. -/
theorem initial_publications_iff_earlyClause : ∃ pre step post,
    topSteps earlyExecute = pre ++ step :: post ∧ step.Initialises "exports_1" earlyClass ∧
      (("C", "C") ∈ stepPublications "exports_1" (step :: post) ↔
        (∃ z ∈ [earlyClass], z.name = "C" ∧
            "C" ∈ (Setting.ofFile {} (ofFile earlyClause) earlyClause).1.initialNames
              (.classDecl {} ⟨some earlyClass, none, []⟩) z) ∨
          ∃ later ∈ ([] : List Stmt), ("C", "C") ∈
            later.publishes (Setting.ofFile {} (ofFile earlyClause) earlyClause).1) := by
  obtain ⟨lowered, hl, hexecute⟩ := earlyClause_lowered
  have hfile : earlyClause.statements = earlyClause.statements.take 1 ++
      .classDecl {} ⟨some earlyClass, none, []⟩ :: [] := rfl
  have hinit : (Stmt.classDecl {} ⟨some earlyClass, none, []⟩).initialised
      (Setting.ofFile {} (ofFile earlyClause) earlyClause).1.names = [] ++ earlyClass :: [] := rfl
  obtain ⟨pre, step, post, hsteps, hstep, hpub⟩ := initial_publications_iff
    earlyClause_wellNumbered rfl hl hexecute (by decide) hfile hinit
  exact ⟨pre, step, post, hsteps, hstep, hpub "C" nofun⟩

/-- The class is exported as `C` by a clause before it, and what the clause publishes is from
before the class is made. -/
theorem class_not_published_after_clause :
    earlyClause.WellNumbered ∧ earlyClause.ClauseExports earlyClass "C" ∧
      ∀ pre step post, topSteps earlyExecute = pre ++ step :: post →
        step.Initialises "exports_1" earlyClass →
          ("C", "C") ∉ stepPublications "exports_1" (step :: post) := by
  refine ⟨earlyClause_wellNumbered, ?_, fun pre step post hsteps hstep => ?_⟩
  · exact ⟨⟨.numbered 0, ⟨.numbered 1, "C"⟩, none, false⟩, by decide, rfl, rfl⟩
  · have hread : ¬Expr.Initialises "exports_1" earlyClass
        ((Setting.ofFile {} (ofFile earlyClause) earlyClause).1.publish "C"
          (.ident ⟨.numbered 1, "C"⟩)) := by
      rintro (⟨value, h⟩ | ⟨base, members, h⟩) <;> cases h
    match pre, hsteps with
    | [], hsteps =>
      obtain ⟨rfl, -⟩ := List.cons.inj hsteps
      exact absurd hstep hread
    | [_], hsteps =>
      obtain ⟨-, hsteps⟩ := List.cons.inj hsteps
      obtain ⟨rfl, rfl⟩ := List.cons.inj hsteps
      exact List.not_mem_nil
    | e₁ :: e₂ :: pre, hsteps =>
      have hlength : 2 = (e₁ :: e₂ :: pre ++ step :: post).length := congrArg List.length hsteps
      simp at hlength

end RegisterForm
