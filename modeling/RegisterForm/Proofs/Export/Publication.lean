import RegisterForm.Proofs.Lowering.Read
import RegisterForm.Proofs.Tree.WellFormed
/-!
# Publications

A call of the exporter publishes what it wraps under a name. Calls may stand around one
another, and then all of them publish what the innermost one wraps: a variable that is read or
written. The steps of an expression are the parts that commas separate.
-/
namespace RegisterForm
open Lowering

/-- The names of the calls of the exporter that surround an expression, the innermost first, and
the expression that they surround. -/
def Expr.peel (exporter : String) : Expr → List String × Expr
  | .call callee [.literal (.string name), value] false =>
    if callee.ident? = some (.synthetic exporter) then
      let (names, core) := value.peel exporter
      (names ++ [name], core)
    else ([], .call callee [.literal (.string name), value] false)
  | e => ([], e)

/-- The variable that an expression reads or writes as a whole. -/
def Expr.subject? : Expr → Option Ident
  | .ident x => some x
  | .assign _ (.ident x) _ => some x
  | .update _ _ (.ident x) => some x
  | _ => none

mutual

/-- What an expression publishes by calls of the exporter that stand for one of its steps, or
for a step of what such a call wraps: variables with names, in order. -/
def Expr.publications (exporter : String) : Expr → List (String × String)
  | .sequence es => exprsPublications exporter es
  | .paren e => e.publications exporter
  | .call callee [.literal (.string name), value] false =>
    if callee.ident? = some (.synthetic exporter) then
      value.publications exporter
        ++ (value.peel exporter).2.subject?.toList.map fun x => (x.name, name)
    else []
  | _ => []

def exprsPublications (exporter : String) : List Expr → List (String × String)
  | [] => []
  | e :: es => e.publications exporter ++ exprsPublications exporter es

/-- The parts of an expression that commas separate. -/
def Expr.steps : Expr → List Expr
  | .sequence es => exprsSteps es
  | .paren e => e.steps
  | e => [e]

def exprsSteps : List Expr → List Expr
  | [] => []
  | e :: es => e.steps ++ exprsSteps es

end

theorem exprsPublications_eq (exporter : String) (es : List Expr) :
    exprsPublications exporter es = es.flatMap (·.publications exporter) := by
  induction es with
  | nil => rfl
  | cons e es ih => rw [exprsPublications, ih, List.flatMap_cons]

mutual

/-- The steps publish what the expression does. -/
theorem Expr.steps_publications (exporter : String) : (e : Expr) →
    e.steps.flatMap (·.publications exporter) = e.publications exporter
  | .sequence es => exprsSteps_publications exporter es
  | .paren e => e.steps_publications exporter
  | .ident _ | .literal _ | .template _ _ | .tagged _ _ _ | .this | .super | .array _ | .object _
  | .function _ | .arrow _ _ _ | .classExpr _ | .unary _ _ | .update _ _ _ | .binary _ _ _
  | .assign _ _ _ | .conditional _ _ _ | .call _ _ _ | .newBare _ | .newCall _ _
  | .member _ _ _ | .index _ _ _ | .yield _ _ | .await _ | .spread _ | .importCall _
  | .importMeta => List.append_nil _

theorem exprsSteps_publications (exporter : String) : (es : List Expr) →
    (exprsSteps es).flatMap (·.publications exporter) = exprsPublications exporter es
  | [] => rfl
  | e :: es => by
    rw [exprsSteps, List.flatMap_append, e.steps_publications exporter,
      exprsSteps_publications exporter es, exprsPublications]

end

theorem publications_ofList {exporter : String} {es : List Expr} {default : Expr} (h : es ≠ []) :
    ((Expr.ofList es).getD default).publications exporter =
      es.flatMap (·.publications exporter) := by
  match es, h with
  | [e], _ => simp [Expr.ofList]
  | e₁ :: e₂ :: es, _ => exact exprsPublications_eq exporter _

namespace Setting
variable {s : Setting}

/-! ## The calls of the exporter -/

theorem peel_publish (name : String) (value : Expr) :
    (s.publish name value).peel s.exporter =
      ((value.peel s.exporter).1 ++ [name], (value.peel s.exporter).2) := by
  simp [publish, Expr.apply, Expr.ofString, Expr.ofName, Expr.peel, Expr.ident?]

/-- A published value is what the calls for its names surround. -/
theorem peel_published (x : Ident) {value : Expr} (h : value.peel s.exporter = ([], value)) :
    (s.published x value).peel s.exporter = (s.exportNames x, value) := by
  have hall : ∀ (names : List String) (e : Expr),
      (names.foldl (fun value name => s.publish name value) e).peel s.exporter =
        ((e.peel s.exporter).1 ++ names, (e.peel s.exporter).2) := by
    intro names
    induction names with
    | nil => simp
    | cons name names ih =>
      intro e
      rw [List.foldl_cons, ih, peel_publish]
      simp
  rw [published, hall, h]
  rfl

/-- What a write to an identifier publishes. -/
def publications (s : Setting) (x : Ident) : List (String × String) :=
  (s.exportNames x).map fun name => (x.name, name)

theorem publications_publish (name : String) (value : Expr) :
    (s.publish name value).publications s.exporter = value.publications s.exporter
      ++ (value.peel s.exporter).2.subject?.toList.map fun x => (x.name, name) := by
  simp [publish, Expr.apply, Expr.ofString, Expr.ofName, Expr.publications, Expr.ident?]

theorem publications_published {x : Ident} {value : Expr}
    (hs : value.publications s.exporter = []) (h : value.peel s.exporter = ([], value))
    (hx : value.subject? = some x) :
    (s.published x value).publications s.exporter = s.publications x := by
  have hall : ∀ (names : List String) (e : Expr), (e.peel s.exporter).2 = value →
      (names.foldl (fun value name => s.publish name value) e).publications s.exporter =
        e.publications s.exporter ++ names.map fun name => (x.name, name) := by
    intro names
    induction names with
    | nil => simp
    | cons name names ih =>
      intro e he
      rw [List.foldl_cons, ih _ (by rw [peel_publish]; exact he), publications_publish, he, hx]
      simp
  rw [published, hall _ _ (by rw [h]), hs]
  rfl

/-- Publishing does not add steps. -/
theorem steps_published (x : Ident) {value : Expr} (h : value.steps = [value]) :
    (s.published x value).steps = [s.published x value] := by
  have hall : ∀ (names : List String) (e : Expr), e.steps = [e] →
      (names.foldl (fun value name => s.publish name value) e).steps =
        [names.foldl (fun value name => s.publish name value) e] := by
    intro names
    induction names with
    | nil => exact fun _ h => h
    | cons name names ih => exact fun e _ => ih _ rfl
  exact hall _ _ h

theorem publications_bindingAssignment (x : Ident) (value : Expr) :
    (s.bindingAssignment x value).publications s.exporter = s.publications x :=
  publications_published rfl rfl rfl

/-- A pattern taken apart publishes what its identifiers are exported as, in order. -/
theorem Assigns.publications {xs : List Ident} {es : List Expr} (h : s.Assigns xs es) :
    es.flatMap (·.publications s.exporter) = xs.flatMap s.publications := by
  induction h with
  | nil => rfl
  | leaf x value _ ih =>
    rw [List.flatMap_cons, List.flatMap_cons, publications_bindingAssignment, ih]
  | temporary name value _ ih => exact ih
  | target target value _ ih => exact ih

end Setting

theorem publications_call {exporter : String} {callee : Expr} (args : List Expr)
    (isOptional : Bool) (h : callee ≠ .ofName exporter) :
    (Expr.call callee args isOptional).publications exporter = [] := by
  have hident : callee.ident? ≠ some (.synthetic exporter) := by
    intro he
    cases callee <;> simp [Expr.ident?] at he
    exact h (congrArg Expr.ident he)
  unfold Expr.publications
  split <;> simp_all

/-! ## Expressions -/

/-- Whether an assignment is taken apart into one for each identifier. -/
def Setting.takesApart (s : Setting) (op : AssignOp) (target : Pattern) : Bool :=
  op == .plain && target.isDestructuring && s.hasExportedLeaf target

mutual

/-- What the steps of an expression write to exported variables. A suffix operator whose value is
used is followed by a step back, and is no write of its own. -/
def Expr.publishes (s : Setting) (isUsed : Bool) : Expr → List (String × String)
  | .assign op target _ =>
    if s.takesApart op target then target.boundIdents.flatMap s.publications
    else target.ident?.toList.flatMap s.publications
  | .update _ isPrefix arg =>
    if isPrefix || !isUsed then arg.skipParens.ident?.toList.flatMap s.publications else []
  | .sequence es => sequencePublishes s isUsed es
  | .paren e => e.publishes s isUsed
  | _ => []

def sequencePublishes (s : Setting) (isUsed : Bool) : List Expr → List (String × String)
  | [] => []
  | e :: es => e.publishes s (isUsed && es.isEmpty) ++ sequencePublishes s isUsed es

end

theorem Pattern.lower_ident? (s : Setting) (p : Pattern) :
    Yields Any (p.lower s) fun p' => p'.ident? = p.ident? := by
  cases p with
  | ident x => exact .pure rfl
  | expr e => exact (yields_any _).bind fun _ _ => .pure rfl
  | object properties rest =>
    exact (yields_any _).bind fun _ _ => (yields_any _).bind fun _ _ => .pure rfl
  | array elements rest =>
    exact (yields_any _).bind fun _ _ => (yields_any _).bind fun _ _ => .pure rfl

namespace Setting
variable {s : Setting}

theorem publications_read (x : Ident) : (s.read x).publications s.exporter = [] := by
  unfold read importedProperty
  repeat' split
  all_goals rfl

theorem publications_publishedTo {p : Pattern} {x : Option Ident} (hx : p.ident? = x) (op : AssignOp)
    (value : Expr) : (s.publishedTo p (.assign op p value)).publications s.exporter =
      x.toList.flatMap s.publications := by
  subst hx
  cases p with
  | ident x =>
    refine (publications_published rfl rfl rfl).trans ?_
    simp [Pattern.ident?]
  | expr e => rfl
  | object properties rest => rfl
  | array elements rest => rfl

/-- An update of a variable is published in its prefix form. -/
theorem publications_publishedUpdate? (s : Setting) (op : UpdateOp) (isPrefix isUsed : Bool)
    (arg : Expr) :
    (∀ e, s.publishedUpdate? op isPrefix isUsed arg = some e →
      e.publications s.exporter = (Expr.update op isPrefix arg).publishes s isUsed) ∧
    (s.publishedUpdate? op isPrefix isUsed arg = none →
      (Expr.update op isPrefix arg).publishes s isUsed = []) := by
  rw [Expr.publishes, publishedUpdate?]
  cases hx : arg.skipParens with
  | ident x =>
    simp only [Expr.ident?, Option.toList_some, List.flatMap_cons, List.flatMap_nil,
      List.append_nil]
    by_cases hnone : (s.exportNames x).isEmpty = true
    · rw [if_pos hnone]
      have hempty : s.publications x = [] := by
        rw [publications, List.isEmpty_iff.mp hnone]
        rfl
      simp [hempty]
    · rw [if_neg hnone]
      constructor
      · intro e he
        obtain rfl := Option.some.inj he
        by_cases hprefix : (isPrefix || !isUsed) = true
        · rw [if_pos hprefix, if_pos hprefix]
          exact publications_published rfl rfl rfl
        · rw [if_neg hprefix, if_neg hprefix]
          rfl
      · intro h
        cases h
  | _ =>
    constructor
    · intro e he
      cases he
    · intro _
      simp [Expr.ident?]

end Setting
section lower
variable {s : Setting}

theorem stabilize_ident (bound : List String) (value : Expr) :
    Yields Any (stabilize bound value) fun r => ∃ x, r.2 = .ident x := by
  unfold stabilize
  refine .ite (fun h => .pure ?_) fun _ => (yields_any _).bind fun temporary _ => .pure ⟨_, rfl⟩
  cases value <;> simp [Expr.ident?] at h
  exact ⟨_, rfl⟩

/-- An assignment that is taken apart publishes what its identifiers are exported as. -/
theorem lower_assign_publishes (op : AssignOp) (target : Pattern) (value : Expr)
    (isUsed : Bool) : Yields Any ((Expr.assign op target value).lower s isUsed) fun e' =>
      e'.publications s.exporter = (Expr.assign op target value).publishes s isUsed := by
  refine .deeper s (.ite (fun h => ?_) fun h => ?_)
  · have hapart : s.takesApart op target = true := h
    obtain ⟨x, hx, -⟩ := List.any_eq_true.mp (Bool.and_eq_true_iff.mp h).2
    refine (yields_any _).bind fun value _ => ?_
    have hassigns : ∀ held value result, s.Assigns [] held →
        (result = [] ∨ ∃ x, result = [.ident x]) →
        Yields Any (do
          let exprs ← target.flatten s target.boundNames 0 value
          pure ((Expr.ofList (held ++ exprs ++ result)).getD value)) fun e' =>
            e'.publications s.exporter = (Expr.assign op target value).publishes s isUsed := by
      intro held value result hheld hresult
      refine (target.flatten_assigns _ 0 value).bind fun exprs hexprs => .pure ?_
      have hsilent : result.flatMap (·.publications s.exporter) = [] := by
        rcases hresult with rfl | ⟨x, rfl⟩ <;> rfl
      have hne : held ++ exprs ++ result ≠ [] :=
        List.append_ne_nil_of_left_ne_nil
          (List.append_ne_nil_of_right_ne_nil _ (hexprs.ne_nil (List.ne_nil_of_mem hx))) _
      rw [publications_ofList hne, List.flatMap_append, hsilent, List.append_nil,
        (hheld.append hexprs).publications, Expr.publishes, if_pos hapart]
      rfl
    refine .ite (fun hu => ?_) fun hu => ?_
    · have hheld : Yields Any (stabilize target.boundNames value) fun r =>
          s.Assigns [] r.1 ∧ ∃ x, r.2 = .ident x :=
        fun p r p' hr => ⟨trivial, (stabilize_assigns s _ _ hr).2, (stabilize_ident _ _ hr).2⟩
      refine hheld.bind ?_
      rintro ⟨held, value⟩ ⟨hassign, x, hx⟩
      subst hu
      exact hassigns held value [value] hassign (.inr ⟨x, congrArg (fun e => [e]) hx⟩)
    · refine (Yields.pure rfl : Yields Any _ fun r => r = ([], value)).bind fun r hr => ?_
      subst hr
      obtain rfl := Bool.eq_false_iff.mpr hu
      exact hassigns [] value [] .nil (.inl rfl)
  · refine (target.lower_ident? s).bind fun target' htarget => ?_
    refine (yields_any _).bind fun value _ => .pure ?_
    rw [Expr.publishes, if_neg (show ¬s.takesApart op target = true from h)]
    exact Setting.publications_publishedTo htarget op value

theorem mem_identsIn_of_skipParens {x : Ident} : (e : Expr) → e.skipParens = .ident x →
    x ∈ identsIn e.visits
  | .ident y, h => by
    obtain rfl := Expr.ident.inj h
    exact List.mem_cons_self
  | .paren inner, h => mem_identsIn_of_skipParens inner h

mutual

/-- Lowering an expression publishes what its steps write, in order. No variable may read as the
exporter. -/
theorem Expr.lower_publishes (isUsed : Bool) : (e : Expr) →
    (∀ x ∈ identsIn e.visits, s.read x ≠ .ofName s.exporter) →
    Yields Any (e.lower s isUsed) fun e' =>
      e'.publications s.exporter = e.publishes s isUsed
  | .ident x, _ => by
    exact .deeper s (.pure (Setting.publications_read x))
  | .update op isPrefix arg, _ => by
    have hupdate := s.publications_publishedUpdate? op isPrefix isUsed arg
    refine .deeper s ?_
    cases hp : s.publishedUpdate? op isPrefix isUsed arg with
    | some e => exact .pure (hupdate.1 e hp)
    | none =>
      refine (yields_any _).bind fun arg _ => .pure ?_
      rw [hupdate.2 hp]
      rfl
  | .assign op target value, _ => lower_assign_publishes op target value isUsed
  | .call callee args isOptional, hread => by
    refine .deeper s ((callee.lower_ident true).bind fun callee' h =>
      (yields_any _).bind fun args _ => .pure (publications_call args isOptional ?_))
    rintro rfl
    obtain ⟨x, hx, hxread⟩ := h (.synthetic s.exporter) rfl
    have hmem := mem_identsIn_of_skipParens callee hx
    exact hread x (identsIn_subset (List.subset_append_left ..) hmem) hxread
  | .sequence exprs, hread => by
    have hsteps := lowerSequence_publishes isUsed exprs hread
    exact .deeper s (hsteps.bind fun es h => .pure h)
  | .paren inner, hread => by
    have hinner := inner.lower_publishes isUsed hread
    exact .deeper s (hinner.bind fun e h => .pure h)
  | .importCall specifier, _ => by
    exact .deeper s ((yields_any _).bind fun arg _ => .pure (publications_call [arg] false nofun))
  | .literal _, _ | .this, _ | .super, _ | .importMeta, _ => by
    exact .deeper s (.pure rfl)
  | .template _ _, _ | .array _, _ | .object _, _ | .function _, _ | .arrow _ _ _, _
  | .classExpr _, _ | .unary _ _, _ | .newBare _, _ | .member _ _ _, _ | .yield _ _, _
  | .await _, _ | .spread _, _ => by
    exact .deeper s ((yields_any _).bind fun _ _ => .pure rfl)
  | .tagged _ _ _, _ | .binary _ _ _, _ | .newCall _ _, _ | .index _ _ _, _ => by
    exact .deeper s ((yields_any _).bind fun _ _ => (yields_any _).bind fun _ _ => .pure rfl)
  | .conditional _ _ _, _ => by
    exact .deeper s ((yields_any _).bind fun _ _ => (yields_any _).bind fun _ _ =>
      (yields_any _).bind fun _ _ => .pure rfl)

theorem lowerSequence_publishes (isUsed : Bool) : (es : List Expr) →
    (∀ x ∈ identsIn (exprsVisits es), s.read x ≠ .ofName s.exporter) →
    Yields Any (lowerSequence s isUsed es) fun es' =>
      (Expr.sequence es').publications s.exporter = sequencePublishes s isUsed es
  | [], _ => .pure rfl
  | e :: es, hread => by
    have hfirst := e.lower_publishes (isUsed && es.isEmpty) fun x hx =>
      hread x (by simp [exprsVisits, hx])
    have hrest := lowerSequence_publishes isUsed es fun x hx =>
      hread x (by simp [exprsVisits, hx])
    refine hfirst.bind fun e' he => hrest.bind fun es' hes => .pure ?_
    have happend : (Expr.sequence (e' :: es')).publications s.exporter =
        e'.publications s.exporter ++ (Expr.sequence es').publications s.exporter := rfl
    rw [happend, he, hes, sequencePublishes]

end

end lower
end RegisterForm
