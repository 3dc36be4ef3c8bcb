import RegisterForm.Proofs.Resolve.Nearest
/-!
# Parameter lists

What a reference in a parameter list stands for. The scope of a function is filled with its
parameters and with what its body declares before either is read, so a parameter list sees the
declarations of the body that follows it: where neither the list nor a function inside it declares
a name, the body's declaration hides those further out.
-/
namespace RegisterForm
open BindStep NameTable

/-! ## Scopes -/

namespace Scopes
variable (s s' : Scopes) (bs : List Binding) (name : String)

@[simp] theorem find?_nil : find? [] name = none := rfl

theorem find?_append : (s ++ s').find? name = (s.find? name).or (s'.find? name) :=
  List.findSome?_append

theorem find?_cons : find? (bs :: s) name = (bs.find? (·.ident.name == name)).or (s.find? name) := by
  unfold find?
  rw [List.findSome?_cons]
  cases bs.find? (·.ident.name == name) <;> rfl

theorem mem_of_find? {s : Scopes} {name : String} {b : Binding} (h : s.find? name = some b) :
    ∃ bs ∈ s, b ∈ bs := by
  obtain ⟨bs, hbs, hb⟩ := List.exists_of_findSome?_eq_some h
  exact ⟨bs, hbs, List.mem_of_find?_eq_some hb⟩

end Scopes

namespace BindStep
variable {step : BindStep} {σ τ π : List BindStep} {fr : List OpenScope} {kind : ScopeKind}
  {bs : List Binding} {g : NameTable → NameTable} {x : Ident} {s : Scopes} {b : Binding}

theorem mem_declareVar : ∀ {fr : List OpenScope} {f : OpenScope}, f ∈ OpenScope.declareVar b fr →
    ∀ {c : Binding}, c ∈ f.bindings → c = b ∨ ∃ g ∈ fr, c ∈ g.bindings
  | [], _, hf, _, _ => by cases hf
  | g :: fr, f, hf, c, hc => by
    unfold OpenScope.declareVar at hf
    split at hf
    · rcases List.mem_cons.mp hf with rfl | hf
      · rcases List.mem_append.mp hc with hc | hc
        · exact .inr ⟨g, by simp, hc⟩
        · exact .inl (List.mem_singleton.mp hc)
      · exact .inr ⟨f, by simp [hf], hc⟩
    · rcases List.mem_cons.mp hf with rfl | hf
      · exact .inr ⟨f, by simp, hc⟩
      · rcases mem_declareVar hf hc with hc | ⟨h, hh, hc⟩
        · exact .inl hc
        · exact .inr ⟨h, by simp [hh], hc⟩

/-- A step adds at most the binding that it makes. -/
theorem mem_frames {f : OpenScope} (hf : f ∈ step.frames fr) (hb : b ∈ f.bindings) :
    step.binding? = some b ∨ ∃ g ∈ fr, b ∈ g.bindings := by
  cases step with
  | enter kind =>
    rcases List.mem_cons.mp hf with rfl | hf
    · cases hb
    · exact .inr ⟨f, hf, hb⟩
  | leave => exact .inr ⟨f, List.mem_of_mem_tail hf, hb⟩
  | resolve x => exact .inr ⟨f, hf, hb⟩
  | refer spec => exact .inr ⟨f, hf, hb⟩
  | declare c =>
    cases fr with
    | nil => cases hf
    | cons g fr =>
      rcases List.mem_cons.mp hf with rfl | hf
      · rcases List.mem_append.mp hb with hb | hb
        · exact .inr ⟨g, by simp, hb⟩
        · exact .inl (congrArg some (List.mem_singleton.mp hb).symm)
      · exact .inr ⟨f, by simp [hf], hb⟩
  | declareVar c => exact (mem_declareVar hf hb).imp_left fun h => congrArg some h.symm

/-- What an identifier sees was declared by the steps or stands around them. -/
theorem declared_of_mem_trace : ∀ {σ : List BindStep} {fr : List OpenScope}, (x, s) ∈ trace σ fr →
    bs ∈ s → b ∈ bs → b.ident ∈ declared σ ∨ ∃ f ∈ fr, b ∈ f.bindings
  | step :: σ, fr, hx, hs, hb => by
    rw [trace, List.mem_append] at hx
    rcases hx with hx | hx
    · obtain ⟨y, -, he⟩ := List.mem_map.mp hx
      obtain ⟨-, rfl⟩ : y = x ∧ OpenScope.scopes fr = s := by simpa using he
      obtain ⟨f, hf, rfl⟩ := List.mem_map.mp hs
      exact .inr ⟨f, hf, hb⟩
    · rw [declared_cons, List.mem_append]
      rcases declared_of_mem_trace hx hs hb with hmem | ⟨f, hf, hb⟩
      · exact .inl (.inr hmem)
      · exact (mem_frames hf hb).imp_left fun h => .inl (by simp [h])

/-- The steps in a scope that was filled. -/
theorem mem_trace_inside {r : Ident × Scopes} (hπ : Fills kind bs g π)
    (h : r ∈ trace σ (⟨kind, bs⟩ :: fr)) : r ∈ trace (inside kind (π ++ (σ ++ τ))) fr := by
  simp only [inside, trace, trace_append, BindStep.frames, hπ.frames, List.mem_append]
  exact .inr (.inl (.inr (.inl h)))

/-- The scope of a name is opened around the steps, if there is one. -/
theorem mem_trace_insideName {isExpression : Bool} {name : Option Ident} {roles : Roles}
    (h : ∀ fr, (x, s ++ OpenScope.scopes fr) ∈ trace σ fr) :
    (x, s ++ (OpenScope.scopes fr).named isExpression name roles) ∈
      trace (insideName isExpression name roles σ) fr := by
  cases name with
  | none => exact h fr
  | some y =>
    cases isExpression with
    | false => exact h fr
    | true =>
      have hopen := h (⟨.expressionName, [⟨y, roles, none⟩]⟩ :: fr)
      simp only [insideName, inside, trace, trace_append, BindStep.frames, OpenScope.declare,
        if_true, List.cons_append, List.nil_append, List.mem_append]
      exact .inr (.inr (.inl hopen))

theorem declared_insideName (isExpression : Bool) (name : Option Ident) (roles : Roles) :
    declared (insideName isExpression name roles σ) =
      (if isExpression then name.toList else []) ++ declared σ := by
  cases name <;> cases isExpression <;> simp [insideName, inside, binding?]

end BindStep

/-! ## Callables -/

/-- A function, declared, in an expression or of a member, or an arrow function. -/
inductive Callable where
  | function (isExpression : Bool) (f : Func)
  | arrow (params : List Param) (body : ArrowBody) (isAsync : Bool)

namespace Callable

def params : Callable → List Param
  | function _ f => f.params
  | arrow params _ _ => params

def body : Callable → List Stmt
  | function _ f => f.body
  | arrow _ body _ => body.statements

/-- The same with nothing in its body. -/
def emptied : Callable → Callable
  | function isExpression f => function isExpression { f with body := [] }
  | arrow params _ isAsync => arrow params (.block []) isAsync

def bind : Callable → NameTable → NameTable
  | function isExpression f => f.bind isExpression
  | arrow params body isAsync => (Expr.arrow params body isAsync).bind

/-- The name that has a scope of its own; that of a declaration belongs to what is around it. -/
def ownName : Callable → Option Ident
  | function isExpression f => if isExpression then f.name else none
  | arrow _ _ _ => none

def bodyVisits : Callable → List Visit
  | function _ f => stmtsVisits f.body
  | arrow _ body _ => body.visits

def visits (c : Callable) : List Visit :=
  c.ownName.toList.map .ident ++ paramsVisits c.params ++ c.bodyVisits

def bindSteps : Callable → Nat → List BindStep
  | function isExpression f => f.bindSteps isExpression
  | arrow params body isAsync => (Expr.arrow params body isAsync).bindSteps

/-- The steps that read the parameters. An arrow function is an expression of its own. -/
def paramSteps : Callable → Nat → List BindStep
  | function _ f, depth => paramsBindSteps f.params depth
  | arrow params _ _, depth => nested depth (paramsBindSteps params)

def bodySteps : Callable → Nat → List BindStep
  | function _ f, depth => stmtsBindSteps f.body depth
  | arrow _ body _, depth => nested depth body.bindSteps

/-- The scopes around the one that holds the parameters. -/
def around : Callable → Scopes → Scopes
  | function isExpression f, scopes => scopes.named isExpression f.name { isFunction := true }
  | arrow _ _ _, scopes => scopes

/-- What the scope of the parameters holds. -/
def bindings (c : Callable) : List Binding := paramBindings c.params ++ bodyBindings c.body

variable (c : Callable)

theorem params_emptied : c.emptied.params = c.params := by cases c <;> rfl

theorem body_emptied : c.emptied.body = [] := by cases c <;> rfl

theorem paramSteps_emptied : c.emptied.paramSteps = c.paramSteps := by cases c <;> rfl

theorem around_emptied : c.emptied.around = c.around := by cases c <;> rfl

theorem ownName_emptied : c.emptied.ownName = c.ownName := by
  cases c with
  | function isExpression f => cases isExpression <;> rfl
  | arrow params body isAsync => rfl

theorem bodyVisits_emptied : c.emptied.bodyVisits = [] := by cases c <;> rfl

theorem follows_paramSteps (c : Callable) : ∃ f, Follows (paramsVisits c.params)
    ((paramBindings c.params).map (·.ident)) f c.paramSteps fun _ _ => [] := by
  cases c with
  | function isExpression f => exact ⟨_, follows_params f.params⟩
  | arrow params body isAsync => exact ⟨_, (follows_params params).deeper⟩

theorem follows_bodySteps (c : Callable) : ∃ f us, Follows c.bodyVisits
    ((bodyBindings c.body).map (·.ident)) f c.bodySteps us := by
  cases c with
  | function isExpression f => exact ⟨_, _, (follows_stmts f.body).body⟩
  | arrow params body isAsync => exact ⟨_, _, body.follows.deeper⟩

theorem follows : (c : Callable) → Follows c.visits [] c.bind c.bindSteps fun _ _ => []
  | function true ⟨name, params, body, isAsync, isGenerator⟩ =>
    (Func.follows true ⟨name, params, body, isAsync, isGenerator⟩).drop.mono
      (fun _ => by simp [visits, Func.visits, ownName, Callable.params, bodyVisits])
      fun _ => by simp
  | function false f => by
    obtain ⟨name, params, body, isAsync, isGenerator⟩ := f
    have hnameless := (Func.follows false ⟨none, params, body, isAsync, isGenerator⟩).drop
    have hbind : ∀ t, Func.bind false ⟨name, params, body, isAsync, isGenerator⟩ t =
        Func.bind false ⟨none, params, body, isAsync, isGenerator⟩ t := by
      intro t
      cases name <;> rfl
    have hsteps : ∀ d, Func.bindSteps false ⟨name, params, body, isAsync, isGenerator⟩ d =
        Func.bindSteps false ⟨none, params, body, isAsync, isGenerator⟩ d := by
      intro d
      cases name <;> rfl
    exact (hnameless.of_eq hbind hsteps fun _ _ => rfl).mono
      (fun _ => by simp [visits, Func.visits, ownName, Callable.params, bodyVisits]) fun _ => by simp
  | arrow params body isAsync => (Expr.arrow params body isAsync).follows.drop.mono
      (fun _ => Nat.le_refl _) fun _ => Nat.le_refl _

theorem resolved_bindSteps (depth : Nat) : resolved (c.bindSteps depth) =
    resolved (c.paramSteps depth) ++ resolved (c.bodySteps depth) := by
  cases c with
  | function isExpression f =>
    obtain ⟨name, params, body, isAsync, isGenerator⟩ := f
    simp [bindSteps, Func.bindSteps, paramSteps, bodySteps]
  | arrow params body isAsync =>
    by_cases hd : depth < maxTreeDepth <;>
      simp [bindSteps, Expr.bindSteps_arrow, nested, hd, paramSteps, bodySteps]

theorem declared_bindSteps (depth : Nat) : (declared (c.bindSteps depth)).Sublist
    (c.ownName.toList ++ c.bindings.map (·.ident) ++ declared (c.paramSteps depth) ++
      declared (c.bodySteps depth)) := by
  cases c with
  | function isExpression f =>
    obtain ⟨name, params, body, isAsync, isGenerator⟩ := f
    cases isExpression <;>
      simp [bindSteps, Func.bindSteps, declared_insideName, inside, declaringBody, binding?,
        paramSteps, bodySteps, ownName, bindings, bodyBindings, Callable.params, Callable.body]
  | arrow params body isAsync =>
    by_cases hd : depth < maxTreeDepth <;>
      simp [bindSteps, Expr.bindSteps_arrow, nested, hd, inside, declaringBody, binding?,
        paramSteps, bodySteps, ownName, bindings, bodyBindings, Callable.params, Callable.body]

/-- What an identifier in the parameters sees: what is around it there, then the scope that the
parameters share with the body. -/
theorem mem_trace_bindSteps {depth : Nat} {fr : List OpenScope} {x : Ident} {inner : Scopes}
    (hx : (x, inner) ∈ trace (c.paramSteps depth) []) :
    (x, inner ++ c.bindings :: c.around (OpenScope.scopes fr)) ∈ trace (c.bindSteps depth) fr := by
  have hrelative : ∀ {params : List Param} {d : Nat} (gs : List OpenScope),
      (x, inner) ∈ trace (paramsBindSteps params d) [] →
      (x, inner ++ OpenScope.scopes gs) ∈ trace (paramsBindSteps params d) gs := by
    intro params d gs hmem
    rw [(follows_params params).relative d gs]
    exact List.mem_map_of_mem hmem
  cases c with
  | function isExpression f =>
    obtain ⟨name, params, body, isAsync, isGenerator⟩ := f
    have hinside : ∀ gs, (x, (inner ++ [paramBindings params ++ bodyBindings body]) ++
        OpenScope.scopes gs) ∈ trace (inside .function (declaring (paramBindings params) ++
          declaringBody false body ++ (paramsBindSteps params depth ++ stmtsBindSteps body depth))) gs := by
      intro gs
      rw [List.append_assoc inner]
      exact mem_trace_inside (.body (paramBindings params) body) (hrelative (_ :: gs) hx)
    have hnamed : (x, (inner ++ [paramBindings params ++ bodyBindings body]) ++
        (OpenScope.scopes fr).named isExpression name { isFunction := true }) ∈ _ :=
      mem_trace_insideName hinside
    rw [List.append_assoc inner] at hnamed
    exact hnamed
  | arrow params body isAsync =>
    by_cases hd : depth < maxTreeDepth
    · simp only [paramSteps, bindSteps, Expr.bindSteps_arrow, nested, hd, if_true] at hx ⊢
      exact mem_trace_inside (.body (paramBindings params) body.statements)
        (hrelative (_ :: fr) hx)
    · simp [paramSteps, nested, hd, trace] at hx

/-! ## What a parameter list sees -/

/-- Nothing of a callable was read before: its identifiers are told apart, and from those of the
bindings around it. -/
structure NewTo (c : Callable) (t : NameTable) (fr : List OpenScope) : Prop where
  distinct : ((identsIn c.visits).map (·.id)).Nodup
  numbered : ∀ x ∈ identsIn c.visits, x.id.isSynthetic = false
  unread : ∀ x ∈ identsIn c.visits, t.ofIdent.lookup x.id = none
  unbound : ∀ f ∈ fr, ∀ b ∈ f.bindings, b.ident.id ∉ (identsIn c.visits).map (·.id)

/-- A reference in the parameters: neither a parameter nor declared by a function in a default. -/
structure Refers (c : Callable) (depth : Nat) (x : Ident) : Prop where
  mem : x ∈ identsIn (paramsVisits c.params)
  not_param : x ∉ (paramBindings c.params).map (·.ident)
  not_declared : x ∉ BindStep.declared (c.paramSteps depth)

variable {c} {t : NameTable} {fr : List OpenScope} {x : Ident} {inner : Scopes} {depth : Nat}

theorem identsIn_visits : identsIn c.visits =
    c.ownName.toList ++ identsIn (paramsVisits c.params) ++ identsIn c.bodyVisits := by
  simp [visits]

theorem visits_emptied : (identsIn c.emptied.visits).Sublist (identsIn c.visits) := by
  rw [identsIn_visits, identsIn_visits, ownName_emptied, params_emptied, bodyVisits_emptied]
  simp

theorem NewTo.emptied (h : c.NewTo t fr) : c.emptied.NewTo t fr where
  distinct := h.distinct.sublist (visits_emptied.map _)
  numbered x hx := h.numbered x (visits_emptied.subset hx)
  unread x hx := h.unread x (visits_emptied.subset hx)
  unbound f hf b hb hm := h.unbound f hf b hb ((visits_emptied.map _).subset hm)

theorem Refers.emptied (h : c.Refers depth x) : c.emptied.Refers depth x where
  mem := c.params_emptied.symm ▸ h.mem
  not_param := c.params_emptied.symm ▸ h.not_param
  not_declared := c.paramSteps_emptied.symm ▸ h.not_declared

theorem NewTo.nodup (h : c.NewTo t fr) :
    ((identsIn (paramsVisits c.params)).map (·.id) ++
      (c.ownName.toList ++ identsIn c.bodyVisits).map (·.id)).Nodup := by
  have hperm : (identsIn (paramsVisits c.params) ++ (c.ownName.toList ++ identsIn c.bodyVisits)).Perm
      (identsIn c.visits) := by
    rw [identsIn_visits, ← List.append_assoc]
    exact List.perm_append_comm.append_right _
  rw [← List.map_append]
  exact (hperm.map _).nodup_iff.mpr h.distinct

/-- What stands in the parameters is told apart from the name and from what stands in the body. -/
theorem NewTo.apart (h : c.NewTo t fr) {x y : Ident} (hx : x ∈ identsIn (paramsVisits c.params))
    (hy : y ∈ c.ownName.toList ++ identsIn c.bodyVisits) : x.id ≠ y.id := fun he =>
  List.disjoint_of_nodup_append h.nodup (List.mem_map_of_mem hx)
    (he ▸ List.mem_map_of_mem hy)

theorem mem_visits (h : x ∈ identsIn (paramsVisits c.params)) : x ∈ identsIn c.visits := by
  rw [identsIn_visits]
  simp [h]

section
variable (h : c.NewTo t fr)
include h

/-- A reference in the parameters is declared nowhere. -/
theorem Refers.not_declared_bindSteps (hx : c.Refers depth x) :
    x.id ∉ (BindStep.declared (c.bindSteps depth)).map (·.id) := by
  obtain ⟨f, hparams⟩ := c.follows_paramSteps
  obtain ⟨g, us, hbody⟩ := c.follows_bodySteps
  intro hm
  obtain ⟨y, hy, he⟩ := List.mem_map.mp hm
  have hsame : ∀ z ∈ identsIn (paramsVisits c.params), z.id = x.id → z = x := by
    intro z hz he
    exact List.inj_on_of_nodup_map h.nodup.of_append_left hz hx.mem he
  have hmem := (c.declared_bindSteps depth).subset hy
  simp only [bindings, List.map_append, List.mem_append] at hmem
  rcases hmem with ((hmem | hmem | hmem) | hmem) | hmem
  · exact h.apart hx.mem (by simp [hmem]) he.symm
  · exact hx.not_param (hsame y (hparams.own_subset hmem) he ▸ hmem)
  · exact h.apart hx.mem (List.mem_append_right _ (hbody.own_subset hmem)) he.symm
  · exact hx.not_declared (hsame y (hparams.declared_subset depth hmem) he ▸ hmem)
  · exact h.apart hx.mem (List.mem_append_right _ (hbody.declared_subset depth hmem)) he.symm

/-- A reference that is too deep to be read stands for nothing. -/
theorem Refers.lookup_unread (hx : c.Refers t.depth x) (hd : t.depth ≤ maxTreeDepth)
    (hr : x ∉ BindStep.resolved (c.paramSteps t.depth)) :
    (c.bind t).ofIdent.lookup x.id = none := by
  obtain ⟨f, hparams⟩ := c.follows_paramSteps
  obtain ⟨g, us, hbody⟩ := c.follows_bodySteps
  rw [c.follows.bind, lookup_runAll_of_untouched _ _ (hx.not_declared_bindSteps h) ?_]
  · exact h.unread x (mem_visits hx.mem)
  rw [c.resolved_bindSteps]
  intro hm
  obtain ⟨y, hy, he⟩ := List.mem_map.mp hm
  rcases List.mem_append.mp hy with hy | hy
  · have hsame : y = x := List.inj_on_of_nodup_map h.nodup.of_append_left
      (hparams.resolved_subset hd hy) hx.mem he
    exact hr (hsame ▸ hy)
  · exact h.apart hx.mem (List.mem_append_right _ (hbody.resolved_subset hd hy)) he.symm

/-- A reference that is read means what it sees. -/
theorem Refers.means (ht : t.Mirrors fr) (hx : c.Refers t.depth x) (hd : t.depth ≤ maxTreeDepth)
    (hr : (x, inner) ∈ trace (c.paramSteps t.depth) []) :
    (c.bind t).Means x (inner ++ c.bindings :: c.around (OpenScope.scopes fr)) := by
  rw [c.follows.bind]
  refine ht.means (fun f hf b hb hm => ?_) ?_ ?_ (c.mem_trace_bindSteps hr)
    (hx.not_declared_bindSteps h) (h.unread x (mem_visits hx.mem))
  · exact h.unbound f hf b hb (List.map_subset _ (c.follows.declared_subset _) hm)
  · exact nodup_of_count h.distinct fun y => by
      have hcount := c.follows.counted [] t.depth y
      omega
  · exact nodup_of_count h.distinct fun y => by
      have hcount := c.follows.once [] y hd
      omega

end
end Callable

/-- Where what an identifier stands for was declared first. -/
def NameTable.declarationOf? (t : NameTable) (x : Ident) : Option NodeId :=
  (t.symbolOf? x).map (·.declaration)

theorem NameTable.Means.declarationOf? {t : NameTable} {x : Ident} {scopes : Scopes}
    (h : t.Means x scopes) (hx : x.id.isSynthetic = false) :
    t.declarationOf? x = (scopes.find? x.name).map (·.ident.id) := by
  unfold Means at h
  cases hfind : scopes.find? x.name with
  | none =>
    rw [hfind] at h
    simp [NameTable.declarationOf?, symbolOf?, hx, h]
  | some b =>
    rw [hfind] at h
    obtain ⟨id, hid, hnames⟩ := h
    obtain ⟨s, hs, -, hdecl⟩ := hnames.symbol
    simp [NameTable.declarationOf?, symbolOf?, hx, hid, hs, hdecl]

/-- Steps on a table keep to what they do on the frames. -/
theorem NameTable.Mirrors.runAll : ∀ {σ : List BindStep} {t : NameTable} {fr : List OpenScope},
    t.Mirrors fr → Apart fr σ → ((BindStep.declared σ).map (·.id)).Nodup →
    (BindStep.runAll σ t).Mirrors (framesAfter σ fr)
  | [], _, _, h, _, _ => h
  | step :: σ, t, fr, h, hapart, hd => by
    have hrest : ((BindStep.declared σ).map (·.id)).Nodup := by
      rw [declared_cons, List.map_append] at hd
      exact hd.of_append_right
    exact (h.run step fun b hb => hapart.unbound hb).runAll (hapart.tail hd) hrest

namespace Callable
variable {c : Callable} {t : NameTable} {fr : List OpenScope} {x : Ident} {inner : Scopes}

/-- The body takes a reference of the parameters: it is read, with nothing in the body it would
stand for nothing that the parameters declare, and the body declares its name, first by `b`. -/
structure Captures (c : Callable) (t : NameTable) (x : Ident) (b : Binding) : Prop where
  read : x ∈ BindStep.resolved (c.paramSteps t.depth)
  outside : ∀ y ∈ identsIn (paramsVisits c.params),
    (c.emptied.bind t).declarationOf? x ≠ some y.id
  found : (bodyBindings c.body).find? (·.ident.name == x.name) = some b

/-- What the parameters declare around a reference is told by identifiers in them. -/
theorem mem_params_of_inner {b : Binding} {depth : Nat}
    (hr : (x, inner) ∈ trace (c.paramSteps depth) [])
    (hb : Scopes.find? (inner ++ [paramBindings c.params]) x.name = some b) :
    b.ident ∈ identsIn (paramsVisits c.params) := by
  obtain ⟨f, hparams⟩ := c.follows_paramSteps
  obtain ⟨bs, hbs, hb⟩ := Scopes.mem_of_find? hb
  rcases List.mem_append.mp hbs with hbs | hbs
  · rcases declared_of_mem_trace hr hbs hb with hmem | ⟨f, hf, -⟩
    · exact hparams.declared_subset depth hmem
    · cases hf
  · rw [List.mem_singleton.mp hbs] at hb
    exact hparams.own_subset (List.mem_map_of_mem hb)

theorem mem_around {bs : List Binding} {scopes : Scopes} {b : Binding}
    (hbs : bs ∈ c.around scopes) (hb : b ∈ bs) : b.ident ∈ c.ownName.toList ∨ bs ∈ scopes := by
  cases c with
  | arrow params body isAsync => exact .inr hbs
  | function isExpression f =>
    simp only [around, Scopes.named] at hbs
    cases hname : f.name with
    | none =>
      rw [hname] at hbs
      exact .inr hbs
    | some y =>
      rw [hname] at hbs
      cases isExpression with
      | false => exact .inr hbs
      | true =>
        rcases List.mem_cons.mp hbs with rfl | hbs
        · rw [List.mem_singleton.mp hb]
          exact .inl (by simp [ownName, hname])
        · exact .inr hbs

/-- What stands around a callable is told apart from its parameters and its body. -/
theorem NewTo.around_apart (h : c.NewTo t fr) {b : Binding} {name : String}
    (hb : (c.around (OpenScope.scopes fr)).find? name = some b) {y : Ident}
    (hy : y ∈ identsIn (paramsVisits c.params) ++ identsIn c.bodyVisits) : b.ident.id ≠ y.id := by
  intro he
  obtain ⟨bs, hbs, hb⟩ := Scopes.mem_of_find? hb
  have hdistinct := h.distinct
  rw [identsIn_visits, List.append_assoc, List.map_append] at hdistinct
  rcases mem_around hbs hb with hname | hbs
  · exact List.disjoint_of_nodup_append hdistinct (List.mem_map_of_mem hname)
      (he ▸ List.mem_map_of_mem hy)
  · obtain ⟨f, hf, rfl⟩ := List.mem_map.mp hbs
    refine h.unbound f hf b hb ?_
    rw [he, identsIn_visits, List.append_assoc, List.map_append]
    exact List.mem_append_right _ (List.mem_map_of_mem hy)

/-- What the body takes is the body's. -/
theorem Captures.mem {b : Binding} (hb : c.Captures t x b) : b.ident ∈ identsIn c.bodyVisits := by
  obtain ⟨f, us, hbody⟩ := c.follows_bodySteps
  exact hbody.own_subset (List.mem_map_of_mem (List.mem_of_find?_eq_some hb.found))

/-- A reference that is read sees what the parameters declare, then the body, then what is
around. -/
theorem Refers.declarationOf?_eq (hx : c.Refers t.depth x) (h : c.NewTo t fr) (ht : t.Mirrors fr)
    (hd : t.depth ≤ maxTreeDepth) (hr : (x, inner) ∈ trace (c.paramSteps t.depth) []) :
    (c.bind t).declarationOf? x =
      (((Scopes.find? (inner ++ [paramBindings c.params]) x.name).or
        ((bodyBindings c.body).find? (·.ident.name == x.name))).or
          ((c.around (OpenScope.scopes fr)).find? x.name)).map (·.ident.id) := by
  rw [(hx.means h ht hd hr).declarationOf? (h.numbered x (mem_visits hx.mem))]
  simp [Scopes.find?_append, Scopes.find?_cons, bindings, List.find?_append, Option.or_assoc]

/-- **Parameter lists.** A reference in the parameters stands for what it would stand for with
nothing in the body exactly if the body does not take it, and if it does, for what the body
declares. -/
theorem declarationOf?_bind (h : c.NewTo t fr) (ht : t.Mirrors fr) (hd : t.depth ≤ maxTreeDepth)
    (hx : c.Refers t.depth x) :
    ((c.bind t).declarationOf? x = (c.emptied.bind t).declarationOf? x ↔
        ∀ b, ¬ c.Captures t x b) ∧
      ∀ b, c.Captures t x b → (c.bind t).declarationOf? x = some b.ident.id := by
  by_cases hread : x ∈ BindStep.resolved (c.paramSteps t.depth)
  case neg =>
    have hnone := hx.lookup_unread h hd hread
    have hnone' := hx.emptied.lookup_unread h.emptied hd (c.paramSteps_emptied.symm ▸ hread)
    have hsame : (c.bind t).declarationOf? x = (c.emptied.bind t).declarationOf? x := by
      simp [NameTable.declarationOf?, symbolOf?, hnone, hnone']
    exact ⟨iff_of_true hsame fun b hb => hread hb.read, fun b hb => absurd hb.read hread⟩
  obtain ⟨inner, hr⟩ : ∃ inner, (x, inner) ∈ trace (c.paramSteps t.depth) [] := by
    rw [← map_fst_trace _ [], List.mem_map] at hread
    obtain ⟨⟨y, inner⟩, hr, rfl⟩ := hread
    exact ⟨inner, hr⟩
  have hfull := hx.declarationOf?_eq h ht hd hr
  have hempty := hx.emptied.declarationOf?_eq h.emptied ht hd (c.paramSteps_emptied.symm ▸ hr)
  rw [params_emptied, body_emptied, around_emptied] at hempty
  have hnothing : bodyBindings [] = [] := rfl
  rw [hnothing, List.find?_nil, Option.or_none] at hempty
  cases hinner : Scopes.find? (inner ++ [paramBindings c.params]) x.name with
  | some b =>
    -- The parameters declare the name, whatever the body does.
    rw [hinner] at hfull hempty
    have hsame : (c.emptied.bind t).declarationOf? x = some b.ident.id := hempty
    have hno : ∀ b', ¬ c.Captures t x b' := fun b' hb' =>
      hb'.outside b.ident (mem_params_of_inner hr hinner) hsame
    exact ⟨iff_of_true (hfull.trans hempty.symm) hno, fun b' hb' => absurd hb' (hno b')⟩
  | none =>
    rw [hinner, Option.none_or] at hfull hempty
    have haround : ∀ y ∈ identsIn (paramsVisits c.params) ++ identsIn c.bodyVisits,
        (c.emptied.bind t).declarationOf? x ≠ some y.id := by
      intro y hy he
      rw [hempty, Option.map_eq_some_iff] at he
      obtain ⟨b, hb, he⟩ := he
      exact h.around_apart hb hy he
    cases hbody : (bodyBindings c.body).find? (·.ident.name == x.name) with
    | none =>
      have hno : ∀ b, ¬ c.Captures t x b := fun b hb => by
        rw [hb.found] at hbody
        cases hbody
      rw [hbody] at hfull
      exact ⟨iff_of_true (hfull.trans hempty.symm) hno, fun b hb => absurd hb (hno b)⟩
    | some b =>
      rw [hbody] at hfull
      have htaken : c.Captures t x b :=
        ⟨hread, fun y hy => haround y (List.mem_append_left _ hy), hbody⟩
      have hdiffers : (c.bind t).declarationOf? x ≠ (c.emptied.bind t).declarationOf? x := by
        intro he
        exact haround b.ident (List.mem_append_right _ htaken.mem) (he.symm.trans hfull)
      refine ⟨iff_of_false hdiffers fun hno => hno b htaken, fun b' hb' => ?_⟩
      obtain rfl : b = b' := Option.some.inj (hbody.symm.trans hb'.found)
      exact hfull

end Callable

/-- `function f(x = a, y = b) body`, where `a` and `b` are read in the parameters. -/
def twoDefaults (body : List Stmt) : Func where
  name := some ⟨.numbered 2, "f"⟩
  params := [⟨.ident ⟨.numbered 3, "x"⟩, some (.ident ⟨.numbered 4, "a"⟩), false⟩,
    ⟨.ident ⟨.numbered 5, "y"⟩, some (.ident ⟨.numbered 6, "b"⟩), false⟩]
  body := body
  isAsync := false
  isGenerator := false

/-- `import { a, b } from "m"; function f(x = a, y = b) body` -/
def readsImports (body : List Stmt) : SourceFile where
  id := .numbered 20
  name := "m.ts"
  statements := [
    .importFrom ⟨.numbered 10, {}⟩ (some ⟨none, some (.named
      [⟨none, ⟨.numbered 0, "a"⟩, false⟩, ⟨none, ⟨.numbered 1, "b"⟩, false⟩])⟩)
      (.literal (.string "m")) false,
    .function {} (twoDefaults body)]

/-- `var a;` -/
def redeclares : List Stmt := [.var {} ⟨.var, [⟨.ident ⟨.numbered 7, "a"⟩, none⟩]⟩]

/-- The steps up to where the statements of the module are read. -/
def importsSteps : List BindStep :=
  .enter .module :: declaringBody true (readsImports redeclares).statements

/-- The default that reads `a` is taken by the variable, the one that reads `b` is not. -/
theorem declarationOf?_bind_redeclares :
    ∃ t fr, (Callable.function false (twoDefaults redeclares)).NewTo t fr ∧ t.Mirrors fr ∧
      t.depth ≤ maxTreeDepth ∧
      (Callable.function false (twoDefaults redeclares)).Refers t.depth ⟨.numbered 4, "a"⟩ ∧
      (Callable.function false (twoDefaults redeclares)).Refers t.depth ⟨.numbered 6, "b"⟩ ∧
      ((twoDefaults redeclares).bind false t).declarationOf? ⟨.numbered 4, "a"⟩ =
        some (.numbered 7) ∧
      ((twoDefaults redeclares).bind false t).declarationOf? ⟨.numbered 6, "b"⟩ =
        ((twoDefaults []).bind false t).declarationOf? ⟨.numbered 6, "b"⟩ := by
  have hstart : ({ file := some (.numbered 20) } : NameTable).Mirrors [] := ⟨wf_empty _, .nil⟩
  have ht : (BindStep.runAll importsSteps { file := some (.numbered 20) }).Mirrors
      (framesAfter importsSteps []) := hstart.runAll (fun f hf => by cases hf) (by decide)
  have hnew : (Callable.function false (twoDefaults redeclares)).NewTo
      (BindStep.runAll importsSteps { file := some (.numbered 20) })
      (framesAfter importsSteps []) := ⟨by decide, by decide, by decide, by decide⟩
  have hdepth : (BindStep.runAll importsSteps { file := some (.numbered 20) }).depth ≤
      maxTreeDepth := by decide
  have ha : (Callable.function false (twoDefaults redeclares)).Refers 0 ⟨.numbered 4, "a"⟩ :=
    ⟨by decide, by decide, by decide⟩
  have hb : (Callable.function false (twoDefaults redeclares)).Refers 0 ⟨.numbered 6, "b"⟩ :=
    ⟨by decide, by decide, by decide⟩
  have htaken := (Callable.declarationOf?_bind hnew ht hdepth ha).2
    ⟨⟨.numbered 7, "a"⟩, { isVariable := true }, none⟩ ⟨by decide, by decide, by rfl⟩
  have hkept := (Callable.declarationOf?_bind hnew ht hdepth hb).1.mpr
    fun c hc => by cases hc.found
  exact ⟨_, _, hnew, ht, hdepth, ha, hb, htaken, hkept⟩

/-- The default is not rewritten to the import that it reads if the body declares the name. -/
theorem default_misses_import :
    (readsImports redeclares).WellNumbered ∧
      (NameTable.ofFile (readsImports [])).declarationOf? ⟨.numbered 4, "a"⟩ = some (.numbered 0) ∧
      ((NameTable.ofFile (readsImports [])).importOf? ⟨.numbered 4, "a"⟩).isSome = true ∧
      (NameTable.ofFile (readsImports redeclares)).declarationOf? ⟨.numbered 4, "a"⟩ =
        some (.numbered 7) ∧
      (NameTable.ofFile (readsImports redeclares)).importOf? ⟨.numbered 4, "a"⟩ = none :=
  ⟨⟨by decide, by decide⟩, by rfl, by rfl, by rfl, by rfl⟩

end RegisterForm
