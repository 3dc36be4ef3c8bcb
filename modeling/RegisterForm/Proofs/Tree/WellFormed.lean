import RegisterForm.Tree.Visit
/-!
# Well-formed files

What a parser promises about a file: its nodes are told apart by their identities, and module
declarations stand directly in the module.
-/
namespace RegisterForm

/-- The identifiers among some visits, in order. -/
def identsIn (vs : List Visit) : List Ident := vs.filterMap Visit.ident?

section identsIn
variable (vs ws : List Visit)

@[simp] theorem identsIn_nil : identsIn [] = [] := rfl

@[simp] theorem identsIn_append : identsIn (vs ++ ws) = identsIn vs ++ identsIn ws :=
  List.filterMap_append

@[simp] theorem identsIn_ident (x : Ident) : identsIn (.ident x :: vs) = x :: identsIn vs := rfl

@[simp] theorem identsIn_stmt (s : Stmt) : identsIn (.stmt s :: vs) = identsIn vs := rfl

@[simp] theorem identsIn_expr (e : Expr) : identsIn (.expr e :: vs) = identsIn vs := rfl

@[simp] theorem identsIn_pattern (p : Pattern) : identsIn (.pattern p :: vs) = identsIn vs := rfl

@[simp] theorem identsIn_func (f : Func) : identsIn (.func f :: vs) = identsIn vs := rfl

@[simp] theorem identsIn_classNode (c : Class) : identsIn (.classNode c :: vs) = identsIn vs := rfl

@[simp] theorem identsIn_name (s : String) : identsIn (.name s :: vs) = identsIn vs := rfl

@[simp] theorem identsIn_map_ident (xs : List Ident) : identsIn (xs.map .ident) = xs := by
  induction xs with
  | nil => rfl
  | cons x xs ih => simp [ih]

end identsIn

/-- A statement is met before what is inside it. -/
theorem Stmt.visits_cons (s : Stmt) : s.visits = .stmt s :: s.visits.tail := by
  cases s <;> rfl

/-! What stands in a statement that names another module: its clause, then the module. -/

theorem Stmt.visits_importFrom (site : Site) (clause : Option ImportClause) (specifier : Expr)
    (isTypeOnly : Bool) : (Stmt.importFrom site clause specifier isTypeOnly).visits =
      .stmt (.importFrom site clause specifier isTypeOnly) ::
        (clause.toList.flatMap (·.visits) ++ specifier.visits) := rfl

theorem Stmt.visits_exportFrom (site : Site) (clause : Option ExportClause)
    (specifier : Option Expr) (isTypeOnly : Bool) :
    (Stmt.exportFrom site clause specifier isTypeOnly).visits =
      .stmt (.exportFrom site clause specifier isTypeOnly) ::
        (clause.toList.flatMap (·.visits) ++ exprVisits? specifier) := rfl

/-- The names that an export clause lists stand in it. -/
theorem source_mem_identsIn {site : Site} {specs : List ExportSpecifier}
    {specifier : Option Expr} {isTypeOnly : Bool} {spec : ExportSpecifier} (h : spec ∈ specs) :
    spec.source ∈
      identsIn (Stmt.exportFrom site (some (.named specs)) specifier isTypeOnly).visits := by
  rw [Stmt.visits_exportFrom]
  refine List.mem_filterMap.mpr ⟨.ident spec.source, .tail _ (List.mem_append_left _ ?_), rfl⟩
  simpa [ExportClause.visits] using ⟨spec, h, List.mem_cons_self ..⟩

theorem append_subset_append {α : Type} {l₁ l₂ r₁ r₂ : List α} (h₁ : l₁ ⊆ r₁) (h₂ : l₂ ⊆ r₂) :
    l₁ ++ l₂ ⊆ r₁ ++ r₂ :=
  List.append_subset.mpr
    ⟨List.subset_append_of_subset_left _ h₁, List.subset_append_of_subset_right _ h₂⟩

theorem identsIn_subset {vs ws : List Visit} (h : vs ⊆ ws) : identsIn vs ⊆ identsIn ws := by
  intro x hx
  obtain ⟨v, hv, hvx⟩ := List.mem_filterMap.mp hx
  exact List.mem_filterMap.mpr ⟨v, h hv, hvx⟩

theorem subset_identsIn_cons {xs : List Ident} {vs : List Visit} (v : Visit)
    (h : xs ⊆ identsIn vs) : xs ⊆ identsIn (v :: vs) :=
  List.Subset.trans h (identsIn_subset (List.subset_cons_self ..))

theorem subset_identsIn_append {xs ys : List Ident} {vs ws : List Visit} (h : xs ⊆ identsIn vs)
    (h' : ys ⊆ identsIn ws) : xs ++ ys ⊆ identsIn (vs ++ ws) := by
  rw [identsIn_append]
  exact append_subset_append h h'

/-- The names of the local export clauses among some visits, in order. -/
def specifiersIn (vs : List Visit) : List ExportSpecifier :=
  vs.flatMap fun
    | .stmt (.exportFrom _ (some (.named specifiers)) none _) => specifiers
    | _ => []

@[simp] theorem specifiersIn_append (vs ws : List Visit) :
    specifiersIn (vs ++ ws) = specifiersIn vs ++ specifiersIn ws := List.flatMap_append

theorem specifiersIn_subset {vs ws : List Visit} (h : vs ⊆ ws) :
    specifiersIn vs ⊆ specifiersIn ws := by
  intro s hs
  obtain ⟨v, hv, hvs⟩ := List.mem_flatMap.mp hs
  exact List.mem_flatMap.mpr ⟨v, h hv, hvs⟩

/-- Whether a statement imports or exports. -/
def Stmt.isModuleSyntax : Stmt → Bool
  | .importFrom .. | .importEquals .. | .exportFrom .. | .exportValue .. => true
  | .var modifiers _ | .function modifiers _ | .classDecl modifiers _ => modifiers.isExported
  | _ => false

/-- Whether a node may stand inside a statement of the module. -/
def Visit.isInner : Visit → Bool
  | .stmt s => !s.isModuleSyntax
  | _ => true

/-- Nothing among the visits imports or exports. -/
def AllInner (vs : List Visit) : Prop := ∀ v ∈ vs, v.isInner = true

section AllInner
variable (vs ws : List Visit)

@[simp] theorem allInner_nil : AllInner [] := by simp [AllInner]

@[simp] theorem allInner_append : AllInner (vs ++ ws) ↔ AllInner vs ∧ AllInner ws :=
  List.forall_mem_append

@[simp] theorem allInner_cons (v : Visit) : AllInner (v :: vs) ↔ v.isInner = true ∧ AllInner vs :=
  List.forall_mem_cons

end AllInner

/-- What a visited node has for an identity of its own. -/
def Visit.ids : Visit → List NodeId
  | .ident x => [x.id]
  | .stmt (.importFrom site ..) | .stmt (.importEquals site ..)
  | .stmt (.exportValue site ..) => [site.id]
  | .stmt (.exportFrom site (some (.named specifiers)) ..) => site.id :: specifiers.map (·.id)
  | .stmt (.exportFrom site ..) => [site.id]
  | _ => []

/-- The identities of a file's identifiers, module declarations and export names. -/
def SourceFile.ids (file : SourceFile) : List NodeId := file.visits.flatMap Visit.ids

/-- Nodes are told apart by their identities, and none is made up. -/
structure SourceFile.WellNumbered (file : SourceFile) : Prop where
  nodup : file.ids.Nodup
  numbered : .synthetic ∉ file.ids

/-- Imports and exports stand directly in the module. -/
def SourceFile.IsFlat (file : SourceFile) : Prop :=
  ∀ s ∈ file.statements, AllInner s.visits.tail

end RegisterForm
