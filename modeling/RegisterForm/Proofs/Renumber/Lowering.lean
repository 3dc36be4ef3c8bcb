import RegisterForm.Lowering.Tree
import RegisterForm.Proofs.Renumber.Setting
/-!
# Lowering renumbered trees

Each step of lowering does to a renumbered tree what it does to the tree, and leaves the result
renumbered: it gives out the same names in the same order, and fails where it failed before.
-/
namespace RegisterForm

variable (r : Renumbering)

/-! ## Progress -/

def Frame.renumber (frame : Frame) : Frame :=
  { frame with functions := frame.functions.map (·.renumber r) }

theorem Frame.variableStmt?_renumber (frame : Frame) :
    (frame.renumber r).variableStmt? = frame.variableStmt?.map (·.renumber r) := by
  have hvars : (frame.renumber r).vars = frame.vars := rfl
  simp only [variableStmt?, hvars]
  split
  · rfl
  · rw [Option.map_some, Stmt.renumber_varNames]

@[simp] theorem Frame.statements_renumber (frame : Frame) :
    (frame.renumber r).statements = frame.statements.map (·.renumber r) := by
  rw [statements, variableStmt?_renumber, statements, List.map_append]
  cases frame.variableStmt? <;> rfl

namespace Hoisting

def renumber (h : Hoisting) : Hoisting := { h with frames := h.frames.map (·.renumber r) }

theorem modifyTop_renumber {change change' : Frame → Frame}
    (hchange : ∀ frame, change' (frame.renumber r) = (change frame).renumber r) (h : Hoisting) :
    (h.renumber r).modifyTop change' = (h.modifyTop change).renumber r := by
  obtain ⟨supply, frames⟩ := h
  cases frames with
  | nil => rfl
  | cons frame frames =>
    have hframe := hchange frame
    simp only [modifyTop, renumber, List.map_cons, hframe]

theorem addVariable_renumber (name : String) (h : Hoisting) :
    (h.renumber r).addVariable name = (h.addVariable name).renumber r := by
  refine modifyTop_renumber r (fun frame => ?_) h
  exact (apply_ite (Frame.renumber r) (frame.vars.contains name = true) frame
    { frame with vars := frame.vars ++ [name] }).symm

theorem addVariables_renumber (names : List String) (h : Hoisting) :
    (h.renumber r).addVariables names = (h.addVariables names).renumber r := by
  unfold addVariables
  induction names generalizing h with
  | nil => rfl
  | cons name names ih => rw [List.foldl_cons, addVariable_renumber, ih, List.foldl_cons]

theorem addFunction_renumber (st : Stmt) (h : Hoisting) :
    (h.renumber r).addFunction (st.renumber r) = (h.addFunction st).renumber r := by
  refine modifyTop_renumber r (fun frame => ?_) h
  simp [Frame.renumber]

theorem unique_renumber (base : String) (h : Hoisting) :
    (h.renumber r).unique base = ((h.unique base).1, (h.unique base).2.renumber r) := rfl

theorem declareTemporary_renumber (h : Hoisting) :
    (h.renumber r).declareTemporary = (h.declareTemporary.1, h.declareTemporary.2.renumber r) :=
  congrArg (Prod.mk _) (addVariable_renumber r _ h.temporary.2)

theorem push_renumber (h : Hoisting) : (h.renumber r).push = h.push.renumber r := rfl

theorem pop_renumber (h : Hoisting) :
    (h.renumber r).pop = (h.pop.1.renumber r, h.pop.2.renumber r) := by
  obtain ⟨supply, frames⟩ := h
  cases frames <;> rfl

end Hoisting

def Progress.renumber (p : Progress) : Progress :=
  { p with
    hoisting := p.hoisting.renumber r
    functionExports := p.functionExports.map (·.renumber r) }

/-! ## Steps -/

namespace Lowering

/-- From renumbered progress the second step makes what the first makes, changed in some way, and
fails where the first fails. -/
def Mirrors {α : Type} (change : α → α) (x x' : Lowering α) : Prop :=
  ∀ p, x'.run (p.renumber r) = (x.run p).map fun out => (change out.1, out.2.renumber r)

/-- What must be evaluated before, and a value. -/
def renumberHeld (out : List Expr × Expr) : List Expr × Expr :=
  (out.1.map (·.renumber r), out.2.renumber r)

section Composition
variable {r} {α β : Type} {change : α → α} {change' : β → β} {x x' : Lowering α}
  {f f' : α → Lowering β} {a a' : α} {s : Setting}

theorem Mirrors.pure (h : a' = change a) : Mirrors r change (pure a) (pure a') := by
  rw [h]
  exact fun _ => rfl

theorem Mirrors.bind (hx : Mirrors r change x x')
    (hf : ∀ a, Mirrors r change' (f a) (f' (change a))) :
    Mirrors r change' (x >>= f) (x' >>= f') := by
  intro p
  rw [StateT.run_bind, StateT.run_bind, hx p]
  cases x.run p with
  | error e => rfl
  | ok out => exact hf out.1 out.2

theorem Mirrors.throw (e : LowerError) :
    Mirrors r change (throw e : Lowering α) (throw e) := fun _ => rfl

theorem Mirrors.ite {c : Prop} [Decidable c] {y y' : Lowering α}
    (hx : Mirrors r change x x') (hy : Mirrors r change y y') :
    Mirrors r change (if c then x else y) (if c then x' else y') := by
  by_cases h : c
  · rwa [if_pos h, if_pos h]
  · rwa [if_neg h, if_neg h]

theorem mirrors_get : Mirrors r (·.renumber r) (get : Lowering Progress) get := fun _ => rfl

theorem mirrors_modify {step step' : Progress → Progress}
    (h : ∀ p, step' (p.renumber r) = (step p).renumber r) :
    Mirrors r id (modify step : Lowering PUnit) (modify step') := fun p =>
  congrArg (fun q => Except.ok (PUnit.unit, q)) (h p)

theorem mirrors_modifyDepth (step : Nat → Nat) :
    Mirrors r id (modify fun p => { p with depth := step p.depth } : Lowering PUnit)
      (modify fun p => { p with depth := step p.depth }) :=
  mirrors_modify fun _ => rfl

theorem Mirrors.deeper (h : Mirrors r change x x') :
    Mirrors r change (deeper s x) (deeper (s.renumber r) x') :=
  mirrors_get.bind fun _ => .ite
    ((mirrors_modifyDepth (· + 1)).bind fun _ => h.bind fun _ =>
      (mirrors_modifyDepth (· - 1)).bind fun _ => .pure rfl)
    (.throw _)

theorem mirrors_hoist {step step' : Hoisting → Hoisting}
    (h : ∀ h, step' (h.renumber r) = (step h).renumber r) :
    Mirrors r id (hoist step) (hoist step') :=
  mirrors_modify fun p => congrArg
    (fun hoisting => ({ p with
      hoisting, functionExports := p.functionExports.map (·.renumber r) } : Progress))
    (h p.hoisting)

theorem mirrors_hoistGet {step step' : Hoisting → α × Hoisting}
    (h : ∀ h, step' (h.renumber r) = (change (step h).1, (step h).2.renumber r)) :
    Mirrors r change (hoistGet step) (hoistGet step') := fun p => congrArg
  (fun out : α × Hoisting => Except.ok (out.1, ({ p with
    hoisting := out.2, functionExports := p.functionExports.map (·.renumber r) } : Progress)))
  (h p.hoisting)

theorem mirrors_unique (base : String) :
    Mirrors r id (hoistGet (·.unique base)) (hoistGet (·.unique base)) :=
  mirrors_hoistGet fun h => h.unique_renumber r base

theorem mirrors_declareTemporary :
    Mirrors r id (hoistGet (·.declareTemporary)) (hoistGet (·.declareTemporary)) :=
  mirrors_hoistGet fun h => h.declareTemporary_renumber r

theorem mirrors_guardPatternDepth (depth : Nat) :
    Mirrors r id (guardPatternDepth s depth) (guardPatternDepth (s.renumber r) depth) :=
  .ite (.pure rfl) (.throw _)

theorem mirrors_requireRest : Mirrors r id requireRest requireRest := mirrors_modify fun _ => rfl

theorem mirrors_addExportedName (name : String) :
    Mirrors r id (addExportedName name) (addExportedName name) :=
  mirrors_modify fun p => (apply_ite (Progress.renumber r)
    (p.exportedNames.contains name = true) p
    { p with exportedNames := p.exportedNames ++ [name] }).symm

theorem mirrors_addExportedNames (names : List String) :
    Mirrors r id (addExportedNames names) (addExportedNames names) := by
  unfold addExportedNames
  induction names with
  | nil => exact .pure rfl
  | cons name names ih =>
    exact (mirrors_addExportedName name).bind fun _ => ih

theorem mirrors_addFunctionExport (call : Expr) :
    Mirrors r id (addFunctionExport call) (addFunctionExport (call.renumber r)) :=
  mirrors_modify fun p => by simp [Progress.renumber]

theorem Mirrors.inFunction (h : Mirrors r change x x') :
    Mirrors r (fun out => (change out.1, out.2.map (·.renumber r))) (inFunction x)
      (inFunction x') :=
  (mirrors_hoist fun h => h.push_renumber r).bind fun _ => h.bind fun _ =>
    (mirrors_hoistGet fun h => h.pop_renumber r).bind fun frame =>
      .pure (by rw [frame.statements_renumber])

theorem mirrors_stabilize (bound : List String) (value : Expr) :
    Mirrors r (renumberHeld r) (stabilize bound value) (stabilize bound (value.renumber r)) := by
  have hreusable : ((value.renumber r).ident?.any
      fun x => x.id.isSynthetic || !bound.contains x.name) =
      value.ident?.any fun x => x.id.isSynthetic || !bound.contains x.name := by
    rw [Expr.ident?_renumber]
    cases value.ident? with
    | none => rfl
    | some x => exact congrArg (· || _) (r.isSynthetic_apply x.id)
  unfold stabilize
  rw [hreusable]
  refine .ite (.pure rfl) (mirrors_declareTemporary.bind fun temporary => .pure ?_)
  simp [renumberHeld]

theorem mirrors_stabilizeUnlessOne (count : Nat) (bound : List String) (value : Expr) :
    Mirrors r (renumberHeld r) (stabilizeUnlessOne count bound value)
      (stabilizeUnlessOne count bound (value.renumber r)) :=
  .ite (.pure rfl) (mirrors_stabilize bound value)

end Composition

/-! ## Top-level declarations -/

section TopLevel
variable {r} {s : Setting}

theorem mirrors_exportCall (modifiers : Modifiers) (name : String) :
    Mirrors r (·.renumber r) (exportCall s modifiers name)
      (exportCall (s.renumber r) modifiers name) := by
  have hcall : (s.renumber r).publish (Interface.exportNameOf modifiers name) (.ofName name) =
      (s.publish (Interface.exportNameOf modifiers name) (.ofName name)).renumber r := by
    rw [← Setting.publish_renumber, Expr.renumber_ofName]
  unfold exportCall
  exact .ite ((mirrors_addExportedName name).bind fun _ => .pure hcall) (.pure hcall)

theorem mirrors_hoistFunction (modifiers : Modifiers) (f : Func) :
    Mirrors r id (hoistFunction s modifiers f)
      (hoistFunction (s.renumber r) modifiers (f.renumber r)) := by
  obtain ⟨name, params, body, isAsync, isGenerator⟩ := f
  have hhoist : ∀ x : Ident,
      Mirrors r id (hoist (·.addFunction (.function {} ⟨some x, params, body, isAsync, isGenerator⟩)))
        (hoist (·.addFunction (.function {}
          ⟨some (x.renumber r), renumberParams r params, renumberStmts r body, isAsync,
            isGenerator⟩))) := fun x =>
    mirrors_hoist fun h => h.addFunction_renumber r
      (.function {} ⟨some x, params, body, isAsync, isGenerator⟩)
  have hrest : ∀ x : Ident, Mirrors r id
      (do
        if modifiers.isExported then addFunctionExport (← exportCall s modifiers x.name)
        hoist (·.addFunction (.function {} ⟨some x, params, body, isAsync, isGenerator⟩)))
      (do
        if modifiers.isExported then
          addFunctionExport (← exportCall (s.renumber r) modifiers (x.renumber r).name)
        hoist (·.addFunction (.function {}
          ⟨some (x.renumber r), renumberParams r params, renumberStmts r body, isAsync,
            isGenerator⟩))) := fun x =>
    .ite ((mirrors_exportCall modifiers x.name).bind fun call =>
      (mirrors_addFunctionExport call).bind fun _ => hhoist x) (hhoist x)
  cases name with
  | some x => exact hrest x
  | none =>
    have hname : Mirrors r (·.renumber r) (Ident.synthetic <$> hoistGet (·.unique "default"))
        (Ident.synthetic <$> hoistGet (·.unique "default")) := by
      rw [← bind_pure_comp]
      exact (mirrors_unique "default").bind fun name =>
        .pure (Ident.renumber_synthetic r name).symm
    exact hname.bind hrest

theorem mirrors_hoistClassName (name : Option Ident) :
    Mirrors r id (hoistClassName name) (hoistClassName (name.map (·.renumber r))) := by
  have hhoist : ∀ name, Mirrors r id
      (do
        hoist (·.addVariable name)
        return name)
      (do
        hoist (·.addVariable name)
        return name) := fun name =>
    (mirrors_hoist fun h => h.addVariable_renumber r name).bind fun _ => .pure rfl
  cases name with
  | some x => exact hhoist x.name
  | none => exact (mirrors_unique "default").bind hhoist

theorem mirrors_classAssignment (modifiers : Modifiers) (name : String) (c : Class) :
    Mirrors r (renumberStmts r) (classAssignment s modifiers name c)
      (classAssignment (s.renumber r) modifiers name (c.renumber r)) := by
  have hassignment : (Expr.assignName name (.classExpr (c.renumber r))) =
      (Expr.assignName name (.classExpr c)).renumber r :=
    (Expr.renumber_assignName r name (.classExpr c)).symm
  unfold classAssignment
  rw [hassignment]
  exact .ite ((mirrors_exportCall modifiers name).bind fun call => .pure rfl) (.pure rfl)

theorem mirrors_exportSpecifier (spec : ExportSpecifier) :
    Mirrors r (renumberStmts r) (exportSpecifier s spec)
      (exportSpecifier (s.renumber r) (spec.renumber r)) := by
  have himport : ((s.renumber r).names.importOf? (spec.renumber r).source).isSome =
      (s.names.importOf? spec.source).isSome := by
    rw [Setting.names_renumber]
    exact (congrArg Option.isSome (s.names.importOf?_renumber r spec.source)).trans Option.isSome_map
  have hfunction : ((s.renumber r).names.valueDeclaration? (spec.renumber r).source).any
        (s.renumber r).interface.functions.contains =
      (s.names.valueDeclaration? spec.source).any s.interface.functions.contains := by
    have hdeclaration := s.names.valueDeclaration?_renumber r spec.source
    rw [Setting.names_renumber, Setting.interface_renumber]
    refine (congrArg (Option.any _) hdeclaration).trans ?_
    cases s.names.valueDeclaration? spec.source with
    | none => rfl
    | some declaration => exact s.interface.contains_functions_renumber r declaration
  have hcall : ∀ value, (s.renumber r).publish spec.exportedName (value.renumber r) =
      (s.publish spec.exportedName value).renumber r := s.publish_renumber r _
  have hname := hcall (.ofName spec.source.name)
  rw [Expr.renumber_ofName] at hname
  unfold exportSpecifier
  rw [Setting.names_renumber, NameTable.specifierIsValue_renumber, ← Setting.names_renumber,
    himport, hfunction]
  refine .ite (.pure rfl) ((mirrors_addExportedName _).bind fun _ => .ite (.pure rfl) (.ite ?_ ?_))
  · have hexport := mirrors_addFunctionExport (r := r)
      (s.publish spec.exportedName (.ofName spec.source.name))
    rw [← hname] at hexport
    exact hexport.bind fun _ => .pure rfl
  · exact .pure (congrArg (fun e => [Stmt.expr e]) (hcall (.ident spec.source)))

theorem renumberStmts_append (ss ss' : List Stmt) :
    renumberStmts r (ss ++ ss') = renumberStmts r ss ++ renumberStmts r ss' := by
  rw [renumberStmts_eq, renumberStmts_eq, renumberStmts_eq, List.map_append]

theorem mirrors_exportSpecifiers : (specs : List ExportSpecifier) →
    Mirrors r (renumberStmts r) (exportSpecifiers s specs)
      (exportSpecifiers (s.renumber r) (specs.map (·.renumber r)))
  | [] => .pure rfl
  | spec :: specs => (mirrors_exportSpecifier spec).bind fun stmts =>
    (mirrors_exportSpecifiers specs).bind fun rest => .pure (renumberStmts_append stmts rest).symm

end TopLevel
end Lowering
end RegisterForm
