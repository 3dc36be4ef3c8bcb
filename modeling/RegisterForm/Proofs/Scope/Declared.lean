import RegisterForm.Proofs.Scope.Growth
/-!
# The bindings of a tree

Whatever a part of the tree declares is one of its identifiers, and it is exported or imported
only where module declarations stand.
-/
namespace RegisterForm

/-- The bindings name identifiers among the visits, and without module declarations among
these they are plain. -/
structure Declares (vs : List Visit) (bs : List Binding) : Prop where
  ident : ∀ b ∈ bs, b.ident ∈ identsIn vs
  plain : AllInner vs → ∀ b ∈ bs, b.IsPlain

namespace Declares
variable {vs ws : List Visit} {bs cs : List Binding}

theorem nil : Declares vs [] := ⟨by simp, by simp⟩

theorem mono (h : Declares vs bs) (hv : vs ⊆ ws) : Declares ws bs :=
  ⟨fun b hb => identsIn_subset hv (h.ident b hb), fun ha => h.plain fun v hm => ha v (hv hm)⟩

theorem append (h : Declares vs bs) (h' : Declares ws cs) : Declares (vs ++ ws) (bs ++ cs) where
  ident b hb := by
    rw [identsIn_append, List.mem_append]
    exact (List.mem_append.mp hb).imp (h.ident b) (h'.ident b)
  plain ha b hb := by
    obtain ⟨hv, hw⟩ := (allInner_append vs ws).mp ha
    exact (List.mem_append.mp hb).elim (h.plain hv b) (h'.plain hw b)

theorem under (v : Visit) (h : Declares vs bs) : Declares (v :: vs) bs :=
  h.mono (List.subset_cons_self ..)

theorem left (h : Declares vs bs) : Declares (vs ++ ws) bs := h.mono (List.subset_append_left ..)

theorem right (h : Declares ws bs) : Declares (vs ++ ws) bs := h.mono (List.subset_append_right ..)

/-- Bindings with the same roles for some identifiers. -/
theorem bindingsOf {roles : Roles} {xs : List Ident} (hx : xs ⊆ identsIn vs)
    (hr : AllInner vs → roles.isExported = false) : Declares vs (bindingsOf roles xs) where
  ident b hb := by
    obtain ⟨x, hm, rfl⟩ := List.mem_map.mp hb
    exact hx hm
  plain ha b hb := by
    obtain ⟨x, _, rfl⟩ := List.mem_map.mp hb
    exact ⟨hr ha, rfl⟩

end Declares

/-! ## Patterns -/

mutual

theorem Pattern.boundIdents_subset : (p : Pattern) → p.boundIdents ⊆ identsIn p.visits
  | .ident x => List.Subset.refl [x]
  | .expr _ => List.nil_subset _
  | .object properties rest => subset_identsIn_cons _
    (subset_identsIn_append (propertyIdents_subset properties) (restIdents_subset rest))
  | .array elements rest => subset_identsIn_cons _
    (subset_identsIn_append (elementIdents_subset elements) (restIdents_subset rest))

theorem PatternProperty.boundIdents_subset :
    (p : PatternProperty) → p.boundIdents ⊆ identsIn p.visits
  | .keyed _ target _ => fun _ hx =>
    identsIn_subset (List.subset_append_of_subset_left _ (List.subset_append_right ..))
      (target.boundIdents_subset hx)
  | .shorthand _ _ => List.cons_subset.mpr ⟨.head _, List.nil_subset _⟩

theorem PatternElement.boundIdents_subset :
    (p : PatternElement) → p.boundIdents ⊆ identsIn p.visits
  | ⟨target, _⟩ => fun _ hx =>
    identsIn_subset (List.subset_append_left ..) (target.boundIdents_subset hx)

theorem propertyIdents_subset :
    (ps : List PatternProperty) → propertyIdents ps ⊆ identsIn (patternPropertiesVisits ps)
  | [] => List.nil_subset _
  | p :: ps => subset_identsIn_append p.boundIdents_subset (propertyIdents_subset ps)

theorem slotIdents_subset :
    (e : Option PatternElement) → slotIdents e ⊆ identsIn (patternSlotVisits e)
  | none => List.nil_subset _
  | some e => e.boundIdents_subset

theorem elementIdents_subset :
    (es : List (Option PatternElement)) → elementIdents es ⊆ identsIn (patternSlotsVisits es)
  | [] => List.nil_subset _
  | e :: es => subset_identsIn_append (slotIdents_subset e) (elementIdents_subset es)

theorem restIdents_subset : (p : Option Pattern) → restIdents p ⊆ identsIn (patternVisits? p)
  | none => List.nil_subset _
  | some p => p.boundIdents_subset

end

theorem Declarator.target_subset (d : Declarator) : d.target.visits ⊆ d.visits := by
  cases d
  exact List.subset_append_left _ _

theorem boundIdents_subset_declaratorsVisits (ds : List Declarator) :
    ds.flatMap (·.target.boundIdents) ⊆ identsIn (declaratorsVisits ds) := by
  induction ds with
  | nil => simp
  | cons d ds ih =>
    simp only [List.flatMap_cons, declaratorsVisits, identsIn_append]
    refine append_subset_append ?_ ih
    exact fun x hx => identsIn_subset d.target_subset (d.target.boundIdents_subset hx)

theorem VarList.boundIdents_subset (list : VarList) : list.boundIdents ⊆ identsIn list.visits := by
  cases list
  exact boundIdents_subset_declaratorsVisits _

/-! ## Statements -/

theorem VarList.declares_varBindings {vs : List Visit} (list : VarList) (isExported : Bool)
    (hv : list.visits ⊆ vs) (hx : AllInner vs → isExported = false) :
    Declares vs (list.varBindings isExported) := by
  unfold VarList.varBindings
  split
  · exact .nil
  · exact .bindingsOf (fun x hm => identsIn_subset hv (list.boundIdents_subset hm)) hx

theorem VarList.declares_lexicalBindings {vs : List Visit} (list : VarList) (isExported : Bool)
    (hv : list.visits ⊆ vs) (hx : AllInner vs → isExported = false) :
    Declares vs (list.lexicalBindings isExported) := by
  unfold VarList.lexicalBindings
  split
  · exact .bindingsOf (fun x hm => identsIn_subset hv (list.boundIdents_subset hm)) hx
  · exact .nil

theorem ForInit.declares_varBindings (init : ForInit) : Declares init.visits init.varBindings := by
  cases init with
  | var list => exact list.declares_varBindings false (List.Subset.refl _) fun _ => rfl
  | absent => exact .nil
  | expr e => exact .nil

theorem ForInit.declares_lexicalBindings (init : ForInit) :
    Declares init.visits init.lexicalBindings := by
  cases init with
  | var list => exact list.declares_lexicalBindings false (List.Subset.refl _) fun _ => rfl
  | absent => exact .nil
  | expr e => exact .nil

theorem ForHead.declares_varBindings (head : ForHead) : Declares head.visits head.varBindings := by
  cases head with
  | var list => exact list.declares_varBindings false (List.Subset.refl _) fun _ => rfl
  | pattern p => exact .nil

theorem ForHead.declares_lexicalBindings (head : ForHead) :
    Declares head.visits head.lexicalBindings := by
  cases head with
  | var list => exact list.declares_lexicalBindings false (List.Subset.refl _) fun _ => rfl
  | pattern p => exact .nil

theorem blockVarBindings_append (before after : List Stmt) :
    blockVarBindings (before ++ after) = blockVarBindings before ++ blockVarBindings after := by
  induction before with
  | nil => rfl
  | cons st before ih => rw [List.cons_append, blockVarBindings, blockVarBindings, ih,
      List.append_assoc]

/-- A statement that exports is itself among its visits. -/
private theorem not_exported {s : Stmt} {vs : List Visit} (h : AllInner (.stmt s :: vs)) :
    s.isModuleSyntax = false := by
  simpa [Visit.isInner] using (allInner_cons vs _).mp h |>.1

mutual

theorem Stmt.declares_varBindings : (s : Stmt) → Declares s.visits s.varBindings
  | .var _ list => list.declares_varBindings _ (List.subset_cons_self ..) not_exported
  | .block body => (declares_blockVarBindings body).under _
  | .ifThen _ yes => yes.declares_varBindings.right.under _
  | .ifElse _ yes no => (yes.declares_varBindings.right.append no.declares_varBindings).under _
  | .forLoop init _ _ body =>
    (init.declares_varBindings.left.left.append body.declares_varBindings).under _
  | .forIn head _ body | .forOf head _ body _ =>
    (head.declares_varBindings.left.append body.declares_varBindings).under _
  | .whileLoop _ body | .doWhile body _ | .withObject _ body =>
    body.declares_varBindings.right.under _
  | .labeled _ body => (body.declares_varBindings.under _).under _
  | .tryCatch body handler finalizer =>
    (((declares_blockVarBindings body).append (declares_catchVarBindings handler)).append
      (declares_finallyVarBindings finalizer)).under _
  | .switch _ cases => (declares_casesVarBindings cases).right.under _
  | .expr _ | .function _ _ | .classDecl _ _ | .importFrom .. | .importEquals .. | .exportFrom ..
  | .exportValue .. | .ambient .. | .ret _ | .throw _ | .breakTo _ | .continueTo _ | .empty
  | .debugger => .nil

theorem declares_blockVarBindings :
    (body : List Stmt) → Declares (stmtsVisits body) (blockVarBindings body)
  | [] => .nil
  | s :: ss => s.declares_varBindings.append (declares_blockVarBindings ss)

theorem declares_catchVarBindings :
    (handler : Option Catch) → Declares (catchVisits? handler) (catchVarBindings handler)
  | none => .nil
  | some ⟨_, body⟩ => (declares_blockVarBindings body).right

theorem declares_finallyVarBindings : (finalizer : Option (List Stmt)) →
    Declares (blockVisits? finalizer) (finallyVarBindings finalizer)
  | none => .nil
  | some body => declares_blockVarBindings body

theorem declares_casesVarBindings :
    (cases : List Case) → Declares (casesVisits cases) (casesVarBindings cases)
  | [] => .nil
  | ⟨_, body⟩ :: cases =>
    (declares_blockVarBindings body).right.append (declares_casesVarBindings cases)

end

/-- Inside a statement of the module nothing is imported. -/
theorem Stmt.declares_lexicalBindings (s : Stmt) : Declares s.visits (s.lexicalBindings false) := by
  cases s with
  | var modifiers list =>
    exact list.declares_lexicalBindings _ (List.subset_cons_self ..) not_exported
  | function modifiers f =>
    refine .bindingsOf (fun x hx => subset_identsIn_cons _ ?_ hx) not_exported
    cases f
    simp only [Func.visits, identsIn_func, identsIn_append, identsIn_map_ident, List.append_assoc]
    exact List.subset_append_left ..
  | classDecl modifiers c =>
    refine .bindingsOf (fun x hx => subset_identsIn_cons _ ?_ hx) not_exported
    cases c
    simp only [Class.visits, identsIn_classNode, identsIn_append, identsIn_map_ident,
      List.append_assoc]
    exact List.subset_append_left ..
  | ambient name isExported => exact .bindingsOf (List.Subset.refl [name]) fun _ => rfl
  | _ => exact .nil

theorem declares_blockLexicalBindings :
    (body : List Stmt) → Declares (stmtsVisits body) (blockLexicalBindings false body)
  | [] => .nil
  | s :: ss => s.declares_lexicalBindings.append (declares_blockLexicalBindings ss)

theorem declares_paramBindings :
    (params : List Param) → Declares (paramsVisits params) (paramBindings params)
  | [] => .nil
  | ⟨pattern, _, _⟩ :: params =>
    Declares.append (Declares.bindingsOf pattern.boundIdents_subset fun _ => rfl).left
      (declares_paramBindings params)

theorem declares_catchBindings :
    (param : Option Pattern) → Declares (patternVisits? param) (catchBindings param)
  | none => .nil
  | some p => by
    rw [catchBindings, Option.toList_some, List.flatMap_singleton]
    exact .bindingsOf p.boundIdents_subset fun _ => rfl

theorem declares_switchBindings : (cases : List Case) →
    Declares (casesVisits cases) (cases.flatMap fun c => blockLexicalBindings false c.body)
  | [] => .nil
  | ⟨_, body⟩ :: cases =>
    (declares_blockLexicalBindings body).right.append (declares_switchBindings cases)

end RegisterForm
