import RegisterForm.Proofs.Bounds.Lowered
/-!
# Statements of the top level

A statement of the top level may hoist a function, set aside the call that publishes it and note
names that the module exports. What it publishes on its own it has noted by the time it ends, so
that it stays within any allowance that grants the names noted then.
-/
namespace RegisterForm
open Lowering

/-- What has been set aside for the top of the module keeps to an allowance. -/
structure Setting.SetsAside (s : Setting) (A : Allowance) (p p' : Progress) : Prop where
  functions : p.hoisting.Grows (fun st => s.Keeps A st.visits) p'.hoisting
  calls : ∀ st ∈ p'.functionExports, st ∈ p.functionExports ∨ s.Keeps A st.visits

namespace Setting.SetsAside
variable {s : Setting} {A : Allowance} {p p' p'' : Progress}

theorem refl (p : Progress) : s.SetsAside A p p := ⟨.refl _ p.hoisting, fun _ => .inl⟩

theorem trans (h : s.SetsAside A p p') (h' : s.SetsAside A p' p'') : s.SetsAside A p p'' :=
  ⟨h.functions.trans h'.functions, fun st hst => (h'.calls st hst).elim (h.calls st) .inr⟩

theorem of_extends {H : String → Prop} (h : p.Extends H p') : s.SetsAside A p p' where
  functions := h.hoisting.frames.imp fun _ _ hf _ hst => .inl (hf.functions ▸ hst)
  calls _ hst := .inl (h.calls ▸ hst)

end Setting.SetsAside

namespace Lowering

/-- The names that a step notes. What it makes and sets aside keeps to an allowance that grants all
names noted at its end, provided that `P`. -/
structure Reports (s : Setting) (A : Allowance) (P : Prop) {α : Type} (noted : List String)
    (x : Lowering α) (Q : α → Prop) : Prop where
  notes : ∀ ⦃p a p'⦄, x.run p = .ok (a, p') →
    p.exportedNames <+: p'.exportedNames ∧ noted ⊆ p'.exportedNames
  keeps : ∀ ⦃p a p'⦄, x.run p = .ok (a, p') →
    (∀ name ∈ p'.exportedNames, A.publishes name) → P → s.SetsAside A p p' ∧ Q a

namespace Reports
variable {s : Setting} {A : Allowance} {P : Prop} {α β : Type} {noted noted' : List String}
  {x : Lowering α} {f : α → Lowering β} {Q : α → Prop} {Q' : β → Prop}

theorem pure {a : α} (h : P → Q a) : Reports s A P [] (pure a : Lowering α) Q where
  notes p a' p' hr := by
    cases hr
    exact ⟨List.prefix_rfl, List.nil_subset _⟩
  keeps p a' p' hr _ hP := by
    cases hr
    exact ⟨.refl p, h hP⟩

theorem of_yields {H : String → Prop} (h : Yields (Progress.Extends H) x Q) :
    Reports s A P [] x Q where
  notes _ _ _ hr := ⟨(h hr).1.exported, List.nil_subset _⟩
  keeps _ _ _ hr _ _ := ⟨.of_extends (h hr).1, (h hr).2⟩

/-- What the first step makes may be relied on in the second; what it always has may be relied on
for the names noted too. -/
theorem bind_of {S : α → Prop} (hshape : Yields Any x S) (hx : Reports s A P noted x Q)
    (hf : ∀ a, S a → Reports s A (P ∧ Q a) noted' (f a) Q') :
    Reports s A P (noted ++ noted') (x >>= f) Q' where
  notes p b p' hr := by
    obtain ⟨a, q, h₁, h₂⟩ := run_bind_eq_ok hr
    obtain ⟨hfirst, hnoted⟩ := hx.notes h₁
    obtain ⟨hrest, hnoted'⟩ := (hf a (hshape h₁).2).notes h₂
    exact ⟨hfirst.trans hrest, List.append_subset.mpr ⟨List.Subset.trans hnoted hrest.subset, hnoted'⟩⟩
  keeps p b p' hr hgranted hP := by
    obtain ⟨a, q, h₁, h₂⟩ := run_bind_eq_ok hr
    have hfa := hf a (hshape h₁).2
    have hrest := (hfa.notes h₂).1
    obtain ⟨haside, ha⟩ := hx.keeps h₁ (fun name hname => hgranted name (hrest.subset hname)) hP
    obtain ⟨haside', hb⟩ := hfa.keeps h₂ hgranted ⟨hP, ha⟩
    exact ⟨haside.trans haside', hb⟩

theorem bind (hx : Reports s A P noted x Q)
    (hf : ∀ a, Reports s A (P ∧ Q a) noted' (f a) Q') :
    Reports s A P (noted ++ noted') (x >>= f) Q' :=
  bind_of (yields_any x) hx fun a _ => hf a

theorem weaken (h : Reports s A P noted x Q) (hnoted : noted' ⊆ noted) :
    Reports s A P noted' x Q :=
  ⟨fun _ _ _ hr => ⟨(h.notes hr).1, List.Subset.trans hnoted (h.notes hr).2⟩, h.keeps⟩

theorem deeper (h : Reports s A P noted x Q) : Reports s A P noted (deeper s x) Q where
  notes p a p' hr := by
    obtain ⟨-, q, hx, rfl⟩ := run_deeper_eq_ok hr
    have hnotes := h.notes hx
    exact ⟨hnotes.1, hnotes.2⟩
  keeps p a p' hr hgranted hP := by
    obtain ⟨-, q, hx, rfl⟩ := run_deeper_eq_ok hr
    obtain ⟨haside, ha⟩ := h.keeps hx hgranted hP
    exact ⟨⟨haside.functions, haside.calls⟩, ha⟩

theorem ite {c : Prop} [Decidable c] {y : Lowering α} (hx : c → Reports s A P noted x Q)
    (hy : ¬c → Reports s A P noted y Q) : Reports s A P noted (if c then x else y) Q := by
  by_cases h : c
  · rw [if_pos h]
    exact hx h
  · rw [if_neg h]
    exact hy h

end Reports

section steps
variable {s : Setting} {A : Allowance} {P : Prop}

/-- What is noted is granted. -/
theorem reports_addExportedName (name : String) :
    Reports s A P [name] (addExportedName name) fun _ => A.publishes name := by
  have hnotes : ∀ ⦃p a p'⦄, (addExportedName name).run p = .ok (a, p') →
      p.exportedNames <+: p'.exportedNames ∧ [name] ⊆ p'.exportedNames := by
    intro p a p' hr
    cases hr
    dsimp only
    split
    · next hold => exact ⟨List.prefix_rfl, by simpa using hold⟩
    · exact ⟨List.prefix_append _ _, by simp⟩
  refine ⟨hnotes, fun p a p' hr hgranted _ => ⟨?_, ?_⟩⟩
  · cases hr
    dsimp only
    split <;> exact ⟨.refl _ p.hoisting, fun _ => .inl⟩
  · exact hgranted name ((hnotes hr).2 (List.mem_singleton_self name))

theorem reports_addFunctionExport {call : Expr} (h : P → s.Keeps A call.visits) :
    Reports s A P [] (addFunctionExport call) fun _ => True where
  notes p a p' hr := by
    cases hr
    exact ⟨List.prefix_rfl, List.nil_subset _⟩
  keeps p a p' hr _ hP := by
    cases hr
    refine ⟨⟨.refl _ p.hoisting, fun st hst => ?_⟩, trivial⟩
    refine (List.mem_append.mp hst).imp_right fun hnew => ?_
    obtain rfl := List.mem_singleton.mp hnew
    exact .cons trivial (h hP)

/-- A change of the collections that adds functions of the allowance only. -/
theorem reports_hoist {step : Hoisting → Hoisting}
    (h : P → ∀ h : Hoisting, h.Grows (fun st => s.Keeps A st.visits) (step h)) :
    Reports s A P [] (hoist step) fun _ => True where
  notes p a p' hr := by
    cases hr
    exact ⟨List.prefix_rfl, List.nil_subset _⟩
  keeps p a p' hr _ hP := by
    cases hr
    exact ⟨⟨h hP p.hoisting, fun _ => .inl⟩, trivial⟩

theorem reports_unique (base : String) :
    Reports s A P [] (hoistGet (·.unique base)) fun _ => True where
  notes p a p' hr := by
    cases hr
    exact ⟨List.prefix_rfl, List.nil_subset _⟩
  keeps p a p' hr _ _ := by
    cases hr
    exact ⟨⟨.refl _ p.hoisting, fun _ => .inl⟩, trivial⟩

end steps
end Lowering

/-! ## Declarations -/

/-- The name that a function or class of the top level notes. -/
def Modifiers.noted (modifiers : Modifiers) (name : Option Ident) : List String :=
  if modifiers.isExported && !modifiers.isDefault then name.toList.map (·.name) else []

/-- The names that a statement of the top level notes. -/
def Setting.noted (s : Setting) : Stmt → List String
  | .var modifiers list =>
    if modifiers.isExported then list.boundIdents.map (·.name) else []
  | .function modifiers f => modifiers.noted f.name
  | .classDecl modifiers c => modifiers.noted c.name
  | .importEquals _ isExported name kind value =>
    if isExported && s.names.importEqualsIsValue kind value then [name.name] else []
  | .exportFrom _ (some (.named specifiers)) none false =>
    (specifiers.filter s.names.specifierIsValue).map (·.exportedName)
  | _ => []

namespace Lowering
variable {s : Setting} {A : Allowance} {P : Prop}

/-- The call publishes the name that has been noted, or `default`. -/
theorem reports_exportCall (hdefault : A.publishes "default") (modifiers : Modifiers)
    (name : String) :
    Reports s A P (if modifiers.isDefault then [] else [name]) (exportCall s modifiers name)
      fun call => s.Keeps A call.visits := by
  unfold exportCall Interface.exportNameOf
  cases modifiers.isDefault with
  | true => exact .pure fun _ => Setting.keeps_publish hdefault (Setting.keeps_ofName name)
  | false =>
    refine (reports_addExportedName name).bind fun _ => .pure ?_
    intro hP
    exact Setting.keeps_publish hP.2 (Setting.keeps_ofName name)

theorem reports_hoistFunction (hdefault : A.publishes "default") (modifiers : Modifiers) {f : Func}
    (hf : P → s.Keeps A f.visits) :
    Reports s A P (modifiers.noted f.name) (hoistFunction s modifiers f) fun _ => True := by
  obtain ⟨name, params, body, isAsync, isGenerator⟩ := f
  have hkept : P → s.Keeps A (paramsVisits params) ∧ s.Keeps A (stmtsVisits body) := by
    intro hP
    have hparts := hf hP
    simp only [Func.visits, Setting.keeps_cons, Setting.keeps_append] at hparts
    exact ⟨hparts.2.1.2, hparts.2.2⟩
  have hadd : ∀ (x : Ident) {P' : Prop}, (P' → P) → Reports s A P' []
      (hoist (·.addFunction (.function {} ⟨some x, params, body, isAsync, isGenerator⟩)))
      fun _ => True := by
    intro x P' hP'
    refine reports_hoist fun hP h => .addFunction h ?_
    obtain ⟨hparams, hbody⟩ := hkept (hP' hP)
    have hname : s.Keeps A [.ident x] := .cons trivial Setting.keeps_nil
    exact .cons trivial (.cons trivial ((hname.append hparams).append hbody))
  have hrest : ∀ (x : Ident) {P' : Prop}, (P' → P) →
      Reports s A P' (modifiers.noted (some x)) (do
        if modifiers.isExported then addFunctionExport (← exportCall s modifiers x.name)
        hoist (·.addFunction (.function {} ⟨some x, params, body, isAsync, isGenerator⟩)))
        fun _ => True := by
    intro x P' hP'
    unfold Modifiers.noted
    cases modifiers.isExported with
    | false => exact hadd x hP'
    | true =>
      refine ((reports_exportCall hdefault modifiers x.name).bind fun call =>
        (reports_addFunctionExport fun hP => hP.2).bind fun _ =>
          hadd x fun hP => hP' hP.1.1).weaken ?_
      cases modifiers.isDefault <;> simp
  unfold hoistFunction
  cases name with
  | some x => exact hrest x id
  | none =>
    have hname : Reports s A P [] (Ident.synthetic <$> hoistGet (·.unique "default"))
        fun _ => True := by
      rw [← bind_pure_comp]
      exact (reports_unique "default").bind fun name => .pure fun _ => trivial
    refine (hname.bind fun x => (hrest x fun hP => hP.1).weaken (List.nil_subset _)).weaken ?_
    simp [Modifiers.noted]

theorem reports_classAssignment (hdefault : A.publishes "default") (modifiers : Modifiers)
    (name : String) {c : Class} (hc : P → s.Keeps A c.visits) :
    Reports s A P (if modifiers.isExported && !modifiers.isDefault then [name] else [])
      (classAssignment s modifiers name c) fun sts => s.Keeps A (stmtsVisits sts) := by
  have hassign : P → s.Keeps A (Expr.assignName name (.classExpr c)).visits := by
    intro hP
    exact .expr rfl (.append (Setting.keeps_identPattern _) (.expr rfl (hc hP)))
  unfold classAssignment
  cases modifiers.isExported with
  | false => exact .pure fun hP => .exprStmt (hassign hP)
  | true =>
    have hcalled : Reports s A P (if modifiers.isDefault then [] else [name]) (do
        let call ← exportCall s modifiers name
        return [.expr (.assignName name (.classExpr c)), .expr call])
        fun sts => s.Keeps A (stmtsVisits sts) := by
      rw [← List.append_nil (if modifiers.isDefault then [] else [name])]
      refine (reports_exportCall hdefault modifiers name).bind fun call => ?_
      have hmade : P ∧ s.Keeps A call.visits → s.Keeps A
          (stmtsVisits [.expr (.assignName name (.classExpr c)), .expr call]) := by
        intro hP
        exact .append (.cons trivial (hassign hP.1)) (.exprStmt hP.2)
      exact .pure hmade
    exact hcalled.weaken (by cases modifiers.isDefault <;> simp)

/-- The class is lowered once its variable is declared. -/
theorem reports_hoistedClass (hdefault : A.publishes "default") (modifiers : Modifiers)
    (name : Option Ident) {c : Lowering Class}
    (hc : ∀ {P : Prop}, Reports s A P [] c fun c => s.Keeps A c.visits) :
    Reports s A P (modifiers.noted name) (do
      let held ← hoistClassName name
      classAssignment s modifiers held (← c)) fun sts => s.Keeps A (stmtsVisits sts) := by
  have hrest : ∀ (text : String) {P : Prop}, Reports s A P
      (if modifiers.isExported && !modifiers.isDefault then [text] else []) (do
        hoist (·.addVariable text)
        classAssignment s modifiers text (← c)) fun sts => s.Keeps A (stmtsVisits sts) := by
    intro text P
    exact (reports_hoist fun _ h => .addVariable h text).bind fun _ => hc.bind fun _ =>
      reports_classAssignment hdefault modifiers text fun hP => hP.2
  cases name with
  | some x => exact hrest x.name
  | none =>
    refine ((reports_unique "default").bind fun text =>
      (hrest text).weaken (List.nil_subset _)).weaken ?_
    simp [Modifiers.noted]

theorem reports_exportSpecifiers : ∀ (specs : List ExportSpecifier) {P : Prop},
    Reports s A P ((specs.filter s.names.specifierIsValue).map (·.exportedName))
      (exportSpecifiers s specs) fun sts => s.Keeps A (stmtsVisits sts)
  | [], _ => .pure fun _ => Setting.keeps_nil
  | spec :: specs, P => by
    have hfirst : Reports s A P
        (if s.names.specifierIsValue spec then [spec.exportedName] else []) (exportSpecifier s spec)
        fun sts => s.Keeps A (stmtsVisits sts) := by
      unfold exportSpecifier
      cases s.names.specifierIsValue spec with
      | false => exact .pure fun _ => Setting.keeps_nil
      | true =>
        change Reports s A P ([spec.exportedName] ++ []) _ _
        refine (reports_addExportedName spec.exportedName).bind fun _ => ?_
        refine .ite (fun _ => .pure fun _ => Setting.keeps_nil) fun _ => ?_
        refine .ite (fun _ => ?_) fun _ => ?_
        · refine (reports_addFunctionExport fun hP => ?_).bind fun _ => .pure fun _ =>
            Setting.keeps_nil
          exact Setting.keeps_publish hP.2 (Setting.keeps_ofName _)
        · refine .pure fun hP => ?_
          have hcall : s.Keeps A
              (s.publish spec.exportedName (.ident spec.source)).visits :=
            Setting.keeps_publish hP.2 (Setting.keeps_identExpr spec.source)
          exact .exprStmt hcall
    refine (hfirst.bind fun sts => (reports_exportSpecifiers specs).bind fun more =>
      .pure fun hP => ?_).weaken ?_
    · rw [NameTable.stmtsVisits_append, Setting.keeps_append]
      exact ⟨hP.1.2, hP.2⟩
    · cases hvalue : s.names.specifierIsValue spec <;> simp [hvalue]

theorem reports_addExportedNames : ∀ (names : List String) {P : Prop},
    Reports s A P names (addExportedNames names) fun _ => True
  | [], _ => .pure fun _ => trivial
  | name :: names, _ => (reports_addExportedName name).bind fun _ => reports_addExportedNames names

end Lowering

/-! ## Statements -/

/-- The name to which an import assignment gives the value of an entity. -/
def NameTable.alias? (t : NameTable) : Stmt → Option Ident
  | .importEquals _ _ name .entity value =>
    if t.importEqualsIsValue .entity value then some name else none
  | _ => none

namespace Lowering
variable {s : Setting} {A : Allowance} {P : Prop} (hrest : s.exporter ≠ restName)

include hrest in
/-- An import assignment gives its name a value only if that is an entity. -/
theorem reports_importAssignment {site : Site} {isExported : Bool} {name : Ident}
    {kind : Reference} {value : Expr}
    (hvalue : s.names.importEqualsIsValue kind value = true) (hparts : s.AllowsAll A value.visits)
    (halias : ∀ x, s.names.alias? (.importEquals site isExported name kind value) = some x →
      ∀ name ∈ s.exportNames x, A.publishes name) :
    Reports s A P [] (match kind with
      | .require => return []
      | .entity => return [.expr (s.bindingAssignment name (← value.lower s true))])
      fun sts => s.Keeps A (stmtsVisits sts) := by
  cases kind with
  | require => exact .pure fun _ => Setting.keeps_nil
  | entity =>
    have hnames := halias name (by simp [NameTable.alias?, hvalue])
    refine .of_yields ((value.lower_stays hrest true hparts).bind fun value hvalue => .pure ?_)
    exact .exprStmt (Setting.keeps_bindingAssignment hnames hvalue)

variable (hdefault : A.publishes "default") (hhoists : ∀ name, A.hoists name)
include hrest hdefault hhoists

/-- A statement of the top level notes its names, and what it makes keeps to an allowance that
grants them. -/
theorem reports_lower (st : Stmt) (hparts : s.AllowsAll A st.visits.tail)
    (halias : ∀ x, s.names.alias? st = some x → ∀ name ∈ s.exportNames x, A.publishes name) :
    Reports s A P (s.noted st) (st.lower s .topLevel) fun sts => s.Keeps A (stmtsVisits sts) := by
  have hplain : st.isDeclaration = false → Reports s A P [] (st.lower s .topLevel)
      fun sts => s.Keeps A (stmtsVisits sts) := by
    intro hst
    have hhead : s.Allows A (.stmt st) :=
      ⟨by simp [Visit.assigned], by simp [Visit.ident?], by simp [Visit.called?]⟩
    refine .of_yields (st.lower_stays hrest .topLevel ?_ ⟨?_, ?_⟩ fun _ => hst)
    · rw [st.visits_cons, Setting.allowsAll_cons]
      exact ⟨hhead, hparts⟩
    · exact fun _ _ _ => hhoists _
    · exact fun _ name _ => ⟨hhoists name, trivial⟩
  cases st with
  | var modifiers list =>
    have hlist : ∀ {P' : Prop}, Reports s A P' [] (do
        return (Expr.ofList (← list.hoisted s)).toList.map Stmt.expr)
        fun sts => s.Keeps A (stmtsVisits sts) := by
      refine .of_yields ((list.hoisted_stays hrest hparts fun _ _ => hhoists _).bind
        fun exprs hexprs => .pure ?_)
      cases he : Expr.ofList exprs with
      | none => exact Setting.keeps_nil
      | some e => exact .exprStmt (Setting.keeps_ofList hexprs he)
    refine .deeper (.ite (fun _ => ?_) fun hplace => absurd rfl hplace)
    rw [Setting.noted]
    cases modifiers.isExported with
    | false => exact hlist
    | true =>
      refine ((reports_addExportedNames _).bind fun _ => hlist).weaken ?_
      exact List.subset_append_left _ _
  | function modifiers f =>
    refine .deeper (.bind_of (f.lower_name s) (.of_yields (f.lower_stays hrest hparts)) ?_)
    refine fun f' hf' => .ite (fun _ => ?_) fun hplace => absurd rfl hplace
    change Reports s A _ (modifiers.noted f.name) _ _
    rw [← hf', ← List.append_nil (modifiers.noted f'.name)]
    exact (reports_hoistFunction hdefault modifiers fun hP => hP.2).bind fun _ => .pure fun _ =>
      Setting.keeps_nil
  | classDecl modifiers c =>
    refine .deeper (.ite (fun _ => ?_) fun hplace => absurd rfl hplace)
    exact reports_hoistedClass hdefault modifiers c.name (.of_yields (c.lower_stays hrest hparts))
  | importFrom site clause specifier isTypeOnly =>
    refine .deeper (.ite (fun _ => ?_) fun hplace => absurd rfl hplace)
    exact (reports_hoist fun _ h => .addVariables h _).bind fun _ => .pure fun _ =>
      Setting.keeps_nil
  | importEquals site isExported name kind value =>
    refine .deeper (.ite (fun _ => ?_) fun hplace => absurd rfl hplace)
    rw [Setting.noted]
    cases hvalue : s.names.importEqualsIsValue kind value with
    | false =>
      rw [Bool.and_false]
      exact .pure fun _ => Setting.keeps_nil
    | true =>
      have hvalueParts := (Setting.allowsAll_cons.mp hparts).2
      rw [Bool.and_true]
      cases isExported with
      | false =>
        exact (reports_hoist fun _ h => .addVariable h name.name).bind fun _ =>
          reports_importAssignment hrest hvalue hvalueParts halias
      | true =>
        refine (reports_hoist fun _ h => .addVariable h name.name).bind fun _ => ?_
        exact (reports_addExportedName name.name).bind fun _ =>
          reports_importAssignment hrest hvalue hvalueParts halias
  | exportFrom site clause specifier isTypeOnly =>
    refine .deeper (.ite (fun _ => ?_) fun hplace => absurd rfl hplace)
    split
    · exact reports_exportSpecifiers _
    · next hlocal =>
      have hnoted : s.noted (.exportFrom site clause specifier isTypeOnly) = [] := by
        unfold Setting.noted
        grind
      rw [hnoted]
      exact .pure fun _ => Setting.keeps_nil
  | exportValue site form value =>
    refine .deeper (.ite (fun _ => ?_) fun hplace => absurd rfl hplace)
    refine .ite (fun _ => .pure fun _ => Setting.keeps_nil) fun _ => ?_
    refine .of_yields ((value.lower_stays hrest true hparts).bind fun value hvalue => .pure ?_)
    exact .exprStmt (Setting.keeps_publish hdefault hvalue)
  | _ => exact hplain rfl

/-- The statements of the top level note their names one after the other. -/
theorem reports_lowerStmts : ∀ (sts : List Stmt) {P : Prop},
    (∀ st ∈ sts, s.AllowsAll A st.visits.tail) →
    (∀ st ∈ sts, ∀ x, s.names.alias? st = some x → ∀ name ∈ s.exportNames x, A.publishes name) →
    Reports s A P (sts.flatMap s.noted) (lowerStmts s .topLevel sts)
      fun sts => s.Keeps A (stmtsVisits sts)
  | [], _, _, _ => .pure fun _ => Setting.keeps_nil
  | st :: sts, P, hparts, halias => by
    obtain ⟨hst, hsts⟩ := List.forall_mem_cons.mp hparts
    obtain ⟨hfirst, hmore⟩ := List.forall_mem_cons.mp halias
    have hjoined : ∀ made : List Stmt, Reports s A (P ∧ s.Keeps A (stmtsVisits made))
        (sts.flatMap s.noted ++ []) (do return made ++ (← lowerStmts s .topLevel sts))
        fun sts => s.Keeps A (stmtsVisits sts) := by
      intro made
      refine (reports_lowerStmts sts hsts hmore).bind fun more => .pure ?_
      intro hkept
      rw [NameTable.stmtsVisits_append, Setting.keeps_append]
      exact ⟨hkept.1.2, hkept.2⟩
    rw [List.append_nil] at hjoined
    exact (reports_lower hrest hdefault hhoists st hst hfirst).bind hjoined

end Lowering
end RegisterForm
