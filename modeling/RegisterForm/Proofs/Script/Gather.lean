import RegisterForm.Proofs.Lowering.Hoisted
import RegisterForm.Proofs.Script.Node
/-!
# Scripts gathered at the top

What the single steps of lowering set aside for the top of the module, functions and the calls
that publish them, and what the steps make of parts that are scripts.
-/
namespace RegisterForm.Lowering

/-- The functions that are collected and the calls for them have the property. -/
def Gathers (P : Stmt → Prop) (p p' : Progress) : Prop :=
  Collects P p p' ∧ ∀ st ∈ p'.functionExports, st ∈ p.functionExports ∨ P st

variable {P : Stmt → Prop}

instance : Keeping (Gathers P) where
  refl p := ⟨Keeping.refl p, fun _ h => .inl h⟩
  trans h h' := ⟨Keeping.trans h.1 h'.1, fun st hst => (h'.2 st hst).elim (h.2 st) .inr⟩
  depth p depth := ⟨Keeping.depth p depth, fun _ h => .inl h⟩
  rest p := ⟨Keeping.rest p, fun _ h => .inl h⟩
  temporary p := ⟨Keeping.temporary p, fun _ h => .inl h⟩

/-- A step that only changes what is hoisted adds no calls. -/
theorem gathers_hoist {step : Hoisting → Hoisting} (h : ∀ h : Hoisting, h.Grows P (step h)) :
    Yields (Gathers P) (hoist step) fun _ => True := by
  intro p a p' hr
  have hcollects := (yields_hoist h hr).1
  cases hr
  exact ⟨⟨hcollects, fun _ hst => .inl hst⟩, trivial⟩

theorem gathers_unique (base : String) :
    Yields (Gathers P) (hoistGet (·.unique base)) fun _ => True := by
  intro p a p' hr
  have hcollects := (yields_unique (P := P) base hr).1
  cases hr
  exact ⟨⟨hcollects, fun _ hst => .inl hst⟩, trivial⟩

theorem gathers_addExportedName (name : String) :
    Yields (Gathers P) (addExportedName name) fun _ => True := by
  intro p a p' hr
  have hcollects := (yields_addExportedName (P := P) name hr).1
  cases hr
  refine ⟨⟨hcollects, fun st hst => .inl ?_⟩, trivial⟩
  dsimp only at hst
  split at hst <;> exact hst

theorem gathers_addExportedNames : ∀ names : List String,
    Yields (Gathers P) (addExportedNames names) fun _ => True
  | [] => .pure trivial
  | name :: names =>
    (gathers_addExportedName name).bind fun _ _ => gathers_addExportedNames names

theorem gathers_addFunctionExport {call : Expr} (h : P (.expr call)) :
    Yields (Gathers P) (addFunctionExport call) fun _ => True := by
  intro p a p' hr
  have hcollects := (yields_addFunctionExport (P := P) call hr).1
  cases hr
  refine ⟨⟨hcollects, fun st hst => ?_⟩, trivial⟩
  rcases List.mem_append.mp hst with hold | hnew
  · exact .inl hold
  · exact .inr (List.mem_singleton.mp hnew ▸ h)

theorem gathers_inFunction {α : Type} {x : Lowering α} {Q : α → Prop} (h : Yields (Gathers P) x Q) :
    Yields (Gathers P) (inFunction x) fun r => Q r.1 ∧
      ∀ st ∈ r.2, (∃ names, st = .varNames names) ∨ P st := by
  intro p r p' hr
  have hfirst : Yields (Collects P) x Q := fun _ _ _ hx => ⟨(h hx).1.1, (h hx).2⟩
  obtain ⟨hcollects, hQ⟩ := yields_inFunction hfirst hr
  obtain ⟨_, q, hpush, hr⟩ := run_bind_eq_ok hr
  cases hpush
  obtain ⟨a, q', hx, hr⟩ := run_bind_eq_ok hr
  obtain ⟨frame, q'', hpop, hr⟩ := run_bind_eq_ok hr
  cases hpop
  cases hr
  exact ⟨⟨hcollects, (h hx).1.2⟩, hQ⟩

end RegisterForm.Lowering

namespace RegisterForm
open Lowering

/-- What the steps set aside for the top of the module are scripts. -/
abbrev Setting.Scripts (s : Setting) : Progress → Progress → Prop :=
  Gathers fun st => s.AllScript st.visits

variable {s : Setting}

theorem yields_stabilize_script (bound : List String) {value : Expr}
    (h : s.AllScript value.visits) :
    Yields s.Scripts (stabilize bound value) fun r =>
      s.AllScript (exprsVisits r.1) ∧ s.AllScript r.2.visits := by
  refine (yields_stabilize bound value).mono ?_
  rintro _ (rfl | ⟨temporary, rfl⟩)
  · exact ⟨Setting.allScript_nil, h⟩
  · exact ⟨by simpa [exprsVisits] using h, Setting.script_ofName temporary⟩

theorem yields_stabilizeUnlessOne_script (count : Nat) (bound : List String) {value : Expr}
    (h : s.AllScript value.visits) :
    Yields s.Scripts (stabilizeUnlessOne count bound value) fun r =>
      s.AllScript (exprsVisits r.1) ∧ s.AllScript r.2.visits := by
  unfold stabilizeUnlessOne
  exact .ite (fun _ => .pure ⟨Setting.allScript_nil, h⟩) fun _ => yields_stabilize_script bound h

/-- A function's parts with the declarations at its top are scripts. -/
theorem yields_inFunction_script {α : Type} {x : Lowering α} {Q : α → Prop}
    (h : Yields s.Scripts x Q) :
    Yields s.Scripts (inFunction x) fun r => Q r.1 ∧ s.AllScript (stmtsVisits r.2) := by
  refine (gathers_inFunction h).mono fun r hr => ⟨hr.1, ?_⟩
  refine Setting.allScript_stmtsVisits fun st hst => ?_
  rcases hr.2 st hst with ⟨names, rfl⟩ | hscript
  · exact Setting.script_varNames names
  · exact hscript

/-! ## Declarations of the module -/

theorem yields_exportCall_script (modifiers : Modifiers) (name : String) :
    Yields s.Scripts (exportCall s modifiers name) fun call => s.AllScript call.visits := by
  have hcall : s.AllScript
      (s.publish (Interface.exportNameOf modifiers name) (.ofName name)).visits := by simp
  unfold exportCall
  exact .ite (fun _ => (gathers_addExportedName _).bind fun _ _ => .pure hcall)
    fun _ => .pure hcall

theorem yields_hoistFunction_script (modifiers : Modifiers) {f : Func}
    (hf : s.AllScript f.visits) : Yields s.Scripts (hoistFunction s modifiers f) fun _ => True := by
  obtain ⟨name, params, body, isAsync, isGenerator⟩ := f
  rw [Setting.script_func] at hf
  unfold hoistFunction
  have hrest : ∀ x : Ident, Yields s.Scripts (do
      if modifiers.isExported then addFunctionExport (← exportCall s modifiers x.name)
      hoist (·.addFunction (.function {} ⟨some x, params, body, isAsync, isGenerator⟩)))
      fun _ => True := by
    intro x
    have hfunction : s.AllScript
        (Stmt.function {} ⟨some x, params, body, isAsync, isGenerator⟩).visits := by
      rw [Setting.script_plainFunction, Setting.script_func]
      exact hf
    have hadd : Yields s.Scripts
        (hoist (·.addFunction (.function {} ⟨some x, params, body, isAsync, isGenerator⟩)))
        fun _ => True := gathers_hoist fun h => .addFunction h hfunction
    refine .ite (fun _ => ?_) fun _ => hadd
    refine (yields_exportCall_script modifiers _).bind fun call hcall => ?_
    exact (gathers_addFunctionExport ((Setting.script_exprStmt call).mpr hcall)).bind fun _ _ => hadd
  cases name with
  | some x => exact hrest x
  | none =>
    have hname : Yields s.Scripts (Ident.synthetic <$> hoistGet (·.unique "default"))
        fun _ => True := (gathers_unique "default").map fun _ _ => trivial
    exact hname.bind fun x _ => hrest x

theorem yields_hoistClassName_script (name : Option Ident) :
    Yields s.Scripts (hoistClassName name) fun _ => True := by
  have hadd : ∀ name : String, Yields s.Scripts (do
      hoist (·.addVariable name)
      return name) fun _ => True := fun name =>
    (gathers_hoist fun h => .addVariable h _).bind fun _ _ => .pure trivial
  unfold hoistClassName
  cases name with
  | some x => exact hadd x.name
  | none => exact (gathers_unique "default").bind fun name _ => hadd name

theorem yields_classAssignment_script (modifiers : Modifiers) (name : String) {c : Class}
    (hc : s.AllScript c.visits) :
    Yields s.Scripts (classAssignment s modifiers name c) fun sts =>
      s.AllScript (stmtsVisits sts) := by
  have hclass : s.AllScript (Expr.classExpr c).visits :=
    (Setting.allScript_node _ rfl rfl).mpr hc
  unfold classAssignment
  refine .ite (fun _ => ?_) fun _ => .pure ?_
  · refine (yields_exportCall_script modifiers name).bind fun call hcall => .pure ?_
    simp [stmtsVisits, hclass, hcall]
  · simp [stmtsVisits, hclass]

theorem yields_exportSpecifier_script (spec : ExportSpecifier) :
    Yields s.Scripts (exportSpecifier s spec) fun sts => s.AllScript (stmtsVisits sts) := by
  unfold exportSpecifier
  refine .ite (fun _ => .pure Setting.allScript_nil) fun _ => ?_
  refine (gathers_addExportedName _).bind fun _ _ => ?_
  refine .ite (fun _ => .pure Setting.allScript_nil) fun himport => ?_
  refine .ite (fun _ => ?_) fun _ => .pure ?_
  · have hcall : s.AllScript
        (Stmt.expr (s.publish spec.exportedName (.ofName spec.source.name))).visits := by simp
    exact (gathers_addFunctionExport hcall).bind fun _ _ => .pure Setting.allScript_nil
  · -- an imported name does not get here
    have hread : s.readsItself spec.source = true := by
      simp [Setting.readsItself, Option.not_isSome_iff_eq_none.mp himport]
    have hident := Setting.script_ident hread
    simp [stmtsVisits, hident]

theorem yields_exportSpecifiers_script : ∀ specs : List ExportSpecifier,
    Yields s.Scripts (exportSpecifiers s specs) fun sts => s.AllScript (stmtsVisits sts)
  | [] => .pure Setting.allScript_nil
  | spec :: specs => by
    refine (yields_exportSpecifier_script spec).bind fun sts hsts => ?_
    refine (yields_exportSpecifiers_script specs).bind fun more hmore => .pure ?_
    rw [NameTable.stmtsVisits_append, Setting.allScript_append]
    exact ⟨hsts, hmore⟩

/-! ## Statements inside statements -/

theorem AllUnmarked.of_stmt {st : Stmt} (h : AllUnmarked st.visits) :
    AllUnmarked st.visits.tail ∧ st.isModular = false := by
  rw [Stmt.visits_cons] at h
  have hst : (!st.isModular) = true := ((allUnmarked_cons _ _).mp h).1
  exact ⟨h.tail, (Bool.not_eq_true' _).mp hst⟩

theorem script_loopBody {exports body : List Stmt} (hexports : s.AllScript (stmtsVisits exports))
    (hbody : s.AllScript (stmtsVisits body)) : s.AllScript (loopBody exports body).visits := by
  unfold loopBody
  split
  · exact Setting.script_stmtOfList hbody
  · rw [Setting.script_block, NameTable.stmtsVisits_append, Setting.allScript_append]
    exact ⟨hexports, hbody⟩

theorem yields_blockBody_script {exports : List Stmt} {body : Lowering (List Stmt)}
    (hexports : s.AllScript (stmtsVisits exports))
    (hbody : Yields s.Scripts body fun sts => s.AllScript (stmtsVisits sts)) :
    Yields s.Scripts (blockBody s exports body) fun st => s.AllScript st.visits := by
  unfold blockBody
  refine .ite (fun _ => .deeper s ?_) fun _ => ?_
  · exact hbody.bind fun body hbody => .pure ((Setting.script_block body).mpr hbody)
  · refine hbody.bind fun body hbody => .pure ?_
    rw [Setting.script_block, NameTable.stmtsVisits_append, Setting.allScript_append]
    exact ⟨hexports, hbody⟩

theorem script_withDeclarations {body : ArrowBody} {declarations : List Stmt}
    (hbody : s.AllScript body.visits) (hdeclarations : s.AllScript (stmtsVisits declarations)) :
    s.AllScript (body.withDeclarations declarations).visits := by
  unfold ArrowBody.withDeclarations
  split
  · exact hbody
  · change s.AllScript (stmtsVisits _)
    rw [NameTable.stmtsVisits_append, Setting.allScript_append]
    exact ⟨hdeclarations, hbody⟩
  · change s.AllScript (stmtsVisits _)
    rw [NameTable.stmtsVisits_append, Setting.allScript_append]
    exact ⟨hdeclarations, (Setting.allScript_append _ _).mpr
      ⟨(Setting.script_ret _).mpr hbody, Setting.allScript_nil⟩⟩

end RegisterForm
