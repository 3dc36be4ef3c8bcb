import Mathlib.Data.List.Forall2
import RegisterForm.Lowering.Monad
import RegisterForm.Proofs.Lowering.Yields
/-!
# Hoisted functions

The functions that wait to be declared at the top of some function. Each collection only grows,
and by functions with some property; what one function has collected when it ends is declared
in it.
-/
namespace RegisterForm

/-- Each collection of the first state has grown by functions with the property. -/
def Hoisting.Grows (P : Stmt → Prop) (h h' : Hoisting) : Prop :=
  List.Forall₂ (fun f f' => ∀ st ∈ f'.functions, st ∈ f.functions ∨ P st) h.frames h'.frames

namespace Hoisting.Grows
variable {P : Stmt → Prop} {h h' h'' : Hoisting}

theorem refl (P : Stmt → Prop) (h : Hoisting) : h.Grows P h :=
  List.forall₂_same.mpr fun _ _ _ hst => .inl hst

theorem trans (h₁ : h.Grows P h') (h₂ : h'.Grows P h'') : h.Grows P h'' := by
  unfold Grows at *
  generalize h.frames = l at *
  generalize h'.frames = l' at *
  generalize h''.frames = l'' at *
  induction h₁ generalizing l'' with
  | nil => exact h₂
  | cons hhead _ ih =>
    cases h₂ with
    | cons hhead' htail' =>
      exact .cons (fun st hst => (hhead' st hst).elim (hhead st) .inr) (ih _ htail')

theorem modifyTop (h : Hoisting) {change : Frame → Frame}
    (hchange : ∀ frame, ∀ st ∈ (change frame).functions, st ∈ frame.functions ∨ P st) :
    h.Grows P (h.modifyTop change) := by
  unfold Hoisting.modifyTop
  split
  · exact refl P h
  · next frame frames hf =>
    unfold Grows
    rw [hf]
    exact .cons (hchange frame) (List.forall₂_same.mpr fun _ _ _ hst => .inl hst)

theorem addVariable (h : Hoisting) (name : String) : h.Grows P (h.addVariable name) := by
  refine modifyTop h fun frame st hst => .inl ?_
  split at hst <;> exact hst

theorem addVariables (h : Hoisting) (names : List String) : h.Grows P (h.addVariables names) := by
  unfold Hoisting.addVariables
  induction names generalizing h with
  | nil => exact refl P h
  | cons name names ih => exact (addVariable h name).trans (ih _)

theorem declareTemporary (h : Hoisting) : h.Grows P h.declareTemporary.2 :=
  addVariable h.temporary.2 _

theorem addFunction (h : Hoisting) {st : Stmt} (hst : P st) : h.Grows P (h.addFunction st) := by
  refine modifyTop h fun frame st' hst' => ?_
  rcases List.mem_append.mp hst' with hold | hnew
  · exact .inl hold
  · exact .inr (List.mem_singleton.mp hnew ▸ hst)

/-- What was collected since a function began all has the property, and what was collected
before has only grown. -/
theorem of_push (hgrows : h.push.Grows P h') :
    h.Grows P h'.pop.2 ∧ ∀ st ∈ h'.pop.1.functions, P st := by
  unfold Grows push at hgrows
  unfold Grows pop
  cases hf : h'.frames with
  | nil =>
    rw [hf] at hgrows
    cases hgrows
  | cons frame frames =>
    rw [hf] at hgrows
    cases hgrows with
    | cons hhead htail =>
      exact ⟨htail, fun st hst => (hhead st hst).resolve_left List.not_mem_nil⟩

end Hoisting.Grows

/-- The declarations are one of variables, and functions. -/
theorem Frame.mem_statements {frame : Frame} {st : Stmt} (h : st ∈ frame.statements) :
    (∃ names, st = .varNames names) ∨ st ∈ frame.functions := by
  refine (List.mem_append.mp h).imp_left fun hvar => ?_
  unfold variableStmt? at hvar
  split at hvar
  · cases hvar
  · exact ⟨_, List.mem_singleton.mp hvar⟩

namespace Lowering

/-- The steps collect only functions with the property. -/
def Collects (P : Stmt → Prop) (p p' : Progress) : Prop := p.hoisting.Grows P p'.hoisting

variable {P : Stmt → Prop}

instance : Keeping (Collects P) where
  refl p := .refl P p.hoisting
  trans := .trans
  depth p _ := .refl P p.hoisting
  rest p := .refl P p.hoisting
  temporary p := .declareTemporary p.hoisting

theorem yields_hoist {step : Hoisting → Hoisting} (h : ∀ h : Hoisting, h.Grows P (step h)) :
    Yields (Collects P) (hoist step) fun _ => True := by
  intro p a p' hr
  cases hr
  exact ⟨h p.hoisting, trivial⟩

theorem yields_unique (base : String) :
    Yields (Collects P) (hoistGet (·.unique base)) fun _ => True := by
  intro p a p' hr
  cases hr
  exact ⟨.refl P p.hoisting, trivial⟩

theorem yields_addExportedName (name : String) :
    Yields (Collects P) (addExportedName name) fun _ => True := by
  intro p a p' hr
  cases hr
  refine ⟨?_, trivial⟩
  dsimp only
  split <;> exact .refl P p.hoisting

theorem yields_addExportedNames : ∀ names : List String,
    Yields (Collects P) (addExportedNames names) fun _ => True
  | [] => .pure trivial
  | name :: names => (yields_addExportedName name).bind fun _ _ => yields_addExportedNames names

theorem yields_addFunctionExport (call : Expr) :
    Yields (Collects P) (addFunctionExport call) fun _ => True := by
  intro p a p' hr
  cases hr
  exact ⟨.refl P p.hoisting, trivial⟩

theorem yields_inFunction {α : Type} {x : Lowering α} {Q : α → Prop} (h : Yields (Collects P) x Q) :
    Yields (Collects P) (inFunction x) fun r => Q r.1 ∧
      ∀ st ∈ r.2, (∃ names, st = .varNames names) ∨ P st := by
  intro p r p' hr
  obtain ⟨_, q, hpush, hr⟩ := run_bind_eq_ok hr
  cases hpush
  obtain ⟨a, q', hx, hr⟩ := run_bind_eq_ok hr
  obtain ⟨frame, q'', hpop, hr⟩ := run_bind_eq_ok hr
  cases hpop
  cases hr
  obtain ⟨hgrows, hQ⟩ := h hx
  obtain ⟨hrest, hframe⟩ := Hoisting.Grows.of_push hgrows
  refine ⟨hrest, hQ, fun st hst => ?_⟩
  exact (Frame.mem_statements hst).imp_right (hframe st)

end Lowering
end RegisterForm
