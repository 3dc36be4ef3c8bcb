import RegisterForm.Proofs.Export.Everywhere
import RegisterForm.Proofs.Lowering.Composed
import RegisterForm.Proofs.Lowering.Execute
/-!
# Collections are only extended

The collections of the functions around a tree form a stack. Lowering the tree adds declarations to
the innermost collection, behind those that it had, and does not touch the others. What is made
inside a function is declared inside it, and when a file has been lowered no collection is left.
-/
namespace RegisterForm
open Lowering

/-- More variables behind those of a collection, each new and once, and more functions behind its
functions. -/
structure Frame.ExtendsTo (frame frame' : Frame) : Prop where
  vars : ∃ added, frame'.vars = frame.vars ++ added ∧ added.Nodup ∧
    ∀ name ∈ added, name ∉ frame.vars
  functions : frame.functions <+: frame'.functions

namespace Frame.ExtendsTo
variable {frame frame' frame'' : Frame}

theorem refl (frame : Frame) : frame.ExtendsTo frame :=
  ⟨⟨[], by simp⟩, List.prefix_refl _⟩

theorem trans (h : frame.ExtendsTo frame') (h' : frame'.ExtendsTo frame'') :
    frame.ExtendsTo frame'' := by
  obtain ⟨added, hadded, hnodup, hnew⟩ := h.vars
  obtain ⟨more, hmore, hnodup', hnew'⟩ := h'.vars
  rw [hadded] at hmore hnew'
  refine ⟨⟨added ++ more, ?_, ?_, fun name hname => ?_⟩, h.functions.trans h'.functions⟩
  · rw [hmore, List.append_assoc]
  · refine hnodup.append hnodup' fun name hname hname' => ?_
    exact hnew' name hname' (List.mem_append_right _ hname)
  · rcases List.mem_append.mp hname with hname | hname
    · exact hnew name hname
    · exact fun hold => hnew' name hname (List.mem_append_left _ hold)

theorem prefix_vars (h : frame.ExtendsTo frame') : frame.vars <+: frame'.vars := by
  obtain ⟨added, hadded, -⟩ := h.vars
  exact ⟨added, hadded.symm⟩

/-- A collection without a repeated variable stays without one. -/
theorem nodup_vars (h : frame.ExtendsTo frame') (hnodup : frame.vars.Nodup) :
    frame'.vars.Nodup := by
  obtain ⟨added, hadded, hadded', hnew⟩ := h.vars
  rw [hadded]
  exact hnodup.append hadded' fun name hold hname => hnew name hname hold

end Frame.ExtendsTo

namespace Hoisting

/-- The innermost collection is extended, and those around it are as they were. -/
def ExtendsTo (h h' : Hoisting) : Prop :=
  ∀ ⦃frame frames⦄, h.frames = frame :: frames →
    ∃ frame', h'.frames = frame' :: frames ∧ frame.ExtendsTo frame'

namespace ExtendsTo
variable {h h' h'' : Hoisting}

theorem of_frames_eq (heq : h'.frames = h.frames) : h.ExtendsTo h' := fun frame _ hframes =>
  ⟨frame, heq.trans hframes, .refl frame⟩

theorem refl (h : Hoisting) : h.ExtendsTo h := of_frames_eq rfl

theorem trans (hfirst : h.ExtendsTo h') (hrest : h'.ExtendsTo h'') : h.ExtendsTo h'' := by
  intro frame frames hframes
  obtain ⟨frame', hframes', hext⟩ := hfirst hframes
  obtain ⟨frame'', hframes'', hext'⟩ := hrest hframes'
  exact ⟨frame'', hframes'', hext.trans hext'⟩

theorem modifyTop {change : Frame → Frame}
    (hchange : ∀ frame : Frame, frame.ExtendsTo (change frame)) :
    h.ExtendsTo (h.modifyTop change) := by
  intro frame frames hframes
  refine ⟨change frame, ?_, hchange frame⟩
  rw [Hoisting.modifyTop, hframes]

theorem addVariable (h : Hoisting) (name : String) : h.ExtendsTo (h.addVariable name) := by
  refine modifyTop fun frame => ?_
  split
  · exact .refl frame
  · next hnew =>
    have hnew : name ∉ frame.vars := by simpa using hnew
    exact ⟨⟨[name], rfl, List.nodup_singleton name, by simpa using hnew⟩, List.prefix_refl _⟩

theorem addVariables (h : Hoisting) (names : List String) : h.ExtendsTo (h.addVariables names) := by
  unfold Hoisting.addVariables
  induction names generalizing h with
  | nil => exact refl h
  | cons name names ih => exact (addVariable h name).trans (ih _)

theorem addFunction (h : Hoisting) (st : Stmt) : h.ExtendsTo (h.addFunction st) :=
  modifyTop fun _ => ⟨⟨[], by simp⟩, List.prefix_append _ _⟩

theorem declareTemporary (h : Hoisting) : h.ExtendsTo h.declareTemporary.2 :=
  (of_frames_eq rfl : h.ExtendsTo h.temporary.2).trans (addVariable _ _)

/-- What a function has opened it ends, and nothing else. -/
theorem frames_pop (hinner : h.push.ExtendsTo h') : h'.pop.2.frames = h.frames := by
  obtain ⟨frame, hframes, -⟩ := hinner rfl
  rw [Hoisting.pop, hframes]

end ExtendsTo
end Hoisting

namespace Lowering
variable {α : Type} {x : Lowering α}

/-- Every successful run extends the innermost collection and leaves the others as they are. -/
def KeepsFrames (x : Lowering α) : Prop :=
  ∀ ⦃p a p'⦄, x.run p = .ok (a, p') → p.hoisting.ExtendsTo p'.hoisting

/-- No successful run declares anything outside of itself. -/
def Encloses (x : Lowering α) : Prop :=
  ∀ ⦃p a p'⦄, x.run p = .ok (a, p') → p'.hoisting.frames = p.hoisting.frames

theorem KeepsFrames.inFunction (h : KeepsFrames x) : Encloses (inFunction x) := by
  intro p r p' hr
  obtain ⟨q, hx, -, rfl⟩ := run_inFunction_eq_ok hr
  exact (h hx).frames_pop

theorem Encloses.map {β : Type} {f : α → β} (h : Encloses x) :
    Encloses (x >>= fun a => pure (f a)) := by
  intro p b p' hr
  obtain ⟨a, q, hx, hr⟩ := run_bind_eq_ok hr
  cases hr
  exact h hx

theorem Encloses.deeper (s : Setting) (h : Encloses x) : Encloses (deeper s x) := by
  intro p a p' hr
  obtain ⟨-, q, hx, rfl⟩ := run_deeper_eq_ok hr
  have hinner := h hx
  exact hinner

/-- By induction along the steps; a function's parts start from a collection of their own. -/
theorem Composed.keepsFrames {N : Prop} (h : Composed N x) : KeepsFrames x := by
  induction h with
  | pure a =>
    intro p b p' hr
    cases hr
    exact .refl _
  | throw e =>
    intro p b p' hr
    cases hr
  | bind _ _ ihx ihf =>
    intro p b p' hr
    obtain ⟨a, q, hx, hr⟩ := run_bind_eq_ok hr
    exact (ihx hx).trans (ihf a hr)
  | deeper s _ ih =>
    intro p a p' hr
    obtain ⟨-, q, hx, rfl⟩ := run_deeper_eq_ok hr
    have hinner := ih hx
    exact hinner
  | inFunction _ ih => exact fun p a p' hr => .of_frames_eq (ih.inFunction hr)
  | uniqueDefault | addFunctionExport call | requireRest =>
    intro p a p' hr
    cases hr
    exact .of_frames_eq rfl
  | declareTemporary =>
    intro p a p' hr
    cases hr
    exact .declareTemporary p.hoisting
  | addVariables names =>
    intro p a p' hr
    cases hr
    exact .addVariables p.hoisting names
  | addFunction st =>
    intro p a p' hr
    cases hr
    exact .addFunction p.hoisting st
  | addExportedName name =>
    intro p a p' hr
    cases hr
    dsimp only
    split <;> exact .refl _

end Lowering

/-! ## Functions -/

section functions
variable (s : Setting)

theorem Func.lower_encloses (f : Func) : Encloses (f.lower s) := by
  obtain ⟨name, params, body, isAsync, isGenerator⟩ := f
  have hparts : Composed True (do return (← lowerParams s params, ← lowerStmts s .function body)) :=
    (lowerParams_composes params).bind fun _ => (lowerStmts_composed body .function).map
  exact hparts.keepsFrames.inFunction.map

theorem Expr.lower_arrow_encloses (params : List Param) (body : ArrowBody) (isAsync isUsed : Bool) :
    Encloses ((Expr.arrow params body isAsync).lower s isUsed) := by
  have hparts : Composed True (do return (← lowerParams s params, ← body.lower s)) :=
    (lowerParams_composes params).bind fun _ => body.lower_composes.map
  exact .deeper s hparts.keepsFrames.inFunction.map

theorem ClassMember.lower_staticBlock_encloses (body : List Stmt) :
    Encloses ((ClassMember.staticBlock body).lower s) :=
  (lowerStmts_composed body .function).keepsFrames.inFunction.map

end functions

/-! ## Files -/

namespace StarExport

theorem frames_define (s : Setting) (exportedNames : List String) (groups : List Dependency)
    (h : Hoisting) : (define s exportedNames groups h).2.2.frames = h.frames := by
  unfold define
  split
  · rfl
  · dsimp only
    split <;> rfl

end StarExport

namespace Setting
variable (s : Setting)

theorem frames_parameterBase : ∀ (ds : List Dependence) (h : Hoisting),
    (s.parameterBase ds h).2.frames = h.frames
  | [], _ => rfl
  | d :: ds, h => by
    unfold parameterBase
    split
    · rfl
    · rfl
    · exact frames_parameterBase ds h

theorem frames_setters (star : Option String) : ∀ (groups : List Dependency) (h : Hoisting),
    (s.setters star groups h).2.frames = h.frames
  | [], _ => rfl
  | d :: ds, h => (frames_setters star ds _).trans (s.frames_parameterBase d.uses h)

/-- The collections that are left once the registration call stands. The outermost one is declared
in the registered function, and the names of the helper and of the setters are drawn after it. -/
def leftOver (groups : List Dependency) (p : Progress) : Hoisting :=
  let (star, _, h) := StarExport.define s p.exportedNames groups p.hoisting.pop.2
  (s.setters star groups h).2

theorem frames_leftOver (groups : List Dependency) (p : Progress) :
    (s.leftOver groups p).frames = p.hoisting.pop.2.frames :=
  (s.frames_setters _ groups _).trans (StarExport.frames_define s p.exportedNames groups _)

end Setting

/-- Lowering respects the stack of collections: whatever tree is lowered, and from whatever
progress, the innermost collection is only extended and the others stay as they are; a function, an
arrow function or a static block leaves even the innermost one as it is. A lowered file leaves no
collection open. -/
theorem lowering_respectsFrames (s : Setting) :
    (∀ place st, KeepsFrames (Stmt.lower s place st)) ∧
    (∀ place sts, KeepsFrames (lowerStmts s place sts)) ∧
    (∀ isUsed e, KeepsFrames (Expr.lower s isUsed e)) ∧
    (∀ p, KeepsFrames (Pattern.lower s p)) ∧
    (∀ bound depth p value, KeepsFrames (Pattern.flatten s bound depth p value)) ∧
    (∀ c, KeepsFrames (Class.lower s c)) ∧
    (∀ f, Encloses (Func.lower s f)) ∧
    (∀ params body isAsync isUsed, Encloses ((Expr.arrow params body isAsync).lower s isUsed)) ∧
    (∀ body, Encloses ((ClassMember.staticBlock body).lower s)) ∧
    ∀ options names file lowered, lower options names file = .ok lowered →
      ∃ groups execute p,
        (lowerStmts (Setting.ofFile options names file).1 .topLevel file.statements).run
            { hoisting := (Setting.ofFile options names file).2 } = .ok (execute, p) ∧
          lowered = (Setting.ofFile options names file).1.assemble groups execute p ∧
          ((Setting.ofFile options names file).1.leftOver groups p).frames = [] := by
  refine ⟨fun place st => (st.lower_composed place).keepsFrames,
    fun place sts => (lowerStmts_composed sts place).keepsFrames,
    fun isUsed e => (e.lower_composed isUsed).keepsFrames,
    fun p => p.lower_composed.keepsFrames,
    fun bound depth p value => (p.flatten_composed bound depth value).keepsFrames,
    fun c => c.lower_composed.keepsFrames, Func.lower_encloses s, Expr.lower_arrow_encloses s,
    ClassMember.lower_staticBlock_encloses s, fun options names file lowered h => ?_⟩
  obtain ⟨groups, execute, p, hrun, rfl⟩ := lower_eq_ok h
  refine ⟨groups, execute, p, hrun, rfl, ?_⟩
  have hframes : (Setting.ofFile options names file).2.frames = [{}] := frames_holdersOf _ _
  obtain ⟨frame, hframe, -⟩ :=
    (lowerStmts_composed file.statements .topLevel).keepsFrames hrun hframes
  rw [Setting.frames_leftOver, Hoisting.pop, hframe]

/-- `export var x; function f() { return [x] = o(); }` -/
def assignmentInFunction : SourceFile where
  id := .numbered 100
  name := "m.ts"
  statements := [
    .var { isExported := true } ⟨.var, [⟨.ident ⟨.numbered 0, "x"⟩, none⟩]⟩,
    .function {} ⟨some ⟨.numbered 1, "f"⟩, [], [.ret (some (.assign .plain
      (.array [some ⟨.ident ⟨.numbered 2, "x"⟩, none⟩] none)
      (.call (.ident ⟨.numbered 3, "o"⟩) [] false)))], false, false⟩]

/-- The temporary of the assignment is declared in the function: the module declares `x` only. -/
theorem lowering_respectsFrames_assignment :
    ∃ lowered, lower {} (.ofFile assignmentInFunction) assignmentInFunction = .ok lowered ∧
      ∃ groups execute p,
        (lowerStmts (Setting.ofFile {} (.ofFile assignmentInFunction) assignmentInFunction).1
            .topLevel assignmentInFunction.statements).run
            { hoisting :=
                (Setting.ofFile {} (.ofFile assignmentInFunction) assignmentInFunction).2 } =
          .ok (execute, p) ∧
        p.hoisting.pop.1.vars = ["x"] ∧ p.hoisting.supply.isUsed "_a" = true ∧
        ((Setting.ofFile {} (.ofFile assignmentInFunction) assignmentInFunction).1.leftOver groups
          p).frames = [] := by
  refine ⟨_, rfl, ?_⟩
  obtain ⟨groups, execute, p, hrun, -, hempty⟩ :=
    (lowering_respectsFrames (Setting.ofFile {} (.ofFile assignmentInFunction)
      assignmentInFunction).1).2.2.2.2.2.2.2.2.2 {} (.ofFile assignmentInFunction)
      assignmentInFunction _ rfl
  refine ⟨groups, execute, p, hrun, ?_⟩
  cases hrun
  exact ⟨rfl, by decide +kernel, hempty⟩

end RegisterForm
