import RegisterForm.Proofs.Bounds.Allowance
/-!
# What lowering steps set aside

While parts are lowered, the collections of the functions around them grow by variables that are
allowed or that the supply has just given out, and by nothing else. What a function has collected
when it ends is declared in it.
-/
namespace RegisterForm
open Lowering

/-- A collection has grown by variables with a property, each declared once. -/
structure Frame.Extends (P : String → Prop) (f f' : Frame) : Prop where
  functions : f'.functions = f.functions
  vars : f.vars <+: f'.vars
  nodup : f.vars.Nodup → f'.vars.Nodup
  new : ∀ name ∈ f'.vars, name ∈ f.vars ∨ P name

namespace Frame.Extends
variable {P Q : String → Prop} {f f' f'' : Frame}

theorem refl (P : String → Prop) (f : Frame) : f.Extends P f :=
  ⟨rfl, List.prefix_rfl, id, fun _ => .inl⟩

theorem trans (h : f.Extends P f') (h' : f'.Extends P f'') : f.Extends P f'' where
  functions := h'.functions.trans h.functions
  vars := h.vars.trans h'.vars
  nodup := h'.nodup ∘ h.nodup
  new name hname := (h'.new name hname).elim (h.new name) .inr

theorem mono (h : f.Extends P f') (hPQ : ∀ name, P name → Q name) : f.Extends Q f' :=
  ⟨h.functions, h.vars, h.nodup, fun name hname => (h.new name hname).imp_right (hPQ name)⟩

end Frame.Extends

namespace Hoisting

/-- A supply has given out a name on the way to another. -/
def Gave (h h' : Hoisting) (name : String) : Prop :=
  ∃ names, h.supply.Gives names h'.supply ∧ name ∈ names

/-- The collections have grown by variables that are allowed or have been given out. -/
structure Extends (H : String → Prop) (h h' : Hoisting) : Prop where
  gives : ∃ names, h.supply.Gives names h'.supply
  frames : List.Forall₂ (Frame.Extends fun name => H name ∨ h.Gave h' name) h.frames h'.frames

namespace Extends
variable {H : String → Prop} {h h' h'' : Hoisting}

theorem refl (H : String → Prop) (h : Hoisting) : h.Extends H h :=
  ⟨⟨[], .nothing _⟩, List.forall₂_same.mpr fun f _ => .refl _ f⟩

theorem trans (hfirst : h.Extends H h') (hrest : h'.Extends H h'') : h.Extends H h'' := by
  obtain ⟨names, hnames⟩ := hfirst.gives
  obtain ⟨names', hnames'⟩ := hrest.gives
  have hgave : ∀ name, h.Gave h' name → h.Gave h'' name := by
    rintro name ⟨given, hgiven, hname⟩
    exact ⟨given ++ names', hgiven.append hnames', List.mem_append_left _ hname⟩
  have hgave' : ∀ name, h'.Gave h'' name → h.Gave h'' name := by
    rintro name ⟨given, hgiven, hname⟩
    exact ⟨names ++ given, hnames.append hgiven, List.mem_append_right _ hname⟩
  refine ⟨⟨_, hnames.append hnames'⟩, ?_⟩
  have hleft : List.Forall₂ (Frame.Extends fun name => H name ∨ h.Gave h'' name)
      h.frames h'.frames :=
    hfirst.frames.imp fun _ _ hf => hf.mono fun name => Or.imp_right (hgave name)
  have hright : List.Forall₂ (Frame.Extends fun name => H name ∨ h.Gave h'' name)
      h'.frames h''.frames :=
    hrest.frames.imp fun _ _ hf => hf.mono fun name => Or.imp_right (hgave' name)
  clear hfirst hrest
  generalize h.frames = l at *
  generalize h'.frames = l' at *
  generalize h''.frames = l'' at *
  induction hleft generalizing l'' with
  | nil => exact hright
  | cons hhead _ ih =>
    cases hright with
    | cons hhead' htail' => exact .cons (hhead.trans hhead') (ih _ htail')

/-- A change of the innermost collection that leaves the supply alone. -/
theorem modifyTop (h : Hoisting) {change : Frame → Frame}
    (hchange : ∀ f : Frame, f.Extends H (change f)) : h.Extends H (h.modifyTop change) := by
  unfold Hoisting.modifyTop
  split
  · exact refl H h
  · next frame frames hframes =>
    refine ⟨⟨[], .nothing _⟩, ?_⟩
    rw [hframes]
    exact .cons ((hchange frame).mono fun _ => .inl) (List.forall₂_same.mpr fun f _ => .refl _ f)

theorem addVariable (h : Hoisting) {name : String} (hname : H name) :
    h.Extends H (h.addVariable name) := by
  apply modifyTop
  intro f
  split
  · exact .refl H f
  · next hnew =>
    refine ⟨rfl, List.prefix_append _ _, fun hnodup => ?_, fun n hn => ?_⟩
    · rw [← List.concat_eq_append]
      exact hnodup.concat (by simpa using hnew)
    · rcases List.mem_append.mp hn with hold | hlast
      · exact .inl hold
      · exact .inr (List.mem_singleton.mp hlast ▸ hname)

theorem addVariables (h : Hoisting) {names : List String} (hnames : ∀ name ∈ names, H name) :
    h.Extends H (h.addVariables names) := by
  unfold Hoisting.addVariables
  induction names generalizing h with
  | nil => exact refl H h
  | cons name names ih =>
    obtain ⟨hname, hnames⟩ := List.forall_mem_cons.mp hnames
    exact (addVariable h hname).trans (ih _ hnames)

theorem mono {H' : String → Prop} (hext : h.Extends H h')
    (hHH' : ∀ name, H name → H' name ∨ h.Gave h' name) : h.Extends H' h' :=
  ⟨hext.gives, hext.frames.imp fun _ _ hf => hf.mono fun name hname =>
    hname.elim (hHH' name) .inr⟩

theorem unique (h : Hoisting) (base : String) : h.Extends H (h.unique base).2 :=
  ⟨⟨_, .unique base (.nothing _)⟩, List.forall₂_same.mpr fun f _ => .refl _ f⟩

/-- A temporary is given out and declared. -/
theorem declareTemporary (h : Hoisting) : h.Extends H h.declareTemporary.2 := by
  have hgiven : h.supply.Gives [h.supply.temporary.1] h.declareTemporary.2.supply := by
    rw [show h.declareTemporary.2.supply = h.supply.temporary.2 from
      Hoisting.supply_addVariable _ _]
    exact .temporary (.nothing _)
  have htemporary : h.Extends (fun name => name = h.supply.temporary.1) h.temporary.2 :=
    ⟨⟨_, .temporary (.nothing _)⟩, List.forall₂_same.mpr fun f _ => .refl _ f⟩
  apply (htemporary.trans (addVariable h.temporary.2 rfl)).mono
  rintro name rfl
  exact .inr ⟨_, hgiven, List.mem_singleton_self _⟩

/-- When a function ends, its own variables have been given out or are allowed, and the collections
around it have grown. -/
theorem of_push (hext : h.push.Extends H h') :
    h.Extends H h'.pop.2 ∧ h'.pop.1.functions = [] := by
  obtain ⟨hgives, hframes⟩ := hext
  have hgave : ∀ name, h.push.Gave h' name → h.Gave h'.pop.2 name := by
    unfold Gave
    rw [Hoisting.supply_pop]
    exact fun name => id
  unfold push at hframes
  cases hf : h'.frames with
  | nil =>
    rw [hf] at hframes
    cases hframes
  | cons frame frames =>
    rw [hf] at hframes
    cases hframes with
    | cons hhead htail =>
      have hpop : h'.pop = (frame, { h' with frames }) := by rw [Hoisting.pop, hf]
      rw [hpop] at hgave ⊢
      exact ⟨⟨hgives, htail.imp fun _ _ hf => hf.mono fun name => Or.imp_right (hgave name)⟩,
        hhead.functions⟩

end Extends
end Hoisting

/-- Parts have been lowered: no functions are collected, no calls set aside for the functions of
the module, and the names noted before are still noted. -/
structure Progress.Extends (H : String → Prop) (p p' : Progress) : Prop where
  hoisting : p.hoisting.Extends H p'.hoisting
  exported : p.exportedNames <+: p'.exportedNames
  calls : p'.functionExports = p.functionExports

namespace Lowering
variable {s : Setting} {A : Allowance} {H : String → Prop}

instance : Keeping (Progress.Extends H) where
  refl p := ⟨.refl H p.hoisting, List.prefix_rfl, rfl⟩
  trans h h' := ⟨h.hoisting.trans h'.hoisting, h.exported.trans h'.exported,
    h'.calls.trans h.calls⟩
  depth p _ := ⟨.refl H p.hoisting, List.prefix_rfl, rfl⟩
  rest p := ⟨.refl H p.hoisting, List.prefix_rfl, rfl⟩
  temporary p := ⟨.declareTemporary p.hoisting, List.prefix_rfl, rfl⟩

theorem yields_addVariables_extends {names : List String} (h : ∀ name ∈ names, H name) :
    Yields (Progress.Extends H) (hoist (·.addVariables names)) fun _ => True := by
  intro p a p' hr
  cases hr
  exact ⟨⟨.addVariables p.hoisting h, List.prefix_rfl, rfl⟩, trivial⟩

theorem yields_addExportedNames_extends : ∀ names : List String,
    Yields (Progress.Extends H) (addExportedNames names) fun _ => True
  | [] => .pure trivial
  | name :: names => by
    have hfirst : Yields (Progress.Extends H) (addExportedName name) fun _ => True := by
      intro p a p' hr
      cases hr
      dsimp only
      split
      · exact ⟨Keeping.refl p, trivial⟩
      · exact ⟨⟨.refl H p.hoisting, List.prefix_append _ _, rfl⟩, trivial⟩
    exact hfirst.bind fun _ _ => yields_addExportedNames_extends names

theorem keeps_varNames (names : List String) : s.Keeps A (Stmt.varNames names).visits := by
  refine .cons trivial ?_
  change s.Keeps A (declaratorsVisits (names.map (Declarator.ofName · none)))
  induction names with
  | nil => exact Setting.keeps_nil
  | cons name names ih =>
    refine Setting.keeps_append.mpr ⟨?_, ih⟩
    simp [Declarator.ofName, Declarator.visits, exprVisits?]

/-- What a function declares at its top are variables. -/
theorem yields_inFunction_keeps (s : Setting) {α : Type} {x : Lowering α} {Q : α → Prop}
    (h : Yields (Progress.Extends A.hoists) x Q) :
    Yields (Progress.Extends A.hoists) (inFunction x) fun r =>
      Q r.1 ∧ s.Keeps A (stmtsVisits r.2) := by
  intro p r p' hr
  obtain ⟨_, q, hpush, hr⟩ := run_bind_eq_ok hr
  cases hpush
  obtain ⟨a, q', hx, hr⟩ := run_bind_eq_ok hr
  obtain ⟨frame, q'', hpop, hr⟩ := run_bind_eq_ok hr
  cases hpop
  cases hr
  obtain ⟨hext, hQ⟩ := h hx
  obtain ⟨houter, hfunctions⟩ := Hoisting.Extends.of_push hext.hoisting
  have hkeeps : s.Keeps A (stmtsVisits q'.hoisting.pop.1.statements) := by
    rw [Frame.statements, hfunctions, List.append_nil, Frame.variableStmt?]
    split
    · exact Setting.keeps_nil
    · exact Setting.keeps_append.mpr ⟨keeps_varNames _, Setting.keeps_nil⟩
  exact ⟨⟨houter, hext.exported, hext.calls⟩, hQ, hkeeps⟩

theorem yields_stabilize_keeps (bound : List String) {value : Expr} (h : s.Keeps A value.visits) :
    Yields (Progress.Extends H) (stabilize bound value) fun r =>
      s.Keeps A (exprsVisits r.1) ∧ s.Keeps A r.2.visits := by
  refine (yields_stabilize bound value).mono ?_
  rintro _ (rfl | ⟨temporary, rfl⟩)
  · exact ⟨Setting.keeps_nil, h⟩
  · exact ⟨by simpa [exprsVisits, Expr.assignName] using h, Setting.keeps_ofName _⟩

theorem yields_stabilizeUnlessOne_keeps (count : Nat) (bound : List String) {value : Expr}
    (h : s.Keeps A value.visits) :
    Yields (Progress.Extends H) (stabilizeUnlessOne count bound value) fun r =>
      s.Keeps A (exprsVisits r.1) ∧ s.Keeps A r.2.visits := by
  unfold stabilizeUnlessOne
  exact .ite (fun _ => .pure ⟨Setting.keeps_nil, h⟩) fun _ => yields_stabilize_keeps bound h

/-! ## Loop bodies -/

theorem keeps_loopBody {exports body : List Stmt} (hexports : s.Keeps A (stmtsVisits exports))
    (hbody : s.Keeps A (stmtsVisits body)) : s.Keeps A (loopBody exports body).visits := by
  unfold loopBody
  split
  · exact Setting.keeps_stmtOfList hbody
  · exact .cons trivial (hexports.stmts hbody)

theorem blockBody_keeps {exports : List Stmt} {body : Lowering (List Stmt)}
    (hexports : s.Keeps A (stmtsVisits exports))
    (hbody : Yields (Progress.Extends H) body fun sts => s.Keeps A (stmtsVisits sts)) :
    Yields (Progress.Extends H) (blockBody s exports body) fun st => s.Keeps A st.visits := by
  unfold blockBody
  refine .ite (fun _ => .deeper s ?_) fun _ => ?_
  · exact hbody.bind fun sts hsts => .pure (.cons trivial hsts)
  · exact hbody.bind fun sts hsts => .pure (.cons trivial (hexports.stmts hsts))

theorem lowerLoopBody_keeps {place : Place} {exports : List Stmt} {body : Stmt}
    (hexports : s.Keeps A (stmtsVisits exports))
    (hblock : ∀ inner, body = .block inner →
      Yields (Progress.Extends H) (lowerStmts s place inner) fun sts => s.Keeps A (stmtsVisits sts))
    (hbody : Yields (Progress.Extends H) (body.lower s place)
      fun sts => s.Keeps A (stmtsVisits sts)) :
    Yields (Progress.Extends H) (lowerLoopBody s place exports body) fun st =>
      s.Keeps A st.visits := by
  cases body with
  | block inner => exact blockBody_keeps hexports (hblock inner rfl)
  | _ => exact hbody.bind fun _ hsts => .pure (keeps_loopBody hexports hsts)

theorem keeps_withDeclarations {body : ArrowBody} {declarations : List Stmt}
    (hbody : s.Keeps A body.visits) (hdeclarations : s.Keeps A (stmtsVisits declarations)) :
    s.Keeps A (body.withDeclarations declarations).visits := by
  unfold ArrowBody.withDeclarations
  split
  · exact hbody
  · change s.Keeps A (stmtsVisits _)
    rw [NameTable.stmtsVisits_append, Setting.keeps_append]
    exact ⟨hdeclarations, hbody⟩
  · next e =>
    have he : s.Keeps A e.visits := hbody
    change s.Keeps A (stmtsVisits _)
    rw [NameTable.stmtsVisits_append, Setting.keeps_append]
    exact ⟨hdeclarations, .one (.cons trivial he)⟩

end Lowering
end RegisterForm
