import RegisterForm.Proofs.Temporary.Shown
/-!
# What lowering steps declare

A lowering step adds to the innermost collection only. If the variables in it at the end are those
of the functions around, then what the step makes and what it sets aside shows only followed names
that these functions declare. A function that ends has collected its own variables, so that inside
of it they count too.
-/
namespace RegisterForm
open Lowering Vocabulary

namespace Hoisting

/-- At most the innermost collection has changed, and it still holds its variables. -/
structure Fills (h h' : Hoisting) : Prop where
  around : h'.frames.tail = h.frames.tail
  opened : h.frames ≠ [] → h'.frames ≠ []
  vars : h.pop.1.vars ⊆ h'.pop.1.vars

/-- The followed names that are declared in the innermost collection are in `D`. -/
def Within (T D : String → Prop) (h : Hoisting) : Prop := ∀ name ∈ h.pop.1.vars, T name → D name

/-- The functions in the innermost collection show only followed names that are declared. -/
def Sound (T D : String → Prop) (h : Hoisting) : Prop :=
  ∀ st ∈ h.pop.1.functions, Shown T D st.sights

namespace Fills
variable {h h' h'' : Hoisting}

theorem refl (h : Hoisting) : h.Fills h := ⟨rfl, id, List.Subset.refl _⟩

theorem trans (hfirst : h.Fills h') (hrest : h'.Fills h'') : h.Fills h'' :=
  ⟨hrest.around.trans hfirst.around, hrest.opened ∘ hfirst.opened,
    List.Subset.trans hfirst.vars hrest.vars⟩

theorem modifyTop (h : Hoisting) {change : Frame → Frame}
    (hchange : ∀ frame, frame.vars ⊆ (change frame).vars) : h.Fills (h.modifyTop change) := by
  unfold Hoisting.modifyTop
  split
  · exact refl h
  · next frame frames hf =>
    refine ⟨by rw [hf]; rfl, fun _ => List.cons_ne_nil _ _, ?_⟩
    rw [show h.pop.1 = frame by rw [Hoisting.pop, hf]]
    exact hchange frame

theorem addVariable (h : Hoisting) (name : String) : h.Fills (h.addVariable name) := by
  apply modifyTop
  intro frame
  split
  · exact List.Subset.refl _
  · exact List.subset_append_left _ _

theorem addVariables (h : Hoisting) (names : List String) : h.Fills (h.addVariables names) := by
  unfold Hoisting.addVariables
  induction names generalizing h with
  | nil => exact refl h
  | cons name names ih => exact (addVariable h name).trans (ih _)

/-- A function that ends leaves the collections around it as they were. -/
theorem of_push (hfills : h.push.Fills h') : h'.pop.2.frames = h.frames := by
  have hopened := hfills.opened (List.cons_ne_nil _ _)
  have haround : h'.frames.tail = h.frames := hfills.around
  unfold Hoisting.pop
  split
  · next hnil => exact absurd hnil hopened
  · next frame frames hf =>
    rw [hf] at haround
    exact haround

theorem within {T D : String → Prop} (hfills : h.Fills h') (hwithin : h'.Within T D) :
    h.Within T D := fun name hname => hwithin name (hfills.vars hname)

end Fills

theorem pop_congr {h h' : Hoisting} (hframes : h'.frames = h.frames) : h'.pop.1 = h.pop.1 := by
  unfold pop
  rw [hframes]
  split <;> rfl

/-- Inside a function a change is one of the innermost collection. -/
theorem pop_modifyTop {h : Hoisting} (hopen : h.frames ≠ []) (change : Frame → Frame) :
    (h.modifyTop change).pop.1 = change h.pop.1 := by
  obtain ⟨frame, frames, hf⟩ := List.exists_cons_of_ne_nil hopen
  simp only [modifyTop, pop, hf]

/-- A change of the variables leaves the functions. -/
theorem functions_addVariable (h : Hoisting) (name : String) :
    (h.addVariable name).pop.1.functions = h.pop.1.functions := by
  by_cases hopen : h.frames = []
  · simp only [addVariable, modifyTop, hopen]
  · rw [addVariable, pop_modifyTop hopen]
    split <;> rfl

theorem functions_addVariables (h : Hoisting) (names : List String) :
    (h.addVariables names).pop.1.functions = h.pop.1.functions := by
  unfold addVariables
  induction names generalizing h with
  | nil => rfl
  | cons name names ih => exact (ih _).trans (h.functions_addVariable name)

theorem mem_addVariable {h : Hoisting} (hopen : h.frames ≠ []) (name : String) :
    name ∈ (h.addVariable name).pop.1.vars := by
  rw [addVariable, pop_modifyTop hopen]
  split
  · next hold => simpa using hold
  · simp

end Hoisting

variable {T D : String → Prop}

namespace Lowering

/-- A step adds to the innermost collection only. In a function, what it makes and what it sets
aside shows only followed names that are declared around it, if the variables at its end are and
provided that `P`. -/
structure Shows (T D : String → Prop) (P : Prop) {α : Type} (x : Lowering α) (Q : α → Prop) :
    Prop where
  ok : ∀ ⦃p a p'⦄, x.run p = .ok (a, p') →
    p.hoisting.Fills p'.hoisting ∧
      (p.hoisting.frames ≠ [] → p'.hoisting.Within T D → P → p.hoisting.Sound T D →
        p'.hoisting.Sound T D ∧ Q a)

namespace Shows
variable {P : Prop} {α β : Type} {x : Lowering α} {f : α → Lowering β} {Q : α → Prop}
  {Q' : β → Prop}

/-- A step that does not fail. -/
theorem of_state {g : Progress → α × Progress} (hx : ∀ p, x.run p = .ok (g p))
    (hg : ∀ p, p.hoisting.Fills (g p).2.hoisting ∧
      (p.hoisting.frames ≠ [] → (g p).2.hoisting.Within T D → P → p.hoisting.Sound T D →
        (g p).2.hoisting.Sound T D ∧ Q (g p).1)) : Shows T D P x Q where
  ok p a p' hr := by
    have hp := hg p
    rwa [Except.ok.inj ((hx p).symm.trans hr)] at hp

/-- A step that collects nothing. -/
theorem of_kept {g : Progress → α × Progress} (hx : ∀ p, x.run p = .ok (g p))
    (hframes : ∀ p, (g p).2.hoisting.frames = p.hoisting.frames) (hQ : ∀ p, P → Q (g p).1) :
    Shows T D P x Q := by
  refine .of_state hx fun p => ⟨?_, fun _ _ hP hsound => ⟨?_, hQ p hP⟩⟩
  · refine ⟨by rw [hframes], fun hopen => by rwa [hframes], ?_⟩
    rw [Hoisting.pop_congr (hframes p)]
    exact List.Subset.refl _
  · unfold Hoisting.Sound
    rwa [Hoisting.pop_congr (hframes p)]

theorem pure {a : α} (h : P → Q a) : Shows T D P (pure a : Lowering α) Q :=
  .of_kept (fun _ => rfl) (fun _ => rfl) fun _ => h

theorem bind (hx : Shows T D P x Q) (hf : ∀ a, Shows T D (P ∧ Q a) (f a) Q') :
    Shows T D P (x >>= f) Q' where
  ok p b p' hr := by
    obtain ⟨a, q, h₁, h₂⟩ := run_bind_eq_ok hr
    obtain ⟨hfills, hfirst⟩ := hx.ok h₁
    obtain ⟨hfills', hrest⟩ := (hf a).ok h₂
    refine ⟨hfills.trans hfills', fun hopen hwithin hP hsound => ?_⟩
    obtain ⟨hsound', hQ⟩ := hfirst hopen (hfills'.within hwithin) hP hsound
    exact hrest (hfills.opened hopen) hwithin ⟨hP, hQ⟩ hsound'

theorem weaken {P' : Prop} (h : Shows T D P x Q) (hP : P' → P) : Shows T D P' x Q where
  ok p a p' hr := by
    obtain ⟨hfills, hrun⟩ := h.ok hr
    exact ⟨hfills, fun hopen hwithin hP' => hrun hopen hwithin (hP hP')⟩

theorem tooDeep (file : String) : Shows T D P (throw (.tooDeep file) : Lowering α) Q where
  ok p a p' hr := by cases hr

theorem ite {c : Prop} [Decidable c] {y : Lowering α} (hx : c → Shows T D P x Q)
    (hy : ¬c → Shows T D P y Q) : Shows T D P (if c then x else y) Q := by
  by_cases h : c
  · rw [if_pos h]
    exact hx h
  · rw [if_neg h]
    exact hy h

/-- The depth is no part of what is collected. -/
theorem deeper (s : Setting) (h : Shows T D P x Q) : Shows T D P (deeper s x) Q where
  ok p a p' hr := by
    obtain ⟨-, q, hx, rfl⟩ := run_deeper_eq_ok hr
    obtain ⟨hfills, hrun⟩ := h.ok hx
    exact ⟨hfills, hrun⟩

/-- A fact about all results of a step may be relied on too. -/
theorem also {S : α → Prop} (h : Shows T D P x Q) (hS : Yields Any x S) :
    Shows T D P x fun a => Q a ∧ S a where
  ok p a p' hr := by
    obtain ⟨hfills, hrun⟩ := h.ok hr
    refine ⟨hfills, fun hopen hwithin hP hsound => ?_⟩
    obtain ⟨hsound', ha⟩ := hrun hopen hwithin hP hsound
    exact ⟨hsound', ha, (hS hr).2⟩

end Shows

/-! ## Steps -/

section steps
variable {P : Prop} {s : Setting}

theorem shows_guardPatternDepth (depth : Nat) :
    Shows T D P (guardPatternDepth s depth) fun _ => True := by
  unfold guardPatternDepth
  exact .ite (fun _ => .pure fun _ => trivial) fun _ => .tooDeep _

theorem shows_requireRest : Shows T D P requireRest fun _ => True :=
  .of_kept (fun _ => rfl) (fun _ => rfl) fun _ _ => trivial

theorem shows_addVariables (names : List String) :
    Shows T D P (hoist (·.addVariables names)) fun _ => True := by
  refine .of_state (fun _ => rfl) fun p => ⟨.addVariables _ names, fun _ _ _ hsound => ⟨?_, trivial⟩⟩
  unfold Hoisting.Sound
  rwa [show (p.hoisting.addVariables names).pop.1.functions = _ from
    p.hoisting.functions_addVariables names]

theorem shows_addVariable (name : String) :
    Shows T D P (hoist (·.addVariable name)) fun _ => True := shows_addVariables [name]

/-- A temporary is declared where it is made up. -/
theorem shows_declareTemporary :
    Shows T D P (hoistGet (·.declareTemporary)) fun name => T name → D name := by
  refine .of_state (fun _ => rfl) fun p => ?_
  have hpop : p.hoisting.temporary.2.pop.1 = p.hoisting.pop.1 := Hoisting.pop_congr rfl
  have hfills : p.hoisting.temporary.2.Fills p.hoisting.declareTemporary.2 :=
    .addVariable _ p.hoisting.temporary.1
  refine ⟨⟨hfills.around, hfills.opened, hpop ▸ hfills.vars⟩, fun hopen hwithin _ hsound => ⟨?_, ?_⟩⟩
  · unfold Hoisting.Sound
    rw [show p.hoisting.declareTemporary.2.pop.1.functions = _ from
      p.hoisting.temporary.2.functions_addVariable _, hpop]
    exact hsound
  · have hopen' : p.hoisting.temporary.2.frames ≠ [] := hopen
    exact hwithin p.hoisting.temporary.1 (Hoisting.mem_addVariable hopen' p.hoisting.temporary.1)

theorem shows_addFunction {st : Stmt} (h : P → Shown T D st.sights) :
    Shows T D P (hoist (·.addFunction st)) fun _ => True := by
  refine .of_state (fun _ => rfl) fun p => ⟨.modifyTop _ fun _ => List.Subset.refl _, ?_⟩
  intro hopen _ hP hsound
  refine ⟨fun st' hst' => ?_, trivial⟩
  have hadded : (p.hoisting.addFunction st).pop.1 = _ := Hoisting.pop_modifyTop hopen _
  rw [show (p.hoisting.addFunction st).pop.1 = _ from hadded] at hst'
  rcases List.mem_append.mp hst' with hold | hnew
  · exact hsound st' hold
  · exact List.mem_singleton.mp hnew ▸ h hP

theorem shows_addExportedName (name : String) :
    Shows T D P (addExportedName name) fun _ => True := by
  refine .of_kept (fun _ => rfl) (fun p => ?_) fun _ _ => trivial
  dsimp only
  split <;> rfl

theorem shows_addExportedNames : ∀ names : List String,
    ∀ {P : Prop}, Shows T D P (addExportedNames names) fun _ => True
  | [], _ => .pure fun _ => trivial
  | name :: names, _ => (shows_addExportedName name).bind fun _ => shows_addExportedNames names

theorem shows_addFunctionExport (call : Expr) :
    Shows T D P (addFunctionExport call) fun _ => True :=
  .of_kept (fun _ => rfl) (fun _ => rfl) fun _ _ => trivial

/-- Inside a function its own variables are declared, too. -/
theorem shows_inFunction {α : Type} {x : Lowering α} {Q : (String → Prop) → α → Prop}
    (h : ∀ D, Shows T D P x (Q D)) :
    Shows T D P (inFunction x) fun r => ∃ frame : Frame, r.2 = frame.statements ∧
      Q (fun name => D name ∨ name ∈ frame.vars) r.1 ∧
        ∀ st ∈ frame.functions, Shown T (fun name => D name ∨ name ∈ frame.vars) st.sights where
  ok p r p' hr := by
    obtain ⟨_, q, hpush, hr⟩ := run_bind_eq_ok hr
    cases hpush
    obtain ⟨a, q', hx, hr⟩ := run_bind_eq_ok hr
    obtain ⟨frame, q'', hpop, hr⟩ := run_bind_eq_ok hr
    cases hpop
    cases hr
    have hframes : q'.hoisting.pop.2.frames = p.hoisting.frames := ((h D).ok hx).1.of_push
    have hpopped : q'.hoisting.pop.2.pop.1 = p.hoisting.pop.1 := Hoisting.pop_congr hframes
    refine ⟨⟨congrArg List.tail hframes, fun hopen => hframes.symm ▸ hopen, ?_⟩, ?_⟩
    · exact hpopped.symm ▸ List.Subset.refl _
    · intro _ _ hP hsound
      have hkept : q'.hoisting.pop.2.Sound T D := by
        unfold Hoisting.Sound
        rwa [hpopped]
      have hinner := (h fun name => D name ∨ name ∈ q'.hoisting.pop.1.vars).ok hx
      obtain ⟨hfunctions, hQ⟩ := hinner.2 (List.cons_ne_nil _ _)
        (fun name hname _ => .inr hname) hP fun st hst => absurd hst List.not_mem_nil
      exact ⟨hkept, q'.hoisting.pop.1, rfl, hQ, hfunctions⟩

theorem shows_stabilize (bound : List String) {value : Expr}
    (h : P → Shown T D value.sights) :
    Shows T D P (stabilize bound value) fun r =>
      Shown T D (exprsSights r.1) ∧ Shown T D r.2.sights := by
  unfold stabilize
  refine .ite (fun _ => .pure fun hP => ⟨.nil, h hP⟩) fun _ => ?_
  refine shows_declareTemporary.bind fun name => .pure fun ⟨hP, hname⟩ => ⟨?_, shown_ofName hname⟩
  have htarget : Shown T D (Pattern.ident (.synthetic name)).sights :=
    .sightsOf fun _ hx => List.mem_singleton.mp hx ▸ hname
  exact shown_single (shown_assignTo htarget (h hP))

theorem shows_stabilizeUnlessOne (count : Nat) (bound : List String) {value : Expr}
    (h : P → Shown T D value.sights) :
    Shows T D P (stabilizeUnlessOne count bound value) fun r =>
      Shown T D (exprsSights r.1) ∧ Shown T D r.2.sights := by
  unfold stabilizeUnlessOne
  exact .ite (fun _ => .pure fun hP => ⟨.nil, h hP⟩) fun _ => shows_stabilize bound h

/-! ## Statements inside statements -/

theorem shown_loopBody {exports body : List Stmt} (hexports : Shown T D (stmtsSights exports))
    (hbody : Shown T D (stmtsSights body)) : Shown T D (loopBody exports body).sights := by
  unfold loopBody
  split
  · exact shown_stmtOfList hbody
  · exact shown_stmtsAppend hexports hbody

theorem shows_blockBody {exports : List Stmt} {body : Lowering (List Stmt)}
    (hexports : P → Shown T D (stmtsSights exports))
    (hbody : Shows T D P body fun sts => Shown T D (stmtsSights sts)) :
    Shows T D P (blockBody s exports body) fun st => Shown T D st.sights := by
  unfold blockBody
  refine .ite (fun _ => .deeper s ?_) fun _ => ?_
  · exact hbody.bind fun body => .pure fun hP => hP.2
  · exact hbody.bind fun body => .pure fun hP => shown_stmtsAppend (hexports hP.1) hP.2

theorem shows_lowerLoopBody {place : Place} {exports : List Stmt} {body : Stmt}
    (hexports : P → Shown T D (stmtsSights exports))
    (hblock : ∀ inner, body = .block inner →
      Shows T D P (lowerStmts s place inner) fun sts => Shown T D (stmtsSights sts))
    (hbody : Shows T D P (body.lower s place) fun sts => Shown T D (stmtsSights sts)) :
    Shows T D P (lowerLoopBody s place exports body) fun st => Shown T D st.sights := by
  cases body with
  | block inner => exact shows_blockBody hexports (hblock inner rfl)
  | _ => exact hbody.bind fun _ => .pure fun hP => shown_loopBody (hexports hP.1) hP.2

/-! ## Functions -/

/-- The declarations at the top of a function, seen from inside. -/
theorem shown_statements {frame : Frame} (hvars : ∀ name ∈ frame.vars, D name)
    (hfunctions : ∀ st ∈ frame.functions, Shown T D st.sights) :
    Shown T D (stmtsSights frame.statements) := by
  refine shown_stmtsAppend ?_ (shown_stmts hfunctions)
  unfold Frame.variableStmt?
  split
  · exact .nil
  · refine shown_singleStmt (.varNames frame.vars) ?_
    change Shown T D (declaratorsSights (frame.vars.map (Declarator.ofName · none)))
    generalize frame.vars = names at hvars
    induction names with
    | nil => exact .nil
    | cons name names ih =>
      obtain ⟨hname, hnames⟩ := List.forall_mem_cons.mp hvars
      refine Shown.append (Shown.append ?_ .nil) (ih hnames)
      exact .sightsOf fun _ hx _ => List.mem_singleton.mp hx ▸ hname

variable {frame : Frame}

/-- A function's parts, seen from outside: its variables are declared in its body. -/
theorem shown_ofFrame {f : List Enclosure → List Sight} {body : List Stmt} (inBody : Bool)
    (h : Shown T (fun name => D name ∨ name ∈ frame.vars) f) :
    Shown T D fun around => f (⟨bodyVars (frame.statements ++ body), inBody⟩ :: around) :=
  (h.mono fun _ => Or.imp_right fun hname => subset_bodyVars frame body hname).inside inBody

theorem shown_func {name : Option Ident} {params : List Param} {body : List Stmt}
    {isAsync isGenerator : Bool} (hname : ∀ x ∈ name, ¬T x.name)
    (hparams : Shown T (fun name => D name ∨ name ∈ frame.vars) (paramsSights params))
    (hbody : Shown T (fun name => D name ∨ name ∈ frame.vars) (stmtsSights body))
    (hfunctions : ∀ st ∈ frame.functions,
      Shown T (fun name => D name ∨ name ∈ frame.vars) st.sights) :
    Shown T D (Func.mk name params (frame.statements ++ body) isAsync isGenerator).sights := by
  have hdeclared := shown_statements (T := T) (fun name hname => .inr hname) hfunctions
  have hown : Shown T D (sightsOf name.toList) :=
    .sightsOf fun x hx hT => absurd hT (hname x (Option.mem_toList.mp hx))
  exact (hown.append (shown_ofFrame false hparams)).append
    (shown_ofFrame true (shown_stmtsAppend hdeclared hbody))

/-- A function may get another name that is not followed. -/
theorem shown_renamed {name : Option Ident} {x : Ident} {params : List Param} {body : List Stmt}
    {isAsync isGenerator : Bool} (hx : ¬T x.name)
    (h : Shown T D (Func.mk name params body isAsync isGenerator).sights) :
    Shown T D (Func.mk (some x) params body isAsync isGenerator).sights := by
  intro around henclosed u hu hT
  rcases List.mem_append.mp hu with hu | hbody
  · rcases List.mem_append.mp hu with hown | hparams
    · obtain ⟨y, hy, rfl⟩ := List.mem_map.mp hown
      exact absurd hT (List.mem_singleton.mp hy ▸ hx)
    · exact h around henclosed u (List.mem_append_left _ (List.mem_append_right _ hparams)) hT
  · exact h around henclosed u (List.mem_append_right _ hbody) hT

theorem shown_staticBlock {body : List Stmt}
    (hbody : Shown T (fun name => D name ∨ name ∈ frame.vars) (stmtsSights body))
    (hfunctions : ∀ st ∈ frame.functions,
      Shown T (fun name => D name ∨ name ∈ frame.vars) st.sights) :
    Shown T D (ClassMember.staticBlock (frame.statements ++ body)).sights := by
  have hdeclared := shown_statements (T := T) (fun name hname => .inr hname) hfunctions
  exact shown_ofFrame true (shown_stmtsAppend hdeclared hbody)

/-- An arrow function without declarations keeps its body as it is. -/
theorem shown_arrow {params : List Param} {body : ArrowBody} {isAsync : Bool}
    (hparams : Shown T (fun name => D name ∨ name ∈ frame.vars) (paramsSights params))
    (hbody : Shown T (fun name => D name ∨ name ∈ frame.vars) body.sights)
    (hfunctions : ∀ st ∈ frame.functions,
      Shown T (fun name => D name ∨ name ∈ frame.vars) st.sights) :
    Shown T D (Expr.arrow params (body.withDeclarations frame.statements) isAsync).sights := by
  have hdeclared := shown_statements (T := T) (fun name hname => .inr hname) hfunctions
  -- With declarations the body is a block that starts with them.
  obtain ⟨rest, hstatements, hsights⟩ : ∃ rest : List Stmt,
      (frame.vars = [] ∨
        (body.withDeclarations frame.statements).statements = frame.statements ++ rest) ∧
      Shown T (fun name => D name ∨ name ∈ frame.vars)
        (body.withDeclarations frame.statements).sights := by
    unfold ArrowBody.withDeclarations
    split
    · next hnil =>
      refine ⟨[], .inl ?_, hbody⟩
      by_contra hvars
      have hsome : frame.variableStmt? = some (.varNames frame.vars) := by
        simp [Frame.variableStmt?, hvars]
      rw [Frame.statements, hsome] at hnil
      cases hnil
    · next d ds stmts heq =>
      exact ⟨stmts, .inr (congrArg (· ++ stmts) heq.symm), heq ▸ shown_stmtsAppend hdeclared hbody⟩
    · next d ds e heq =>
      have hret : Shown T (fun name => D name ∨ name ∈ frame.vars)
          (stmtsSights [.ret (some e)]) := shown_singleStmt _ hbody
      refine ⟨[.ret (some e)], .inr ?_, heq ▸ shown_stmtsAppend hdeclared hret⟩
      exact congrArg (· ++ [Stmt.ret (some e)]) heq.symm
  have hvars : ∀ name, D name ∨ name ∈ frame.vars → D name ∨
      name ∈ bodyVars (body.withDeclarations frame.statements).statements := by
    intro name hname
    rcases hstatements with hnil | happend
    · exact hname.imp_right fun hmem => absurd (hnil ▸ hmem) List.not_mem_nil
    · rw [happend]
      exact hname.imp_right fun hmem => subset_bodyVars frame rest hmem
  exact ((hparams.mono hvars).inside false).append ((hsights.mono hvars).inside true)

end steps
end Lowering
end RegisterForm
