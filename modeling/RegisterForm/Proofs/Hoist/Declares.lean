import RegisterForm.Proofs.Fresh.Accounts
import RegisterForm.Proofs.Registration.Clauses
/-!
# What a step hoists

A lowering step adds declarations to the innermost collection and leaves those around it alone.
Two lists tell the variables and the functions that it declares for the file; all else that it
declares it draws from the supply.
-/
namespace RegisterForm
open Lowering

/-! ## One collection -/

namespace Frame

/-- The names of the functions that are to be declared, in order. -/
def functionNames (frame : Frame) : List String :=
  (frame.functions.filterMap Stmt.functionName?).map (·.name)

/-- The second collection has the variables and the functions more, and some of the names given
out. A variable is declared once, and each function adds a declaration. -/
structure Gains (given vars functions : List String) (frame frame' : Frame) : Prop where
  vars : ∃ made ⊆ given, ∀ name,
    name ∈ frame'.vars ↔ name ∈ frame.vars ∨ name ∈ vars ∨ name ∈ made
  nodup : frame.vars.Nodup → frame'.vars.Nodup
  functions : ∃ made ⊆ given,
    frame'.functionNames.Perm (frame.functionNames ++ functions ++ made)
  added : ∀ st ∈ frame'.functions, st ∈ frame.functions ∨ ∃ modifiers f, st = .function modifiers f

namespace Gains
variable {given given' vars vars' functions functions' : List String} {frame frame' frame'' : Frame}

theorem refl (frame : Frame) : frame.Gains [] [] [] frame where
  vars := ⟨[], List.nil_subset _, fun name => by simp⟩
  nodup := id
  functions := ⟨[], List.nil_subset _, by simp⟩
  added := fun _ => .inl

theorem trans (h : frame.Gains given vars functions frame')
    (h' : frame'.Gains given' vars' functions' frame'') :
    frame.Gains (given ++ given') (vars ++ vars') (functions ++ functions') frame'' where
  vars := by
    obtain ⟨made, hmade, hvars⟩ := h.vars
    obtain ⟨made', hmade', hvars'⟩ := h'.vars
    refine ⟨made ++ made', append_subset_append hmade hmade', fun name => ?_⟩
    rw [hvars', hvars, List.mem_append, List.mem_append]
    tauto
  nodup := h'.nodup ∘ h.nodup
  functions := by
    obtain ⟨made, hmade, hfunctions⟩ := h.functions
    obtain ⟨made', hmade', hfunctions'⟩ := h'.functions
    refine ⟨made ++ made', append_subset_append hmade hmade', ?_⟩
    have hswap : (made ++ functions').Perm (functions' ++ made) := List.perm_append_comm
    have hmoved := (hswap.append_left (frame.functionNames ++ functions)).append_right made'
    refine hfunctions'.trans (((hfunctions.append_right functions').append_right made').trans ?_)
    simpa only [List.append_assoc] using hmoved
  added st hst := (h'.added st hst).elim (h.added st) .inr

/-- A name that was given out need not be told. -/
theorem made (h : frame.Gains given (vars ++ vars') (functions ++ functions') frame')
    (hvars : vars' ⊆ given) (hfunctions : functions' ⊆ given) :
    frame.Gains given vars functions frame' where
  vars := by
    obtain ⟨made, hmade, hmem⟩ := h.vars
    refine ⟨vars' ++ made, List.append_subset.mpr ⟨hvars, hmade⟩, fun name => ?_⟩
    rw [hmem, List.mem_append, List.mem_append]
    tauto
  nodup := h.nodup
  functions := by
    obtain ⟨made, hmade, hperm⟩ := h.functions
    refine ⟨functions' ++ made, List.append_subset.mpr ⟨hfunctions, hmade⟩, ?_⟩
    simpa only [List.append_assoc] using hperm
  added := h.added

theorem congr (h : frame.Gains given vars functions frame')
    (hvars : ∀ name, name ∈ vars ↔ name ∈ vars') : frame.Gains given vars' functions frame' where
  vars := by simpa only [hvars] using h.vars
  nodup := h.nodup
  functions := h.functions
  added := h.added

/-- Names may be given out without being declared. -/
theorem weaken (h : frame.Gains given vars functions frame') (hgiven : given ⊆ given') :
    frame.Gains given' vars functions frame' where
  vars := h.vars.imp fun _ ⟨hmade, hvars⟩ => ⟨List.Subset.trans hmade hgiven, hvars⟩
  nodup := h.nodup
  functions := h.functions.imp fun _ ⟨hmade, hperm⟩ => ⟨List.Subset.trans hmade hgiven, hperm⟩
  added := h.added

end Gains
end Frame

/-! ## All collections -/

namespace Hoisting

/-- The innermost collection gains the declarations, and the others stay as they are. -/
structure Declares (given vars functions : List String) (h h' : Hoisting) : Prop where
  gives : h.supply.Gives given h'.supply
  frames : ∀ ⦃frame frames⦄, h.frames = frame :: frames →
    ∃ frame', h'.frames = frame' :: frames ∧ frame.Gains given vars functions frame'

namespace Declares
variable {given given' vars vars' functions functions' : List String} {h h' h'' : Hoisting}

theorem refl (h : Hoisting) : h.Declares [] [] [] h :=
  ⟨.nothing _, fun frame _ heq => ⟨frame, heq, .refl frame⟩⟩

theorem trans (h₁ : h.Declares given vars functions h')
    (h₂ : h'.Declares given' vars' functions' h'') :
    h.Declares (given ++ given') (vars ++ vars') (functions ++ functions') h'' where
  gives := h₁.gives.append h₂.gives
  frames frame frames heq := by
    obtain ⟨frame', heq', hgains⟩ := h₁.frames heq
    obtain ⟨frame'', heq'', hgains'⟩ := h₂.frames heq'
    exact ⟨frame'', heq'', hgains.trans hgains'⟩

theorem made (h₁ : h.Declares given (vars ++ vars') (functions ++ functions') h')
    (hvars : vars' ⊆ given) (hfunctions : functions' ⊆ given) :
    h.Declares given vars functions h' where
  gives := h₁.gives
  frames _ _ heq := by
    obtain ⟨frame', heq', hgains⟩ := h₁.frames heq
    exact ⟨frame', heq', hgains.made hvars hfunctions⟩

theorem congr (h₁ : h.Declares given vars functions h')
    (hvars : ∀ name, name ∈ vars ↔ name ∈ vars') : h.Declares given vars' functions h' where
  gives := h₁.gives
  frames _ _ heq := by
    obtain ⟨frame', heq', hgains⟩ := h₁.frames heq
    exact ⟨frame', heq', hgains.congr hvars⟩

theorem modifyTop {change : Frame → Frame}
    (hchange : ∀ frame : Frame, frame.Gains [] vars functions (change frame)) :
    h.Declares [] vars functions (h.modifyTop change) where
  gives := by
    rw [supply_modifyTop]
    exact .nothing _
  frames frame frames heq := by
    refine ⟨change frame, ?_, hchange frame⟩
    rw [Hoisting.modifyTop, heq]

theorem addVariable (h : Hoisting) (name : String) :
    h.Declares [] [name] [] (h.addVariable name) := by
  refine modifyTop fun frame => ?_
  by_cases hmem : name ∈ frame.vars
  · rw [if_pos (List.contains_iff_mem.mpr hmem)]
    refine ⟨⟨[], List.nil_subset _, fun n => ?_⟩, id, ⟨[], List.nil_subset _, by simp⟩,
      fun _ => .inl⟩
    have hsame : n ∈ [name] → n ∈ frame.vars := fun hn => List.mem_singleton.mp hn ▸ hmem
    simpa using hsame
  · rw [if_neg (mt List.contains_iff_mem.mp hmem)]
    refine ⟨⟨[], List.nil_subset _, fun n => by simp⟩, fun hnodup => ?_,
      ⟨[], List.nil_subset _, by simp [Frame.functionNames]⟩, fun _ => .inl⟩
    exact hnodup.append (List.nodup_singleton name) (List.disjoint_singleton.mpr hmem)

theorem addVariables (h : Hoisting) (names : List String) :
    h.Declares [] names [] (h.addVariables names) := by
  unfold Hoisting.addVariables
  induction names generalizing h with
  | nil => exact refl h
  | cons name names ih => exact (addVariable h name).trans (ih _)

theorem addFunction (h : Hoisting) (modifiers : Modifiers) {f : Func} {x : Ident}
    (hname : f.name = some x) :
    h.Declares [] [] [x.name] (h.addFunction (.function modifiers f)) := by
  refine modifyTop fun frame => ⟨⟨[], List.nil_subset _, fun n => by simp⟩, id,
    ⟨[], List.nil_subset _, by simp [Frame.functionNames, Stmt.functionName?, hname]⟩, ?_⟩
  refine fun st hst => (List.mem_append.mp hst).imp_right fun hnew => ?_
  exact ⟨modifiers, f, List.mem_singleton.mp hnew⟩

theorem unique (h : Hoisting) (base : String) :
    h.Declares [(h.unique base).1] [] [] (h.unique base).2 where
  gives := .unique base (.nothing _)
  frames frame _ heq := ⟨frame, heq, (Frame.Gains.refl frame).weaken (List.nil_subset _)⟩

theorem temporary (h : Hoisting) : h.Declares [h.temporary.1] [] [] h.temporary.2 where
  gives := .temporary (.nothing _)
  frames frame _ heq := ⟨frame, heq, (Frame.Gains.refl frame).weaken (List.nil_subset _)⟩

/-- A temporary is given out before it is declared. -/
theorem declareTemporary (h : Hoisting) :
    h.Declares [h.temporary.1] [] [] h.declareTemporary.2 := by
  have hboth : h.Declares [h.temporary.1] ([] ++ [h.temporary.1]) ([] ++ []) h.declareTemporary.2 :=
    (temporary h).trans (addVariable h.temporary.2 h.temporary.1)
  exact hboth.made (List.Subset.refl _) (List.nil_subset _)

/-- What a function collects is declared in it, and what was collected before stays. -/
theorem of_push (hinner : h.push.Declares given vars functions h') :
    h.Declares given [] [] h'.pop.2 := by
  obtain ⟨frame', hframes, -⟩ := hinner.frames rfl
  have hpop : h'.pop.2.frames = h.frames := by
    unfold pop
    rw [hframes]
  refine ⟨?_, fun frame frames heq => ⟨frame, hpop.trans heq, ?_⟩⟩
  · rw [supply_pop]
    exact hinner.gives
  · exact (Frame.Gains.refl frame).weaken (List.nil_subset _)

end Declares
end Hoisting

/-! ## Steps -/

/-- The statement is an expression. -/
def Stmt.IsExpr (st : Stmt) : Prop := ∃ e, st = .expr e

/-- The collections gain the declarations, and what is noted for the start of the module are
calls. -/
structure Progress.Declares (given vars functions : List String) (p p' : Progress) : Prop where
  hoisting : p.hoisting.Declares given vars functions p'.hoisting
  calls : ∀ st ∈ p'.functionExports, st ∈ p.functionExports ∨ st.IsExpr

theorem Progress.Declares.trans {given given' vars vars' functions functions' : List String}
    {p p' p'' : Progress} (h : p.Declares given vars functions p')
    (h' : p'.Declares given' vars' functions' p'') :
    p.Declares (given ++ given') (vars ++ vars') (functions ++ functions') p'' :=
  ⟨h.hoisting.trans h'.hoisting, fun st hst => (h'.calls st hst).elim (h.calls st) .inr⟩

namespace Lowering
variable {α β : Type} {vars vars' functions functions' : List String} {x : Lowering α}
  {f : α → Lowering β}

/-- Every successful run of the step declares the variables and the functions. -/
def Hoists (vars functions : List String) (x : Lowering α) : Prop :=
  ∀ ⦃p a p'⦄, x.run p = .ok (a, p') → ∃ given, p.Declares given vars functions p'

namespace Hoists

theorem of_state {step : Progress → α × Progress} (hx : ∀ p, x.run p = .ok (step p))
    (h : ∀ p : Progress, ∃ given, p.Declares given vars functions (step p).2) :
    Hoists vars functions x := by
  intro p a p' hr
  have hstep : step p = (a, p') := Except.ok.inj ((hx p).symm.trans hr)
  simpa only [hstep] using h p

/-- A step that only collects. -/
theorem of_hoisting {step : Hoisting → α × Hoisting}
    (h : ∀ h : Hoisting, ∃ given, h.Declares given vars functions (step h).2) :
    Hoists vars functions (hoistGet step) :=
  .of_state (fun _ => rfl) fun p => (h p.hoisting).imp fun _ hstep => ⟨hstep, fun _ => .inl⟩

theorem pure (a : α) : Hoists [] [] (pure a : Lowering α) := by
  intro p a p' hr
  cases hr
  exact ⟨[], .refl _, fun _ => .inl⟩

theorem throw (e : LowerError) : Hoists vars functions (throw e : Lowering α) := by
  intro p a p' hr
  cases hr

theorem append (hx : Hoists vars functions x) (hf : ∀ a, Hoists vars' functions' (f a)) :
    Hoists (vars ++ vars') (functions ++ functions') (x >>= f) := by
  intro p b p' hr
  obtain ⟨a, q, hfirst, hrest⟩ := run_bind_eq_ok hr
  obtain ⟨given, hdeclares⟩ := hx hfirst
  obtain ⟨given', hdeclares'⟩ := hf a hrest
  exact ⟨given ++ given', hdeclares.trans hdeclares'⟩

/-- The first step declares nothing. -/
theorem bind (hx : Hoists [] [] x) (hf : ∀ a, Hoists vars functions (f a)) :
    Hoists vars functions (x >>= f) := hx.append hf

/-- What the first step gives may be relied on in the second. -/
theorem bind_yields {Q : α → Prop} (hx : Hoists [] [] x) (hQ : Yields Any x Q)
    (hf : ∀ a, Q a → Hoists vars functions (f a)) : Hoists vars functions (x >>= f) := by
  intro p b p' hr
  obtain ⟨a, q, hfirst, hrest⟩ := run_bind_eq_ok hr
  obtain ⟨given, hdeclares⟩ := hx hfirst
  obtain ⟨given', hdeclares'⟩ := hf a (hQ hfirst).2 hrest
  exact ⟨given ++ given', hdeclares.trans hdeclares'⟩

/-- The second step declares nothing. -/
theorem last (hx : Hoists vars functions x) (hf : ∀ a, Hoists [] [] (f a)) :
    Hoists vars functions (x >>= f) := by
  have hboth := hx.append hf
  rwa [List.append_nil, List.append_nil] at hboth

theorem congr (hx : Hoists vars functions x) (hvars : ∀ name, name ∈ vars ↔ name ∈ vars') :
    Hoists vars' functions x := fun _ _ _ hr =>
  (hx hr).imp fun _ h => ⟨h.hoisting.congr hvars, h.calls⟩

theorem ite {c : Prop} [Decidable c] {y : Lowering α} (hx : c → Hoists vars functions x)
    (hy : ¬c → Hoists vars functions y) : Hoists vars functions (if c then x else y) := by
  by_cases h : c
  · rw [if_pos h]
    exact hx h
  · rw [if_neg h]
    exact hy h

theorem deeper (s : Setting) (hx : Hoists vars functions x) :
    Hoists vars functions (deeper s x) := by
  intro p a p' hr
  obtain ⟨-, q, hrun, rfl⟩ := run_deeper_eq_ok hr
  obtain ⟨given, hdeclares⟩ := hx hrun
  exact ⟨given, hdeclares.hoisting, hdeclares.calls⟩

/-- What is given a made-up name is not told. -/
theorem unique {base : String} {g : String → Lowering β} {made madeFunctions : String → List String}
    (hmade : ∀ name, made name ⊆ [name]) (hfunctions : ∀ name, madeFunctions name ⊆ [name])
    (hg : ∀ name, Hoists (vars ++ made name) (functions ++ madeFunctions name) (g name)) :
    Hoists vars functions (hoistGet (·.unique base) >>= g) := by
  intro p b q' hr
  obtain ⟨name, q, hfirst, hrest⟩ := run_bind_eq_ok hr
  cases hfirst
  obtain ⟨given, hdeclares, hcalls⟩ := hg _ hrest
  have hboth : p.hoisting.Declares ([(p.hoisting.unique base).1] ++ given)
      (vars ++ made (p.hoisting.unique base).1)
      (functions ++ madeFunctions (p.hoisting.unique base).1)
      q'.hoisting := (Hoisting.Declares.unique p.hoisting base).trans hdeclares
  have hgiven : [(p.hoisting.unique base).1] ⊆ [(p.hoisting.unique base).1] ++ given :=
    List.subset_append_left _ _
  exact ⟨_, hboth.made (List.Subset.trans (hmade _) hgiven)
    (List.Subset.trans (hfunctions _) hgiven), hcalls⟩

theorem inFunction (hx : Hoists vars functions x) : Hoists [] [] (inFunction x) := by
  intro p r p' hr
  obtain ⟨_, q, hpush, hr⟩ := run_bind_eq_ok hr
  cases hpush
  obtain ⟨a, q', hrun, hr⟩ := run_bind_eq_ok hr
  obtain ⟨frame, q'', hpop, hr⟩ := run_bind_eq_ok hr
  cases hpop
  cases hr
  exact (hx hrun).imp fun _ h => ⟨h.hoisting.of_push, h.calls⟩

end Hoists

/-! ## The steps of a lowering -/

theorem hoists_addVariables (names : List String) :
    Hoists names [] (hoist (·.addVariables names)) :=
  .of_state (fun _ => rfl) fun p => ⟨[], .addVariables p.hoisting names, fun _ => .inl⟩

theorem hoists_addVariable (name : String) : Hoists [name] [] (hoist (·.addVariable name)) :=
  hoists_addVariables [name]

theorem hoists_addFunction (modifiers : Modifiers) {f : Func} {x : Ident}
    (hname : f.name = some x) : Hoists [] [x.name] (hoist (·.addFunction (.function modifiers f))) :=
  .of_state (fun _ => rfl) fun p => ⟨[], .addFunction p.hoisting modifiers hname, fun _ => .inl⟩

theorem hoists_guardPatternDepth (s : Setting) (depth : Nat) :
    Hoists [] [] (guardPatternDepth s depth) := by
  unfold guardPatternDepth
  exact .ite (fun _ => .pure _) fun _ => .throw _

theorem hoists_requireRest : Hoists [] [] requireRest :=
  .of_state (fun _ => rfl) fun _ => ⟨[], .refl _, fun _ => .inl⟩

theorem hoists_addExportedName (name : String) : Hoists [] [] (addExportedName name) := by
  refine .of_state (fun _ => rfl) fun p => ⟨[], ?_⟩
  dsimp only
  split <;> exact ⟨.refl _, fun _ => .inl⟩

theorem hoists_addExportedNames : ∀ names : List String, Hoists [] [] (addExportedNames names)
  | [] => .pure _
  | name :: names => (hoists_addExportedName name).bind fun _ => hoists_addExportedNames names

theorem hoists_addFunctionExport (call : Expr) : Hoists [] [] (addFunctionExport call) :=
  .of_state (fun _ => rfl) fun _ => ⟨[], .refl _, fun _ hst => (List.mem_append.mp hst).imp_right
    fun hnew => ⟨call, List.mem_singleton.mp hnew⟩⟩

theorem hoists_stabilize (bound : List String) (value : Expr) :
    Hoists [] [] (stabilize bound value) := by
  unfold stabilize
  refine .ite (fun _ => .pure _) fun _ => ?_
  have htemporary : Hoists [] [] (hoistGet (·.declareTemporary)) :=
    .of_hoisting fun h => ⟨_, .declareTemporary h⟩
  exact htemporary.bind fun _ => .pure _

theorem hoists_stabilizeUnlessOne (count : Nat) (bound : List String) (value : Expr) :
    Hoists [] [] (stabilizeUnlessOne count bound value) := by
  unfold stabilizeUnlessOne
  exact .ite (fun _ => .pure _) fun _ => hoists_stabilize bound value

section TopLevel
variable (s : Setting) (modifiers : Modifiers)

theorem hoists_exportCall (name : String) : Hoists [] [] (exportCall s modifiers name) := by
  unfold exportCall
  exact .ite (fun _ => (hoists_addExportedName name).bind fun _ => .pure _) fun _ => .pure _

/-- A function without a name gets one that is made up. -/
theorem hoists_hoistFunction (f : Func) :
    Hoists [] (f.name.toList.map (·.name)) (hoistFunction s modifiers f) := by
  have hnamed : ∀ x : Ident, Hoists [] [x.name] (do
      if modifiers.isExported then addFunctionExport (← exportCall s modifiers x.name)
      hoist (·.addFunction (.function {} { f with name := some x }))) := by
    refine fun x => .ite (fun _ => ?_) fun _ => hoists_addFunction {} rfl
    refine (hoists_exportCall s modifiers x.name).bind fun call => ?_
    exact (hoists_addFunctionExport call).bind fun _ => hoists_addFunction {} rfl
  unfold hoistFunction
  cases hf : f.name with
  | some x => exact hnamed x
  | none =>
    change Hoists [] [] ((Ident.synthetic <$> hoistGet (·.unique "default")) >>= _)
    rw [bind_map_left]
    refine .unique (fun _ => List.nil_subset _) (fun name => List.Subset.refl [name]) fun name => ?_
    exact hnamed (.synthetic name)

theorem hoists_hoistClassName (name : Option Ident) :
    Hoists (name.toList.map (·.name)) [] (hoistClassName name) := by
  have hadd : ∀ name : String, Hoists [name] [] (do
      hoist (·.addVariable name)
      return name) := fun name => (hoists_addVariable name).last fun _ => .pure _
  unfold hoistClassName
  cases name with
  | some x => exact hadd x.name
  | none => exact .unique (fun name => List.Subset.refl [name]) (fun _ => List.nil_subset _) hadd

theorem hoists_classAssignment (name : String) (c : Class) :
    Hoists [] [] (classAssignment s modifiers name c) := by
  unfold classAssignment
  exact .ite (fun _ => (hoists_exportCall s modifiers name).bind fun _ => .pure _) fun _ => .pure _

theorem hoists_exportSpecifier (spec : ExportSpecifier) :
    Hoists [] [] (exportSpecifier s spec) := by
  unfold exportSpecifier
  refine .ite (fun _ => .pure _) fun _ => (hoists_addExportedName _).bind fun _ => ?_
  refine .ite (fun _ => .pure _) fun _ => .ite (fun _ => ?_) fun _ => .pure _
  exact (hoists_addFunctionExport _).bind fun _ => .pure _

theorem hoists_exportSpecifiers : ∀ specs : List ExportSpecifier,
    Hoists [] [] (exportSpecifiers s specs)
  | [] => .pure _
  | spec :: specs =>
    (hoists_exportSpecifier s spec).bind fun _ =>
      (hoists_exportSpecifiers specs).bind fun _ => .pure _

end TopLevel

end Lowering
end RegisterForm
