import RegisterForm.Proofs.Lowering.Loops
import RegisterForm.Proofs.Tree.WellFormed
/-!
# How lowering steps are put together

All that lowering does to the progress it does by a few steps: it draws a name, declares a
variable or a function, notes an export, and goes a level deeper or into a function for as long as
other steps take. What holds of each of these, and along their sequences, holds of every lowering.
-/
namespace RegisterForm
open Lowering

namespace Lowering

/-- A step that is put together from the ones that change the progress. A function opens a
collection of its own around its parts; nothing else opens or ends one. Exports are noted only
provided that `N`. -/
inductive Composed (N : Prop) : {α : Type} → Lowering α → Prop
  | pure {α : Type} (a : α) : Composed N (pure a : Lowering α)
  | throw {α : Type} (e : LowerError) : Composed N (throw e : Lowering α)
  | bind {α β : Type} {x : Lowering α} {f : α → Lowering β} (hx : Composed N x)
    (hf : ∀ a, Composed N (f a)) : Composed N (x >>= f)
  | deeper {α : Type} (s : Setting) {x : Lowering α} (hx : Composed N x) :
    Composed N (deeper s x)
  | inFunction {α : Type} {x : Lowering α} (hx : Composed N x) : Composed N (inFunction x)
  | uniqueDefault : Composed N (hoistGet (·.unique "default"))
  | declareTemporary : Composed N (hoistGet (·.declareTemporary))
  | addVariables (names : List String) : Composed N (hoist (·.addVariables names))
  | addFunction (st : Stmt) : Composed N (hoist (·.addFunction st))
  | addExportedName (name : String) (h : N) : Composed N (addExportedName name)
  | addFunctionExport (call : Expr) : Composed N (addFunctionExport call)
  | requireRest : Composed N requireRest

namespace Composed
variable {N : Prop} {α β : Type} {x y : Lowering α}

theorem map {f : α → β} (hx : Composed N x) : Composed N (x >>= fun a => Pure.pure (f a)) :=
  hx.bind fun a => .pure (f a)

theorem ite_of {c : Prop} {_ : Decidable c} (hx : c → Composed N x)
    (hy : ¬ c → Composed N y) : Composed N (if c then x else y) := by
  split
  · next h => exact hx h
  · next h => exact hy h

theorem ite {c : Prop} {_ : Decidable c} (hx : Composed N x) (hy : Composed N y) :
    Composed N (if c then x else y) := .ite_of (fun _ => hx) fun _ => hy

theorem addVariable (name : String) : Composed N (hoist (·.addVariable name)) :=
  .addVariables [name]

theorem addExportedNames (h : N) : ∀ names : List String, Composed N (addExportedNames names)
  | [] => .pure _
  | name :: names => (Composed.addExportedName name h).bind fun _ => addExportedNames h names

theorem guardPatternDepth (s : Setting) (depth : Nat) : Composed N (guardPatternDepth s depth) :=
  .ite (.pure _) (.throw _)

theorem stabilize (bound : List String) (value : Expr) : Composed N (stabilize bound value) :=
  .ite (.pure _) Composed.declareTemporary.map

theorem stabilizeUnlessOne (count : Nat) (bound : List String) (value : Expr) :
    Composed N (stabilizeUnlessOne count bound value) :=
  .ite (.pure _) (.stabilize bound value)

theorem blockBody (s : Setting) (exports : List Stmt) {body : Lowering (List Stmt)}
    (h : Composed N body) : Composed N (blockBody s exports body) :=
  .ite (.deeper s h.map) h.map

theorem lowerLoopBody {s : Setting} {place : Place} {body : Stmt} (exports : List Stmt)
    (hblock : ∀ inner, body = .block inner → Composed N (lowerStmts s place inner))
    (hbody : Composed N (body.lower s place)) :
    Composed N (lowerLoopBody s place exports body) := by
  cases body with
  | block inner => exact .blockBody s exports (hblock inner rfl)
  | _ => exact hbody.map

section TopLevel
variable (s : Setting) (modifiers : Modifiers)

theorem exportCall (h : N) (name : String) : Composed N (exportCall s modifiers name) :=
  .ite ((Composed.addExportedName name h).bind fun _ => .pure _) (.pure _)

theorem hoistFunction (h : modifiers.isExported = true → N) (f : Func) :
    Composed N (hoistFunction s modifiers f) := by
  have hnamed : ∀ x : Ident, Composed N (do
      if modifiers.isExported then
        Lowering.addFunctionExport (← Lowering.exportCall s modifiers x.name)
      hoist (·.addFunction (.function {} { f with name := some x }))) := fun x =>
    .ite_of (fun hexported => (exportCall s modifiers (h hexported) x.name).bind fun call =>
      (Composed.addFunctionExport call).bind fun _ => .addFunction _) fun _ => .addFunction _
  unfold Lowering.hoistFunction
  cases f.name with
  | some x => exact hnamed x
  | none =>
    change Composed N ((Ident.synthetic <$> hoistGet (·.unique "default")) >>= _)
    rw [bind_map_left]
    exact Composed.uniqueDefault.bind fun name => hnamed (.synthetic name)

theorem hoistClassName (name : Option Ident) : Composed N (hoistClassName name) := by
  have hadd : ∀ name : String, Composed N (do
      hoist (·.addVariable name)
      return name) := fun name => (addVariable name).map
  cases name with
  | some x => exact hadd x.name
  | none => exact Composed.uniqueDefault.bind hadd

theorem classAssignment (h : modifiers.isExported = true → N) (name : String) (c : Class) :
    Composed N (classAssignment s modifiers name c) :=
  .ite_of (fun hexported => (exportCall s modifiers (h hexported) name).map) fun _ => .pure _

theorem exportSpecifier (h : N) (spec : ExportSpecifier) :
    Composed N (exportSpecifier s spec) :=
  .ite (.pure _) <| (Composed.addExportedName _ h).bind fun _ =>
    .ite (.pure _) (.ite (Composed.addFunctionExport _).map (.pure _))

theorem exportSpecifiers (h : N) : ∀ specs : List ExportSpecifier,
    Composed N (exportSpecifiers s specs)
  | [] => .pure _
  | spec :: specs => (exportSpecifier s h spec).bind fun _ => (exportSpecifiers h specs).map

end TopLevel
end Composed
end Lowering

/-! ## Where exports are noted -/

/-- Exports are noted in statements outside of functions that export; these are among the visits
only provided that `N`. -/
def MayNote (N : Prop) (place : Place) (vs : List Visit) : Prop :=
  N ∨ place = .function ∨ AllInner vs

namespace MayNote
variable {N : Prop} {place : Place} {vs ws : List Visit}

theorem inFunction (vs : List Visit) : MayNote N .function vs := .inr (.inl rfl)

theorem inner (h : MayNote N place vs) : MayNote N place.inner vs := by
  refine h.imp_right fun h => h.imp_left ?_
  rintro rfl
  rfl

theorem subset (h : MayNote N place vs) (hsub : ws ⊆ vs) : MayNote N place ws :=
  h.imp_right fun h => h.imp_right fun hinner v hv => hinner v (hsub hv)

theorem left (h : MayNote N place (vs ++ ws)) : MayNote N place vs :=
  h.subset (List.subset_append_left _ _)

theorem right (h : MayNote N place (vs ++ ws)) : MayNote N place ws :=
  h.subset (List.subset_append_right _ _)

/-- Outside of functions, a statement that exports may stand. -/
theorem here {st : Stmt} (h : MayNote N place st.visits) (hplace : place ≠ .function)
    (hst : st.isModuleSyntax = true) : N := by
  refine h.resolve_right fun h => h.elim hplace fun hinner => ?_
  have hhead : (Visit.stmt st).isInner = true := hinner _ (by cases st <;> exact List.mem_cons_self)
  simp [Visit.isInner, hst] at hhead

theorem tail (h : MayNote N place vs) : MayNote N place vs.tail :=
  h.subset fun _ hv => List.mem_of_mem_tail hv

end MayNote

theorem Place.ne_function_of_takesApart {place : Place} {kind : VarKind}
    (h : place.takesApart kind = true) : place ≠ .function := by
  rintro rfl
  cases h

/-! ## Trees -/

variable {N : Prop} {s : Setting}

mutual

theorem Expr.lower_composes : (e : Expr) → (isUsed : Bool) → Composed N (e.lower s isUsed)
  | .ident _, _ | .literal _, _ | .this, _ | .super, _ | .importMeta, _ => .deeper s (.pure _)
  | .template _ parts, _ => .deeper s (lowerExprs_composes parts).map
  | .tagged tag _ parts, _ =>
    .deeper s <| (tag.lower_composes true).bind fun _ => (lowerExprs_composes parts).map
  | .array elements, _ => .deeper s (lowerSlots_composes elements).map
  | .object properties, _ => .deeper s (lowerProperties_composes properties).map
  | .function f, _ => .deeper s f.lower_composes.map
  | .arrow params body _, _ =>
    have hparts : Composed N (do return (← lowerParams s params, ← body.lower s)) :=
      (lowerParams_composes params).bind fun _ => body.lower_composes.map
    .deeper s hparts.inFunction.map
  | .classExpr c, _ => .deeper s c.lower_composes.map
  | .unary _ arg, _ => .deeper s (arg.lower_composes true).map
  | .update op isPrefix arg, isUsed => by
    refine .deeper s ?_
    cases s.publishedUpdate? op isPrefix isUsed arg with
    | some e => exact .pure e
    | none => exact (arg.lower_composes true).map
  | .binary _ left right, _ =>
    .deeper s <| (left.lower_composes true).bind fun _ => (right.lower_composes true).map
  | .assign op target value, isUsed => by
    refine .deeper s (.ite ?_ ?_)
    · have hassigns : ∀ (r : List Expr × Expr) (result : List Expr), Composed N (do
          let exprs ← target.flatten s target.boundNames 0 r.2
          return (Expr.ofList (r.1 ++ exprs ++ result)).getD r.2) := fun r _ =>
        (target.flatten_composes target.boundNames 0 r.2).map
      refine (value.lower_composes true).bind fun value => .ite ?_ (hassigns ([], value) _)
      exact (Composed.stabilize target.boundNames value).bind fun r => hassigns r _
    · exact target.lower_composes.bind fun _ => (value.lower_composes true).map
  | .conditional test yes no, isUsed =>
    .deeper s <| (test.lower_composes true).bind fun _ => (yes.lower_composes isUsed).bind fun _ =>
      (no.lower_composes isUsed).map
  | .call callee args _, _ | .newCall callee args, _ =>
    .deeper s <| (callee.lower_composes true).bind fun _ => (lowerExprs_composes args).map
  | .newBare callee, _ => .deeper s (callee.lower_composes true).map
  | .member owner _ _, _ => .deeper s (owner.lower_composes true).map
  | .index owner key _, _ =>
    .deeper s <| (owner.lower_composes true).bind fun _ => (key.lower_composes true).map
  | .sequence exprs, isUsed => .deeper s (lowerSequence_composes exprs isUsed).map
  | .paren inner, isUsed => .deeper s (inner.lower_composes isUsed).map
  | .yield arg _, _ => .deeper s (lowerExpr?_composes arg).map
  | .await arg, _ | .spread arg, _ | .importCall arg, _ => .deeper s (arg.lower_composes true).map
termination_by structural x => x

theorem lowerExprs_composes : (es : List Expr) → Composed N (lowerExprs s es)
  | [] => .pure _
  | e :: es => (e.lower_composes true).bind fun _ => (lowerExprs_composes es).map
termination_by structural x => x

theorem lowerSequence_composes : (es : List Expr) → (isUsed : Bool) →
    Composed N (lowerSequence s isUsed es)
  | [], _ => .pure _
  | e :: es, isUsed => (e.lower_composes _).bind fun _ => (lowerSequence_composes es isUsed).map
termination_by structural x => x

theorem lowerExpr?_composes : (e : Option Expr) → Composed N (lowerExpr? s e)
  | none => .pure _
  | some e => (e.lower_composes true).map
termination_by structural x => x

theorem lowerSlots_composes : (es : List (Option Expr)) → Composed N (lowerSlots s es)
  | [] => .pure _
  | e :: es => (lowerExpr?_composes e).bind fun _ => (lowerSlots_composes es).map
termination_by structural x => x

theorem Key.lower_composes : (key : Key) → Composed N (key.lower s)
  | .computed e => (e.lower_composes true).map
  | .name _ | .string _ | .number _ => .pure _
termination_by structural x => x

theorem Property.lower_composes : (p : Property) → Composed N (p.lower s)
  | .keyed key value => key.lower_composes.bind fun _ => (value.lower_composes true).map
  | .shorthand _ => .pure _
  | .method key _ f => key.lower_composes.bind fun _ => f.lower_composes.map
  | .spread e => (e.lower_composes true).map
termination_by structural x => x

theorem lowerProperties_composes : (ps : List Property) → Composed N (lowerProperties s ps)
  | [] => .pure _
  | p :: ps => p.lower_composes.bind fun _ => (lowerProperties_composes ps).map
termination_by structural x => x

-- Patterns that stay patterns.

theorem Pattern.lower_composes : (p : Pattern) → Composed N (p.lower s)
  | .ident _ => .pure _
  | .expr e => (e.lower_composes true).map
  | .object properties rest =>
    (lowerPatternProperties_composes properties).bind fun _ => (lowerPattern?_composes rest).map
  | .array elements rest =>
    (lowerPatternSlots_composes elements).bind fun _ => (lowerPattern?_composes rest).map
termination_by structural x => x

theorem lowerPattern?_composes : (p : Option Pattern) → Composed N (lowerPattern? s p)
  | none => .pure _
  | some p => p.lower_composes.map
termination_by structural x => x

theorem PatternProperty.lower_composes : (p : PatternProperty) → Composed N (p.lower s)
  | .keyed key target fallback =>
    key.lower_composes.bind fun _ => target.lower_composes.bind fun _ =>
      (lowerExpr?_composes fallback).map
  | .shorthand _ fallback => (lowerExpr?_composes fallback).map
termination_by structural x => x

theorem lowerPatternProperties_composes : (ps : List PatternProperty) →
    Composed N (lowerPatternProperties s ps)
  | [] => .pure _
  | p :: ps => p.lower_composes.bind fun _ => (lowerPatternProperties_composes ps).map
termination_by structural x => x

theorem PatternElement.lower_composes : (e : PatternElement) → Composed N (e.lower s)
  | ⟨target, fallback⟩ => target.lower_composes.bind fun _ => (lowerExpr?_composes fallback).map
termination_by structural x => x

theorem lowerPatternSlot_composes : (e : Option PatternElement) → Composed N (lowerPatternSlot s e)
  | none => .pure _
  | some e => e.lower_composes.map
termination_by structural x => x

theorem lowerPatternSlots_composes : (es : List (Option PatternElement)) →
    Composed N (lowerPatternSlots s es)
  | [] => .pure _
  | e :: es => (lowerPatternSlot_composes e).bind fun _ => (lowerPatternSlots_composes es).map
termination_by structural x => x

-- Patterns that are taken apart.

theorem Pattern.flatten_composes : (p : Pattern) → (bound : List String) → (depth : Nat) →
    (value : Expr) → Composed N (p.flatten s bound depth value)
  | .ident _, _, depth, _ => (Composed.guardPatternDepth s depth).map
  | .expr e, _, depth, _ =>
    (Composed.guardPatternDepth s depth).bind fun _ => (e.lower_composes true).map
  | .object properties rest, bound, depth, value =>
    (Composed.guardPatternDepth s depth).bind fun _ =>
      (Composed.stabilizeUnlessOne _ bound value).bind fun r =>
        (flattenProperties_composes properties bound (depth + 1) rest.isSome r.2).bind fun _ =>
          have hrest := (flattenRest_composes rest bound (depth + 1) _).map
          .ite (Composed.requireRest.bind fun _ => hrest) hrest
  | .array elements rest, bound, depth, value =>
    (Composed.guardPatternDepth s depth).bind fun _ =>
      (Composed.stabilizeUnlessOne _ bound value).bind fun r =>
        (flattenSlots_composes elements bound (depth + 1) 0 r.2).bind fun _ =>
          (flattenRest_composes rest bound (depth + 1) _).map
termination_by structural x => x

theorem flattenRest_composes : (rest : Option Pattern) → (bound : List String) → (depth : Nat) →
    (value : Expr) → Composed N (flattenRest s bound depth rest value)
  | none, _, _, _ => .pure _
  | some target, bound, depth, value => target.flatten_composes bound depth value
termination_by structural x => x

theorem flattenFallback_composes : (fallback : Option Expr) → (bound : List String) →
    (value : Expr) → Composed N (flattenFallback s bound fallback value)
  | none, _, _ => .pure _
  | some fallback, bound, value =>
    (Composed.stabilize bound value).bind fun _ => (fallback.lower_composes true).map
termination_by structural x => x

theorem Key.flatten_composes : (key : Key) → (bound : List String) → (hasRest : Bool) →
    (value : Expr) → Composed N (key.flatten s bound hasRest value)
  | .name _, _, _, _ | .string _, _, _, _ | .number _, _, _, _ => .pure _
  | .computed e, bound, _, _ =>
    (e.lower_composes true).bind fun key => .ite (Composed.stabilize bound key).map (.pure _)
termination_by structural x => x

theorem PatternProperty.flatten_composes : (p : PatternProperty) → (bound : List String) →
    (depth : Nat) → (hasRest : Bool) → (value : Expr) →
      Composed N (p.flatten s bound depth hasRest value)
  | .keyed key target fallback, bound, depth, hasRest, value =>
    (key.flatten_composes bound hasRest value).bind fun _ =>
      (flattenFallback_composes fallback bound _).bind fun _ =>
        (target.flatten_composes bound depth _).map
  | .shorthand _ fallback, bound, depth, _, _ =>
    (flattenFallback_composes fallback bound _).bind fun _ =>
      (Composed.guardPatternDepth s depth).map
termination_by structural x => x

theorem flattenProperties_composes : (ps : List PatternProperty) → (bound : List String) →
    (depth : Nat) → (hasRest : Bool) → (value : Expr) →
      Composed N (flattenProperties s bound depth hasRest ps value)
  | [], _, _, _, _ => .pure _
  | p :: ps, bound, depth, hasRest, value =>
    (p.flatten_composes bound depth hasRest value).bind fun _ =>
      (flattenProperties_composes ps bound depth hasRest value).map
termination_by structural x => x

theorem PatternElement.flatten_composes : (e : PatternElement) → (bound : List String) →
    (depth : Nat) → (value : Expr) → Composed N (e.flatten s bound depth value)
  | ⟨target, fallback⟩, bound, depth, value =>
    (flattenFallback_composes fallback bound value).bind fun _ =>
      (target.flatten_composes bound depth _).map
termination_by structural x => x

theorem flattenSlot_composes : (e : Option PatternElement) → (bound : List String) →
    (depth : Nat) → (value : Expr) → Composed N (flattenSlot s bound depth e value)
  | none, _, _, _ => .pure _
  | some e, bound, depth, value => e.flatten_composes bound depth value
termination_by structural x => x

theorem flattenSlots_composes : (es : List (Option PatternElement)) → (bound : List String) →
    (depth index : Nat) → (value : Expr) → Composed N (flattenSlots s bound depth index es value)
  | [], _, _, _, _ => .pure _
  | e :: es, bound, depth, index, value =>
    (flattenSlot_composes e bound depth _).bind fun _ =>
      (flattenSlots_composes es bound depth (index + 1) value).map
termination_by structural x => x

-- Functions and classes.

theorem Param.lower_composes : (p : Param) → Composed N (p.lower s)
  | ⟨pattern, fallback, _⟩ =>
    pattern.lower_composes.bind fun _ => (lowerExpr?_composes fallback).map
termination_by structural x => x

theorem lowerParams_composes : (ps : List Param) → Composed N (lowerParams s ps)
  | [] => .pure _
  | p :: ps => p.lower_composes.bind fun _ => (lowerParams_composes ps).map
termination_by structural x => x

theorem Func.lower_composes : (f : Func) → Composed N (f.lower s)
  | ⟨_, params, body, _, _⟩ =>
    have hparts : Composed N (do return (← lowerParams s params, ← lowerStmts s .function body)) :=
      (lowerParams_composes params).bind fun _ =>
        (lowerStmts_composes body .function (.inFunction _)).map
    hparts.inFunction.map
termination_by structural x => x

theorem ArrowBody.lower_composes : (body : ArrowBody) → Composed N (body.lower s)
  | .block body => (lowerStmts_composes body .function (.inFunction _)).map
  | .expr e => (e.lower_composes true).map
termination_by structural x => x

theorem Class.lower_composes : (c : Class) → Composed N (c.lower s)
  | ⟨_, base, members⟩ =>
    (lowerExpr?_composes base).bind fun _ => (lowerMembers_composes members).map
termination_by structural x => x

theorem ClassMember.lower_composes : (m : ClassMember) → Composed N (m.lower s)
  | .method key _ _ f => key.lower_composes.bind fun _ => f.lower_composes.map
  | .field key _ value => key.lower_composes.bind fun _ => (lowerExpr?_composes value).map
  | .staticBlock body => (lowerStmts_composes body .function (.inFunction _)).inFunction.map
termination_by structural x => x

theorem lowerMembers_composes : (ms : List ClassMember) → Composed N (lowerMembers s ms)
  | [] => .pure _
  | m :: ms => m.lower_composes.bind fun _ => (lowerMembers_composes ms).map
termination_by structural x => x

-- Declaration lists.

theorem Declarator.lower_composes : (d : Declarator) → Composed N (d.lower s)
  | ⟨target, init⟩ => target.lower_composes.bind fun _ => (lowerExpr?_composes init).map
termination_by structural x => x

theorem lowerDeclarators_composes : (ds : List Declarator) → Composed N (lowerDeclarators s ds)
  | [] => .pure _
  | d :: ds => d.lower_composes.bind fun _ => (lowerDeclarators_composes ds).map
termination_by structural x => x

theorem VarList.lower_composes : (list : VarList) → Composed N (list.lower s)
  | ⟨_, declarators⟩ => (lowerDeclarators_composes declarators).map
termination_by structural x => x

theorem Declarator.hoisted_composes : (d : Declarator) → Composed N (d.hoisted s)
  | ⟨_, none⟩ => (Composed.addVariables _).map
  | ⟨target, some init⟩ =>
    (Composed.addVariables _).bind fun _ => (init.lower_composes true).bind fun value =>
      target.flatten_composes _ 0 value
termination_by structural x => x

theorem hoistedDeclarators_composes : (ds : List Declarator) → Composed N (hoistedDeclarators s ds)
  | [] => .pure _
  | d :: ds => d.hoisted_composes.bind fun _ => (hoistedDeclarators_composes ds).map
termination_by structural x => x

theorem VarList.hoisted_composes : (list : VarList) → Composed N (list.hoisted s)
  | ⟨_, declarators⟩ => hoistedDeclarators_composes declarators
termination_by structural x => x

-- Statements.

theorem ForInit.lower_composes : (init : ForInit) → (place : Place) → Composed N (init.lower s place)
  | .absent, _ => .pure _
  | .var list, _ => by
    refine .ite (list.hoisted_composes.bind fun exprs => ?_) list.lower_composes.map
    cases Expr.ofList exprs <;> exact .pure _
  | .expr e, _ => (e.lower_composes false).map
termination_by structural x => x

theorem ForHead.lower_composes : (head : ForHead) → (place : Place) → Composed N (head.lower s place)
  | .var ⟨_, []⟩, _ => .pure _
  | .var ⟨_, ⟨target, init⟩ :: ds⟩, _ =>
    .ite ((Composed.addVariables _).bind fun _ => target.lower_composes.map)
      (target.lower_composes.bind fun _ => (lowerExpr?_composes init).bind fun _ =>
        (lowerDeclarators_composes ds).map)
  | .pattern p, _ => p.lower_composes.map
termination_by structural x => x

theorem Catch.lower_composes : (c : Catch) → (place : Place) → MayNote N place c.visits →
    Composed N (c.lower s place)
  | ⟨param, body⟩, place, h =>
    (lowerPattern?_composes param).bind fun _ => (lowerStmts_composes body place h.right).map
termination_by structural x => x

theorem lowerCatch?_composes : (c : Option Catch) → (place : Place) →
    MayNote N place (catchVisits? c) → Composed N (lowerCatch? s place c)
  | none, _, _ => .pure _
  | some c, place, h => (c.lower_composes place h).map
termination_by structural x => x

theorem lowerBlock?_composes : (body : Option (List Stmt)) → (place : Place) →
    MayNote N place (blockVisits? body) → Composed N (lowerBlock? s place body)
  | none, _, _ => .pure _
  | some body, place, h => (lowerStmts_composes body place h).map
termination_by structural x => x

theorem Case.lower_composes : (c : Case) → (place : Place) → MayNote N place c.visits →
    Composed N (c.lower s place)
  | ⟨test, body⟩, place, h =>
    (lowerExpr?_composes test).bind fun _ => (lowerStmts_composes body place h.right).map
termination_by structural x => x

theorem lowerCases_composes : (cs : List Case) → (place : Place) →
    MayNote N place (casesVisits cs) → Composed N (lowerCases s place cs)
  | [], _, _ => .pure _
  | c :: cs, place, h => (c.lower_composes place h.left).bind fun _ =>
    (lowerCases_composes cs place h.right).map
termination_by structural x => x

theorem lowerStmts_composes : (sts : List Stmt) → (place : Place) →
    MayNote N place (stmtsVisits sts) → Composed N (lowerStmts s place sts)
  | [], _, _ => .pure _
  | st :: sts, place, h => (st.lower_composes place h.left).bind fun _ =>
    (lowerStmts_composes sts place h.right).map
termination_by structural x => x

theorem lowerUnused?_composes : (e : Option Expr) → Composed N (lowerUnused? s e)
  | none => .pure _
  | some e => (e.lower_composes false).map
termination_by structural x => x

/-- The statements of a loop body that is a block. -/
theorem Stmt.block_composes (st : Stmt) (place : Place) (h : MayNote N place st.visits) :
    ∀ inner, st = .block inner → Composed N (lowerStmts s place.inner inner) := by
  cases st with
  | block inner =>
    rintro _ ⟨⟩
    exact lowerStmts_composes inner place.inner h.tail.inner
  | _ => nofun
termination_by structural st

theorem Stmt.lower_composes : (st : Stmt) → (place : Place) → MayNote N place st.visits →
    Composed N (st.lower s place)
  | .expr e, _, _ => .deeper s (e.lower_composes false).map
  | .var modifiers list, place, h =>
    have htaken := list.hoisted_composes.map
    .deeper s <| .ite_of (fun htakes => .ite_of (fun hexported =>
        (Composed.addExportedNames
          (h.here (Place.ne_function_of_takesApart htakes) hexported) _).bind fun _ => htaken)
        fun _ => htaken)
      fun _ => list.lower_composes.map
  | .function modifiers f, place, h =>
    .deeper s <| f.lower_composes.bind fun f => .ite_of (fun hplace =>
      (Composed.hoistFunction s modifiers (h.here (by simp [hplace])) f).map) fun _ => .pure _
  | .classDecl modifiers c, place, h =>
    .deeper s <| .ite_of (fun hplace => (Composed.hoistClassName c.name).bind fun name =>
      c.lower_composes.bind fun c =>
        .classAssignment s modifiers (h.here (by simp [hplace])) name c)
      fun _ => c.lower_composes.map
  | .importFrom site clause specifier isTypeOnly, _, _ =>
    .deeper s <| .ite (Composed.addVariables _).map (.pure _)
  | .importEquals site isExported name kind value, place, h => by
    refine .deeper s (.ite_of (fun hplace => .ite (.pure _)
      ((Composed.addVariable _).bind fun _ => ?_)) fun _ => .pure _)
    have hnotes : N := h.here (by simp [hplace]) rfl
    cases kind with
    | require => exact .ite (Composed.addExportedName _ hnotes).map (.pure _)
    | entity =>
      exact .ite ((Composed.addExportedName _ hnotes).bind fun _ =>
        (value.lower_composes true).map) (value.lower_composes true).map
  | .exportFrom site clause specifier isTypeOnly, place, h => by
    refine .deeper s (.ite_of (fun hplace => ?_) fun _ => .pure _)
    split
    · exact .exportSpecifiers s (h.here (by simp [hplace]) rfl) _
    · exact .pure _
  | .exportValue site form value, _, _ =>
    .deeper s <| .ite (.ite (.pure _) (value.lower_composes true).map) (.pure _)
  | .ambient _ _, _, _ => .deeper s (.pure _)
  | .block body, place, h => .deeper s (lowerStmts_composes body place.inner h.tail.inner).map
  | .ifThen test yes, place, h =>
    .deeper s <| (test.lower_composes true).bind fun _ =>
      (yes.lower_composes place.inner h.tail.right.inner).map
  | .ifElse test yes no, place, h =>
    .deeper s <| (test.lower_composes true).bind fun _ =>
      (yes.lower_composes place.inner h.tail.left.right.inner).bind fun _ =>
        (no.lower_composes place.inner h.tail.right.inner).map
  | .forLoop init test update body, place, h =>
    .deeper s <| (init.lower_composes place).bind fun _ =>
      (lowerExpr?_composes test).bind fun _ => (lowerUnused?_composes update).bind fun _ =>
        (body.lower_composes place.inner h.tail.right.inner).map
  | .forIn head object body, place, h => by
    rw [Stmt.lower_forIn]
    have hbody := body.lower_composes place.inner h.tail.right.inner
    have hblock := body.block_composes place h.tail.right
    exact .deeper s <| (head.lower_composes place).bind fun r =>
      (object.lower_composes true).bind fun _ => (Composed.lowerLoopBody r.2 hblock hbody).map
  | .forOf head iterable body isAwait, place, h => by
    rw [Stmt.lower_forOf]
    have hbody := body.lower_composes place.inner h.tail.right.inner
    have hblock := body.block_composes place h.tail.right
    exact .deeper s <| (head.lower_composes place).bind fun r =>
      (iterable.lower_composes true).bind fun _ => (Composed.lowerLoopBody r.2 hblock hbody).map
  | .whileLoop test body, place, h =>
    .deeper s <| (test.lower_composes true).bind fun _ =>
      (body.lower_composes place.inner h.tail.right.inner).map
  | .doWhile body test, place, h =>
    .deeper s <| (body.lower_composes place.inner h.tail.right.inner).bind fun _ =>
      (test.lower_composes true).map
  | .tryCatch body handler finalizer, place, h =>
    .deeper s <| (lowerStmts_composes body place.inner h.tail.left.left.inner).bind fun _ =>
      (lowerCatch?_composes handler place.inner h.tail.left.right.inner).bind fun _ =>
        (lowerBlock?_composes finalizer place.inner h.tail.right.inner).map
  | .switch subject cases, place, h =>
    .deeper s <| (subject.lower_composes true).bind fun _ =>
      (lowerCases_composes cases place.inner h.tail.right.inner).map
  | .labeled _ body, place, h =>
    .deeper s (body.lower_composes place.inner h.tail.tail.inner).map
  | .withObject object body, place, h =>
    .deeper s <| (object.lower_composes true).bind fun _ =>
      (body.lower_composes place.inner h.tail.right.inner).map
  | .ret arg, _, _ => .deeper s (lowerExpr?_composes arg).map
  | .throw arg, _, _ => .deeper s (arg.lower_composes true).map
  | .breakTo _, _, _ | .continueTo _, _, _ | .empty, _, _ | .debugger, _, _ => .deeper s (.pure _)
termination_by structural x => x

end

/-! What is lowered without more being known about it. -/

theorem Expr.lower_composed (e : Expr) (isUsed : Bool) : Composed True (e.lower s isUsed) :=
  e.lower_composes isUsed

theorem Pattern.lower_composed (p : Pattern) : Composed True (p.lower s) := p.lower_composes

theorem Pattern.flatten_composed (p : Pattern) (bound : List String) (depth : Nat) (value : Expr) :
    Composed True (p.flatten s bound depth value) := p.flatten_composes bound depth value

theorem Class.lower_composed (c : Class) : Composed True (c.lower s) := c.lower_composes

theorem lowerStmts_composed (sts : List Stmt) (place : Place) :
    Composed True (lowerStmts s place sts) := lowerStmts_composes sts place (.inl trivial)

theorem Stmt.lower_composed (st : Stmt) (place : Place) : Composed True (st.lower s place) :=
  st.lower_composes place (.inl trivial)

end RegisterForm
