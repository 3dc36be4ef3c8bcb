import RegisterForm.Proofs.Export.LoopHeads
import RegisterForm.Proofs.Fresh.Lowered
import RegisterForm.Proofs.Hoist.Declares
import RegisterForm.Proofs.Lowering.Loops
/-!
# What a tree hoists

Outside functions a `var` is hoisted from any depth of blocks, and what else is hoisted stands
directly in the module. Nothing inside a function, a class or an expression is. The proof follows
the lowering of every kind of node.
-/
namespace RegisterForm
open Lowering

/-! ## Names that are hoisted -/

/-- The variables of the module that `var` bindings at a place make. -/
def Place.varNames (place : Place) (bs : List Binding) : List String :=
  if place.hoistsVars then bs.map (·.ident.name) else []

namespace Place
variable {place : Place}

@[simp] theorem varNames_nil : place.varNames [] = [] := by simp [varNames]

@[simp] theorem varNames_append (bs cs : List Binding) :
    place.varNames (bs ++ cs) = place.varNames bs ++ place.varNames cs := by
  unfold varNames
  split <;> simp

@[simp] theorem varNames_inner (bs : List Binding) :
    place.inner.varNames bs = place.varNames bs := by
  cases place <;> rfl

/-- The names of a `var` list that is hoisted. -/
theorem varNames_list {list : VarList} {isExported : Bool} (hplace : place.hoistsVars = true)
    (hkind : (list.kind == .var) = true) :
    place.varNames (list.varBindings isExported) = list.boundIdents.map (·.name) := by
  have hvar : list.kind = .var := by simpa using hkind
  simp [varNames, hplace, VarList.varBindings, hvar, VarKind.isBlockScoped, bindingsOf]

theorem varNames_list_eq_nil {list : VarList} {isExported : Bool}
    (h : ¬(place.hoistsVars && list.kind == .var) = true) :
    place.varNames (list.varBindings isExported) = [] := by
  unfold varNames VarList.varBindings
  cases hkind : list.kind <;> simp_all [VarKind.isBlockScoped]

theorem inner_ne_topLevel : place.inner ≠ .topLevel := by
  cases place <;> nofun

theorem hoistsVars_of_inner (h : place.inner.hoistsVars = true) : place.hoistsVars = true := by
  cases place <;> first | rfl | cases h

end Place

namespace Setting

/-- The variables of the module that a statement of the top level makes, those of its inner `var`s
aside. An import assignment makes one only if it gives a value. -/
def heldNames (s : Setting) : Stmt → List String
  | .importEquals _ _ name kind value =>
    if s.names.importEqualsIsValue kind value then [name.name] else []
  | st => s.topNames st

/-- The variables of the module that a statement makes. -/
def hoistedVars (s : Setting) (place : Place) (st : Stmt) : List String :=
  place.varNames st.varBindings ++ if place = .topLevel then s.heldNames st else []

end Setting

/-- The functions of the module that a statement makes under its own names. -/
def Stmt.hoistedFunctions (place : Place) (st : Stmt) : List String :=
  if place = .topLevel then (st.functionName?.map (·.name)).toList else []

/-- The head of an enumerating loop declares one target at most. -/
def Stmt.HasSingleHead (st : Stmt) : Prop :=
  ∀ list body, st.loop? = some (.var list, body) → list.declarators.length ≤ 1

/-- All enumerating loops among some statements declare one target at most. -/
def SingleHeads (sts : List Stmt) : Prop := ∀ st ∈ sts, st.HasSingleHead

section SingleHeads
variable {sts sts' : List Stmt} {st : Stmt} {place : Place}

@[simp] theorem singleHeads_append :
    SingleHeads (sts ++ sts') ↔ SingleHeads sts ∧ SingleHeads sts' := List.forall_mem_append

@[simp] theorem singleHeads_cons :
    SingleHeads (st :: sts) ↔ st.HasSingleHead ∧ SingleHeads sts := List.forall_mem_cons

theorem SingleHeads.of_inner (h : place.hoistsVars = true → SingleHeads (st :: sts))
    (hplace : place.inner.hoistsVars = true) : SingleHeads sts :=
  (singleHeads_cons.mp (h (Place.hoistsVars_of_inner hplace))).2

theorem SingleHeads.head {head : ForHead} {body : Stmt} (hloop : st.loop? = some (head, body))
    (h : place.hoistsVars = true → SingleHeads (st :: sts)) (hplace : place.hoistsVars = true)
    (list : VarList) (hhead : head = .var list) : list.declarators.length ≤ 1 :=
  (singleHeads_cons.mp (h hplace)).1 list body (hhead ▸ hloop)

end SingleHeads

namespace Lowering.Hoists
variable {α : Type} {s : Setting} {place : Place} {st : Stmt} {sts : List Stmt} {x : Lowering α}

/-- A statement that is neither declaration nor import hoists the `var`s inside it. -/
theorem plain (hheld : s.heldNames st = []) (hname : st.functionName? = none)
    (h : Hoists (place.varNames st.varBindings) [] x) :
    Hoists (s.hoistedVars place st) (st.hoistedFunctions place) x := by
  have hvars : s.hoistedVars place st = place.varNames st.varBindings := by
    rw [Setting.hoistedVars, hheld, ite_self, List.append_nil]
  have hfunctions : st.hoistedFunctions place = [] := by
    rw [Stmt.hoistedFunctions, hname, Option.map_none, Option.toList_none, ite_self]
  rwa [hvars, hfunctions]

/-- A statement that has the `var`s of two parts. -/
theorem both {bs cs : List Binding} (hheld : s.heldNames st = []) (hname : st.functionName? = none)
    (hvars : st.varBindings = bs ++ cs)
    (h : Hoists (place.varNames bs ++ place.varNames cs) [] x) :
    Hoists (s.hoistedVars place st) (st.hoistedFunctions place) x := by
  refine .plain hheld hname ?_
  rwa [hvars, Place.varNames_append]

/-- A statement without parts that hoist. -/
theorem bare (hheld : s.heldNames st = []) (hname : st.functionName? = none)
    (hvars : st.varBindings = []) (h : Hoists [] [] x) :
    Hoists (s.hoistedVars place st) (st.hoistedFunctions place) x := by
  refine .plain hheld hname ?_
  rwa [hvars, Place.varNames_nil]

/-- A declaration inside another statement without `var`s. -/
theorem nested (hplace : place ≠ .topLevel) (hvars : st.varBindings = []) (h : Hoists [] [] x) :
    Hoists (s.hoistedVars place st) (st.hoistedFunctions place) x := by
  rwa [Setting.hoistedVars, Stmt.hoistedFunctions, if_neg hplace, if_neg hplace, hvars,
    Place.varNames_nil, List.append_nil]

/-- A declaration list hoists all of its names where it is taken apart. -/
theorem list {modifiers : Modifiers} {list : VarList}
    (h : Hoists (if place.takesApart list.kind then list.boundIdents.map (·.name) else []) [] x) :
    Hoists (s.hoistedVars place (.var modifiers list))
      ((Stmt.var modifiers list).hoistedFunctions place) x := by
  have hfunctions : (Stmt.var modifiers list).hoistedFunctions place = [] := ite_self _
  rw [hfunctions]
  refine h.congr fun name => ?_
  have hvars : (Stmt.var modifiers list).varBindings = list.varBindings modifiers.isExported := rfl
  rw [Setting.hoistedVars, hvars]
  obtain ⟨kind, declarators⟩ := list
  cases place <;> cases kind <;> simp [Place.takesApart, Place.varNames, Place.hoistsVars,
    VarList.varBindings, VarKind.isBlockScoped, bindingsOf, Setting.heldNames, Setting.topNames]

/-- A statement inside another one hoists its `var`s. -/
theorem inner (h : Hoists (s.hoistedVars place.inner st) (st.hoistedFunctions place.inner) x) :
    Hoists (place.varNames st.varBindings) [] x := by
  rwa [Setting.hoistedVars, Stmt.hoistedFunctions, if_neg Place.inner_ne_topLevel,
    if_neg Place.inner_ne_topLevel, List.append_nil, Place.varNames_inner] at h

/-- Statements inside another one hoist their `var`s. -/
theorem innerBlock (h : Hoists (sts.flatMap (s.hoistedVars place.inner))
      (sts.flatMap (·.hoistedFunctions place.inner)) x) :
    Hoists (place.varNames (blockVarBindings sts)) [] x := by
  have hvars : sts.flatMap (s.hoistedVars place.inner) = place.varNames (blockVarBindings sts) := by
    clear h
    induction sts with
    | nil => simp [blockVarBindings]
    | cons st sts ih =>
      rw [List.flatMap_cons, ih, blockVarBindings, Place.varNames_append, Setting.hoistedVars,
        if_neg Place.inner_ne_topLevel, List.append_nil, Place.varNames_inner]
  have hfunctions : sts.flatMap (·.hoistedFunctions place.inner) = [] :=
    List.flatMap_eq_nil_iff.mpr fun st _ => if_neg Place.inner_ne_topLevel
  rwa [hvars, hfunctions] at h

/-- In a function nothing is hoisted. -/
theorem function (h : Hoists (sts.flatMap (s.hoistedVars .function))
      (sts.flatMap (·.hoistedFunctions .function)) x) : Hoists [] [] x := by
  have hvars : sts.flatMap (s.hoistedVars .function) = [] :=
    List.flatMap_eq_nil_iff.mpr fun st _ => rfl
  have hfunctions : sts.flatMap (·.hoistedFunctions .function) = [] :=
    List.flatMap_eq_nil_iff.mpr fun st _ => rfl
  rwa [hvars, hfunctions] at h

end Lowering.Hoists

variable {s : Setting}

theorem hoists_blockBody {vars : List String} {exports : List Stmt} {body : Lowering (List Stmt)}
    (h : Hoists vars [] body) : Hoists vars [] (blockBody s exports body) := by
  unfold blockBody
  exact .ite (fun _ => .deeper s (h.last fun _ => .pure _)) fun _ => h.last fun _ => .pure _

theorem hoists_lowerLoopBody {vars : List String} {place : Place} {exports : List Stmt}
    {body : Stmt}
    (hblock : ∀ inner, body = .block inner → Hoists vars [] (lowerStmts s place inner))
    (hbody : Hoists vars [] (body.lower s place)) :
    Hoists vars [] (lowerLoopBody s place exports body) := by
  cases body with
  | block inner => exact hoists_blockBody (hblock inner rfl)
  | _ => exact hbody.last fun _ => .pure _

mutual

theorem Expr.lower_hoists : (e : Expr) → (isUsed : Bool) → Hoists [] [] (e.lower s isUsed)
  | .ident _, _ | .literal _, _ | .this, _ | .super, _ | .importMeta, _ =>
    .deeper s (.pure _)
  | .template _ parts, _ =>
    .deeper s ((lowerExprs_hoists parts).bind fun _ => .pure _)
  | .tagged tag _ parts, _ =>
    .deeper s ((tag.lower_hoists true).bind fun _ =>
      (lowerExprs_hoists parts).bind fun _ => .pure _)
  | .array elements, _ =>
    .deeper s ((lowerSlots_hoists elements).bind fun _ => .pure _)
  | .object properties, _ =>
    .deeper s ((lowerProperties_hoists properties).bind fun _ => .pure _)
  | .function f, _ =>
    .deeper s (f.lower_hoists.bind fun _ => .pure _)
  | .arrow params body _, _ => by
    have hinner : Hoists [] [] (do return (← lowerParams s params, ← body.lower s)) :=
      (lowerParams_hoists params).bind fun _ => body.lower_hoists.bind fun _ => .pure _
    exact .deeper s (hinner.inFunction.bind fun _ => .pure _)
  | .classExpr c, _ =>
    .deeper s (c.lower_hoists.bind fun _ => .pure _)
  | .unary _ arg, _ =>
    .deeper s ((arg.lower_hoists true).bind fun _ => .pure _)
  | .update op isPrefix arg, isUsed => by
    refine .deeper s ?_
    cases s.publishedUpdate? op isPrefix isUsed arg with
    | some e => exact .pure e
    | none => exact (arg.lower_hoists true).bind fun _ => .pure _
  | .binary _ left right, _ =>
    .deeper s ((left.lower_hoists true).bind fun _ =>
      (right.lower_hoists true).bind fun _ => .pure _)
  | .assign op target value, isUsed => by
    refine .deeper s (.ite (fun _ => ?_) fun _ => ?_)
    · refine (value.lower_hoists true).bind fun value => ?_
      have hflatten : ∀ (r : List Expr × Expr) (result : List Expr), Hoists [] [] (do
          let exprs ← target.flatten s target.boundNames 0 r.2
          return (Expr.ofList (r.1 ++ exprs ++ result)).getD r.2) := fun r _ =>
        (target.flatten_hoists target.boundNames 0 r.2).bind fun _ => .pure _
      refine .ite (fun _ => ?_) fun _ => ?_
      · exact (hoists_stabilize target.boundNames value).bind fun r => hflatten r _
      · exact hflatten ([], value) _
    · exact target.lower_hoists.bind fun _ => (value.lower_hoists true).bind fun _ => .pure _
  | .conditional test yes no, isUsed =>
    .deeper s ((test.lower_hoists true).bind fun _ => (yes.lower_hoists isUsed).bind fun _ =>
      (no.lower_hoists isUsed).bind fun _ => .pure _)
  | .call callee args _, _ =>
    .deeper s ((callee.lower_hoists true).bind fun _ =>
      (lowerExprs_hoists args).bind fun _ => .pure _)
  | .newBare callee, _ =>
    .deeper s ((callee.lower_hoists true).bind fun _ => .pure _)
  | .newCall callee args, _ =>
    .deeper s ((callee.lower_hoists true).bind fun _ =>
      (lowerExprs_hoists args).bind fun _ => .pure _)
  | .member owner _ _, _ =>
    .deeper s ((owner.lower_hoists true).bind fun _ => .pure _)
  | .index owner key _, _ =>
    .deeper s ((owner.lower_hoists true).bind fun _ =>
      (key.lower_hoists true).bind fun _ => .pure _)
  | .sequence exprs, isUsed =>
    .deeper s ((lowerSequence_hoists exprs isUsed).bind fun _ => .pure _)
  | .paren inner, isUsed =>
    .deeper s ((inner.lower_hoists isUsed).bind fun _ => .pure _)
  | .yield arg _, _ =>
    .deeper s ((lowerExpr?_hoists arg).bind fun _ => .pure _)
  | .await arg, _ | .spread arg, _ | .importCall arg, _ =>
    .deeper s ((arg.lower_hoists true).bind fun _ => .pure _)
termination_by structural x => x

theorem lowerExprs_hoists : (es : List Expr) → Hoists [] [] (lowerExprs s es)
  | [] => .pure _
  | e :: es => (e.lower_hoists true).bind fun _ => (lowerExprs_hoists es).bind fun _ => .pure _
termination_by structural x => x

theorem lowerSequence_hoists : (es : List Expr) → (isUsed : Bool) →
    Hoists [] [] (lowerSequence s isUsed es)
  | [], _ => .pure _
  | e :: es, isUsed =>
    (e.lower_hoists _).bind fun _ => (lowerSequence_hoists es isUsed).bind fun _ => .pure _
termination_by structural x => x

theorem lowerExpr?_hoists : (e : Option Expr) → Hoists [] [] (lowerExpr? s e)
  | none => .pure _
  | some e => (e.lower_hoists true).bind fun _ => .pure _
termination_by structural x => x

theorem lowerSlots_hoists : (es : List (Option Expr)) → Hoists [] [] (lowerSlots s es)
  | [] => .pure _
  | e :: es => (lowerExpr?_hoists e).bind fun _ => (lowerSlots_hoists es).bind fun _ => .pure _
termination_by structural x => x

theorem Key.lower_hoists : (key : Key) → Hoists [] [] (key.lower s)
  | .computed e => (e.lower_hoists true).bind fun _ => .pure _
  | .name _ | .string _ | .number _ => .pure _
termination_by structural x => x

theorem Property.lower_hoists : (p : Property) → Hoists [] [] (p.lower s)
  | .keyed key value =>
    key.lower_hoists.bind fun _ => (value.lower_hoists true).bind fun _ => .pure _
  | .shorthand _ => .pure _
  | .method key _ f => key.lower_hoists.bind fun _ => f.lower_hoists.bind fun _ => .pure _
  | .spread e => (e.lower_hoists true).bind fun _ => .pure _
termination_by structural x => x

theorem lowerProperties_hoists : (ps : List Property) → Hoists [] [] (lowerProperties s ps)
  | [] => .pure _
  | p :: ps => p.lower_hoists.bind fun _ => (lowerProperties_hoists ps).bind fun _ => .pure _
termination_by structural x => x

-- Patterns that stay patterns.

theorem Pattern.lower_hoists : (p : Pattern) → Hoists [] [] (p.lower s)
  | .ident _ => .pure _
  | .expr e => (e.lower_hoists true).bind fun _ => .pure _
  | .object properties rest =>
    (lowerPatternProperties_hoists properties).bind fun _ =>
      (lowerPattern?_hoists rest).bind fun _ => .pure _
  | .array elements rest =>
    (lowerPatternSlots_hoists elements).bind fun _ =>
      (lowerPattern?_hoists rest).bind fun _ => .pure _
termination_by structural x => x

theorem lowerPattern?_hoists : (p : Option Pattern) → Hoists [] [] (lowerPattern? s p)
  | none => .pure _
  | some p => p.lower_hoists.bind fun _ => .pure _
termination_by structural x => x

theorem PatternProperty.lower_hoists : (p : PatternProperty) → Hoists [] [] (p.lower s)
  | .keyed key target fallback =>
    key.lower_hoists.bind fun _ => target.lower_hoists.bind fun _ =>
      (lowerExpr?_hoists fallback).bind fun _ => .pure _
  | .shorthand _ fallback => (lowerExpr?_hoists fallback).bind fun _ => .pure _
termination_by structural x => x

theorem lowerPatternProperties_hoists : (ps : List PatternProperty) →
    Hoists [] [] (lowerPatternProperties s ps)
  | [] => .pure _
  | p :: ps => p.lower_hoists.bind fun _ => (lowerPatternProperties_hoists ps).bind fun _ => .pure _
termination_by structural x => x

theorem PatternElement.lower_hoists : (e : PatternElement) → Hoists [] [] (e.lower s)
  | ⟨target, fallback⟩ =>
    target.lower_hoists.bind fun _ => (lowerExpr?_hoists fallback).bind fun _ => .pure _
termination_by structural x => x

theorem lowerPatternSlot_hoists : (e : Option PatternElement) →
    Hoists [] [] (lowerPatternSlot s e)
  | none => .pure _
  | some e => e.lower_hoists.bind fun _ => .pure _
termination_by structural x => x

theorem lowerPatternSlots_hoists : (es : List (Option PatternElement)) →
    Hoists [] [] (lowerPatternSlots s es)
  | [] => .pure _
  | e :: es =>
    (lowerPatternSlot_hoists e).bind fun _ => (lowerPatternSlots_hoists es).bind fun _ => .pure _
termination_by structural x => x

-- Patterns that are taken apart.

theorem Pattern.flatten_hoists : (p : Pattern) → (bound : List String) → (depth : Nat) →
    (value : Expr) → Hoists [] [] (p.flatten s bound depth value)
  | .ident _, _, depth, _ => (hoists_guardPatternDepth s depth).bind fun _ => .pure _
  | .expr e, _, depth, _ =>
    (hoists_guardPatternDepth s depth).bind fun _ => (e.lower_hoists true).bind fun _ => .pure _
  | .object properties rest, bound, depth, value => by
    refine (hoists_guardPatternDepth s depth).bind fun _ => ?_
    refine (hoists_stabilizeUnlessOne _ bound value).bind fun r => ?_
    refine (flattenProperties_hoists properties bound (depth + 1) rest.isSome r.2).bind fun _ => ?_
    refine .ite (fun _ => hoists_requireRest.bind fun _ => ?_) fun _ => ?_
    · exact (flattenRest_hoists rest bound (depth + 1) _).bind fun _ => .pure _
    · exact (flattenRest_hoists rest bound (depth + 1) _).bind fun _ => .pure _
  | .array elements rest, bound, depth, value =>
    (hoists_guardPatternDepth s depth).bind fun _ =>
      (hoists_stabilizeUnlessOne _ bound value).bind fun r =>
        (flattenSlots_hoists elements bound (depth + 1) 0 r.2).bind fun _ =>
          (flattenRest_hoists rest bound (depth + 1) _).bind fun _ => .pure _
termination_by structural x => x

theorem flattenRest_hoists : (rest : Option Pattern) → (bound : List String) → (depth : Nat) →
    (value : Expr) → Hoists [] [] (flattenRest s bound depth rest value)
  | none, _, _, _ => .pure _
  | some target, bound, depth, value => target.flatten_hoists bound depth value
termination_by structural x => x

theorem flattenFallback_hoists : (fallback : Option Expr) → (bound : List String) →
    (value : Expr) → Hoists [] [] (flattenFallback s bound fallback value)
  | none, _, _ => .pure _
  | some fallback, bound, value =>
    (hoists_stabilize bound value).bind fun _ => (fallback.lower_hoists true).bind fun _ => .pure _
termination_by structural x => x

theorem Key.flatten_hoists : (key : Key) → (bound : List String) → (hasRest : Bool) →
    (value : Expr) → Hoists [] [] (key.flatten s bound hasRest value)
  | .name _, _, _, _ | .string _, _, _, _ | .number _, _, _, _ => .pure _
  | .computed e, bound, _, _ => by
    refine (e.lower_hoists true).bind fun key => ?_
    exact .ite (fun _ => (hoists_stabilize bound key).bind fun _ => .pure _) fun _ => .pure _
termination_by structural x => x

theorem PatternProperty.flatten_hoists : (p : PatternProperty) → (bound : List String) →
    (depth : Nat) → (hasRest : Bool) → (value : Expr) →
    Hoists [] [] (p.flatten s bound depth hasRest value)
  | .keyed key target fallback, bound, depth, hasRest, value =>
    (key.flatten_hoists bound hasRest value).bind fun r =>
      (flattenFallback_hoists fallback bound r.2.1).bind fun r' =>
        (target.flatten_hoists bound depth r'.2).bind fun _ => .pure _
  | .shorthand x fallback, bound, depth, _, value =>
    (flattenFallback_hoists fallback bound (value.dot x.name)).bind fun _ =>
      (hoists_guardPatternDepth s depth).bind fun _ => .pure _
termination_by structural x => x

theorem flattenProperties_hoists : (ps : List PatternProperty) → (bound : List String) →
    (depth : Nat) → (hasRest : Bool) → (value : Expr) →
    Hoists [] [] (flattenProperties s bound depth hasRest ps value)
  | [], _, _, _, _ => .pure _
  | p :: ps, bound, depth, hasRest, value =>
    (p.flatten_hoists bound depth hasRest value).bind fun _ =>
      (flattenProperties_hoists ps bound depth hasRest value).bind fun _ => .pure _
termination_by structural x => x

theorem PatternElement.flatten_hoists : (e : PatternElement) → (bound : List String) →
    (depth : Nat) → (value : Expr) → Hoists [] [] (e.flatten s bound depth value)
  | ⟨target, fallback⟩, bound, depth, value =>
    (flattenFallback_hoists fallback bound value).bind fun r =>
      (target.flatten_hoists bound depth r.2).bind fun _ => .pure _
termination_by structural x => x

theorem flattenSlot_hoists : (e : Option PatternElement) → (bound : List String) →
    (depth : Nat) → (value : Expr) → Hoists [] [] (flattenSlot s bound depth e value)
  | none, _, _, _ => .pure _
  | some e, bound, depth, value => e.flatten_hoists bound depth value
termination_by structural x => x

theorem flattenSlots_hoists : (es : List (Option PatternElement)) → (bound : List String) →
    (depth index : Nat) → (value : Expr) →
    Hoists [] [] (flattenSlots s bound depth index es value)
  | [], _, _, _, _ => .pure _
  | e :: es, bound, depth, index, value =>
    (flattenSlot_hoists e bound depth _).bind fun _ =>
      (flattenSlots_hoists es bound depth (index + 1) value).bind fun _ => .pure _
termination_by structural x => x

-- Functions and classes.

theorem Param.lower_hoists : (p : Param) → Hoists [] [] (p.lower s)
  | ⟨pattern, fallback, _⟩ =>
    pattern.lower_hoists.bind fun _ => (lowerExpr?_hoists fallback).bind fun _ => .pure _
termination_by structural x => x

theorem lowerParams_hoists : (ps : List Param) → Hoists [] [] (lowerParams s ps)
  | [] => .pure _
  | p :: ps => p.lower_hoists.bind fun _ => (lowerParams_hoists ps).bind fun _ => .pure _
termination_by structural x => x

theorem Func.lower_hoists : (f : Func) → Hoists [] [] (f.lower s)
  | ⟨_, params, body, _, _⟩ => by
    have hbody : Hoists [] [] (lowerStmts s .function body) :=
      (lowerStmts_hoists body .function nofun).function
    have hinner : Hoists [] [] (do
        return (← lowerParams s params, ← lowerStmts s .function body)) :=
      (lowerParams_hoists params).bind fun _ => hbody.bind fun _ => .pure _
    exact hinner.inFunction.bind fun _ => .pure _
termination_by structural x => x

theorem ArrowBody.lower_hoists : (body : ArrowBody) → Hoists [] [] (body.lower s)
  | .block body => (lowerStmts_hoists body .function nofun).function.bind fun _ => .pure _
  | .expr e => (e.lower_hoists true).bind fun _ => .pure _
termination_by structural x => x

theorem Class.lower_hoists : (c : Class) → Hoists [] [] (c.lower s)
  | ⟨_, base, members⟩ =>
    (lowerExpr?_hoists base).bind fun _ => (lowerMembers_hoists members).bind fun _ => .pure _
termination_by structural x => x

theorem ClassMember.lower_hoists : (m : ClassMember) → Hoists [] [] (m.lower s)
  | .method key _ _ f => key.lower_hoists.bind fun _ => f.lower_hoists.bind fun _ => .pure _
  | .field key _ value =>
    key.lower_hoists.bind fun _ => (lowerExpr?_hoists value).bind fun _ => .pure _
  | .staticBlock body =>
    (lowerStmts_hoists body .function nofun).function.inFunction.bind fun _ => .pure _
termination_by structural x => x

theorem lowerMembers_hoists : (ms : List ClassMember) → Hoists [] [] (lowerMembers s ms)
  | [] => .pure _
  | m :: ms => m.lower_hoists.bind fun _ => (lowerMembers_hoists ms).bind fun _ => .pure _
termination_by structural x => x

-- Declaration lists.

theorem Declarator.lower_hoists : (d : Declarator) → Hoists [] [] (d.lower s)
  | ⟨target, init⟩ =>
    target.lower_hoists.bind fun _ => (lowerExpr?_hoists init).bind fun _ => .pure _
termination_by structural x => x

theorem lowerDeclarators_hoists : (ds : List Declarator) → Hoists [] [] (lowerDeclarators s ds)
  | [] => .pure _
  | d :: ds => d.lower_hoists.bind fun _ => (lowerDeclarators_hoists ds).bind fun _ => .pure _
termination_by structural x => x

theorem VarList.lower_hoists : (list : VarList) → Hoists [] [] (list.lower s)
  | ⟨_, declarators⟩ => (lowerDeclarators_hoists declarators).bind fun _ => .pure _
termination_by structural x => x

/-- A declaration that is taken apart hoists its names. -/
theorem Declarator.hoisted_hoists : (d : Declarator) →
    Hoists d.target.boundNames [] (d.hoisted s)
  | ⟨target, none⟩ => (hoists_addVariables target.boundNames).last fun _ => .pure _
  | ⟨target, some init⟩ =>
    (hoists_addVariables target.boundNames).last fun _ => (init.lower_hoists true).bind fun value =>
      target.flatten_hoists target.boundNames 0 value
termination_by structural x => x

theorem hoistedDeclarators_hoists : (ds : List Declarator) →
    Hoists (ds.flatMap (·.target.boundNames)) [] (hoistedDeclarators s ds)
  | [] => .pure _
  | d :: ds => d.hoisted_hoists.append fun _ => (hoistedDeclarators_hoists ds).last fun _ => .pure _
termination_by structural x => x

theorem VarList.hoisted_hoists : (list : VarList) →
    Hoists (list.boundIdents.map (·.name)) [] (list.hoisted s)
  | ⟨kind, declarators⟩ => by
    have hnames : (VarList.mk kind declarators).boundIdents.map (·.name) =
        declarators.flatMap (·.target.boundNames) := List.map_flatMap ..
    rw [hnames]
    exact hoistedDeclarators_hoists declarators
termination_by structural x => x

-- Statements.

theorem ForInit.lower_hoists : (init : ForInit) → (place : Place) →
    Hoists (place.varNames init.varBindings) [] (init.lower s place)
  | .absent, place => by
    rw [show ForInit.absent.varBindings = [] from rfl, Place.varNames_nil]
    exact .pure _
  | .var list, place => by
    refine .ite (fun h => ?_) fun h => ?_
    · obtain ⟨hplace, hkind⟩ := Bool.and_eq_true_iff.mp h
      rw [show (ForInit.var list).varBindings = list.varBindings false from rfl,
        Place.varNames_list hplace hkind]
      refine list.hoisted_hoists.last fun exprs => ?_
      cases Expr.ofList exprs <;> exact .pure _
    · rw [show (ForInit.var list).varBindings = list.varBindings false from rfl,
        Place.varNames_list_eq_nil h]
      exact list.lower_hoists.bind fun _ => .pure _
  | .expr e, place => by
    rw [show (ForInit.expr e).varBindings = [] from rfl, Place.varNames_nil]
    exact (e.lower_hoists false).bind fun _ => .pure _
termination_by structural x => x

theorem ForHead.lower_hoists : (head : ForHead) → (place : Place) →
    (place.hoistsVars = true → ∀ list, head = .var list → list.declarators.length ≤ 1) →
    Hoists (place.varNames head.varBindings) [] (head.lower s place)
  | .var ⟨kind, []⟩, place, _ => by
    have hnone : (ForHead.var ⟨kind, []⟩).varBindings = [] := by
      cases kind <;> rfl
    rw [hnone, Place.varNames_nil]
    exact .pure _
  | .var ⟨kind, ⟨target, init⟩ :: ds⟩, place, h => by
    refine .ite (fun hhoists => ?_) fun hhoists => ?_
    · obtain ⟨hplace, hkind⟩ := Bool.and_eq_true_iff.mp hhoists
      obtain rfl : ds = [] := List.length_eq_zero_iff.mp (by simpa using h hplace _ rfl)
      rw [show (ForHead.var ⟨kind, [⟨target, init⟩]⟩).varBindings =
          VarList.varBindings false ⟨kind, [⟨target, init⟩]⟩ from rfl,
        Place.varNames_list hplace hkind, VarList.boundIdents, List.flatMap_singleton]
      exact (hoists_addVariables target.boundNames).last fun _ =>
        target.lower_hoists.bind fun _ => .pure _
    · rw [show (ForHead.var ⟨kind, ⟨target, init⟩ :: ds⟩).varBindings =
          VarList.varBindings false ⟨kind, ⟨target, init⟩ :: ds⟩ from rfl,
        Place.varNames_list_eq_nil hhoists]
      exact target.lower_hoists.bind fun _ => (lowerExpr?_hoists init).bind fun _ =>
        (lowerDeclarators_hoists ds).bind fun _ => .pure _
  | .pattern p, place, _ => by
    rw [show (ForHead.pattern p).varBindings = [] from rfl, Place.varNames_nil]
    exact p.lower_hoists.bind fun _ => .pure _
termination_by structural x => x

theorem Catch.lower_hoists : (c : Catch) → (place : Place) →
    (place.inner.hoistsVars = true → SingleHeads (catchWithin (some c))) →
    Hoists (place.varNames (catchVarBindings (some c))) [] (c.lower s place.inner)
  | ⟨param, body⟩, place, h =>
    (lowerPattern?_hoists param).bind fun _ =>
      (lowerStmts_hoists body place.inner h).innerBlock.last fun _ => .pure _
termination_by structural x => x

theorem lowerCatch?_hoists : (c : Option Catch) → (place : Place) →
    (place.inner.hoistsVars = true → SingleHeads (catchWithin c)) →
    Hoists (place.varNames (catchVarBindings c)) [] (lowerCatch? s place.inner c)
  | none, place, _ => by
    rw [show catchVarBindings none = [] from rfl, Place.varNames_nil]
    exact .pure _
  | some c, place, h => (c.lower_hoists place h).last fun _ => .pure _
termination_by structural x => x

theorem lowerBlock?_hoists : (body : Option (List Stmt)) → (place : Place) →
    (place.inner.hoistsVars = true → SingleHeads (finallyWithin body)) →
    Hoists (place.varNames (finallyVarBindings body)) [] (lowerBlock? s place.inner body)
  | none, place, _ => by
    rw [show finallyVarBindings none = [] from rfl, Place.varNames_nil]
    exact .pure _
  | some body, place, h =>
    (lowerStmts_hoists body place.inner h).innerBlock.last fun _ => .pure _
termination_by structural x => x

theorem Case.lower_hoists : (c : Case) → (place : Place) →
    (place.inner.hoistsVars = true → SingleHeads (stmtsWithin c.body)) →
    Hoists (place.varNames (blockVarBindings c.body)) [] (c.lower s place.inner)
  | ⟨test, body⟩, place, h =>
    (lowerExpr?_hoists test).bind fun _ =>
      (lowerStmts_hoists body place.inner h).innerBlock.last fun _ => .pure _
termination_by structural x => x

theorem lowerCases_hoists : (cs : List Case) → (place : Place) →
    (place.inner.hoistsVars = true → SingleHeads (casesWithin cs)) →
    Hoists (place.varNames (casesVarBindings cs)) [] (lowerCases s place.inner cs)
  | [], place, _ => by
    rw [show casesVarBindings [] = [] from rfl, Place.varNames_nil]
    exact .pure _
  | c :: cs, place, h => by
    have hvars : casesVarBindings (c :: cs) = blockVarBindings c.body ++ casesVarBindings cs := by
      cases c
      rfl
    have hwithin : casesWithin (c :: cs) = stmtsWithin c.body ++ casesWithin cs := by
      cases c
      rfl
    rw [hvars, Place.varNames_append]
    have hboth : place.inner.hoistsVars = true → _ := fun hplace =>
      singleHeads_append.mp (hwithin ▸ h hplace)
    exact (c.lower_hoists place fun hplace => (hboth hplace).1).append fun _ =>
      (lowerCases_hoists cs place fun hplace => (hboth hplace).2).last fun _ => .pure _
termination_by structural x => x

theorem lowerStmts_hoists : (sts : List Stmt) → (place : Place) →
    (place.hoistsVars = true → SingleHeads (stmtsWithin sts)) →
    Hoists (sts.flatMap (s.hoistedVars place)) (sts.flatMap (·.hoistedFunctions place))
      (lowerStmts s place sts)
  | [], _, _ => .pure _
  | st :: sts, place, h => by
    rw [List.flatMap_cons, List.flatMap_cons]
    have hboth : place.hoistsVars = true → _ := fun hplace => singleHeads_append.mp (h hplace)
    exact (st.lower_hoists place fun hplace => (hboth hplace).1).append fun _ =>
      (lowerStmts_hoists sts place fun hplace => (hboth hplace).2).last fun _ => .pure _
termination_by structural x => x

/-- The statements of a loop body that is a block. -/
theorem Stmt.block_hoists (st : Stmt) (place : Place)
    (h : place.inner.hoistsVars = true → SingleHeads st.within) :
    ∀ inner, st = .block inner →
      Hoists (place.varNames st.varBindings) [] (lowerStmts s place.inner inner) := by
  cases st with
  | block inner =>
    rintro _ ⟨⟩
    have hheads := fun hplace => (singleHeads_cons.mp (h hplace)).2
    exact (lowerStmts_hoists inner place.inner hheads).innerBlock
  | _ => nofun
termination_by structural st

theorem Stmt.lower_hoists : (st : Stmt) → (place : Place) →
    (place.hoistsVars = true → SingleHeads st.within) →
    Hoists (s.hoistedVars place st) (st.hoistedFunctions place) (st.lower s place)
  | .expr e, _, _ =>
    .deeper s (.bare rfl rfl rfl ((e.lower_hoists false).bind fun _ => .pure _))
  | .var modifiers list, _, _ => by
    refine .deeper s ?_
    have htaken : Hoists (list.boundIdents.map (·.name)) [] (do
        if modifiers.isExported then addExportedNames (list.boundIdents.map Ident.name)
        return (Expr.ofList (← list.hoisted s)).toList.map Stmt.expr) := by
      have hassigns := list.hoisted_hoists.last fun exprs =>
        Hoists.pure ((Expr.ofList exprs).toList.map Stmt.expr)
      exact .ite (fun _ => (hoists_addExportedNames _).bind fun _ => hassigns) fun _ => hassigns
    refine .list (.ite (fun htakes => ?_) fun hkeeps => ?_)
    · rw [if_pos htakes]
      exact htaken
    · rw [if_neg hkeeps]
      exact list.lower_hoists.bind fun _ => .pure _
  | .function modifiers f, _, _ => by
    refine .deeper s ?_
    refine f.lower_hoists.bind_yields (f.lower_name s) fun f' hname => .ite (fun htop => ?_)
      fun hinner => .nested hinner rfl (.pure _)
    subst htop
    have hfunctions : (Stmt.function modifiers f).hoistedFunctions .topLevel =
        f'.name.toList.map (·.name) := by
      rw [hname]
      cases hf : f.name <;> simp [Stmt.hoistedFunctions, Stmt.functionName?, hf]
    rw [hfunctions]
    exact (hoists_hoistFunction s modifiers f').last fun _ => .pure _
  | .classDecl modifiers c, _, _ => by
    refine .deeper s ?_
    refine .ite (fun htop => ?_) fun hinner => ?_
    · subst htop
      exact (hoists_hoistClassName c.name).last fun name => c.lower_hoists.bind fun c =>
        hoists_classAssignment s modifiers name c
    · exact .nested hinner rfl (c.lower_hoists.bind fun _ => .pure _)
  | .importFrom site clause specifier isTypeOnly, _, _ => by
    refine .deeper s ?_
    refine .ite (fun htop => ?_) fun hinner => .nested hinner rfl (.pure _)
    subst htop
    exact (hoists_addVariables _).last fun _ => .pure _
  | .importEquals site isExported name kind value, _, _ => by
    refine .deeper s ?_
    refine .ite (fun htop => ?_) fun hinner => .nested hinner rfl (.pure _)
    subst htop
    have hvars : s.hoistedVars .topLevel (.importEquals site isExported name kind value) =
        if s.names.importEqualsIsValue kind value then [name.name] else [] := rfl
    rw [hvars]
    refine .ite (fun htype => ?_) fun hvalue => ?_
    · rw [if_neg (by simpa using htype)]
      exact .pure _
    · rw [if_pos (by simpa using hvalue)]
      refine (hoists_addVariable name.name).last fun _ => ?_
      cases kind with
      | require =>
        exact .ite (fun _ => (hoists_addExportedName name.name).bind fun _ => .pure _)
          fun _ => .pure _
      | entity =>
        have hassign : Hoists [] [] (do
            return [.expr (s.bindingAssignment name (← value.lower s true))] :
          Lowering (List Stmt)) := (value.lower_hoists true).bind fun _ => .pure _
        exact .ite (fun _ => (hoists_addExportedName name.name).bind fun _ => hassign)
          fun _ => hassign
  | .exportFrom site clause specifier isTypeOnly, _, _ => by
    refine .deeper s ?_
    refine .bare rfl rfl rfl (.ite (fun _ => ?_) fun _ => .pure _)
    split
    · exact hoists_exportSpecifiers s _
    · exact .pure _
  | .exportValue site form value, _, _ => by
    refine .deeper s ?_
    refine .bare rfl rfl rfl (.ite (fun _ => ?_) fun _ => .pure _)
    exact .ite (fun _ => .pure _) fun _ => (value.lower_hoists true).bind fun _ => .pure _
  | .ambient _ _, _, _ =>
    .deeper s (.bare rfl rfl rfl (.pure _))
  | .block body, place, h => by
    refine .deeper s ?_
    have hbody := (lowerStmts_hoists body place.inner (SingleHeads.of_inner h)).innerBlock
    exact .plain rfl rfl (hbody.last fun _ => .pure _)
  | .ifThen test yes, place, h => by
    refine .deeper s ?_
    have hyes := (yes.lower_hoists place.inner (SingleHeads.of_inner h)).inner
    exact .plain rfl rfl ((test.lower_hoists true).bind fun _ => hyes.last fun _ => .pure _)
  | .ifElse test yes no, place, h => by
    refine .deeper s ?_
    have hinner := fun hplace => singleHeads_append.mp (SingleHeads.of_inner h hplace)
    have hyes := (yes.lower_hoists place.inner fun hplace => (hinner hplace).1).inner
    have hno := (no.lower_hoists place.inner fun hplace => (hinner hplace).2).inner
    exact .both rfl rfl rfl ((test.lower_hoists true).bind fun _ =>
      hyes.append fun _ => hno.last fun _ => .pure _)
  | .forLoop init test update body, place, h => by
    refine .deeper s ?_
    have hbody := (body.lower_hoists place.inner (SingleHeads.of_inner h)).inner
    refine .both rfl rfl rfl ?_
    exact (init.lower_hoists place).append fun _ => (lowerExpr?_hoists test).bind fun _ =>
      (lowerUnused?_hoists update).bind fun _ => hbody.last fun _ => .pure _
  | .forIn head object body, place, h => by
    have hhead := head.lower_hoists place (SingleHeads.head rfl h)
    have hblock := body.block_hoists place (SingleHeads.of_inner h)
    have hbody := (body.lower_hoists place.inner (SingleHeads.of_inner h)).inner
    rw [Stmt.lower_forIn]
    exact .deeper s (.both rfl rfl rfl (hhead.append fun _ =>
      (object.lower_hoists true).bind fun _ =>
        (hoists_lowerLoopBody hblock hbody).last fun _ => .pure _))
  | .forOf head iterable body isAwait, place, h => by
    have hhead := head.lower_hoists place (SingleHeads.head rfl h)
    have hblock := body.block_hoists place (SingleHeads.of_inner h)
    have hbody := (body.lower_hoists place.inner (SingleHeads.of_inner h)).inner
    rw [Stmt.lower_forOf]
    exact .deeper s (.both rfl rfl rfl (hhead.append fun _ =>
      (iterable.lower_hoists true).bind fun _ =>
        (hoists_lowerLoopBody hblock hbody).last fun _ => .pure _))
  | .whileLoop test body, place, h => by
    refine .deeper s ?_
    have hbody := (body.lower_hoists place.inner (SingleHeads.of_inner h)).inner
    exact .plain rfl rfl ((test.lower_hoists true).bind fun _ => hbody.last fun _ => .pure _)
  | .doWhile body test, place, h => by
    refine .deeper s ?_
    have hbody := (body.lower_hoists place.inner (SingleHeads.of_inner h)).inner
    exact .plain rfl rfl (hbody.last fun _ => (test.lower_hoists true).bind fun _ => .pure _)
  | .tryCatch body handler finalizer, place, h => by
    refine .deeper s ?_
    have hinner := fun hplace => singleHeads_append.mp (SingleHeads.of_inner h hplace)
    have hboth := fun hplace => singleHeads_append.mp (hinner hplace).1
    have hbody := (lowerStmts_hoists body place.inner fun hplace => (hboth hplace).1).innerBlock
    have hhandler := lowerCatch?_hoists handler place fun hplace => (hboth hplace).2
    have hfinalizer := lowerBlock?_hoists finalizer place fun hplace => (hinner hplace).2
    refine .both rfl rfl rfl ?_
    rw [Place.varNames_append, List.append_assoc]
    exact hbody.append fun _ => hhandler.append fun _ => hfinalizer.last fun _ => .pure _
  | .switch subject cases, place, h => by
    refine .deeper s ?_
    have hcases := lowerCases_hoists cases place (SingleHeads.of_inner h)
    exact .plain rfl rfl ((subject.lower_hoists true).bind fun _ => hcases.last fun _ => .pure _)
  | .labeled label body, place, h => by
    refine .deeper s ?_
    have hbody := (body.lower_hoists place.inner (SingleHeads.of_inner h)).inner
    exact .plain rfl rfl (hbody.last fun _ => .pure _)
  | .withObject object body, place, h => by
    refine .deeper s ?_
    have hbody := (body.lower_hoists place.inner (SingleHeads.of_inner h)).inner
    exact .plain rfl rfl ((object.lower_hoists true).bind fun _ => hbody.last fun _ => .pure _)
  | .ret arg, _, _ =>
    .deeper s (.bare rfl rfl rfl ((lowerExpr?_hoists arg).bind fun _ => .pure _))
  | .throw arg, _, _ =>
    .deeper s (.bare rfl rfl rfl ((arg.lower_hoists true).bind fun _ => .pure _))
  | .breakTo _, _, _ | .continueTo _, _, _ =>
    .deeper s (.bare rfl rfl rfl (.pure _))
  | .empty, _, _ | .debugger, _, _ =>
    .deeper s (.bare rfl rfl rfl (.pure _))
termination_by structural x => x

theorem lowerUnused?_hoists : (e : Option Expr) → Hoists [] [] (lowerUnused? s e)
  | none => .pure _
  | some e => (e.lower_hoists false).bind fun _ => .pure _
termination_by structural x => x

end

end RegisterForm
