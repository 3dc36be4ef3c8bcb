import RegisterForm.Proofs.Lowering.Loops
import RegisterForm.Proofs.Renumber.Lowering
/-!
# Renumbered trees lowered

What a renumbered tree becomes is what the tree becomes, renumbered, for every kind of node. Only
numbers that the source has are carried over; what is made up has none.
-/
namespace RegisterForm
open Lowering

variable (r : Renumbering)

/-! ## Parts -/

theorem restCall_renumber (value : Expr) (keys : List Expr) :
    restCall (value.renumber r) (keys.map (·.renumber r)) = (restCall value keys).renumber r := by
  simp [restCall]

theorem Stmt.ofList_renumberStmts (ss : List Stmt) :
    Stmt.ofList (renumberStmts r ss) = (Stmt.ofList ss).renumber r := by
  rw [renumberStmts_eq, Stmt.ofList_renumber]

theorem renumberStmts_declarations (declarations body : List Stmt) :
    declarations.map (·.renumber r) ++ renumberStmts r body =
      renumberStmts r (declarations ++ body) := by
  rw [renumberStmts_append, renumberStmts_eq r declarations]

theorem loopBody_renumber (exports body : List Stmt) :
    loopBody (renumberStmts r exports) (renumberStmts r body) = (loopBody exports body).renumber r := by
  cases exports with
  | nil => exact Stmt.ofList_renumberStmts r body
  | cons st sts => exact congrArg Stmt.block (renumberStmts_append (st :: sts) body).symm

theorem ArrowBody.withDeclarations_renumber (declarations : List Stmt) (body : ArrowBody) :
    (body.renumber r).withDeclarations (declarations.map (·.renumber r)) =
      (body.withDeclarations declarations).renumber r := by
  cases declarations with
  | nil => cases body <;> rfl
  | cons st sts =>
    cases body with
    | block body => exact congrArg block (renumberStmts_declarations r (st :: sts) body)
    | expr e => exact congrArg block (renumberStmts_declarations r (st :: sts) [.ret (some e)])

theorem headExports_renumber (s : Setting) (target : Pattern) :
    headExports (s.renumber r) (target.renumber r) = renumberStmts r (headExports s target) := by
  have hcall : ∀ x : Ident, ((s.renumber r).exportNames (x.renumber r)).map
        (fun name => Stmt.expr ((s.renumber r).publish name (.ofName x.name))) =
      ((s.exportNames x).map fun name => Stmt.expr (s.publish name (.ofName x.name))).map
        (·.renumber r) := by
    intro x
    rw [Setting.exportNames_renumber, List.map_map]
    refine List.map_congr_left fun name _ => congrArg Stmt.expr ?_
    rw [← Setting.publish_renumber, Expr.renumber_ofName]
  rw [headExports, Pattern.boundIdents_renumber, List.flatMap_map, renumberStmts_eq, headExports,
    List.map_flatMap]
  exact congrArg (target.boundIdents.flatMap ·) (funext hcall)

section Steps
variable {r} {s : Setting}

theorem mirrors_blockBody {exports : List Stmt} {body body' : Lowering (List Stmt)}
    (h : Mirrors r (renumberStmts r) body body') :
    Mirrors r (·.renumber r) (blockBody s exports body)
      (blockBody (s.renumber r) (renumberStmts r exports) body') := by
  cases exports with
  | nil =>
    have hblock : Mirrors r (·.renumber r) (Stmt.block <$> body) (Stmt.block <$> body') := by
      rw [← bind_pure_comp, ← bind_pure_comp]
      exact h.bind fun _ => .pure rfl
    simp only [← bind_pure_comp] at hblock
    exact hblock.deeper
  | cons st sts =>
    exact h.bind fun body =>
      .pure (congrArg Stmt.block (renumberStmts_append (st :: sts) body).symm)

theorem mirrors_lowerLoopBody {place : Place} {body : Stmt}
    (hblock : ∀ inner, body = .block inner → Mirrors r (renumberStmts r) (lowerStmts s place inner)
      (lowerStmts (s.renumber r) place (renumberStmts r inner)))
    (hbody : Mirrors r (renumberStmts r) (body.lower s place)
      ((body.renumber r).lower (s.renumber r) place)) (exports : List Stmt) :
    Mirrors r (·.renumber r) (lowerLoopBody s place exports body)
      (lowerLoopBody (s.renumber r) place (renumberStmts r exports) (body.renumber r)) := by
  cases body with
  | block inner => exact mirrors_blockBody (hblock inner rfl)
  | _ => exact hbody.bind fun _ => .pure (loopBody_renumber r exports _)

end Steps

/-- From a renumbered value the second step makes what the first makes from the value. -/
def MirrorsFrom {α : Type} (change : α → α) (step step' : Expr → Lowering α) : Prop :=
  ∀ value, Mirrors r change (step value) (step' (value.renumber r))

section Trees
variable {r} {s : Setting}

mutual

theorem Expr.lower_renumber : (e : Expr) → (isUsed : Bool) →
    Mirrors r (·.renumber r) (e.lower s isUsed) ((e.renumber r).lower (s.renumber r) isUsed)
  | .ident x, _ => .deeper (.pure (s.read_renumber r x))
  | .literal _, _ | .this, _ | .super, _ => .deeper (.pure rfl)
  | .template _ parts, _ => .deeper ((lowerExprs_renumber parts).bind fun _ => .pure rfl)
  | .tagged tag _ parts, _ =>
    .deeper ((tag.lower_renumber true).bind fun _ =>
      (lowerExprs_renumber parts).bind fun _ => .pure rfl)
  | .array elements, _ => .deeper ((lowerSlots_renumber elements).bind fun _ => .pure rfl)
  | .object properties, _ =>
    .deeper ((lowerProperties_renumber properties).bind fun _ => .pure rfl)
  | .function f, _ => .deeper (f.lower_renumber.bind fun _ => .pure rfl)
  | .arrow params body _, _ => by
    have hparts : Mirrors r (fun out => (renumberParams r out.1, out.2.renumber r))
        (do return (← lowerParams s params, ← body.lower s))
        (do return (← lowerParams (s.renumber r) (renumberParams r params),
          ← (body.renumber r).lower (s.renumber r))) :=
      (lowerParams_renumber params).bind fun _ => body.lower_renumber.bind fun _ => .pure rfl
    refine .deeper (hparts.inFunction.bind fun out => .pure ?_)
    rw [ArrowBody.withDeclarations_renumber]
    rfl
  | .classExpr c, _ => .deeper (c.lower_renumber.bind fun _ => .pure rfl)
  | .unary _ arg, _ => .deeper ((arg.lower_renumber true).bind fun _ => .pure rfl)
  | .update op isPrefix arg, isUsed => by
    have hupdate := s.publishedUpdate?_renumber r op isPrefix isUsed arg
    refine .deeper ?_
    rw [hupdate]
    cases s.publishedUpdate? op isPrefix isUsed arg with
    | some e => exact .pure rfl
    | none => exact (arg.lower_renumber true).bind fun _ => .pure rfl
  | .binary _ left right, _ =>
    .deeper ((left.lower_renumber true).bind fun _ =>
      (right.lower_renumber true).bind fun _ => .pure rfl)
  | .assign op target value, isUsed => by
    have hapart : ∀ (held : List Expr) (value : Expr), Mirrors r (·.renumber r)
        (do
          let exprs ← target.flatten s target.boundNames 0 value
          let result := if isUsed then [value] else []
          return (Expr.ofList (held ++ exprs ++ result)).getD value)
        (do
          let exprs ← (target.renumber r).flatten (s.renumber r) target.boundNames 0 (value.renumber r)
          let result := if isUsed then [value.renumber r] else []
          return (Expr.ofList (held.map (·.renumber r) ++ exprs ++ result)).getD (value.renumber r)) := by
      intro held value
      refine (target.flatten_renumber target.boundNames 0 value).bind fun exprs => .pure ?_
      have hresult : (if isUsed then [value.renumber r] else []) =
          (if isUsed then [value] else []).map (·.renumber r) := by
        cases isUsed <;> rfl
      rw [hresult, ← List.map_append, ← List.map_append, Expr.ofList_renumber]
      cases Expr.ofList (held ++ exprs ++ if isUsed then [value] else []) <;> rfl
    refine .deeper ?_
    rw [Pattern.isDestructuring_renumber, Setting.hasExportedLeaf_renumber,
      Pattern.boundNames_renumber]
    refine .ite ((value.lower_renumber true).bind fun value => ?_) ?_
    · exact .ite ((mirrors_stabilize target.boundNames value).bind fun r => hapart r.1 r.2)
        (hapart [] value)
    · exact target.lower_renumber.bind fun target => (value.lower_renumber true).bind fun value =>
        .pure (s.publishedTo_renumber r target (.assign op target value))
  | .conditional test yes no, isUsed =>
    .deeper ((test.lower_renumber true).bind fun _ => (yes.lower_renumber isUsed).bind fun _ =>
      (no.lower_renumber isUsed).bind fun _ => .pure rfl)
  | .call callee args _, _ =>
    .deeper ((callee.lower_renumber true).bind fun _ =>
      (lowerExprs_renumber args).bind fun _ => .pure rfl)
  | .newBare callee, _ => .deeper ((callee.lower_renumber true).bind fun _ => .pure rfl)
  | .newCall callee args, _ =>
    .deeper ((callee.lower_renumber true).bind fun _ =>
      (lowerExprs_renumber args).bind fun _ => .pure rfl)
  | .member owner _ _, _ => .deeper ((owner.lower_renumber true).bind fun _ => .pure rfl)
  | .index owner key _, _ =>
    .deeper ((owner.lower_renumber true).bind fun _ =>
      (key.lower_renumber true).bind fun _ => .pure rfl)
  | .sequence exprs, isUsed =>
    .deeper ((lowerSequence_renumber exprs isUsed).bind fun _ => .pure rfl)
  | .paren inner, isUsed => .deeper ((inner.lower_renumber isUsed).bind fun _ => .pure rfl)
  | .yield arg _, _ => .deeper ((lowerExpr?_renumber arg).bind fun _ => .pure rfl)
  | .await arg, _ => .deeper ((arg.lower_renumber true).bind fun _ => .pure rfl)
  | .spread arg, _ => .deeper ((arg.lower_renumber true).bind fun _ => .pure rfl)
  | .importCall specifier, _ =>
    .deeper ((specifier.lower_renumber true).bind fun specifier => .pure (by
      rw [Expr.renumber_apply, Expr.renumber_dot, Expr.renumber_ofName]
      rfl))
  | .importMeta, _ => .deeper (.pure (by rw [Expr.renumber_dot, Expr.renumber_ofName]; rfl))

theorem lowerExprs_renumber : (es : List Expr) →
    Mirrors r (renumberExprs r) (lowerExprs s es) (lowerExprs (s.renumber r) (renumberExprs r es))
  | [] => .pure rfl
  | e :: es => (e.lower_renumber true).bind fun _ =>
    (lowerExprs_renumber es).bind fun _ => .pure rfl

theorem lowerSequence_renumber : (es : List Expr) → (isUsed : Bool) →
    Mirrors r (renumberExprs r) (lowerSequence s isUsed es)
      (lowerSequence (s.renumber r) isUsed (renumberExprs r es))
  | [], _ => .pure rfl
  | e :: es, isUsed => by
    have hlast : (renumberExprs r es).isEmpty = es.isEmpty := by cases es <;> rfl
    have hfirst : Mirrors r (·.renumber r) (e.lower s (isUsed && es.isEmpty))
        ((e.renumber r).lower (s.renumber r) (isUsed && (renumberExprs r es).isEmpty)) := by
      rw [hlast]
      exact e.lower_renumber (isUsed && es.isEmpty)
    exact hfirst.bind fun _ => (lowerSequence_renumber es isUsed).bind fun _ => .pure rfl

theorem lowerExpr?_renumber : (e : Option Expr) →
    Mirrors r (renumberExpr? r) (lowerExpr? s e) (lowerExpr? (s.renumber r) (renumberExpr? r e))
  | none => .pure rfl
  | some e => (e.lower_renumber true).bind fun _ => .pure rfl

theorem lowerSlots_renumber : (es : List (Option Expr)) →
    Mirrors r (renumberSlots r) (lowerSlots s es) (lowerSlots (s.renumber r) (renumberSlots r es))
  | [] => .pure rfl
  | e :: es => (lowerExpr?_renumber e).bind fun _ =>
    (lowerSlots_renumber es).bind fun _ => .pure rfl

theorem Key.lower_renumber : (key : Key) →
    Mirrors r (·.renumber r) (key.lower s) ((key.renumber r).lower (s.renumber r))
  | .name _ | .string _ | .number _ => .pure rfl
  | .computed e => (e.lower_renumber true).bind fun _ => .pure rfl

theorem Property.lower_renumber : (p : Property) →
    Mirrors r (·.renumber r) (p.lower s) ((p.renumber r).lower (s.renumber r))
  | .keyed key value => key.lower_renumber.bind fun _ =>
    (value.lower_renumber true).bind fun _ => .pure rfl
  | .shorthand x => .pure (s.readShorthand_renumber r x)
  | .method key _ f => key.lower_renumber.bind fun _ => f.lower_renumber.bind fun _ => .pure rfl
  | .spread e => (e.lower_renumber true).bind fun _ => .pure rfl

theorem lowerProperties_renumber : (ps : List Property) →
    Mirrors r (renumberProperties r) (lowerProperties s ps)
      (lowerProperties (s.renumber r) (renumberProperties r ps))
  | [] => .pure rfl
  | p :: ps => p.lower_renumber.bind fun _ =>
    (lowerProperties_renumber ps).bind fun _ => .pure rfl

theorem Pattern.lower_renumber : (p : Pattern) →
    Mirrors r (·.renumber r) (p.lower s) ((p.renumber r).lower (s.renumber r))
  | .ident _ => .pure rfl
  | .expr e => (e.lower_renumber true).bind fun _ => .pure rfl
  | .object properties rest => (lowerPatternProperties_renumber properties).bind fun _ =>
    (lowerPattern?_renumber rest).bind fun _ => .pure rfl
  | .array elements rest => (lowerPatternSlots_renumber elements).bind fun _ =>
    (lowerPattern?_renumber rest).bind fun _ => .pure rfl

theorem lowerPattern?_renumber : (p : Option Pattern) →
    Mirrors r (renumberPattern? r) (lowerPattern? s p)
      (lowerPattern? (s.renumber r) (renumberPattern? r p))
  | none => .pure rfl
  | some p => p.lower_renumber.bind fun _ => .pure rfl

theorem PatternProperty.lower_renumber : (p : PatternProperty) →
    Mirrors r (·.renumber r) (p.lower s) ((p.renumber r).lower (s.renumber r))
  | .keyed key target fallback => key.lower_renumber.bind fun _ =>
    target.lower_renumber.bind fun _ => (lowerExpr?_renumber fallback).bind fun _ => .pure rfl
  | .shorthand _ fallback => (lowerExpr?_renumber fallback).bind fun _ => .pure rfl

theorem lowerPatternProperties_renumber : (ps : List PatternProperty) →
    Mirrors r (renumberPatternProperties r) (lowerPatternProperties s ps)
      (lowerPatternProperties (s.renumber r) (renumberPatternProperties r ps))
  | [] => .pure rfl
  | p :: ps => p.lower_renumber.bind fun _ =>
    (lowerPatternProperties_renumber ps).bind fun _ => .pure rfl

theorem PatternElement.lower_renumber : (e : PatternElement) →
    Mirrors r (·.renumber r) (e.lower s) ((e.renumber r).lower (s.renumber r))
  | ⟨target, fallback⟩ => target.lower_renumber.bind fun _ =>
    (lowerExpr?_renumber fallback).bind fun _ => .pure rfl

theorem lowerPatternSlot_renumber : (e : Option PatternElement) →
    Mirrors r (renumberPatternSlot r) (lowerPatternSlot s e)
      (lowerPatternSlot (s.renumber r) (renumberPatternSlot r e))
  | none => .pure rfl
  | some e => e.lower_renumber.bind fun _ => .pure rfl

theorem lowerPatternSlots_renumber : (es : List (Option PatternElement)) →
    Mirrors r (renumberPatternSlots r) (lowerPatternSlots s es)
      (lowerPatternSlots (s.renumber r) (renumberPatternSlots r es))
  | [] => .pure rfl
  | e :: es => (lowerPatternSlot_renumber e).bind fun _ =>
    (lowerPatternSlots_renumber es).bind fun _ => .pure rfl

theorem Pattern.flatten_renumber (bound : List String) : (p : Pattern) → (depth : Nat) →
    MirrorsFrom r (List.map (·.renumber r)) (p.flatten s bound depth)
      ((p.renumber r).flatten (s.renumber r) bound depth)
  | .ident x, depth => fun value => (mirrors_guardPatternDepth depth).bind fun _ =>
    .pure (congrArg (fun e => [e]) (s.bindingAssignment_renumber r x value))
  | .expr e, depth => fun _ => (mirrors_guardPatternDepth depth).bind fun _ =>
    (e.lower_renumber true).bind fun _ => .pure rfl
  | .object properties rest, depth => fun value => by
    have hcount : (renumberPatternProperties r properties).length +
        (renumberPattern? r rest).toList.length = properties.length + rest.toList.length := by
      cases rest <;> simp
    have hsome : (renumberPattern? r rest).isSome = rest.isSome := by cases rest <;> rfl
    refine (mirrors_guardPatternDepth depth).bind fun _ => ?_
    rw [hcount, hsome]
    refine (mirrors_stabilizeUnlessOne _ bound value).bind fun held => ?_
    refine (flattenProperties_renumber bound rest.isSome properties (depth + 1) held.2).bind
      fun taken => ?_
    have hrest := flattenRest_renumber bound rest (depth + 1) (restCall held.2 taken.2)
    rw [← restCall_renumber] at hrest
    have hall : ∀ remaining : List Expr, (renumberHeld r held).1 ++ taken.1.map (·.renumber r) ++
        remaining.map (·.renumber r) = (held.1 ++ taken.1 ++ remaining).map (·.renumber r) := by
      simp [renumberHeld]
    exact .ite (mirrors_requireRest.bind fun _ => hrest.bind fun remaining => .pure (hall remaining))
      (hrest.bind fun remaining => .pure (hall remaining))
  | .array elements rest, depth => fun value => by
    have hlength : (renumberPatternSlots r elements).length = elements.length := by simp
    have hcount : (renumberPattern? r rest).toList.length = rest.toList.length := by
      cases rest <;> rfl
    refine (mirrors_guardPatternDepth depth).bind fun _ => ?_
    rw [hlength, hcount]
    refine (mirrors_stabilizeUnlessOne _ bound value).bind fun held => ?_
    refine (flattenSlots_renumber bound elements (depth + 1) 0 held.2).bind fun exprs => ?_
    exact (flattenRest_renumber bound rest (depth + 1) (restSlice held.2 elements.length)).bind
      fun remaining => .pure (by simp)

theorem flattenRest_renumber (bound : List String) : (p : Option Pattern) → (depth : Nat) →
    MirrorsFrom r (List.map (·.renumber r)) (flattenRest s bound depth p)
      (flattenRest (s.renumber r) bound depth (renumberPattern? r p))
  | none, _ => fun _ => .pure rfl
  | some p, depth => p.flatten_renumber bound depth

theorem flattenFallback_renumber (bound : List String) : (fallback : Option Expr) →
    MirrorsFrom r (renumberHeld r) (flattenFallback s bound fallback)
      (flattenFallback (s.renumber r) bound (renumberExpr? r fallback))
  | none => fun _ => .pure rfl
  | some e => fun value => (mirrors_stabilize bound value).bind fun _ =>
    (e.lower_renumber true).bind fun _ => .pure rfl

theorem Key.flatten_renumber (bound : List String) (hasRest : Bool) : (key : Key) →
    MirrorsFrom r (fun out => (out.1.map (·.renumber r), out.2.1.renumber r, out.2.2.renumber r))
      (key.flatten s bound hasRest) ((key.renumber r).flatten (s.renumber r) bound hasRest)
  | .name _ => fun _ => .pure rfl
  | .string text => fun value => .pure (by
    rw [apply_ite (Expr.renumber r)]
    rfl)
  | .number _ => fun _ => .pure rfl
  | .computed e => fun value => (e.lower_renumber true).bind fun key =>
    .ite ((mirrors_stabilize bound key).bind fun _ => .pure rfl) (.pure rfl)

theorem PatternProperty.flatten_renumber (bound : List String) (hasRest : Bool) :
    (p : PatternProperty) → (depth : Nat) →
      MirrorsFrom r (renumberHeld r) (p.flatten s bound depth hasRest)
        ((p.renumber r).flatten (s.renumber r) bound depth hasRest)
  | .keyed key target fallback, depth => fun value =>
    (key.flatten_renumber bound hasRest value).bind fun held =>
      (flattenFallback_renumber bound fallback held.2.1).bind fun before =>
        (target.flatten_renumber bound depth before.2).bind fun _ =>
          .pure (by simp [renumberHeld])
  | .shorthand x fallback, depth => fun value =>
    (flattenFallback_renumber bound fallback (value.dot x.name)).bind fun before =>
      (mirrors_guardPatternDepth depth).bind fun _ => .pure (by
        simp [renumberHeld, Setting.bindingAssignment_renumber])

theorem flattenProperties_renumber (bound : List String) (hasRest : Bool) :
    (ps : List PatternProperty) → (depth : Nat) →
      MirrorsFrom r (fun out => (out.1.map (·.renumber r), out.2.map (·.renumber r)))
        (flattenProperties s bound depth hasRest ps)
        (flattenProperties (s.renumber r) bound depth hasRest (renumberPatternProperties r ps))
  | [], _ => fun _ => .pure rfl
  | p :: ps, depth => fun value => (p.flatten_renumber bound hasRest depth value).bind fun out =>
    (flattenProperties_renumber bound hasRest ps depth value).bind fun _ =>
      .pure (by simp)

theorem PatternElement.flatten_renumber (bound : List String) : (e : PatternElement) →
    (depth : Nat) → MirrorsFrom r (List.map (·.renumber r)) (e.flatten s bound depth)
      ((e.renumber r).flatten (s.renumber r) bound depth)
  | ⟨target, fallback⟩, depth => fun value =>
    (flattenFallback_renumber bound fallback value).bind fun before =>
      (target.flatten_renumber bound depth before.2).bind fun _ => .pure (by simp)

theorem flattenSlot_renumber (bound : List String) : (e : Option PatternElement) →
    (depth : Nat) → MirrorsFrom r (List.map (·.renumber r)) (flattenSlot s bound depth e)
      (flattenSlot (s.renumber r) bound depth (renumberPatternSlot r e))
  | none, _ => fun _ => .pure rfl
  | some e, depth => e.flatten_renumber bound depth

theorem flattenSlots_renumber (bound : List String) : (es : List (Option PatternElement)) →
    (depth index : Nat) →
      MirrorsFrom r (List.map (·.renumber r)) (flattenSlots s bound depth index es)
        (flattenSlots (s.renumber r) bound depth index (renumberPatternSlots r es))
  | [], _, _ => fun _ => .pure rfl
  | e :: es, depth, index => fun value =>
    (flattenSlot_renumber bound e depth (value.lookup (.ofNumber (toString index)))).bind
      fun _ => (flattenSlots_renumber bound es depth (index + 1) value).bind fun _ =>
        .pure (by simp)

theorem Param.lower_renumber : (p : Param) →
    Mirrors r (·.renumber r) (p.lower s) ((p.renumber r).lower (s.renumber r))
  | ⟨pattern, fallback, _⟩ => pattern.lower_renumber.bind fun _ =>
    (lowerExpr?_renumber fallback).bind fun _ => .pure rfl

theorem lowerParams_renumber : (ps : List Param) →
    Mirrors r (renumberParams r) (lowerParams s ps)
      (lowerParams (s.renumber r) (renumberParams r ps))
  | [] => .pure rfl
  | p :: ps => p.lower_renumber.bind fun _ => (lowerParams_renumber ps).bind fun _ => .pure rfl

theorem Func.lower_renumber : (f : Func) →
    Mirrors r (·.renumber r) (f.lower s) ((f.renumber r).lower (s.renumber r))
  | ⟨name, params, body, isAsync, isGenerator⟩ => by
    have hparts : Mirrors r (fun out => (renumberParams r out.1, renumberStmts r out.2))
        (do return (← lowerParams s params, ← lowerStmts s .function body))
        (do return (← lowerParams (s.renumber r) (renumberParams r params),
          ← lowerStmts (s.renumber r) .function (renumberStmts r body))) :=
      (lowerParams_renumber params).bind fun _ =>
        (lowerStmts_renumber body .function).bind fun _ => .pure rfl
    exact hparts.inFunction.bind fun out => .pure (congrArg
      (fun body => Func.mk (name.map (·.renumber r)) (renumberParams r out.1.1) body isAsync
        isGenerator)
      (renumberStmts_declarations r out.2 out.1.2))

theorem ArrowBody.lower_renumber : (body : ArrowBody) →
    Mirrors r (·.renumber r) (body.lower s) ((body.renumber r).lower (s.renumber r))
  | .block body => (lowerStmts_renumber body .function).bind fun _ => .pure rfl
  | .expr e => (e.lower_renumber true).bind fun _ => .pure rfl

theorem Class.lower_renumber : (c : Class) →
    Mirrors r (·.renumber r) (c.lower s) ((c.renumber r).lower (s.renumber r))
  | ⟨_, base, members⟩ => (lowerExpr?_renumber base).bind fun _ =>
    (lowerMembers_renumber members).bind fun _ => .pure rfl

theorem ClassMember.lower_renumber : (m : ClassMember) →
    Mirrors r (·.renumber r) (m.lower s) ((m.renumber r).lower (s.renumber r))
  | .method key _ _ f => key.lower_renumber.bind fun _ => f.lower_renumber.bind fun _ => .pure rfl
  | .field key _ value => key.lower_renumber.bind fun _ =>
    (lowerExpr?_renumber value).bind fun _ => .pure rfl
  | .staticBlock body =>
    (lowerStmts_renumber body .function).inFunction.bind fun out =>
      .pure (congrArg ClassMember.staticBlock (renumberStmts_declarations r out.2 out.1))

theorem lowerMembers_renumber : (ms : List ClassMember) →
    Mirrors r (renumberMembers r) (lowerMembers s ms)
      (lowerMembers (s.renumber r) (renumberMembers r ms))
  | [] => .pure rfl
  | m :: ms => m.lower_renumber.bind fun _ => (lowerMembers_renumber ms).bind fun _ => .pure rfl

theorem Declarator.lower_renumber : (d : Declarator) →
    Mirrors r (·.renumber r) (d.lower s) ((d.renumber r).lower (s.renumber r))
  | ⟨target, init⟩ => target.lower_renumber.bind fun _ =>
    (lowerExpr?_renumber init).bind fun _ => .pure rfl

theorem lowerDeclarators_renumber : (ds : List Declarator) →
    Mirrors r (renumberDeclarators r) (lowerDeclarators s ds)
      (lowerDeclarators (s.renumber r) (renumberDeclarators r ds))
  | [] => .pure rfl
  | d :: ds => d.lower_renumber.bind fun _ =>
    (lowerDeclarators_renumber ds).bind fun _ => .pure rfl

theorem VarList.lower_renumber : (list : VarList) →
    Mirrors r (·.renumber r) (list.lower s) ((list.renumber r).lower (s.renumber r))
  | ⟨_, declarators⟩ => (lowerDeclarators_renumber declarators).bind fun _ => .pure rfl

theorem Declarator.hoisted_renumber : (d : Declarator) →
    Mirrors r (List.map (·.renumber r)) (d.hoisted s) ((d.renumber r).hoisted (s.renumber r))
  | ⟨target, init⟩ => by
    have hnames := target.boundNames_renumber r
    have hhoist : Mirrors r id (hoist (·.addVariables target.boundNames))
        (hoist (·.addVariables (target.renumber r).boundNames)) := by
      rw [hnames]
      exact mirrors_hoist fun h => h.addVariables_renumber r target.boundNames
    cases init with
    | none => exact hhoist.bind fun _ => .pure rfl
    | some e =>
      refine hhoist.bind fun _ => (e.lower_renumber true).bind fun value => ?_
      rw [hnames]
      exact target.flatten_renumber target.boundNames 0 value

theorem hoistedDeclarators_renumber : (ds : List Declarator) →
    Mirrors r (List.map (·.renumber r)) (hoistedDeclarators s ds)
      (hoistedDeclarators (s.renumber r) (renumberDeclarators r ds))
  | [] => .pure rfl
  | d :: ds => d.hoisted_renumber.bind fun _ =>
    (hoistedDeclarators_renumber ds).bind fun _ => .pure (by simp)

theorem VarList.hoisted_renumber : (list : VarList) →
    Mirrors r (List.map (·.renumber r)) (list.hoisted s) ((list.renumber r).hoisted (s.renumber r))
  | ⟨_, declarators⟩ => hoistedDeclarators_renumber declarators

theorem ForInit.lower_renumber : (init : ForInit) → (place : Place) →
    Mirrors r (·.renumber r) (init.lower s place) ((init.renumber r).lower (s.renumber r) place)
  | .absent, _ => .pure rfl
  | .var list, place => by
    change Mirrors r _ (if place.hoistsVars && list.kind == .var then _ else _)
      (if place.hoistsVars && (list.renumber r).kind == .var then _ else _)
    rw [VarList.kind_renumber]
    refine .ite (list.hoisted_renumber.bind fun exprs => ?_)
      (list.lower_renumber.bind fun _ => .pure rfl)
    rw [Expr.ofList_renumber]
    cases Expr.ofList exprs <;> exact .pure rfl
  | .expr e, _ => (e.lower_renumber false).bind fun _ => .pure rfl

theorem ForHead.lower_renumber : (head : ForHead) → (place : Place) →
    Mirrors r (fun out => (out.1.renumber r, renumberStmts r out.2)) (head.lower s place)
      ((head.renumber r).lower (s.renumber r) place)
  | .var ⟨_, []⟩, _ => .pure rfl
  | .var ⟨kind, ⟨target, init⟩ :: ds⟩, place => by
    refine .ite ?_ (target.lower_renumber.bind fun _ => (lowerExpr?_renumber init).bind fun _ =>
      (lowerDeclarators_renumber ds).bind fun _ => .pure rfl)
    rw [Pattern.boundNames_renumber, headExports_renumber]
    exact (mirrors_hoist fun h => h.addVariables_renumber r target.boundNames).bind fun _ =>
      target.lower_renumber.bind fun _ => .pure rfl
  | .pattern p, _ => p.lower_renumber.bind fun _ => .pure rfl

theorem Catch.lower_renumber : (c : Catch) → (place : Place) →
    Mirrors r (·.renumber r) (c.lower s place) ((c.renumber r).lower (s.renumber r) place)
  | ⟨param, body⟩, place => (lowerPattern?_renumber param).bind fun _ =>
    (lowerStmts_renumber body place).bind fun _ => .pure rfl

theorem lowerCatch?_renumber : (c : Option Catch) → (place : Place) →
    Mirrors r (renumberCatch? r) (lowerCatch? s place c)
      (lowerCatch? (s.renumber r) place (renumberCatch? r c))
  | none, _ => .pure rfl
  | some c, place => (c.lower_renumber place).bind fun _ => .pure rfl

theorem lowerBlock?_renumber : (body : Option (List Stmt)) → (place : Place) →
    Mirrors r (renumberBlock? r) (lowerBlock? s place body)
      (lowerBlock? (s.renumber r) place (renumberBlock? r body))
  | none, _ => .pure rfl
  | some body, place => (lowerStmts_renumber body place).bind fun _ => .pure rfl

theorem Case.lower_renumber : (c : Case) → (place : Place) →
    Mirrors r (·.renumber r) (c.lower s place) ((c.renumber r).lower (s.renumber r) place)
  | ⟨test, body⟩, place => (lowerExpr?_renumber test).bind fun _ =>
    (lowerStmts_renumber body place).bind fun _ => .pure rfl

theorem lowerCases_renumber : (cs : List Case) → (place : Place) →
    Mirrors r (renumberCases r) (lowerCases s place cs)
      (lowerCases (s.renumber r) place (renumberCases r cs))
  | [], _ => .pure rfl
  | c :: cs, place => (c.lower_renumber place).bind fun _ =>
    (lowerCases_renumber cs place).bind fun _ => .pure rfl

theorem lowerStmts_renumber : (ss : List Stmt) → (place : Place) →
    Mirrors r (renumberStmts r) (lowerStmts s place ss)
      (lowerStmts (s.renumber r) place (renumberStmts r ss))
  | [], _ => .pure rfl
  | st :: sts, place => (st.lower_renumber place).bind fun stmts =>
    (lowerStmts_renumber sts place).bind fun rest => .pure (renumberStmts_append stmts rest).symm

/-- The statements of a loop body that is a block. -/
theorem Stmt.block_renumber (st : Stmt) (place : Place) : ∀ inner, st = .block inner →
    Mirrors r (renumberStmts r) (lowerStmts s place inner)
      (lowerStmts (s.renumber r) place (renumberStmts r inner)) := by
  cases st with
  | block inner =>
    rintro _ ⟨⟩
    exact lowerStmts_renumber inner place
  | _ => nofun

theorem Stmt.lower_renumber : (st : Stmt) → (place : Place) →
    Mirrors r (renumberStmts r) (st.lower s place) ((st.renumber r).lower (s.renumber r) place)
  | .expr e, _ => .deeper ((e.lower_renumber false).bind fun _ => .pure rfl)
  | .var modifiers list, place => by
    have hhoisted : Mirrors r (renumberStmts r)
        (do
          let exprs ← list.hoisted s
          return (Expr.ofList exprs).toList.map .expr)
        (do
          let exprs ← (list.renumber r).hoisted (s.renumber r)
          return (Expr.ofList exprs).toList.map .expr) :=
      list.hoisted_renumber.bind fun exprs => .pure (by
        rw [Expr.ofList_renumber]
        cases Expr.ofList exprs <;> rfl)
    have hnames : (list.renumber r).boundIdents.map Ident.name = list.boundIdents.map Ident.name := by
      rw [VarList.boundIdents_renumber, Ident.map_name_renumber]
    refine .deeper ?_
    rw [VarList.kind_renumber, hnames]
    exact .ite (.ite ((mirrors_addExportedNames _).bind fun _ => hhoisted) hhoisted)
      (list.lower_renumber.bind fun _ => .pure rfl)
  | .function modifiers f, _ =>
    .deeper (f.lower_renumber.bind fun f =>
      .ite ((mirrors_hoistFunction modifiers f).bind fun _ => .pure rfl) (.pure rfl))
  | .classDecl modifiers c, _ => by
    have hname : (c.renumber r).name = c.name.map (·.renumber r) := by
      cases c
      rfl
    refine .deeper ?_
    rw [hname]
    exact .ite
      ((mirrors_hoistClassName c.name).bind fun name => c.lower_renumber.bind fun c =>
        mirrors_classAssignment modifiers name c)
      (c.lower_renumber.bind fun _ => .pure rfl)
  | .importFrom site clause specifier isTypeOnly, _ => by
    refine .deeper ?_
    rw [Site.id_renumber, Setting.lookup_holders_renumber]
    exact .ite ((mirrors_hoist fun h => h.addVariables_renumber r _).bind fun _ => .pure rfl)
      (.pure rfl)
  | .importEquals site isExported name kind value, _ => by
    have hkind : Mirrors r (renumberStmts r)
        (match kind with
          | .require => return []
          | .entity => return [.expr (s.bindingAssignment name (← value.lower s true))])
        (match kind with
          | .require => return []
          | .entity => return [.expr ((s.renumber r).bindingAssignment (name.renumber r)
              (← (value.renumber r).lower (s.renumber r) true))]) := by
      cases kind with
      | require => exact .pure rfl
      | entity =>
        exact (value.lower_renumber true).bind fun value =>
          .pure (congrArg (fun e => [Stmt.expr e]) (s.bindingAssignment_renumber r name value))
    refine .deeper ?_
    rw [Setting.names_renumber, NameTable.importEqualsIsValue_renumber, Ident.name_renumber]
    refine .ite (.ite (.pure rfl) ?_) (.pure rfl)
    refine (mirrors_hoist fun h => h.addVariable_renumber r name.name).bind fun _ => ?_
    exact .ite ((mirrors_addExportedName name.name).bind fun _ => hkind) hkind
  | .exportFrom site clause specifier isTypeOnly, _ => by
    refine .deeper (.ite ?_ (.pure rfl))
    cases clause with
    | none => exact .pure rfl
    | some c =>
      cases c with
      | star x => exact .pure rfl
      | named specifiers =>
        cases specifier with
        | some e => exact .pure rfl
        | none =>
          cases isTypeOnly with
          | true => exact .pure rfl
          | false => exact mirrors_exportSpecifiers specifiers
  | .exportValue site form value, _ => by
    refine .deeper ?_
    rw [Setting.names_renumber, NameTable.expressionIsValue_renumber]
    exact .ite (.ite (.pure rfl) ((value.lower_renumber true).bind fun value =>
      .pure (congrArg (fun e => [Stmt.expr e]) (s.publish_renumber r "default" value))))
      (.pure rfl)
  | .ambient _ _, _ => .deeper (.pure rfl)
  | .block body, place => .deeper ((lowerStmts_renumber body place.inner).bind fun _ => .pure rfl)
  | .ifThen test yes, place =>
    .deeper ((test.lower_renumber true).bind fun _ => (yes.lower_renumber place.inner).bind fun yes =>
      .pure (by rw [Stmt.ofList_renumberStmts]; rfl))
  | .ifElse test yes no, place =>
    .deeper ((test.lower_renumber true).bind fun _ => (yes.lower_renumber place.inner).bind fun yes =>
      (no.lower_renumber place.inner).bind fun no =>
        .pure (by rw [Stmt.ofList_renumberStmts, Stmt.ofList_renumberStmts]; rfl))
  | .forLoop init test update body, place =>
    .deeper ((init.lower_renumber place).bind fun _ => (lowerExpr?_renumber test).bind fun _ =>
      (lowerUnused?_renumber update).bind fun _ => (body.lower_renumber place.inner).bind fun _ =>
        .pure (by rw [Stmt.ofList_renumberStmts]; rfl))
  | .forIn head object body, place => by
    have hloop := mirrors_lowerLoopBody (body.block_renumber place.inner)
      (body.lower_renumber place.inner)
    change Mirrors r (renumberStmts r) ((Stmt.forIn head object body).lower s place)
      ((Stmt.forIn (head.renumber r) (object.renumber r) (body.renumber r)).lower
        (s.renumber r) place)
    rw [Stmt.lower_forIn, Stmt.lower_forIn]
    exact .deeper ((head.lower_renumber place).bind fun out =>
      (object.lower_renumber true).bind fun _ => (hloop out.2).bind fun _ => .pure rfl)
  | .forOf head iterable body isAwait, place => by
    have hloop := mirrors_lowerLoopBody (body.block_renumber place.inner)
      (body.lower_renumber place.inner)
    change Mirrors r (renumberStmts r) ((Stmt.forOf head iterable body isAwait).lower s place)
      ((Stmt.forOf (head.renumber r) (iterable.renumber r) (body.renumber r) isAwait).lower
        (s.renumber r) place)
    rw [Stmt.lower_forOf, Stmt.lower_forOf]
    exact .deeper ((head.lower_renumber place).bind fun out =>
      (iterable.lower_renumber true).bind fun _ => (hloop out.2).bind fun _ => .pure rfl)
  | .whileLoop test body, place =>
    .deeper ((test.lower_renumber true).bind fun _ =>
      (body.lower_renumber place.inner).bind fun _ =>
        .pure (by rw [Stmt.ofList_renumberStmts]; rfl))
  | .doWhile body test, place =>
    .deeper ((body.lower_renumber place.inner).bind fun _ =>
      (test.lower_renumber true).bind fun _ => .pure (by rw [Stmt.ofList_renumberStmts]; rfl))
  | .tryCatch body handler finalizer, place =>
    .deeper ((lowerStmts_renumber body place.inner).bind fun _ =>
      (lowerCatch?_renumber handler place.inner).bind fun _ =>
        (lowerBlock?_renumber finalizer place.inner).bind fun _ => .pure rfl)
  | .switch subject cases, place =>
    .deeper ((subject.lower_renumber true).bind fun _ =>
      (lowerCases_renumber cases place.inner).bind fun _ => .pure rfl)
  | .labeled _ body, place =>
    .deeper ((body.lower_renumber place.inner).bind fun _ =>
      .pure (by rw [Stmt.ofList_renumberStmts]; rfl))
  | .withObject object body, place =>
    .deeper ((object.lower_renumber true).bind fun _ =>
      (body.lower_renumber place.inner).bind fun _ =>
        .pure (by rw [Stmt.ofList_renumberStmts]; rfl))
  | .ret arg, _ => .deeper ((lowerExpr?_renumber arg).bind fun _ => .pure rfl)
  | .throw arg, _ => .deeper ((arg.lower_renumber true).bind fun _ => .pure rfl)
  | .breakTo _, _ | .continueTo _, _ | .empty, _ | .debugger, _ => .deeper (.pure rfl)

theorem lowerUnused?_renumber : (e : Option Expr) →
    Mirrors r (renumberExpr? r) (lowerUnused? s e)
      (lowerUnused? (s.renumber r) (renumberExpr? r e))
  | none => .pure rfl
  | some e => (e.lower_renumber false).bind fun _ => .pure rfl

end

end Trees
end RegisterForm
