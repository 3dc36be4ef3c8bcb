import RegisterForm.Proofs.Depth.Reaches
/-!
# Every part of a tree is reached

Lowering and binding go down a tree level by level, each in an order of its own. For every kind of
node, where lowering gets through, binding has resolved what lowering touches in it.
-/
namespace RegisterForm
open BindStep Lowering

variable {s : Setting}

/-- An update of an exported name is lowered without a look into its parentheses. -/
theorem touched_of_skipParens {e : Expr} {x : Ident} (h : e.skipParens = .ident x) :
    e.touched s = [{ ident := x }] := by
  match e with
  | .ident y =>
    cases h
    rfl
  | .paren inner =>
    have hinner : inner.skipParens = .ident x := h
    exact touched_of_skipParens (e := inner) hinner

theorem settles_publishedUpdate? {op : UpdateOp} {isPrefix isUsed : Bool} {arg e : Expr}
    (h : s.publishedUpdate? op isPrefix isUsed arg = some e) (σ : List BindStep) :
    ∀ u ∈ arg.touched s, s.Settles σ u := by
  unfold Setting.publishedUpdate? at h
  split at h
  · next x hx =>
    split at h
    · cases h
    · next hnames =>
      rw [touched_of_skipParens hx]
      intro u hu _
      obtain rfl := List.mem_singleton.mp hu
      exact .inr (by simpa using hnames)
  · cases h

/-- The calls of a loop are known before its head is lowered. -/
theorem ForHead.lower_exports (place : Place) (head : ForHead) :
    Yields Any (head.lower s place) fun r => r.2 = head.exports s place := by
  match head with
  | .var ⟨kind, []⟩ => exact .pure rfl
  | .pattern p => exact (yields_any _).bind fun _ _ => .pure rfl
  | .var ⟨kind, ⟨target, init⟩ :: ds⟩ =>
    unfold ForHead.lower ForHead.exports
    dsimp only
    split
    · exact (yields_any _).bind fun _ _ => (yields_any _).bind fun _ _ => .pure rfl
    · refine (yields_any _).bind fun _ _ => (yields_any _).bind fun _ _ => ?_
      exact (yields_any _).bind fun _ _ => .pure rfl

mutual

theorem Expr.reaches : (e : Expr) → (isUsed : Bool) → (d : Nat) →
    Reaches s (e.bindSteps d) d (e.lower s isUsed) (e.touched s)
  | .ident x, _, d => .deeper fun _ => .reference x (.pure _)
  | .literal value, _, d => .deeper fun _ => .pure _
  | .this, _, d => .deeper fun _ => .pure _
  | .super, _, d => .deeper fun _ => .pure _
  | .importMeta, _, d => .deeper fun _ => .pure _
  | .template chunks parts, _, d => .deeper fun _ => (reaches_exprs parts _).map
  | .tagged tag chunks parts, _, d =>
    .deeper fun _ => (tag.reaches true _).bind fun _ => (reaches_exprs parts _).map
  | .array elements, _, d => .deeper fun _ => (reaches_slots elements _).map
  | .object properties, _, d => .deeper fun _ => (reaches_properties properties _).map
  | .function f, _, d => .deeper fun _ => (f.reaches true _).map
  | .arrow params body isAsync, _, d => by
    have hinner := (reaches_params params (d + 1)).bind fun params =>
      (body.reaches (d + 1)).map (g := fun body => (params, body))
    exact .deeper fun _ => hinner.inFunction.body.map
  | .classExpr c, _, d => .deeper fun _ => (c.reaches true _).map
  | .unary op arg, _, d => .deeper fun _ => (arg.reaches true _).map
  | .update op isPrefix arg, isUsed, d => by
    refine .deeper fun _ => ?_
    cases hpublished : s.publishedUpdate? op isPrefix isUsed arg with
    | some e =>
      intro p a p' hp hr
      cases hr
      exact ⟨hp, settles_publishedUpdate? hpublished _⟩
    | none => exact (arg.reaches true _).map
  | .binary op left right, _, d =>
    .deeper fun _ => (left.reaches true _).bind fun _ => (right.reaches true _).map
  | .assign op target value, isUsed, d => by
    refine .deeper fun _ => .ite (fun _ => ?_) fun _ => ?_
    · -- a pattern that is taken apart comes after the value
      have hassigns : ∀ (r : List Expr × Expr) (result : List Expr),
          Reaches s (target.bindSteps (d + 1)) (d + 1) (do
            let exprs ← target.flatten s target.boundNames 0 r.2
            return (Expr.ofList (r.1 ++ exprs ++ result)).getD r.2) (target.touched s) :=
        fun r _ => (target.reaches_flatten (d + 1) _ 0 r.2).map
      refine (value.reaches true _).bindSwap fun value => .ite (fun _ => ?_) fun _ => ?_
      · exact (Reaches.stabilize _ value).bind fun r => hassigns r _
      · exact hassigns ([], value) _
    · exact (target.reaches _).bind fun _ => (value.reaches true _).map
  | .conditional test yes no, isUsed, d =>
    .deeper fun _ => .assoc <| (test.reaches true _).bind fun _ => (yes.reaches isUsed _).bind fun _ =>
      (no.reaches isUsed _).map
  | .call callee args isOptional, _, d =>
    .deeper fun _ => (callee.reaches true _).bind fun _ => (reaches_exprs args _).map
  | .newBare callee, _, d => .deeper fun _ => (callee.reaches true _).map
  | .newCall callee args, _, d =>
    .deeper fun _ => (callee.reaches true _).bind fun _ => (reaches_exprs args _).map
  | .member owner name isOptional, _, d => .deeper fun _ => (owner.reaches true _).map
  | .index owner key isOptional, _, d =>
    .deeper fun _ => (owner.reaches true _).bind fun _ => (key.reaches true _).map
  | .sequence exprs, isUsed, d => .deeper fun _ => (reaches_sequence exprs isUsed _).map
  | .paren inner, isUsed, d => .deeper fun _ => (inner.reaches isUsed _).map
  | .yield arg isDelegate, _, d => .deeper fun _ => (reaches_expr? arg _).map
  | .await arg, _, d => .deeper fun _ => (arg.reaches true _).map
  | .spread arg, _, d => .deeper fun _ => (arg.reaches true _).map
  | .importCall specifier, _, d => .deeper fun _ => (specifier.reaches true _).map

theorem reaches_exprs : (es : List Expr) → (d : Nat) →
    Reaches s (exprsBindSteps es d) d (lowerExprs s es) (exprsTouched s es)
  | [], _ => .pure _
  | e :: es, d => (e.reaches true d).bind fun _ => (reaches_exprs es d).map

theorem reaches_sequence : (es : List Expr) → (isUsed : Bool) → (d : Nat) →
    Reaches s (exprsBindSteps es d) d (lowerSequence s isUsed es) (exprsTouched s es)
  | [], _, _ => .pure _
  | e :: es, isUsed, d => (e.reaches _ d).bind fun _ => (reaches_sequence es isUsed d).map

theorem reaches_expr? : (e : Option Expr) → (d : Nat) →
    Reaches s (exprBindSteps? e d) d (lowerExpr? s e) (exprTouched? s e)
  | none, _ => .pure _
  | some e, d => (e.reaches true d).map

theorem reaches_slots : (es : List (Option Expr)) → (d : Nat) →
    Reaches s (slotsBindSteps es d) d (lowerSlots s es) (slotsTouched s es)
  | [], _ => .pure _
  | e :: es, d => (reaches_expr? e d).bind fun _ => (reaches_slots es d).map

theorem Key.reaches : (key : Key) → (d : Nat) →
    Reaches s (key.bindSteps d) d (key.lower s) (key.touched s)
  | .name _, _ | .string _, _ | .number _, _ => .pure _
  | .computed e, d => (e.reaches true d).map

theorem Property.reaches : (p : Property) → (d : Nat) →
    Reaches s (p.bindSteps d) d (p.lower s) (p.touched s)
  | .keyed key value, d => (key.reaches d).bind fun _ => (value.reaches true d).map
  | .shorthand x, _ => .reference x (.pure _)
  | .method key _ f, d => (key.reaches d).bind fun _ => (f.reaches false d).map
  | .spread e, d => (e.reaches true d).map

theorem reaches_properties : (ps : List Property) → (d : Nat) →
    Reaches s (propertiesBindSteps ps d) d (lowerProperties s ps) (propertiesTouched s ps)
  | [], _ => .pure _
  | p :: ps, d => (p.reaches d).bind fun _ => (reaches_properties ps d).map

-- Patterns that stay patterns.

theorem Pattern.reaches : (p : Pattern) → (d : Nat) →
    Reaches s (p.bindSteps d) d (p.lower s) (p.touched s)
  | .ident x, _ => .reference x (.pure _)
  | .expr e, d => (e.reaches true d).map
  | .object properties rest, d =>
    (reaches_patternProperties properties d).bind fun _ => (reaches_pattern? rest d).map
  | .array elements rest, d =>
    (reaches_patternSlots elements d).bind fun _ => (reaches_pattern? rest d).map

theorem reaches_pattern? : (p : Option Pattern) → (d : Nat) →
    Reaches s (patternBindSteps? p d) d (lowerPattern? s p) (patternTouched? s p)
  | none, _ => .pure _
  | some p, d => (p.reaches d).map

theorem PatternProperty.reaches : (p : PatternProperty) → (d : Nat) →
    Reaches s (p.bindSteps d) d (p.lower s) (p.touched s)
  | .keyed key target fallback, d =>
    .assoc <| (key.reaches d).bind fun _ => (target.reaches d).bind fun _ =>
      (reaches_expr? fallback d).map
  | .shorthand x fallback, d => .reference x (reaches_expr? fallback d).map

theorem reaches_patternProperties : (ps : List PatternProperty) → (d : Nat) →
    Reaches s (patternPropertiesBindSteps ps d) d (lowerPatternProperties s ps)
      (patternPropertiesTouched s ps)
  | [], _ => .pure _
  | p :: ps, d => (p.reaches d).bind fun _ => (reaches_patternProperties ps d).map

theorem PatternElement.reaches : (e : PatternElement) → (d : Nat) →
    Reaches s (e.bindSteps d) d (e.lower s) (e.touched s)
  | ⟨target, fallback⟩, d => (target.reaches d).bind fun _ => (reaches_expr? fallback d).map

theorem reaches_patternSlot : (e : Option PatternElement) → (d : Nat) →
    Reaches s (patternSlotBindSteps e d) d (lowerPatternSlot s e) (patternSlotTouched s e)
  | none, _ => .pure _
  | some e, d => (e.reaches d).map

theorem reaches_patternSlots : (es : List (Option PatternElement)) → (d : Nat) →
    Reaches s (patternSlotsBindSteps es d) d (lowerPatternSlots s es) (patternSlotsTouched s es)
  | [], _ => .pure _
  | e :: es, d => (reaches_patternSlot e d).bind fun _ => (reaches_patternSlots es d).map

-- Patterns that are taken apart.

theorem Pattern.reaches_flatten : (p : Pattern) → (d : Nat) →
    ∀ (bound : List String) (depth : Nat) (value : Expr),
      Reaches s (p.bindSteps d) d (p.flatten s bound depth value) (p.touched s)
  | .ident x, _ => fun _ depth _ => .reference x (Reaches.guardPatternDepth depth).map
  | .expr e, d => fun _ depth _ =>
    (Reaches.guardPatternDepth depth).bind fun _ => (e.reaches true d).map
  | .object properties rest, d => by
    intro bound depth value
    refine (Reaches.guardPatternDepth depth).bind fun _ => ?_
    refine (Reaches.stabilizeUnlessOne _ bound value).bind fun r => ?_
    refine (reaches_flattenProperties properties d bound _ rest.isSome r.2).bind fun r' => ?_
    have hrest := (reaches_flattenRest rest d bound (depth + 1) (restCall r.2 r'.2)).map
      (g := fun remaining => r.1 ++ r'.1 ++ remaining)
    exact .ite (fun _ => Reaches.requireRest.bind fun _ => hrest) fun _ => hrest
  | .array elements rest, d => by
    intro bound depth value
    refine (Reaches.guardPatternDepth depth).bind fun _ => ?_
    refine (Reaches.stabilizeUnlessOne _ bound value).bind fun r => ?_
    refine (reaches_flattenSlots elements d bound _ 0 r.2).bind fun _ => ?_
    exact (reaches_flattenRest rest d bound _ _).map

theorem reaches_flattenRest : (rest : Option Pattern) → (d : Nat) →
    ∀ (bound : List String) (depth : Nat) (value : Expr),
      Reaches s (patternBindSteps? rest d) d (flattenRest s bound depth rest value)
        (patternTouched? s rest)
  | none, _ => fun _ _ _ => .pure _
  | some p, d => p.reaches_flatten d

theorem reaches_flattenFallback : (fallback : Option Expr) → (d : Nat) →
    ∀ (bound : List String) (value : Expr),
      Reaches s (exprBindSteps? fallback d) d (flattenFallback s bound fallback value)
        (exprTouched? s fallback)
  | none, _ => fun _ _ => .pure _
  | some e, d => fun bound value =>
    (Reaches.stabilize bound value).bind fun _ => (e.reaches true d).map

theorem Key.reaches_flatten : (key : Key) → (d : Nat) →
    ∀ (bound : List String) (hasRest : Bool) (value : Expr),
      Reaches s (key.bindSteps d) d (key.flatten s bound hasRest value) (key.touched s)
  | .name _, _ | .string _, _ | .number _, _ => fun _ _ _ => .pure _
  | .computed e, d => by
    intro bound hasRest value
    have hkey : ∀ key : Expr, Reaches s [] d (do
        if hasRest then
          let (held, key) ← stabilize bound key
          return (held, value.lookup key, propertyKey key)
        else return ([], value.lookup key, key)) [] :=
      fun key => .ite (fun _ => (Reaches.stabilize bound key).map) fun _ => .pure _
    exact (e.reaches true d).andThen hkey

theorem PatternProperty.reaches_flatten : (p : PatternProperty) → (d : Nat) →
    ∀ (bound : List String) (depth : Nat) (hasRest : Bool) (value : Expr),
      Reaches s (p.bindSteps d) d (p.flatten s bound depth hasRest value) (p.touched s)
  | .keyed key target fallback, d => by
    intro bound depth hasRest value
    refine .assoc <| (key.reaches_flatten d bound hasRest value).bind fun r => ?_
    exact (reaches_flattenFallback fallback d bound r.2.1).bindSwap fun r' =>
      (target.reaches_flatten d bound depth r'.2).map
  | .shorthand x fallback, d => fun bound depth _ _ =>
    .reference x <| (reaches_flattenFallback fallback d bound _).andThen fun _ =>
      (Reaches.guardPatternDepth depth).map

theorem reaches_flattenProperties : (ps : List PatternProperty) → (d : Nat) →
    ∀ (bound : List String) (depth : Nat) (hasRest : Bool) (value : Expr),
      Reaches s (patternPropertiesBindSteps ps d) d
        (flattenProperties s bound depth hasRest ps value) (patternPropertiesTouched s ps)
  | [], _ => fun _ _ _ _ => .pure _
  | p :: ps, d => fun bound depth hasRest value =>
    (p.reaches_flatten d bound depth hasRest value).bind fun _ =>
      (reaches_flattenProperties ps d bound depth hasRest value).map

theorem PatternElement.reaches_flatten : (e : PatternElement) → (d : Nat) →
    ∀ (bound : List String) (depth : Nat) (value : Expr),
      Reaches s (e.bindSteps d) d (e.flatten s bound depth value) (e.touched s)
  | ⟨target, fallback⟩, d => fun bound depth value =>
    (reaches_flattenFallback fallback d bound value).bindSwap fun r =>
      (target.reaches_flatten d bound depth r.2).map

theorem reaches_flattenSlot : (e : Option PatternElement) → (d : Nat) →
    ∀ (bound : List String) (depth : Nat) (value : Expr),
      Reaches s (patternSlotBindSteps e d) d (flattenSlot s bound depth e value)
        (patternSlotTouched s e)
  | none, _ => fun _ _ _ => .pure _
  | some e, d => e.reaches_flatten d

theorem reaches_flattenSlots : (es : List (Option PatternElement)) → (d : Nat) →
    ∀ (bound : List String) (depth index : Nat) (value : Expr),
      Reaches s (patternSlotsBindSteps es d) d (flattenSlots s bound depth index es value)
        (patternSlotsTouched s es)
  | [], _ => fun _ _ _ _ => .pure _
  | e :: es, d => fun bound depth index value =>
    (reaches_flattenSlot e d bound depth _).bind fun _ =>
      (reaches_flattenSlots es d bound depth (index + 1) value).map

-- Functions and classes.

theorem Param.reaches : (p : Param) → (d : Nat) →
    Reaches s (p.bindSteps d) d (p.lower s) (p.touched s)
  | ⟨pattern, fallback, _⟩, d => (pattern.reaches d).bind fun _ => (reaches_expr? fallback d).map

theorem reaches_params : (ps : List Param) → (d : Nat) →
    Reaches s (paramsBindSteps ps d) d (lowerParams s ps) (paramsTouched s ps)
  | [], _ => .pure _
  | p :: ps, d => (p.reaches d).bind fun _ => (reaches_params ps d).map

theorem Func.reaches (isExpression : Bool) : (f : Func) → (d : Nat) →
    Reaches s (f.bindSteps isExpression d) d (f.lower s) (f.touched s)
  | ⟨name, params, body, _, _⟩, d => by
    have hinner := (reaches_params params d).bind fun params =>
      (reaches_stmts body .function d).map (g := fun body => (params, body))
    exact hinner.inFunction.body.named.map

theorem ArrowBody.reaches : (body : ArrowBody) → (d : Nat) →
    Reaches s (body.bindSteps d) d (body.lower s) (body.touched s)
  | .block body, d => (reaches_stmts body .function d).map
  | .expr e, d => (e.reaches true d).map

theorem Class.reaches (isExpression : Bool) : (c : Class) → (d : Nat) →
    Reaches s (c.bindSteps isExpression d) d (c.lower s) (c.touched s)
  | ⟨_, base, members⟩, d =>
    .named <| (reaches_expr? base d).bind fun _ => (reaches_members members d).map

theorem ClassMember.reaches : (m : ClassMember) → (d : Nat) →
    Reaches s (m.bindSteps d) d (m.lower s) (m.touched s)
  | .method key _ _ f, d => (key.reaches d).bind fun _ => (f.reaches false d).map
  | .field key _ value, d => (key.reaches d).bind fun _ => (reaches_expr? value d).map
  | .staticBlock body, d => (reaches_stmts body .function d).inFunction.staticBlock.map

theorem reaches_members : (ms : List ClassMember) → (d : Nat) →
    Reaches s (membersBindSteps ms d) d (lowerMembers s ms) (membersTouched s ms)
  | [], _ => .pure _
  | m :: ms, d => (m.reaches d).bind fun _ => (reaches_members ms d).map

-- Declaration lists.

theorem Declarator.reaches : (v : Declarator) → (d : Nat) →
    Reaches s (v.bindSteps d) d (v.lower s) (v.touched s false)
  | ⟨target, init⟩, d => (target.reaches d).bind fun _ => (reaches_expr? init d).map

theorem reaches_declarators : (vs : List Declarator) → (d : Nat) →
    Reaches s (declaratorsBindSteps vs d) d (lowerDeclarators s vs) (declaratorsTouched s false vs)
  | [], _ => .pure _
  | v :: vs, d => (v.reaches d).bind fun _ => (reaches_declarators vs d).map

theorem Declarator.reaches_hoisted : (v : Declarator) → (d : Nat) →
    Reaches s (v.bindSteps d) d (v.hoisted s) (v.touched s true)
  | ⟨_, none⟩, _ => (Reaches.hoist _).map.unread
  | ⟨target, some init⟩, d =>
    (Reaches.hoist _).bind fun _ => (init.reaches true d).bindSwap fun value =>
      target.reaches_flatten d _ 0 value

theorem reaches_hoistedDeclarators : (vs : List Declarator) → (d : Nat) →
    Reaches s (declaratorsBindSteps vs d) d (hoistedDeclarators s vs) (declaratorsTouched s true vs)
  | [], _ => .pure _
  | v :: vs, d => (v.reaches_hoisted d).bind fun _ => (reaches_hoistedDeclarators vs d).map

/-- A list is taken apart or kept. -/
theorem VarList.reaches (isHoisted : Bool) : (list : VarList) → (d : Nat) →
    (isHoisted = true → Reaches s (list.bindSteps d) d (list.hoisted s) (list.touched s isHoisted)) ∧
      (¬isHoisted = true →
        Reaches s (list.bindSteps d) d (list.lower s) (list.touched s isHoisted))
  | ⟨_, declarators⟩, d => by
    cases isHoisted with
    | true => exact ⟨fun _ => reaches_hoistedDeclarators declarators d, fun h => absurd rfl h⟩
    | false => exact ⟨nofun, fun _ => (reaches_declarators declarators d).map⟩

-- Statements.

theorem ForInit.reaches (place : Place) : (init : ForInit) → (d : Nat) →
    Reaches s (init.bindSteps d) d (init.lower s place) (init.touched s place)
  | .absent, _ => .pure _
  | .var list, d => by
    have hlist := list.reaches (place.hoistsVars && list.kind == .var) d
    refine .ite (fun hhoisted => ?_) fun hkept => (hlist.2 hkept).map
    refine (hlist.1 hhoisted).andThen fun exprs => ?_
    cases Expr.ofList exprs <;> exact .pure _
  | .expr e, d => (e.reaches false d).map

theorem ForHead.reaches (place : Place) : (head : ForHead) → (d : Nat) →
    Reaches s (head.bindSteps d) d (head.lower s place) (head.touched s place)
  | .var ⟨_, []⟩, _ => .pure _
  | .var ⟨_, ⟨target, init⟩ :: ds⟩, d => by
    refine .iteBoth (fun _ => ?_) fun _ => ?_
    · exact (Reaches.hoist _).bind fun _ => (target.reaches d).left.left.map
    · exact .assoc <| (target.reaches d).bind fun _ => (reaches_expr? init d).bind fun _ =>
        (reaches_declarators ds d).map
  | .pattern p, d => (p.reaches d).map

theorem Catch.reaches (place : Place) : (c : Catch) → (d : Nat) →
    Reaches s (c.bindSteps d) d (c.lower s place) (c.touched s place)
  | ⟨param, body⟩, d =>
    .handler <| (reaches_pattern? param d).bind fun _ => (reaches_stmts body place d).map

theorem reaches_catch? (place : Place) : (c : Option Catch) → (d : Nat) →
    Reaches s (catchBindSteps? c d) d (lowerCatch? s place c) (catchTouched? s place c)
  | none, _ => .pure _
  | some c, d => (c.reaches place d).map

theorem reaches_finally? (place : Place) : (body : Option (List Stmt)) → (d : Nat) →
    Reaches s (finallyBindSteps? body d) d (lowerBlock? s place body) (blockTouched? s place body)
  | none, _ => .pure _
  | some body, d => (reaches_stmts body place d).inScope.map

theorem Case.reaches (place : Place) : (c : Case) → (d : Nat) →
    Reaches s (c.bindSteps d) d (c.lower s place) (c.touched s place)
  | ⟨test, body⟩, d => (reaches_expr? test d).bind fun _ => (reaches_stmts body place d).map

theorem reaches_cases (place : Place) : (cs : List Case) → (d : Nat) →
    Reaches s (casesBindSteps cs d) d (lowerCases s place cs) (casesTouched s place cs)
  | [], _ => .pure _
  | c :: cs, d => (c.reaches place d).bind fun _ => (reaches_cases place cs d).map

theorem reaches_stmts : (sts : List Stmt) → (place : Place) → (d : Nat) →
    Reaches s (stmtsBindSteps sts d) d (lowerStmts s place sts) (stmtsTouched s place sts)
  | [], _, _ => .pure _
  | st :: sts, place, d => (st.reaches place d).bind fun _ => (reaches_stmts sts place d).map

theorem reaches_unused? : (e : Option Expr) → (d : Nat) →
    Reaches s (exprBindSteps? e d) d (lowerUnused? s e) (exprTouched? s e)
  | none, _ => .pure _
  | some e, d => (e.reaches false d).map

theorem Stmt.reaches : (st : Stmt) → (place : Place) → (d : Nat) →
    Reaches s (st.bindSteps d) d (st.lower s place) (st.touched s place)
  | .expr e, _, d => .deeper fun _ => (e.reaches false _).map
  | .var modifiers list, place, d => by
    have hlist := list.reaches (place.takesApart list.kind) (d + 1)
    refine .deeper fun _ => .ite (fun hhoisted => ?_) fun hkept => (hlist.2 hkept).map
    refine .ite (fun _ => ?_) fun _ => (hlist.1 hhoisted).map
    exact (Reaches.addExportedNames _).bind fun _ => (hlist.1 hhoisted).map
  | .function modifiers f, place, d => by
    refine .deeper fun _ => (f.reaches false _).andThen fun f => .ite (fun _ => ?_) fun _ => .pure _
    exact (Reaches.hoistFunction modifiers f).map
  | .classDecl modifiers c, place, d => by
    refine .deeper fun _ => .ite (fun _ => ?_) fun _ => (c.reaches false _).map
    refine (Reaches.hoistClassName c.name).bind fun name => ?_
    exact (c.reaches false _).andThen fun c => Reaches.classAssignment modifiers name c
  | .importFrom site clause specifier isTypeOnly, place, d =>
    .deeper fun _ => .ite (fun _ => (Reaches.hoist _).map) fun _ => .pure _
  | .importEquals site isExported name .require value, place, d => by
    refine .deeper fun _ => .ite (fun _ => .ite (fun _ => .pure _) fun _ => ?_) fun _ => .pure _
    refine (Reaches.hoist _).bind fun _ => .ite (fun _ => ?_) fun _ => .pure _
    exact (Reaches.addExportedName _).map
  | .importEquals site isExported name .entity value, place, d => by
    have hvalue := (value.reaches true (d + 1)).map
      (g := fun value => [Stmt.expr (s.bindingAssignment name value)])
    refine .deeper fun _ => .readIf (fun hread => ?_) fun hunread => ?_
    · refine .ite (fun _ => .ite (fun h => by simp [hread.2] at h) fun _ => ?_)
        fun h => absurd hread.1 h
      refine (Reaches.hoist _).bind fun _ => .ite (fun _ => ?_) fun _ => hvalue
      exact (Reaches.addExportedName _).bind fun _ => hvalue
    · refine .ite (fun hplace => .ite (fun _ => .pure _) fun h => ?_) fun _ => .pure _
      exact absurd ⟨hplace, by simpa using h⟩ hunread
  | .exportFrom site (some (.named specs)) none false, place, d => by
    refine .deeper fun _ => .readIf (fun hplace => ?_) fun hplace => ?_
    · exact .ite (fun _ => .exportClause specs) fun h => absurd hplace h
    · exact .ite (fun h => absurd h hplace) fun _ => .pure _
  | .exportFrom _ (some (.named _)) none true, _, _ =>
    .deeper fun _ => .unread (.ite (fun _ => .pure _) fun _ => .pure _)
  | .exportFrom _ (some (.named _)) (some _) _, _, _ =>
    .deeper fun _ => .unread (.ite (fun _ => .pure _) fun _ => .pure _)
  | .exportFrom _ (some (.star _)) _ _, _, _ | .exportFrom _ none _ _, _, _ =>
    .deeper fun _ => .ite (fun _ => .pure _) fun _ => .pure _
  | .exportValue site form value, place, d => by
    refine .deeper fun _ => .readIf (fun hread => ?_) fun hunread => ?_
    · exact .ite (fun _ => .ite (fun h => by simp [hread.2] at h) fun _ => (value.reaches true _).map)
        fun h => absurd hread.1 h
    · refine .ite (fun hplace => .ite (fun _ => .pure _) fun h => ?_) fun _ => .pure _
      exact absurd ⟨hplace, by simpa using h⟩ hunread
  | .ambient name isExported, _, d => .deeper fun _ => .pure _
  | .block body, place, d => .deeper fun _ => (reaches_stmts body place.inner _).inScope.map
  | .ifThen test yes, place, d =>
    .deeper fun _ => (test.reaches true _).bind fun _ => (yes.reaches place.inner _).map
  | .ifElse test yes no, place, d =>
    .deeper fun _ => .assoc <| (test.reaches true _).bind fun _ =>
      (yes.reaches place.inner _).bind fun _ => (no.reaches place.inner _).map
  | .forLoop init test update body, place, d =>
    .deeper fun _ => .inScopeIf <| .assoc <| .assoc <| (init.reaches place _).bind fun _ =>
      (reaches_expr? test _).bind fun _ => (reaches_unused? update _).bind fun _ =>
      (body.reaches place.inner _).map
  | .forIn head object body, place, d => by
    have hhead := head.reaches place (d + 1)
    have hobject := object.reaches true (d + 1)
    have hbody := body.reaches place.inner (d + 1)
    cases body with
    | block inner =>
      refine .deeper fun _ => hhead.enumeration (head.lower_exports place) hobject fun r hr => ?_
      have hblock : ∀ exports, Reaches s ((Stmt.block inner).bindSteps (d + 1)) (d + 1)
          (blockBody s exports (lowerStmts s place.inner inner))
          (Touch.inBlock exports (stmtsTouched s place.inner inner)) :=
        fun _ => .blockBody fun d => reaches_stmts inner place.inner d
      exact hr ▸ hblock r.2
    | _ =>
      exact .deeper fun _ => hhead.enumeration (head.lower_exports place) hobject fun _ _ => hbody
  | .forOf head iterable body isAwait, place, d => by
    have hhead := head.reaches place (d + 1)
    have hobject := iterable.reaches true (d + 1)
    have hbody := body.reaches place.inner (d + 1)
    cases body with
    | block inner =>
      refine .deeper fun _ => hhead.enumeration (head.lower_exports place) hobject fun r hr => ?_
      have hblock : ∀ exports, Reaches s ((Stmt.block inner).bindSteps (d + 1)) (d + 1)
          (blockBody s exports (lowerStmts s place.inner inner))
          (Touch.inBlock exports (stmtsTouched s place.inner inner)) :=
        fun _ => .blockBody fun d => reaches_stmts inner place.inner d
      exact hr ▸ hblock r.2
    | _ =>
      exact .deeper fun _ => hhead.enumeration (head.lower_exports place) hobject fun _ _ => hbody
  | .whileLoop test body, place, d =>
    .deeper fun _ => (test.reaches true _).bind fun _ => (body.reaches place.inner _).map
  | .doWhile body test, place, d =>
    .deeper fun _ => (body.reaches place.inner _).bindSwap fun _ => (test.reaches true _).map
  | .tryCatch body handler finalizer, place, d =>
    .deeper fun _ => .assoc <| (reaches_stmts body place.inner _).inScope.bind fun _ =>
      (reaches_catch? place.inner handler _).bind fun _ =>
      (reaches_finally? place.inner finalizer _).map
  | .switch subject cases, place, d =>
    .deeper fun _ => (subject.reaches true _).bind fun _ =>
      (reaches_cases place.inner cases _).inScope.map
  | .labeled label body, place, d => .deeper fun _ => (body.reaches place.inner _).map
  | .withObject object body, place, d =>
    .deeper fun _ => (object.reaches true _).bind fun _ => (body.reaches place.inner _).map
  | .ret arg, _, d => .deeper fun _ => (reaches_expr? arg _).map
  | .throw arg, _, d => .deeper fun _ => (arg.reaches true _).map
  | .breakTo label, _, d | .continueTo label, _, d => .deeper fun _ => .pure _
  | .empty, _, d | .debugger, _, d => .deeper fun _ => .pure _

end
end RegisterForm
