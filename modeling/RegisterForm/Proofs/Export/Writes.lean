import RegisterForm.Proofs.Export.Emits
/-!
# Writes

Whatever a module does deep inside its functions, classes and patterns: each write to an exported
variable is published where it happens, and nothing else in an expression is. The proof follows
the lowering of every kind of node.
-/
namespace RegisterForm
open Lowering

variable {s : Setting}

-- Only the rest of a pattern asks that the exporter is not named like the helper for it.
set_option linter.unusedSectionVars false

variable (hrest : s.exporter ≠ restName)
include hrest

mutual

theorem Expr.lower_published : (e : Expr) → (isUsed : Bool) → AllSound e.visits →
    Yields s.Emits (e.lower s isUsed) s.Published
  | .ident x, _, _ =>
    .deeper s (.pure (Setting.published_read x))
  | .literal value, _, _ =>
    .deeper s (.pure (Setting.published_literal value))
  | .this, _, _ =>
    .deeper s (.pure (Setting.published_of_parts Setting.allPublished_nil rfl rfl))
  | .super, _, _ =>
    .deeper s (.pure (Setting.published_of_parts Setting.allPublished_nil rfl rfl))
  | .template chunks parts, _, h =>
    .deeper s ((lowerExprs_published parts h.tail).bind fun parts hparts =>
      .pure (Setting.published_of_parts hparts rfl rfl))
  | .tagged tag chunks parts, _, h =>
    .deeper s ((tag.lower_published true h.tail.left).bind fun tag htag =>
      (lowerExprs_published parts h.tail.right).bind fun parts hparts =>
        .pure (Setting.published_of_parts (.cons htag hparts) rfl rfl))
  | .array elements, _, h =>
    .deeper s ((lowerSlots_published elements h.tail).bind fun elements helements =>
      .pure (Setting.published_of_parts helements rfl rfl))
  | .object properties, _, h =>
    .deeper s ((lowerProperties_published properties h.tail).bind fun properties hproperties =>
      .pure (Setting.published_of_parts hproperties rfl rfl))
  | .function f, _, h =>
    .deeper s ((f.lower_published h.tail).bind fun f hf =>
      .pure (Setting.published_of_parts hf rfl rfl))
  | .arrow params body isAsync, _, h => by
    have hinner : Yields s.Emits
        (do return (← lowerParams s params, ← body.lower s) : Lowering (List Param × ArrowBody))
        fun r => s.AllPublished (r.1.flatMap (·.exprs)) ∧ s.AllPublished r.2.exprs :=
      (lowerParams_published params h.tail.left).bind fun params hparams =>
        (body.lower_published h.tail.right).bind fun body hbody => .pure ⟨hparams, hbody⟩
    refine .deeper s ((yields_inFunction_published hinner).bind fun r hr => .pure ?_)
    obtain ⟨⟨params, body⟩, declarations⟩ := r
    obtain ⟨⟨hparams, hbody⟩, hdeclarations : s.AllPublished (stmtsExprs declarations)⟩ := hr
    refine Setting.published_of_parts ?_ rfl rfl
    have hwhole : s.AllPublished (body.withDeclarations declarations).exprs := by
      unfold ArrowBody.withDeclarations
      split
      · exact hbody
      · simpa [ArrowBody.exprs, stmtsExprs, and_assoc] using And.intro hdeclarations hbody
      · simpa [ArrowBody.exprs, stmtsExprs, and_assoc] using And.intro hdeclarations hbody
    simpa only [Expr.parts, Setting.allPublished_append] using ⟨hparams, hwhole⟩
  | .classExpr c, _, h =>
    .deeper s ((c.lower_published h.tail).bind fun c hc =>
      .pure (Setting.published_of_parts hc rfl rfl))
  | .unary op arg, _, h =>
    .deeper s ((arg.lower_published true h.tail).bind fun arg harg =>
      .pure (Setting.published_of_parts (.one harg) rfl rfl))
  | .update op isPrefix arg, isUsed, h => by
    refine .deeper s ?_
    cases hp : s.publishedUpdate? op isPrefix isUsed arg with
    | some e => exact .pure (Setting.published_publishedUpdate? hp)
    | none =>
      exact ((arg.lower_published true h.tail).and (arg.lower_ident true)).bind
        fun arg harg => .pure (published_update hp harg.2 harg.1)
  | .binary op left right, _, h =>
    .deeper s ((left.lower_published true h.tail.left).bind fun left hleft =>
      (right.lower_published true h.tail.right).bind fun right hright =>
        .pure (Setting.published_of_parts (.cons hleft (.one hright)) rfl rfl))
  | .assign op target value, isUsed, h => by
    refine .deeper s (.ite (fun _ => ?_) fun _ => ?_)
    · refine (value.lower_published true h.tail.right).bind fun value hvalue => ?_
      have hassigns : ∀ (r : List Expr × Expr) (result : Expr → List Expr),
          s.AllPublished r.1 ∧ s.Published r.2 → s.AllPublished (result r.2) →
          Yields s.Emits (do
            let exprs ← target.flatten s target.boundNames 0 r.2
            return (Expr.ofList (r.1 ++ exprs ++ result r.2)).getD r.2) s.Published := by
        intro r result hr hresult
        refine (target.flatten_published h.tail.left _ 0 r.2 hr.2).bind fun exprs hexprs => .pure ?_
        exact Setting.published_getD_ofList (by simpa using ⟨hr.1, hexprs, hresult⟩) hr.2
      refine .ite (fun hu => ?_) fun hu => ?_
      · subst hu
        refine (yields_stabilize_published target.boundNames hvalue).bind fun r hr => ?_
        exact hassigns r (fun value => [value]) hr (by simpa using hr.2)
      · have hu' : isUsed = false := by simpa using hu
        subst hu'
        exact hassigns ([], value) (fun _ => []) ⟨Setting.allPublished_nil, hvalue⟩
          Setting.allPublished_nil
    · exact (target.lower_published h.tail.left).bind fun target htarget =>
        (value.lower_published true h.tail.right).bind fun value hvalue =>
          .pure (Setting.published_publishedTo htarget hvalue)
  | .conditional test yes no, isUsed, h =>
    .deeper s ((test.lower_published true h.tail.left.left).bind fun test htest =>
      (yes.lower_published isUsed h.tail.left.right).bind fun yes hyes =>
        (no.lower_published isUsed h.tail.right).bind fun no hno => .pure
          (Setting.published_of_parts (.cons htest (.cons hyes (.one hno))) rfl rfl))
  | .call callee args isOptional, _, h =>
    .deeper s (((callee.lower_published true h.tail.left).and (callee.lower_ident true)).bind
      fun callee hcallee => (lowerExprs_published args h.tail.right).bind fun args hargs =>
        .pure (published_call h.tail.left hcallee.2 hcallee.1 hargs))
  | .newBare callee, _, h =>
    .deeper s ((callee.lower_published true h.tail).bind fun callee hcallee =>
      .pure (Setting.published_of_parts (.one hcallee) rfl rfl))
  | .newCall callee args, _, h =>
    .deeper s ((callee.lower_published true h.tail.left).bind fun callee hcallee =>
      (lowerExprs_published args h.tail.right).bind fun args hargs =>
        .pure (Setting.published_of_parts (.cons hcallee hargs) rfl rfl))
  | .member owner name isOptional, _, h =>
    .deeper s ((owner.lower_published true h.tail.left).bind fun owner howner =>
      .pure (Setting.published_of_parts (.one howner) rfl rfl))
  | .index owner key isOptional, _, h =>
    .deeper s ((owner.lower_published true h.tail.left).bind fun owner howner =>
      (key.lower_published true h.tail.right).bind fun key hkey =>
        .pure (Setting.published_of_parts (.cons howner (.one hkey)) rfl rfl))
  | .sequence exprs, isUsed, h =>
    .deeper s ((lowerSequence_published exprs isUsed h.tail).bind fun exprs hexprs =>
      .pure (Setting.published_sequence hexprs))
  | .paren inner, isUsed, h =>
    .deeper s ((inner.lower_published isUsed h.tail).bind fun inner hinner =>
      .pure (Setting.published_of_parts (.one hinner) rfl rfl))
  | .yield arg isDelegate, _, h =>
    .deeper s ((lowerExpr?_published arg h.tail).bind fun arg harg =>
      .pure (Setting.published_of_parts harg rfl rfl))
  | .await arg, _, h =>
    .deeper s ((arg.lower_published true h.tail).bind fun arg harg =>
      .pure (Setting.published_of_parts (.one harg) rfl rfl))
  | .spread arg, _, h =>
    .deeper s ((arg.lower_published true h.tail).bind fun arg harg =>
      .pure (Setting.published_of_parts (.one harg) rfl rfl))
  | .importCall specifier, _, h => by
    refine .deeper s ((specifier.lower_published true h.tail).bind
      fun specifier hspecifier => .pure ?_)
    exact .other nofun rfl (by simpa [Expr.apply, Expr.parts] using
      ⟨Setting.published_dot (Setting.published_ident _), hspecifier⟩)
  | .importMeta, _, _ =>
    .deeper s (.pure (Setting.published_dot (Setting.published_ident _)))

theorem lowerExprs_published : (es : List Expr) → AllSound (exprsVisits es) →
    Yields s.Emits (lowerExprs s es) s.AllPublished
  | [], _ => .pure Setting.allPublished_nil
  | e :: es, h =>
    (e.lower_published true h.left).bind fun _ he => (lowerExprs_published es h.right).bind
      fun _ hes => .pure (.cons he hes)

theorem lowerSequence_published : (es : List Expr) → (isUsed : Bool) →
    AllSound (exprsVisits es) → Yields s.Emits (lowerSequence s isUsed es) s.AllPublished
  | [], _, _ => .pure Setting.allPublished_nil
  | e :: es, isUsed, h =>
    (e.lower_published _ h.left).bind fun _ he => (lowerSequence_published es isUsed h.right).bind
      fun _ hes => .pure (.cons he hes)

theorem lowerExpr?_published : (e : Option Expr) → AllSound (exprVisits? e) →
    Yields s.Emits (lowerExpr? s e) fun e' => s.AllPublished e'.toList
  | none, _ => .pure Setting.allPublished_nil
  | some e, h => (e.lower_published true h).bind fun _ he =>
    .pure (.one he)

theorem lowerSlots_published : (es : List (Option Expr)) → AllSound (slotsVisits es) →
    Yields s.Emits (lowerSlots s es) fun es' => s.AllPublished (es'.flatMap (·.toList))
  | [], _ => .pure Setting.allPublished_nil
  | e :: es, h =>
    (lowerExpr?_published e h.left).bind fun _ he => (lowerSlots_published es h.right).bind
      fun _ hes => .pure (.append he hes)

theorem Key.lower_published : (key : Key) → AllSound key.visits →
    Yields s.Emits (key.lower s) fun key' => s.AllPublished key'.exprs
  | .name _, _ | .string _, _ | .number _, _ => .pure Setting.allPublished_nil
  | .computed e, h => (e.lower_published true h).bind fun _ he =>
    .pure (.one he)

theorem Property.lower_published : (p : Property) → AllSound p.visits →
    Yields s.Emits (p.lower s) fun p' => s.AllPublished p'.exprs
  | .keyed key value, h =>
    (key.lower_published h.left).bind fun _ hkey => (value.lower_published true h.right).bind
      fun _ hvalue => .pure (.append hkey (.one hvalue))
  | .shorthand x, _ => .pure (readShorthand_published x)
  | .method key _ f, h =>
    (key.lower_published h.left).bind fun _ hkey => (f.lower_published h.right).bind
      fun _ hf => .pure (.append hkey hf)
  | .spread e, h => (e.lower_published true h).bind fun _ he =>
    .pure (.one he)

theorem lowerProperties_published : (ps : List Property) → AllSound (propertiesVisits ps) →
    Yields s.Emits (lowerProperties s ps) fun ps' => s.AllPublished (ps'.flatMap (·.exprs))
  | [], _ => .pure Setting.allPublished_nil
  | p :: ps, h =>
    (p.lower_published h.left).bind fun _ hp => (lowerProperties_published ps h.right).bind
      fun _ hps => .pure (.append hp hps)

-- Patterns that stay patterns.

theorem Pattern.lower_published : (p : Pattern) → AllSound p.visits →
    Yields s.Emits (p.lower s) fun p' => s.AllPublished p'.exprs
  | .ident _, _ => .pure Setting.allPublished_nil
  | .expr e, h =>
    (e.lower_published true h.tail).bind fun _ he =>
      .pure (.one he)
  | .object properties rest, h =>
    (lowerPatternProperties_published properties h.tail.left).bind fun _ hproperties =>
      (lowerPattern?_published rest h.tail.right).bind fun _ hrest =>
        .pure (.append hproperties hrest)
  | .array elements rest, h =>
    (lowerPatternSlots_published elements h.tail.left).bind fun _ helements =>
      (lowerPattern?_published rest h.tail.right).bind fun _ hrest =>
        .pure (.append helements hrest)

theorem lowerPattern?_published : (p : Option Pattern) → AllSound (patternVisits? p) →
    Yields s.Emits (lowerPattern? s p) fun p' => s.AllPublished (patternExprs? p')
  | none, _ => .pure Setting.allPublished_nil
  | some p, h => (p.lower_published h).bind fun _ hp => .pure hp

theorem PatternProperty.lower_published : (p : PatternProperty) → AllSound p.visits →
    Yields s.Emits (p.lower s) fun p' => s.AllPublished p'.exprs
  | .keyed key target fallback, h =>
    (key.lower_published h.left.left).bind fun _ hkey =>
      (target.lower_published h.left.right).bind fun _ htarget =>
        (lowerExpr?_published fallback h.right).bind fun _ hfallback => .pure
          (.append (.append hkey htarget) hfallback)
  | .shorthand _ fallback, h =>
    (lowerExpr?_published fallback h.tail).bind fun _ hfallback => .pure hfallback

theorem lowerPatternProperties_published : (ps : List PatternProperty) →
    AllSound (patternPropertiesVisits ps) →
    Yields s.Emits (lowerPatternProperties s ps) fun ps' =>
      s.AllPublished (patternPropertiesExprs ps')
  | [], _ => .pure Setting.allPublished_nil
  | p :: ps, h =>
    (p.lower_published h.left).bind fun _ hp => (lowerPatternProperties_published ps h.right).bind
      fun _ hps => .pure (.append hp hps)

theorem PatternElement.lower_published : (e : PatternElement) → AllSound e.visits →
    Yields s.Emits (e.lower s) fun e' => s.AllPublished e'.exprs
  | ⟨target, fallback⟩, h =>
    (target.lower_published h.left).bind fun _ htarget =>
      (lowerExpr?_published fallback h.right).bind fun _ hfallback =>
        .pure (.append htarget hfallback)

theorem lowerPatternSlot_published : (e : Option PatternElement) →
    AllSound (patternSlotVisits e) →
    Yields s.Emits (lowerPatternSlot s e) fun e' => s.AllPublished (patternSlotExprs e')
  | none, _ => .pure Setting.allPublished_nil
  | some e, h => (e.lower_published h).bind fun _ he => .pure he

theorem lowerPatternSlots_published : (es : List (Option PatternElement)) →
    AllSound (patternSlotsVisits es) →
    Yields s.Emits (lowerPatternSlots s es) fun es' => s.AllPublished (patternSlotsExprs es')
  | [], _ => .pure Setting.allPublished_nil
  | e :: es, h =>
    (lowerPatternSlot_published e h.left).bind fun _ he =>
      (lowerPatternSlots_published es h.right).bind fun _ hes =>
        .pure (.append he hes)

-- Patterns that are taken apart.

theorem Pattern.flatten_published : (p : Pattern) → AllSound p.visits →
    ∀ (bound : List String) (depth : Nat) (value : Expr), s.Published value →
      Yields s.Emits (p.flatten s bound depth value) s.AllPublished
  | .ident x, _ => by
    intro bound depth value hvalue
    refine (yields_guardPatternDepth s depth).bind fun _ _ => .pure ?_
    simpa using Setting.published_bindingAssignment x hvalue
  | .expr e, h => by
    intro bound depth value hvalue
    refine (yields_guardPatternDepth s depth).bind fun _ _ =>
      (e.lower_published true h.tail).bind fun e he => .pure ?_
    simpa using Setting.published_assignTo he hvalue
  | .object properties rest, h => by
    intro bound depth value hvalue
    refine (yields_guardPatternDepth s depth).bind fun _ _ => ?_
    refine (yields_stabilizeUnlessOne_published _ bound hvalue).bind fun r hr => ?_
    refine (flattenProperties_published properties h.tail.left bound _ rest.isSome r.2 hr.2).bind
      fun r' hr' => ?_
    have hcall : s.Published (restCall r.2 r'.2) := Setting.published_restCall hrest hr.2 hr'.2
    have hremaining := flattenRest_published rest h.tail.right bound (depth + 1)
      (restCall r.2 r'.2) hcall
    have hall : ∀ remaining, s.AllPublished remaining →
        s.AllPublished (r.1 ++ r'.1 ++ remaining) := fun remaining h => by
      simpa using ⟨hr.1, hr'.1, h⟩
    refine .ite (fun _ => yields_requireRest.bind fun _ _ => ?_) fun _ => ?_
    · exact hremaining.bind fun remaining h => .pure (hall remaining h)
    · exact hremaining.bind fun remaining h => .pure (hall remaining h)
  | .array elements rest, h => by
    intro bound depth value hvalue
    refine (yields_guardPatternDepth s depth).bind fun _ _ => ?_
    refine (yields_stabilizeUnlessOne_published _ bound hvalue).bind fun r hr => ?_
    refine (flattenSlots_published elements h.tail.left bound _ 0 r.2 hr.2).bind
      fun exprs hexprs => ?_
    have hslice := Setting.published_restSlice elements.length hr.2
    refine (flattenRest_published rest h.tail.right bound _ _ hslice).bind
      fun remaining h => .pure ?_
    simpa using ⟨hr.1, hexprs, h⟩

theorem flattenRest_published : (rest : Option Pattern) → AllSound (patternVisits? rest) →
    ∀ (bound : List String) (depth : Nat) (value : Expr), s.Published value →
      Yields s.Emits (flattenRest s bound depth rest value) s.AllPublished
  | none, _ => fun _ _ _ _ => .pure Setting.allPublished_nil
  | some p, h => p.flatten_published h

theorem flattenFallback_published : (fallback : Option Expr) → AllSound (exprVisits? fallback) →
    ∀ (bound : List String) (value : Expr), s.Published value →
      Yields s.Emits (flattenFallback s bound fallback value) fun r =>
        s.AllPublished r.1 ∧ s.Published r.2
  | none, _ => fun _ _ hvalue => .pure ⟨Setting.allPublished_nil, hvalue⟩
  | some e, h => fun bound _ hvalue =>
    (yields_stabilize_published bound hvalue).bind fun _ hr =>
      (e.lower_published true h).bind fun _ he =>
        .pure ⟨hr.1, Setting.published_orFallback hr.2 he⟩

theorem Key.flatten_published : (key : Key) → AllSound key.visits →
    ∀ (bound : List String) (hasRest : Bool) (value : Expr), s.Published value →
      Yields s.Emits (key.flatten s bound hasRest value) fun r =>
        s.AllPublished r.1 ∧ s.Published r.2.1 ∧ s.Published r.2.2
  | .name text, _ => fun _ _ _ hvalue =>
    .pure ⟨Setting.allPublished_nil, Setting.published_dot hvalue, Setting.published_literal _⟩
  | .string text, _ => by
    intro bound hasRest value hvalue
    refine .pure ⟨Setting.allPublished_nil, ?_, Setting.published_literal _⟩
    dsimp only
    split
    · exact Setting.published_dot hvalue
    · exact Setting.published_lookup hvalue (Setting.published_literal _)
  | .number source, _ => fun _ _ _ hvalue => .pure ⟨Setting.allPublished_nil,
    Setting.published_lookup hvalue (Setting.published_literal _), Setting.published_literal _⟩
  | .computed e, h => by
    intro bound hasRest value hvalue
    refine (e.lower_published true h).bind fun key hkey => .ite (fun _ => ?_) fun _ => ?_
    · exact (yields_stabilize_published bound hkey).bind fun r hr => .pure
        ⟨hr.1, Setting.published_lookup hvalue hr.2, Setting.published_propertyKey hr.2⟩
    · exact .pure ⟨Setting.allPublished_nil, Setting.published_lookup hvalue hkey, hkey⟩

theorem PatternProperty.flatten_published : (p : PatternProperty) → AllSound p.visits →
    ∀ (bound : List String) (depth : Nat) (hasRest : Bool) (value : Expr), s.Published value →
      Yields s.Emits (p.flatten s bound depth hasRest value) fun r =>
        s.AllPublished r.1 ∧ s.Published r.2
  | .keyed key target fallback, h => by
    intro bound depth hasRest value hvalue
    refine (key.flatten_published h.left.left bound hasRest value hvalue).bind fun r hr => ?_
    refine (flattenFallback_published fallback h.right bound r.2.1 hr.2.1).bind fun r' hr' => ?_
    refine (target.flatten_published h.left.right bound depth r'.2 hr'.2).bind
      fun exprs hexprs => .pure ?_
    exact ⟨by simpa using ⟨hr.1, hr'.1, hexprs⟩, hr.2.2⟩
  | .shorthand x fallback, h => by
    intro bound depth hasRest value hvalue
    refine (flattenFallback_published fallback h.tail bound _ (Setting.published_dot hvalue)).bind
      fun r hr => (yields_guardPatternDepth s depth).bind fun _ _ => .pure ?_
    have hassign := Setting.published_bindingAssignment x hr.2
    exact ⟨by simpa using ⟨hr.1, hassign⟩, Setting.published_literal _⟩

theorem flattenProperties_published : (ps : List PatternProperty) →
    AllSound (patternPropertiesVisits ps) →
    ∀ (bound : List String) (depth : Nat) (hasRest : Bool) (value : Expr), s.Published value →
      Yields s.Emits (flattenProperties s bound depth hasRest ps value) fun r =>
        s.AllPublished r.1 ∧ s.AllPublished r.2
  | [], _ => fun _ _ _ _ _ => .pure ⟨Setting.allPublished_nil, Setting.allPublished_nil⟩
  | p :: ps, h => by
    intro bound depth hasRest value hvalue
    refine (p.flatten_published h.left bound depth hasRest value hvalue).bind fun r hr => ?_
    refine (flattenProperties_published ps h.right bound depth hasRest value hvalue).bind
      fun r' hr' => .pure ?_
    exact ⟨by simpa using ⟨hr.1, hr'.1⟩, by simpa using ⟨hr.2, hr'.2⟩⟩

theorem PatternElement.flatten_published : (e : PatternElement) → AllSound e.visits →
    ∀ (bound : List String) (depth : Nat) (value : Expr), s.Published value →
      Yields s.Emits (e.flatten s bound depth value) s.AllPublished
  | ⟨target, fallback⟩, h => by
    intro bound depth value hvalue
    refine (flattenFallback_published fallback h.right bound value hvalue).bind fun r hr => ?_
    refine (target.flatten_published h.left bound depth r.2 hr.2).bind fun exprs hexprs => .pure ?_
    simpa using ⟨hr.1, hexprs⟩

theorem flattenSlot_published : (e : Option PatternElement) → AllSound (patternSlotVisits e) →
    ∀ (bound : List String) (depth : Nat) (value : Expr), s.Published value →
      Yields s.Emits (flattenSlot s bound depth e value) s.AllPublished
  | none, _ => fun _ _ _ _ => .pure Setting.allPublished_nil
  | some e, h => e.flatten_published h

theorem flattenSlots_published : (es : List (Option PatternElement)) →
    AllSound (patternSlotsVisits es) →
    ∀ (bound : List String) (depth index : Nat) (value : Expr), s.Published value →
      Yields s.Emits (flattenSlots s bound depth index es value) s.AllPublished
  | [], _ => fun _ _ _ _ _ => .pure Setting.allPublished_nil
  | e :: es, h => by
    intro bound depth index value hvalue
    have hslot : s.Published (value.lookup (.ofNumber (toString index))) :=
      Setting.published_lookup hvalue (Setting.published_literal _)
    refine (flattenSlot_published e h.left bound depth _ hslot).bind fun exprs hexprs => ?_
    refine (flattenSlots_published es h.right bound depth _ value hvalue).bind
      fun more hmore => .pure ?_
    simpa using ⟨hexprs, hmore⟩

-- Functions and classes.

theorem Param.lower_published : (p : Param) → AllSound p.visits →
    Yields s.Emits (p.lower s) fun p' => s.AllPublished p'.exprs
  | ⟨pattern, fallback, _⟩, h =>
    (pattern.lower_published h.left).bind fun _ hpattern =>
      (lowerExpr?_published fallback h.right).bind fun _ hfallback =>
        .pure (.append hpattern hfallback)

theorem lowerParams_published : (ps : List Param) → AllSound (paramsVisits ps) →
    Yields s.Emits (lowerParams s ps) fun ps' => s.AllPublished (ps'.flatMap (·.exprs))
  | [], _ => .pure Setting.allPublished_nil
  | p :: ps, h =>
    (p.lower_published h.left).bind fun _ hp => (lowerParams_published ps h.right).bind
      fun _ hps => .pure (.append hp hps)

theorem Func.lower_published : (f : Func) → AllSound f.visits →
    Yields s.Emits (f.lower s) fun f' => s.AllPublished f'.exprs
  | ⟨name, params, body, isAsync, isGenerator⟩, h => by
    have hinner : Yields s.Emits
        (do return (← lowerParams s params, ← lowerStmts s .function body) :
          Lowering (List Param × List Stmt))
        fun r => s.AllPublished (r.1.flatMap (·.exprs)) ∧ s.AllPublished (stmtsExprs r.2) :=
      (lowerParams_published params h.tail.left.right).bind fun params hparams =>
        (lowerStmts_published body .function h.tail.right).bind fun body hbody =>
          .pure ⟨hparams, hbody.of_function⟩
    exact (yields_inFunction_published hinner).bind fun r hr =>
      .pure (.append hr.1.1 (.stmts_append hr.2 hr.1.2))

theorem ArrowBody.lower_published : (body : ArrowBody) → AllSound body.visits →
    Yields s.Emits (body.lower s) fun body' => s.AllPublished body'.exprs
  | .block body, h => (lowerStmts_published body .function h).bind fun _ hbody =>
    .pure hbody.of_function
  | .expr e, h => (e.lower_published true h).bind fun _ he =>
    .pure (.one he)

theorem Class.lower_published : (c : Class) → AllSound c.visits →
    Yields s.Emits (c.lower s) fun c' => s.AllPublished c'.exprs
  | ⟨_, base, members⟩, h =>
    (lowerExpr?_published base h.tail.left.right).bind fun _ hbase =>
      (lowerMembers_published members h.tail.right).bind fun _ hmembers =>
        .pure (.append hbase hmembers)

theorem ClassMember.lower_published : (m : ClassMember) → AllSound m.visits →
    Yields s.Emits (m.lower s) fun m' => s.AllPublished m'.exprs
  | .method key kind isStatic f, h =>
    (key.lower_published h.left).bind fun key hkey => (f.lower_published h.right).bind fun f hf =>
      .pure (.append hkey hf)
  | .field key isStatic value, h =>
    (key.lower_published h.left).bind fun key hkey =>
      (lowerExpr?_published value h.right).bind fun value hvalue =>
        .pure (.append hkey hvalue)
  | .staticBlock body, h => by
    have hinner := (lowerStmts_published body .function h).mono fun _ hbody => hbody.of_function
    exact (yields_inFunction_published hinner).bind fun r hr => .pure (.stmts_append hr.2 hr.1)

theorem lowerMembers_published : (ms : List ClassMember) → AllSound (membersVisits ms) →
    Yields s.Emits (lowerMembers s ms) fun ms' => s.AllPublished (membersExprs ms')
  | [], _ => .pure Setting.allPublished_nil
  | m :: ms, h =>
    (m.lower_published h.left).bind fun _ hm => (lowerMembers_published ms h.right).bind
      fun _ hms => .pure (.append hm hms)

-- Declaration lists.

theorem Declarator.lower_published : (d : Declarator) → AllSound d.visits →
    Yields s.Emits (d.lower s) fun d' => s.AllPublished d'.exprs
  | ⟨target, init⟩, h =>
    (target.lower_published h.left).bind fun _ htarget =>
      (lowerExpr?_published init h.right).bind fun _ hinit =>
        .pure (.append htarget hinit)

theorem lowerDeclarators_published : (ds : List Declarator) → AllSound (declaratorsVisits ds) →
    Yields s.Emits (lowerDeclarators s ds) fun ds' => s.AllPublished (ds'.flatMap (·.exprs))
  | [], _ => .pure Setting.allPublished_nil
  | d :: ds, h =>
    (d.lower_published h.left).bind fun _ hd => (lowerDeclarators_published ds h.right).bind
      fun _ hds => .pure (.append hd hds)

theorem VarList.lower_published : (list : VarList) → AllSound list.visits →
    Yields s.Emits (list.lower s) fun list' => s.AllPublished list'.exprs
  | ⟨_, ds⟩, h => (lowerDeclarators_published ds h).bind fun _ hds => .pure hds

theorem Declarator.hoisted_published : (d : Declarator) → AllSound d.visits →
    Yields s.Emits (d.hoisted s) s.AllPublished
  | ⟨_, none⟩, _ => (yields_hoist fun h => .addVariables h _).bind fun _ _ =>
    .pure Setting.allPublished_nil
  | ⟨target, some init⟩, h =>
    (yields_hoist fun h => .addVariables h _).bind fun _ _ =>
      (init.lower_published true h.right).bind fun value hvalue =>
        target.flatten_published h.left _ 0 value hvalue

theorem hoistedDeclarators_published : (ds : List Declarator) → AllSound (declaratorsVisits ds) →
    Yields s.Emits (hoistedDeclarators s ds) s.AllPublished
  | [], _ => .pure Setting.allPublished_nil
  | d :: ds, h =>
    (d.hoisted_published h.left).bind fun _ hexprs =>
      (hoistedDeclarators_published ds h.right).bind fun _ hmore =>
        .pure (.append hexprs hmore)

theorem VarList.hoisted_published : (list : VarList) → AllSound list.visits →
    Yields s.Emits (list.hoisted s) s.AllPublished
  | ⟨_, ds⟩, h => hoistedDeclarators_published ds h

-- Statements.

theorem ForInit.lower_published : (init : ForInit) → (place : Place) → AllSound init.visits →
    Yields s.Emits (init.lower s place) fun init' => s.AllPublished init'.exprs
  | .absent, _, _ => .pure Setting.allPublished_nil
  | .var list, _, h => by
    refine .ite (fun _ => (list.hoisted_published h).bind fun exprs hexprs => ?_) fun _ => ?_
    · cases he : Expr.ofList exprs with
      | none => exact .pure Setting.allPublished_nil
      | some e =>
        have hjoined := Setting.published_ofList hexprs he
        exact .pure (.one hjoined)
    · exact (list.lower_published h).bind fun _ hlist => .pure hlist
  | .expr e, _, h => (e.lower_published false h).bind fun _ he =>
    .pure (.one he)

theorem ForHead.lower_published : (head : ForHead) → (place : Place) → AllSound head.visits →
    Yields s.Emits (head.lower s place) fun r =>
      s.AllPublished r.1.exprs ∧ s.AllPublishedAt place (stmtsExprs r.2)
  | .var ⟨kind, []⟩, _, _ => .pure ⟨Setting.allPublished_nil, Setting.allPublishedAt_nil⟩
  | .var ⟨kind, ⟨target, init⟩ :: ds⟩, place, h => by
    refine .ite (fun hhoists => ?_) fun _ => ?_
    · have hplace : place ≠ .function := by
        rintro rfl
        cases hhoists
      exact (yields_hoist fun h => .addVariables h _).bind fun _ _ =>
        (target.lower_published h.left.left).bind fun _ htarget =>
          .pure ⟨htarget, headExports_published hplace target⟩
    · refine (target.lower_published h.left.left).bind fun target htarget =>
        (lowerExpr?_published init h.left.right).bind fun init hinit =>
          (lowerDeclarators_published ds h.right).bind fun ds hds =>
            .pure ⟨?_, Setting.allPublishedAt_nil⟩
      simpa [ForHead.exprs, VarList.exprs, Declarator.exprs] using
        And.intro htarget (And.intro hinit hds)
  | .pattern p, _, h => (p.lower_published h).bind fun _ hp => .pure ⟨hp, Setting.allPublishedAt_nil⟩

theorem Catch.lower_published : (c : Catch) → (place : Place) → AllSound c.visits →
    Yields s.Emits (c.lower s place) fun c' => s.AllPublishedAt place c'.exprs
  | ⟨param, body⟩, place, h =>
    (lowerPattern?_published param h.left).bind fun _ hparam =>
      (lowerStmts_published body place h.right).bind fun _ hbody =>
        .pure (Setting.allPublishedAt_append.mpr ⟨Setting.AllPublished.at hparam, hbody⟩)

theorem lowerCatch?_published : (c : Option Catch) → (place : Place) →
    AllSound (catchVisits? c) →
    Yields s.Emits (lowerCatch? s place c) fun c' => s.AllPublishedAt place (catchExprs? c')
  | none, _, _ => .pure Setting.allPublishedAt_nil
  | some c, place, h => (c.lower_published place h).bind fun _ hc => .pure hc

theorem lowerBlock?_published : (body : Option (List Stmt)) → (place : Place) →
    AllSound (blockVisits? body) →
    Yields s.Emits (lowerBlock? s place body) fun body' =>
      s.AllPublishedAt place (blockExprs? body')
  | none, _, _ => .pure Setting.allPublishedAt_nil
  | some body, place, h => (lowerStmts_published body place h).bind fun _ hbody => .pure hbody

theorem Case.lower_published : (c : Case) → (place : Place) → AllSound c.visits →
    Yields s.Emits (c.lower s place) fun c' => s.AllPublishedAt place c'.exprs
  | ⟨test, body⟩, place, h =>
    (lowerExpr?_published test h.left).bind fun _ htest =>
      (lowerStmts_published body place h.right).bind fun _ hbody =>
        .pure (Setting.allPublishedAt_append.mpr ⟨Setting.AllPublished.at htest, hbody⟩)

theorem lowerCases_published : (cs : List Case) → (place : Place) → AllSound (casesVisits cs) →
    Yields s.Emits (lowerCases s place cs) fun cs' => s.AllPublishedAt place (casesExprs cs')
  | [], _, _ => .pure Setting.allPublishedAt_nil
  | c :: cs, place, h =>
    (c.lower_published place h.left).bind fun _ hc => (lowerCases_published cs place h.right).bind
      fun _ hcs => .pure (.append hc hcs)

theorem lowerStmts_published : (sts : List Stmt) → (place : Place) →
    AllSound (stmtsVisits sts) →
    Yields s.Emits (lowerStmts s place sts) fun sts' => s.AllPublishedAt place (stmtsExprs sts')
  | [], _, _ => .pure Setting.allPublishedAt_nil
  | st :: sts, place, h => by
    obtain ⟨htail, hst⟩ := AllSound.of_stmt h.left
    exact (st.lower_published place htail (.inr hst)).bind fun first hfirst =>
      (lowerStmts_published sts place h.right).bind fun more hmore =>
        .pure (.stmts_append hfirst hmore)

theorem lowerUnused?_published : (e : Option Expr) → AllSound (exprVisits? e) →
    Yields s.Emits (lowerUnused? s e) fun e' => s.AllPublished e'.toList
  | none, _ => .pure Setting.allPublished_nil
  | some e, h => (e.lower_published false h).bind fun _ he =>
    .pure (.one he)

/-- The statements of a loop body that is a block. -/
theorem Stmt.block_published (st : Stmt) (place : Place) (h : AllSound st.visits.tail) :
    ∀ inner, st = .block inner → Yields s.Emits (lowerStmts s place inner) fun sts =>
      s.AllPublishedAt place (stmtsExprs sts) := by
  cases st with
  | block inner =>
    rintro _ ⟨⟩
    exact lowerStmts_published inner place h
  | _ => nofun

/-- Module declarations mean something at the top level only, and stand nowhere else. -/
theorem Stmt.lower_published : (st : Stmt) → (place : Place) → AllSound st.visits.tail →
    place = .topLevel ∨ st.isModuleSyntax = false →
    Yields s.Emits (st.lower s place) fun sts => s.AllPublishedAt place (stmtsExprs sts)
  | .expr e, _, h, _ =>
    .deeper s ((e.lower_published false h).bind fun e he =>
      .pure (.stmt (.one he.at)))
  | .var modifiers list, place, h, _ => by
    have hhoisted : Yields s.Emits
        (do return (Expr.ofList (← list.hoisted s)).toList.map Stmt.expr)
        fun sts => s.AllPublishedAt place (stmtsExprs sts) :=
      (list.hoisted_published h).bind fun _ hexprs => .pure hexprs.stmts_ofList
    refine .deeper s (.ite (fun _ => .ite (fun _ => ?_) fun _ => ?_) fun _ => ?_)
    · exact (yields_addExportedNames _).bind fun _ _ => hhoisted
    · exact hhoisted
    · exact (list.lower_published h).bind fun list hlist =>
        .pure (.stmt hlist.at)
  | .function modifiers f, _, h, _ => by
    refine .deeper s ((f.lower_published h).bind fun f hf => .ite (fun _ => ?_) fun _ => .pure ?_)
    · exact (yields_hoistFunction modifiers hf).bind fun _ _ => .pure Setting.allPublishedAt_nil
    · exact .stmt hf.at
  | .classDecl modifiers c, place, h, _ => by
    refine .deeper s (.ite (fun htop => ?_) fun _ => ?_)
    · exact (yields_hoistClassName c.name).bind fun name _ => (c.lower_published h).bind
        fun c hc => classAssignment_published (by rw [htop]; nofun) modifiers name hc
    · exact (c.lower_published h).bind fun c hc =>
        .pure (.stmt hc.at)
  | .importFrom site clause specifier isTypeOnly, place, _, hst => by
    refine .deeper s (.ite (fun _ => ?_) fun h => absurd hst (by simp [h, Stmt.isModuleSyntax]))
    exact (yields_hoist fun h => .addVariables h _).bind fun _ _ => .pure Setting.allPublishedAt_nil
  | .importEquals site isExported name kind value, place, h, hst => by
    refine .deeper s (.ite (fun _ => ?_) fun h => absurd hst (by simp [h, Stmt.isModuleSyntax]))
    refine .ite (fun _ => .pure Setting.allPublishedAt_nil) fun _ => ?_
    refine (yields_hoist fun h => .addVariable h _).bind fun _ _ => ?_
    have hkind : Yields s.Emits (match kind with
        | .require => return []
        | .entity => return [.expr (s.bindingAssignment name (← value.lower s true))])
        fun sts => s.AllPublishedAt place (stmtsExprs sts) := by
      cases kind with
      | require => exact .pure Setting.allPublishedAt_nil
      | entity =>
        refine (value.lower_published true h.tail).bind fun value hvalue => .pure ?_
        exact .stmt (.one (Setting.published_bindingAssignment name hvalue).at)
    exact .ite (fun _ => (yields_addExportedName _).bind fun _ _ => hkind) fun _ => hkind
  | .exportFrom site clause specifier isTypeOnly, place, _, hst => by
    refine .deeper s (.ite (fun htop => ?_) fun h => absurd hst (by simp [h, Stmt.isModuleSyntax]))
    split
    · next specs _ => exact exportSpecifiers_published (by rw [htop]; nofun) specs
    · exact .pure Setting.allPublishedAt_nil
  | .exportValue site form value, place, h, hst => by
    refine .deeper s (.ite (fun htop => ?_) fun h => absurd hst (by simp [h, Stmt.isModuleSyntax]))
    refine .ite (fun _ => .pure Setting.allPublishedAt_nil) fun _ => ?_
    refine (value.lower_published true h).bind fun value hvalue => .pure ?_
    have hexport : s.PublishedAt place (s.publish "default" value) :=
      .inr ⟨by rw [htop]; nofun, _, _, rfl, hvalue⟩
    exact .stmt (.one hexport)
  | .ambient name isExported, _, _, _ =>
    .deeper s (.pure Setting.allPublishedAt_nil)
  | .block body, place, h, _ =>
    .deeper s ((lowerStmts_published body place.inner h).bind fun body hbody =>
      .pure (.stmt hbody.of_inner))
  | .ifThen test yes, place, h, _ => by
    obtain ⟨hyes, hinner⟩ := AllSound.of_stmt h.right
    exact .deeper s ((test.lower_published true h.left).bind fun test htest =>
      (yes.lower_published place.inner hyes (.inr hinner)).bind fun yes hyes =>
        .pure (.stmt (.cons htest.at hyes.of_inner.ofList)))
  | .ifElse test yes no, place, h, _ => by
    obtain ⟨hyes, hyesInner⟩ := AllSound.of_stmt h.left.right
    obtain ⟨hno, hnoInner⟩ := AllSound.of_stmt h.right
    exact .deeper s ((test.lower_published true h.left.left).bind fun test htest =>
      (yes.lower_published place.inner hyes (.inr hyesInner)).bind fun yes hyes =>
        (no.lower_published place.inner hno (.inr hnoInner)).bind fun no hno =>
          .pure (.stmt (.cons htest.at (.append hyes.of_inner.ofList hno.of_inner.ofList))))
  | .forLoop init test update body, place, h, _ => by
    obtain ⟨hbody, hinner⟩ := AllSound.of_stmt h.right
    exact .deeper s ((init.lower_published place h.left.left.left).bind fun init hinit =>
      (lowerExpr?_published test h.left.left.right).bind fun test htest =>
        (lowerUnused?_published update h.left.right).bind fun update hupdate =>
          (body.lower_published place.inner hbody (.inr hinner)).bind fun body hbody =>
            .pure (.stmt (.append (.append (.append hinit.at htest.at) hupdate.at)
              hbody.of_inner.ofList)))
  | .forIn head object body, place, h, _ => by
    obtain ⟨hbody, hinner⟩ := AllSound.of_stmt h.right
    have hblock := body.block_published place.inner hbody
    have hloop := body.lower_published place.inner hbody (.inr hinner)
    rw [Stmt.lower_forIn]
    exact .deeper s ((head.lower_published place h.left.left).bind fun r hr =>
      (object.lower_published true h.left.right).bind fun object hobject =>
        (lowerLoopBody_published hr.2 hblock hloop).bind fun body hbody =>
          .pure (.stmt (.append hr.1.at (.cons hobject.at hbody))))
  | .forOf head iterable body isAwait, place, h, _ => by
    obtain ⟨hbody, hinner⟩ := AllSound.of_stmt h.right
    have hblock := body.block_published place.inner hbody
    have hloop := body.lower_published place.inner hbody (.inr hinner)
    rw [Stmt.lower_forOf]
    exact .deeper s ((head.lower_published place h.left.left).bind fun r hr =>
      (iterable.lower_published true h.left.right).bind fun iterable hiterable =>
        (lowerLoopBody_published hr.2 hblock hloop).bind fun body hbody =>
          .pure (.stmt (.append hr.1.at (.cons hiterable.at hbody))))
  | .whileLoop test body, place, h, _ => by
    obtain ⟨hbody, hinner⟩ := AllSound.of_stmt h.right
    exact .deeper s ((test.lower_published true h.left).bind fun test htest =>
      (body.lower_published place.inner hbody (.inr hinner)).bind fun body hbody =>
        .pure (.stmt (.cons htest.at hbody.of_inner.ofList)))
  | .doWhile body test, place, h, _ => by
    obtain ⟨hbody, hinner⟩ := AllSound.of_stmt h.right
    exact .deeper s ((body.lower_published place.inner hbody (.inr hinner)).bind fun body hbody =>
      (test.lower_published true h.left).bind fun test htest =>
        .pure (.stmt (.append hbody.of_inner.ofList (.one htest.at))))
  | .tryCatch body handler finalizer, place, h, _ =>
    .deeper s ((lowerStmts_published body place.inner h.left.left).bind fun body hbody =>
      (lowerCatch?_published handler place.inner h.left.right).bind fun handler hhandler =>
        (lowerBlock?_published finalizer place.inner h.right).bind fun finalizer hfinalizer =>
          .pure (.stmt (.append (.append hbody.of_inner hhandler.of_inner) hfinalizer.of_inner)))
  | .switch subject cases, place, h, _ =>
    .deeper s ((subject.lower_published true h.left).bind fun subject hsubject =>
      (lowerCases_published cases place.inner h.right).bind fun cases hcases =>
        .pure (.stmt (.cons hsubject.at hcases.of_inner)))
  | .labeled label body, place, h, _ => by
    obtain ⟨hbody, hinner⟩ := AllSound.of_stmt h.tail
    exact .deeper s ((body.lower_published place.inner hbody (.inr hinner)).bind fun body hbody =>
      .pure (.stmt hbody.of_inner.ofList))
  | .withObject object body, place, h, _ => by
    obtain ⟨hbody, hinner⟩ := AllSound.of_stmt h.right
    exact .deeper s ((object.lower_published true h.left).bind fun object hobject =>
      (body.lower_published place.inner hbody (.inr hinner)).bind fun body hbody =>
        .pure (.stmt (.cons hobject.at hbody.of_inner.ofList)))
  | .ret arg, _, h, _ =>
    .deeper s ((lowerExpr?_published arg h).bind fun arg harg =>
      .pure (.stmt harg.at))
  | .throw arg, _, h, _ =>
    .deeper s ((arg.lower_published true h).bind fun arg harg =>
      .pure (.stmt (.one harg.at)))
  | .breakTo _, _, _, _ | .continueTo _, _, _, _ | .empty, _, _, _ | .debugger, _, _, _ =>
    .deeper s (.pure Setting.allPublishedAt_nil)

end
end RegisterForm
