import RegisterForm.Proofs.Script.Gather
/-!
# Lowered trees are scripts

No part of a tree is handed on unread: whatever a module holds, at any depth of its functions,
classes and patterns, is lowered to a script. The proof follows the lowering of every kind of
node; module syntax is met at the top level only, where nothing of it is left.
-/
namespace RegisterForm
open Lowering

variable {s : Setting}

-- Only identifiers ask that imports have holders.
set_option linter.unusedSectionVars false

variable (hheld : s.HoldsImports)
include hheld

mutual

theorem Expr.lower_script : (e : Expr) → (isUsed : Bool) → AllUnmarked e.visits →
    Yields s.Scripts (e.lower s isUsed) fun e' => s.AllScript e'.visits
  | .ident x, _, _ => by
    exact .deeper s (.pure (Setting.script_read hheld x))
  | .literal value, _, _ => by
    exact .deeper s (.pure (Setting.script_literal value))
  | .this, _, _ => by
    exact .deeper s (.pure Setting.script_this)
  | .super, _, _ => by
    exact .deeper s (.pure (.node rfl Setting.allScript_nil))
  | .template chunks parts, _, h => by
    refine .deeper s ((lowerExprs_script parts h.tail).bind fun parts hparts => .pure ?_)
    exact .node rfl hparts
  | .tagged tag chunks parts, _, h => by
    refine .deeper s ((tag.lower_script true h.tail.left).bind fun tag htag => ?_)
    refine (lowerExprs_script parts h.tail.right).bind fun parts hparts => .pure ?_
    exact .node rfl (htag.append hparts)
  | .array elements, _, h => by
    refine .deeper s ((lowerSlots_script elements h.tail).bind fun elements helements => .pure ?_)
    exact (Setting.script_array elements).mpr helements
  | .object properties, _, h => by
    refine .deeper s ((lowerProperties_script properties h.tail).bind
      fun properties hps => .pure ?_)
    exact Setting.script_object hps.1 hps.2
  | .function f, _, h => by
    refine .deeper s ((f.lower_script h.tail).bind fun f hf => .pure ?_)
    exact (Setting.script_function f).mpr hf
  | .arrow params body isAsync, _, h => by
    have hinner : Yields s.Scripts
        (do return (← lowerParams s params, ← body.lower s) : Lowering (List Param × ArrowBody))
        fun r => s.AllScript (paramsVisits r.1) ∧ s.AllScript r.2.visits := by
      refine (lowerParams_script params h.tail.left).bind fun params hparams => ?_
      exact (body.lower_script h.tail.right).bind fun body hbody => .pure ⟨hparams, hbody⟩
    refine .deeper s ((yields_inFunction_script hinner).bind fun r hr => .pure ?_)
    have hbody := script_withDeclarations hr.1.2 hr.2
    exact .node rfl (hr.1.1.append hbody)
  | .classExpr c, _, h => by
    refine .deeper s ((c.lower_script h.tail).bind fun c hc => .pure ?_)
    exact .node rfl hc
  | .unary op arg, _, h => by
    refine .deeper s ((arg.lower_script true h.tail).bind fun arg harg => .pure ?_)
    exact (Setting.script_unary op arg).mpr harg
  | .update op isPrefix arg, isUsed, h => by
    refine .deeper s ?_
    change Yields _ (match s.publishedUpdate? op isPrefix isUsed arg with
      | some e => _ | none => _) _
    cases hpublished : s.publishedUpdate? op isPrefix isUsed arg with
    | some e => exact .pure (Setting.script_publishedUpdate? hpublished)
    | none =>
      refine (arg.lower_script true h.tail).bind fun arg harg => .pure ?_
      exact (Setting.script_update op isPrefix arg).mpr harg
  | .binary op left right, _, h => by
    refine .deeper s ((left.lower_script true h.tail.left).bind fun left hleft => ?_)
    refine (right.lower_script true h.tail.right).bind fun right hright => .pure ?_
    exact (Setting.script_binary op left right).mpr ⟨hleft, hright⟩
  | .assign op target value, isUsed, h => by
    refine .deeper s (.ite (fun _ => ?_) fun _ => ?_)
    · refine (value.lower_script true h.tail.right).bind fun value hvalue => ?_
      have hassigns : ∀ (r : List Expr × Expr) (result : List Expr),
          s.AllScript (exprsVisits r.1) ∧ s.AllScript r.2.visits →
          s.AllScript (exprsVisits result) →
          Yields s.Scripts (do
            let exprs ← target.flatten s target.boundNames 0 r.2
            return (Expr.ofList (r.1 ++ exprs ++ result)).getD r.2)
            fun e => s.AllScript e.visits := by
        intro r result hr hresult
        refine (target.flatten_script h.tail.left _ 0 r.2 hr.2).bind fun exprs hexprs => .pure ?_
        cases he : Expr.ofList (r.1 ++ exprs ++ result) with
        | none => exact hr.2
        | some e => exact Setting.script_ofList (by simp [hr.1, hexprs, hresult]) he
      refine .ite (fun hused => ?_) fun hunused => ?_
      · subst hused
        refine (yields_stabilize_script target.boundNames hvalue).bind fun r hr => ?_
        exact hassigns r [r.2] hr (hr.2.append Setting.allScript_nil)
      · have hunused' : isUsed = false := by simpa using hunused
        subst hunused'
        exact hassigns ([], value) [] ⟨Setting.allScript_nil, hvalue⟩ Setting.allScript_nil
    · refine (target.lower_script h.tail.left).bind fun target htarget => ?_
      refine (value.lower_script true h.tail.right).bind fun value hvalue => .pure ?_
      have hassign := (Setting.script_assign op target value).mpr ⟨htarget, hvalue⟩
      exact Setting.script_publishedTo target hassign
  | .conditional test yes no, isUsed, h => by
    refine .deeper s ((test.lower_script true h.tail.left.left).bind fun test htest => ?_)
    refine (yes.lower_script isUsed h.tail.left.right).bind fun yes hyes => ?_
    refine (no.lower_script isUsed h.tail.right).bind fun no hno => .pure ?_
    exact (Setting.script_conditional test yes no).mpr ⟨htest, hyes, hno⟩
  | .call callee args isOptional, _, h => by
    refine .deeper s ((callee.lower_script true h.tail.left).bind fun callee hcallee => ?_)
    refine (lowerExprs_script args h.tail.right).bind fun args hargs => .pure ?_
    exact .node rfl (hcallee.append hargs)
  | .newBare callee, _, h => by
    refine .deeper s ((callee.lower_script true h.tail).bind fun callee hcallee => .pure ?_)
    exact .node rfl hcallee
  | .newCall callee args, _, h => by
    refine .deeper s ((callee.lower_script true h.tail.left).bind fun callee hcallee => ?_)
    refine (lowerExprs_script args h.tail.right).bind fun args hargs => .pure ?_
    exact .node rfl (hcallee.append hargs)
  | .member owner name isOptional, _, h => by
    refine .deeper s ((owner.lower_script true h.tail.left).bind fun owner howner => .pure ?_)
    exact .node rfl (howner.append (.node rfl Setting.allScript_nil))
  | .index owner key isOptional, _, h => by
    refine .deeper s ((owner.lower_script true h.tail.left).bind fun owner howner => ?_)
    refine (key.lower_script true h.tail.right).bind fun key hkey => .pure ?_
    exact .node rfl (howner.append hkey)
  | .sequence exprs, isUsed, h => by
    refine .deeper s ((lowerSequence_script exprs isUsed h.tail).bind fun exprs hexprs => .pure ?_)
    exact (Setting.script_sequence exprs).mpr hexprs
  | .paren inner, isUsed, h => by
    refine .deeper s ((inner.lower_script isUsed h.tail).bind fun inner hinner => .pure ?_)
    exact (Setting.script_paren inner).mpr hinner
  | .yield arg isDelegate, _, h => by
    refine .deeper s ((lowerExpr?_script arg h.tail).bind fun arg harg => .pure ?_)
    exact .node rfl harg
  | .await arg, _, h => by
    refine .deeper s ((arg.lower_script true h.tail).bind fun arg harg => .pure ?_)
    exact .node rfl harg
  | .spread arg, _, h => by
    refine .deeper s ((arg.lower_script true h.tail).bind fun arg harg => .pure ?_)
    exact .node rfl harg
  | .importCall specifier, _, h => by
    refine .deeper s ((specifier.lower_script true h.tail).bind
      fun specifier hspecifier => .pure ?_)
    simpa [exprsVisits] using hspecifier
  | .importMeta, _, _ => by
    exact .deeper s (.pure (by simp))

theorem lowerExprs_script : (es : List Expr) → AllUnmarked (exprsVisits es) →
    Yields s.Scripts (lowerExprs s es) fun es' => s.AllScript (exprsVisits es')
  | [], _ => .pure Setting.allScript_nil
  | e :: es, h => by
    refine (e.lower_script true h.left).bind fun e he => ?_
    refine (lowerExprs_script es h.right).bind fun es hes => .pure ?_
    exact he.append hes

theorem lowerSequence_script : (es : List Expr) → (isUsed : Bool) →
    AllUnmarked (exprsVisits es) →
    Yields s.Scripts (lowerSequence s isUsed es) fun es' => s.AllScript (exprsVisits es')
  | [], _, _ => .pure Setting.allScript_nil
  | e :: es, isUsed, h => by
    refine (e.lower_script _ h.left).bind fun e he => ?_
    refine (lowerSequence_script es isUsed h.right).bind fun es hes => .pure ?_
    exact he.append hes

theorem lowerExpr?_script : (e : Option Expr) → AllUnmarked (exprVisits? e) →
    Yields s.Scripts (lowerExpr? s e) fun e' => s.AllScript (exprVisits? e')
  | none, _ => .pure Setting.allScript_nil
  | some e, h => (e.lower_script true h).bind fun _ he => .pure he

theorem lowerSlots_script : (es : List (Option Expr)) → AllUnmarked (slotsVisits es) →
    Yields s.Scripts (lowerSlots s es) fun es' => s.AllScript (slotsVisits es')
  | [], _ => .pure Setting.allScript_nil
  | e :: es, h => by
    refine (lowerExpr?_script e h.left).bind fun e he => ?_
    refine (lowerSlots_script es h.right).bind fun es hes => .pure ?_
    exact he.append hes

theorem Key.lower_script : (key : Key) → AllUnmarked key.visits →
    Yields s.Scripts (key.lower s) fun key' => s.AllScript key'.visits
  | .name _, _ => .pure (.node rfl Setting.allScript_nil)
  | .string _, _ => .pure (.node rfl Setting.allScript_nil)
  | .number _, _ => .pure Setting.allScript_nil
  | .computed e, h => (e.lower_script true h).bind fun _ he => .pure he

/-- A property that is kept as a shorthand reads itself. -/
theorem Property.lower_script : (p : Property) → AllUnmarked p.visits →
    Yields s.Scripts (p.lower s) fun p' =>
      s.AllScript p'.visits ∧ ∀ x, p' = .shorthand x → s.readsItself x = true
  | .keyed key value, h => by
    refine (key.lower_script h.left).bind fun key hkey => ?_
    refine (value.lower_script true h.right).bind fun value hvalue => .pure ⟨?_, nofun⟩
    exact hkey.append hvalue
  | .shorthand x, _ =>
    .pure ⟨Setting.script_readShorthand hheld, fun _ hy => Setting.readsItself_of_readShorthand hheld hy⟩
  | .method key kind f, h => by
    refine (key.lower_script h.left).bind fun key hkey => ?_
    refine (f.lower_script h.right).bind fun f hf => .pure ⟨?_, nofun⟩
    exact hkey.append hf
  | .spread e, h => (e.lower_script true h).bind fun _ he => .pure ⟨he, nofun⟩

theorem lowerProperties_script : (ps : List Property) → AllUnmarked (propertiesVisits ps) →
    Yields s.Scripts (lowerProperties s ps) fun ps' =>
      s.AllScript (propertiesVisits ps') ∧ ∀ x, .shorthand x ∈ ps' → s.readsItself x = true
  | [], _ => .pure ⟨Setting.allScript_nil, nofun⟩
  | p :: ps, h => by
    refine (p.lower_script h.left).bind fun p hp => ?_
    refine (lowerProperties_script ps h.right).bind fun ps hps => .pure ⟨?_, fun x hx => ?_⟩
    · exact hp.1.append hps.1
    · rcases List.mem_cons.mp hx with heq | hx
      · exact hp.2 x heq.symm
      · exact hps.2 x hx

-- Patterns that stay patterns.

theorem Pattern.lower_script : (p : Pattern) → AllUnmarked p.visits →
    Yields s.Scripts (p.lower s) fun p' => s.AllScript p'.visits
  | .ident x, _ => .pure (Setting.script_identPattern x)
  | .expr e, h => by
    refine (e.lower_script true h.tail).bind fun e he => .pure ?_
    exact (Setting.script_exprPattern e).mpr he
  | .object properties rest, h => by
    refine (lowerPatternProperties_script properties h.tail.left).bind fun properties hps => ?_
    refine (lowerPattern?_script rest h.tail.right).bind fun rest hrest => .pure ?_
    exact .node rfl (hps.append hrest)
  | .array elements rest, h => by
    refine (lowerPatternSlots_script elements h.tail.left).bind fun elements helements => ?_
    refine (lowerPattern?_script rest h.tail.right).bind fun rest hrest => .pure ?_
    exact .node rfl (helements.append hrest)

theorem lowerPattern?_script : (p : Option Pattern) → AllUnmarked (patternVisits? p) →
    Yields s.Scripts (lowerPattern? s p) fun p' => s.AllScript (patternVisits? p')
  | none, _ => .pure Setting.allScript_nil
  | some p, h => (p.lower_script h).bind fun _ hp => .pure hp

theorem PatternProperty.lower_script : (p : PatternProperty) → AllUnmarked p.visits →
    Yields s.Scripts (p.lower s) fun p' => s.AllScript p'.visits
  | .keyed key target fallback, h => by
    refine (key.lower_script h.left.left).bind fun key hkey => ?_
    refine (target.lower_script h.left.right).bind fun target htarget => ?_
    refine (lowerExpr?_script fallback h.right).bind fun fallback hfallback => .pure ?_
    exact (hkey.append htarget).append hfallback
  | .shorthand x fallback, h => by
    refine (lowerExpr?_script fallback h.tail).bind fun fallback hfallback => .pure ?_
    exact .node rfl hfallback

theorem lowerPatternProperties_script : (ps : List PatternProperty) →
    AllUnmarked (patternPropertiesVisits ps) →
    Yields s.Scripts (lowerPatternProperties s ps) fun ps' =>
      s.AllScript (patternPropertiesVisits ps')
  | [], _ => .pure Setting.allScript_nil
  | p :: ps, h => by
    refine (p.lower_script h.left).bind fun p hp => ?_
    refine (lowerPatternProperties_script ps h.right).bind fun ps hps => .pure ?_
    exact hp.append hps

theorem PatternElement.lower_script : (e : PatternElement) → AllUnmarked e.visits →
    Yields s.Scripts (e.lower s) fun e' => s.AllScript e'.visits
  | ⟨target, fallback⟩, h => by
    refine (target.lower_script h.left).bind fun target htarget => ?_
    refine (lowerExpr?_script fallback h.right).bind fun fallback hfallback => .pure ?_
    exact htarget.append hfallback

theorem lowerPatternSlot_script : (e : Option PatternElement) →
    AllUnmarked (patternSlotVisits e) →
    Yields s.Scripts (lowerPatternSlot s e) fun e' => s.AllScript (patternSlotVisits e')
  | none, _ => .pure Setting.allScript_nil
  | some e, h => (e.lower_script h).bind fun _ he => .pure he

theorem lowerPatternSlots_script : (es : List (Option PatternElement)) →
    AllUnmarked (patternSlotsVisits es) →
    Yields s.Scripts (lowerPatternSlots s es) fun es' => s.AllScript (patternSlotsVisits es')
  | [], _ => .pure Setting.allScript_nil
  | e :: es, h => by
    refine (lowerPatternSlot_script e h.left).bind fun e he => ?_
    refine (lowerPatternSlots_script es h.right).bind fun es hes => .pure ?_
    exact he.append hes

-- Patterns that are taken apart.

theorem Pattern.flatten_script : (p : Pattern) → AllUnmarked p.visits →
    ∀ (bound : List String) (depth : Nat) (value : Expr), s.AllScript value.visits →
      Yields s.Scripts (p.flatten s bound depth value) fun es => s.AllScript (exprsVisits es)
  | .ident x, _ => by
    intro bound depth value hvalue
    refine (yields_guardPatternDepth s depth).bind fun _ _ => .pure ?_
    exact (Setting.script_bindingAssignment x hvalue).append Setting.allScript_nil
  | .expr e, h => by
    intro bound depth value hvalue
    refine (yields_guardPatternDepth s depth).bind fun _ _ => ?_
    refine (e.lower_script true h.tail).bind fun e he => .pure ?_
    simp [exprsVisits, he, hvalue]
  | .object properties rest, h => by
    intro bound depth value hvalue
    refine (yields_guardPatternDepth s depth).bind fun _ _ => ?_
    refine (yields_stabilizeUnlessOne_script _ bound hvalue).bind fun r hr => ?_
    refine (flattenProperties_script properties h.tail.left bound _ rest.isSome r.2 hr.2).bind
      fun r' hr' => ?_
    have hcall := Setting.script_restCall hr.2 hr'.2
    have hremaining := flattenRest_script rest h.tail.right bound (depth + 1) _ hcall
    have hall : ∀ remaining, s.AllScript (exprsVisits remaining) →
        s.AllScript (exprsVisits (r.1 ++ r'.1 ++ remaining)) := by
      intro remaining hremaining
      simp [hr.1, hr'.1, hremaining]
    refine .ite (fun _ => yields_requireRest.bind fun _ _ => ?_) fun _ => ?_
    · exact hremaining.bind fun remaining h => .pure (hall remaining h)
    · exact hremaining.bind fun remaining h => .pure (hall remaining h)
  | .array elements rest, h => by
    intro bound depth value hvalue
    refine (yields_guardPatternDepth s depth).bind fun _ _ => ?_
    refine (yields_stabilizeUnlessOne_script _ bound hvalue).bind fun r hr => ?_
    refine (flattenSlots_script elements h.tail.left bound _ 0 r.2 hr.2).bind fun exprs hexprs => ?_
    have hslice := Setting.script_restSlice elements.length hr.2
    refine (flattenRest_script rest h.tail.right bound _ _ hslice).bind
      fun remaining hremaining => .pure ?_
    simp [hr.1, hexprs, hremaining]

theorem flattenRest_script : (rest : Option Pattern) → AllUnmarked (patternVisits? rest) →
    ∀ (bound : List String) (depth : Nat) (value : Expr), s.AllScript value.visits →
      Yields s.Scripts (flattenRest s bound depth rest value) fun es =>
        s.AllScript (exprsVisits es)
  | none, _ => fun _ _ _ _ => .pure Setting.allScript_nil
  | some p, h => p.flatten_script h

theorem flattenFallback_script : (fallback : Option Expr) → AllUnmarked (exprVisits? fallback) →
    ∀ (bound : List String) (value : Expr), s.AllScript value.visits →
      Yields s.Scripts (flattenFallback s bound fallback value) fun r =>
        s.AllScript (exprsVisits r.1) ∧ s.AllScript r.2.visits
  | none, _ => fun _ _ hvalue => .pure ⟨Setting.allScript_nil, hvalue⟩
  | some e, h => by
    intro bound value hvalue
    refine (yields_stabilize_script bound hvalue).bind fun r hr => ?_
    refine (e.lower_script true h).bind fun e he => .pure ⟨hr.1, ?_⟩
    exact Setting.script_orFallback hr.2 he

theorem Key.flatten_script : (key : Key) → AllUnmarked key.visits →
    ∀ (bound : List String) (hasRest : Bool) (value : Expr), s.AllScript value.visits →
      Yields s.Scripts (key.flatten s bound hasRest value) fun r =>
        s.AllScript (exprsVisits r.1) ∧ s.AllScript r.2.1.visits ∧ s.AllScript r.2.2.visits
  | .name text, _ => fun _ _ value hvalue =>
    .pure ⟨Setting.allScript_nil, (Setting.script_dot value text).mpr hvalue,
      Setting.script_ofString text⟩
  | .string text, _ => by
    intro bound hasRest value hvalue
    refine .pure ⟨Setting.allScript_nil, ?_, Setting.script_ofString text⟩
    dsimp only
    split
    · exact (Setting.script_dot value text).mpr hvalue
    · exact (Setting.script_lookup _ _).mpr ⟨hvalue, Setting.script_ofString text⟩
  | .number source, _ => by
    intro bound hasRest value hvalue
    refine .pure ⟨Setting.allScript_nil, ?_, Setting.script_ofString source⟩
    exact (Setting.script_lookup _ _).mpr ⟨hvalue, Setting.script_ofNumber source⟩
  | .computed e, h => by
    intro bound hasRest value hvalue
    refine (e.lower_script true h).bind fun key hkey => .ite (fun _ => ?_) fun _ => ?_
    · refine (yields_stabilize_script bound hkey).bind fun r hr => .pure ⟨hr.1, ?_, ?_⟩
      · exact (Setting.script_lookup _ _).mpr ⟨hvalue, hr.2⟩
      · exact Setting.script_propertyKey hr.2
    · refine .pure ⟨Setting.allScript_nil, ?_, hkey⟩
      exact (Setting.script_lookup _ _).mpr ⟨hvalue, hkey⟩

theorem PatternProperty.flatten_script : (p : PatternProperty) → AllUnmarked p.visits →
    ∀ (bound : List String) (depth : Nat) (hasRest : Bool) (value : Expr),
      s.AllScript value.visits →
      Yields s.Scripts (p.flatten s bound depth hasRest value) fun r =>
        s.AllScript (exprsVisits r.1) ∧ s.AllScript r.2.visits
  | .keyed key target fallback, h => by
    intro bound depth hasRest value hvalue
    refine (key.flatten_script h.left.left bound hasRest value hvalue).bind fun r hr => ?_
    refine (flattenFallback_script fallback h.right bound r.2.1 hr.2.1).bind fun r' hr' => ?_
    refine (target.flatten_script h.left.right bound depth r'.2 hr'.2).bind
      fun exprs hexprs => .pure ?_
    exact ⟨by simp [hr.1, hr'.1, hexprs], hr.2.2⟩
  | .shorthand x fallback, h => by
    intro bound depth hasRest value hvalue
    have hproperty := (Setting.script_dot value x.name).mpr hvalue
    refine (flattenFallback_script fallback h.tail bound _ hproperty).bind fun r hr => ?_
    refine (yields_guardPatternDepth s depth).bind fun _ _ => .pure ?_
    have hassign := Setting.script_bindingAssignment x hr.2
    exact ⟨by simp [exprsVisits, hr.1, hassign], Setting.script_ofString x.name⟩

theorem flattenProperties_script : (ps : List PatternProperty) →
    AllUnmarked (patternPropertiesVisits ps) →
    ∀ (bound : List String) (depth : Nat) (hasRest : Bool) (value : Expr),
      s.AllScript value.visits →
      Yields s.Scripts (flattenProperties s bound depth hasRest ps value) fun r =>
        s.AllScript (exprsVisits r.1) ∧ s.AllScript (exprsVisits r.2)
  | [], _ => fun _ _ _ _ _ => .pure ⟨Setting.allScript_nil, Setting.allScript_nil⟩
  | p :: ps, h => by
    intro bound depth hasRest value hvalue
    refine (p.flatten_script h.left bound depth hasRest value hvalue).bind fun r hr => ?_
    refine (flattenProperties_script ps h.right bound depth hasRest value hvalue).bind
      fun r' hr' => .pure ?_
    exact ⟨by simp [hr.1, hr'.1], hr.2.append hr'.2⟩

theorem PatternElement.flatten_script : (e : PatternElement) → AllUnmarked e.visits →
    ∀ (bound : List String) (depth : Nat) (value : Expr), s.AllScript value.visits →
      Yields s.Scripts (e.flatten s bound depth value) fun es => s.AllScript (exprsVisits es)
  | ⟨target, fallback⟩, h => by
    intro bound depth value hvalue
    refine (flattenFallback_script fallback h.right bound value hvalue).bind fun r hr => ?_
    refine (target.flatten_script h.left bound depth r.2 hr.2).bind fun exprs hexprs => .pure ?_
    simp [hr.1, hexprs]

theorem flattenSlot_script : (e : Option PatternElement) → AllUnmarked (patternSlotVisits e) →
    ∀ (bound : List String) (depth : Nat) (value : Expr), s.AllScript value.visits →
      Yields s.Scripts (flattenSlot s bound depth e value) fun es => s.AllScript (exprsVisits es)
  | none, _ => fun _ _ _ _ => .pure Setting.allScript_nil
  | some e, h => e.flatten_script h

theorem flattenSlots_script : (es : List (Option PatternElement)) →
    AllUnmarked (patternSlotsVisits es) →
    ∀ (bound : List String) (depth index : Nat) (value : Expr), s.AllScript value.visits →
      Yields s.Scripts (flattenSlots s bound depth index es value) fun es =>
        s.AllScript (exprsVisits es)
  | [], _ => fun _ _ _ _ _ => .pure Setting.allScript_nil
  | e :: es, h => by
    intro bound depth index value hvalue
    have hslot : s.AllScript (value.lookup (.ofNumber (toString index))).visits :=
      (Setting.script_lookup _ _).mpr ⟨hvalue, Setting.script_ofNumber _⟩
    refine (flattenSlot_script e h.left bound depth _ hslot).bind fun exprs hexprs => ?_
    refine (flattenSlots_script es h.right bound depth _ value hvalue).bind
      fun more hmore => .pure ?_
    simp [hexprs, hmore]

-- Functions and classes.

theorem Param.lower_script : (p : Param) → AllUnmarked p.visits →
    Yields s.Scripts (p.lower s) fun p' => s.AllScript p'.visits
  | ⟨pattern, fallback, isRest⟩, h => by
    refine (pattern.lower_script h.left).bind fun pattern hpattern => ?_
    refine (lowerExpr?_script fallback h.right).bind fun fallback hfallback => .pure ?_
    exact hpattern.append hfallback

theorem lowerParams_script : (ps : List Param) → AllUnmarked (paramsVisits ps) →
    Yields s.Scripts (lowerParams s ps) fun ps' => s.AllScript (paramsVisits ps')
  | [], _ => .pure Setting.allScript_nil
  | p :: ps, h => by
    refine (p.lower_script h.left).bind fun p hp => ?_
    refine (lowerParams_script ps h.right).bind fun ps hps => .pure ?_
    exact hp.append hps

theorem Func.lower_script : (f : Func) → AllUnmarked f.visits →
    Yields s.Scripts (f.lower s) fun f' => s.AllScript f'.visits
  | ⟨name, params, body, isAsync, isGenerator⟩, h => by
    have hinner : Yields s.Scripts
        (do return (← lowerParams s params, ← lowerStmts s .function body) :
          Lowering (List Param × List Stmt))
        fun r => s.AllScript (paramsVisits r.1) ∧ s.AllScript (stmtsVisits r.2) := by
      refine (lowerParams_script params h.tail.left.right).bind fun params hparams => ?_
      exact (lowerStmts_script body .function h.tail.right).bind
        fun body hbody => .pure ⟨hparams, hbody⟩
    refine (yields_inFunction_script hinner).bind fun r hr => .pure ?_
    rw [Setting.script_func, NameTable.stmtsVisits_append, Setting.allScript_append]
    exact ⟨hr.1.1, hr.2, hr.1.2⟩

theorem ArrowBody.lower_script : (body : ArrowBody) → AllUnmarked body.visits →
    Yields s.Scripts (body.lower s) fun body' => s.AllScript body'.visits
  | .block body, h => (lowerStmts_script body .function h).bind fun _ hbody => .pure hbody
  | .expr e, h => (e.lower_script true h).bind fun _ he => .pure he

theorem Class.lower_script : (c : Class) → AllUnmarked c.visits →
    Yields s.Scripts (c.lower s) fun c' => s.AllScript c'.visits
  | ⟨name, base, members⟩, h => by
    refine (lowerExpr?_script base h.tail.left.right).bind fun base hbase => ?_
    refine (lowerMembers_script members h.tail.right).bind fun members hmembers => .pure ?_
    exact .node rfl (((Setting.allScript_idents _).append hbase).append hmembers)

theorem ClassMember.lower_script : (m : ClassMember) → AllUnmarked m.visits →
    Yields s.Scripts (m.lower s) fun m' => s.AllScript m'.visits
  | .method key kind isStatic f, h => by
    refine (key.lower_script h.left).bind fun key hkey => ?_
    refine (f.lower_script h.right).bind fun f hf => .pure ?_
    exact hkey.append hf
  | .field key isStatic value, h => by
    refine (key.lower_script h.left).bind fun key hkey => ?_
    refine (lowerExpr?_script value h.right).bind fun value hvalue => .pure ?_
    exact hkey.append hvalue
  | .staticBlock body, h => by
    refine (yields_inFunction_script (lowerStmts_script body .function h)).bind fun r hr => .pure ?_
    change s.AllScript (stmtsVisits (_ ++ _))
    rw [NameTable.stmtsVisits_append, Setting.allScript_append]
    exact ⟨hr.2, hr.1⟩

theorem lowerMembers_script : (ms : List ClassMember) → AllUnmarked (membersVisits ms) →
    Yields s.Scripts (lowerMembers s ms) fun ms' => s.AllScript (membersVisits ms')
  | [], _ => .pure Setting.allScript_nil
  | m :: ms, h => by
    refine (m.lower_script h.left).bind fun m hm => ?_
    refine (lowerMembers_script ms h.right).bind fun ms hms => .pure ?_
    exact hm.append hms

-- Declaration lists.

theorem Declarator.lower_script : (d : Declarator) → AllUnmarked d.visits →
    Yields s.Scripts (d.lower s) fun d' => s.AllScript d'.visits
  | ⟨target, init⟩, h => by
    refine (target.lower_script h.left).bind fun target htarget => ?_
    refine (lowerExpr?_script init h.right).bind fun init hinit => .pure ?_
    exact htarget.append hinit

theorem lowerDeclarators_script : (ds : List Declarator) → AllUnmarked (declaratorsVisits ds) →
    Yields s.Scripts (lowerDeclarators s ds) fun ds' => s.AllScript (declaratorsVisits ds')
  | [], _ => .pure Setting.allScript_nil
  | d :: ds, h => by
    refine (d.lower_script h.left).bind fun d hd => ?_
    refine (lowerDeclarators_script ds h.right).bind fun ds hds => .pure ?_
    exact hd.append hds

theorem VarList.lower_script : (list : VarList) → AllUnmarked list.visits →
    Yields s.Scripts (list.lower s) fun list' => s.AllScript list'.visits
  | ⟨_, ds⟩, h => (lowerDeclarators_script ds h).bind fun _ hds => .pure hds

theorem Declarator.hoisted_script : (d : Declarator) → AllUnmarked d.visits →
    Yields s.Scripts (d.hoisted s) fun es => s.AllScript (exprsVisits es)
  | ⟨target, none⟩, _ =>
    (gathers_hoist fun h => .addVariables h _).bind fun _ _ => .pure Setting.allScript_nil
  | ⟨target, some init⟩, h => by
    refine (gathers_hoist fun h => .addVariables h _).bind fun _ _ => ?_
    refine (init.lower_script true h.right).bind fun value hvalue => ?_
    exact target.flatten_script h.left _ 0 value hvalue

theorem hoistedDeclarators_script : (ds : List Declarator) → AllUnmarked (declaratorsVisits ds) →
    Yields s.Scripts (hoistedDeclarators s ds) fun es => s.AllScript (exprsVisits es)
  | [], _ => .pure Setting.allScript_nil
  | d :: ds, h => by
    refine (d.hoisted_script h.left).bind fun exprs hexprs => ?_
    refine (hoistedDeclarators_script ds h.right).bind fun more hmore => .pure ?_
    simp [hexprs, hmore]

theorem VarList.hoisted_script : (list : VarList) → AllUnmarked list.visits →
    Yields s.Scripts (list.hoisted s) fun es => s.AllScript (exprsVisits es)
  | ⟨_, ds⟩, h => hoistedDeclarators_script ds h

-- Statements.

theorem ForInit.lower_script : (init : ForInit) → (place : Place) → AllUnmarked init.visits →
    Yields s.Scripts (init.lower s place) fun init' => s.AllScript init'.visits
  | .absent, _, _ => .pure Setting.allScript_nil
  | .var list, _, h => by
    refine .ite (fun _ => (list.hoisted_script h).bind fun exprs hexprs => ?_) fun _ => ?_
    · cases he : Expr.ofList exprs with
      | none => exact .pure Setting.allScript_nil
      | some e => exact .pure (Setting.script_ofList hexprs he)
    · exact (list.lower_script h).bind fun _ hlist => .pure hlist
  | .expr e, _, h => (e.lower_script false h).bind fun _ he => .pure he

theorem ForHead.lower_script : (head : ForHead) → (place : Place) → AllUnmarked head.visits →
    Yields s.Scripts (head.lower s place) fun r =>
      s.AllScript r.1.visits ∧ s.AllScript (stmtsVisits r.2)
  | .var ⟨kind, []⟩, _, _ => .pure ⟨Setting.allScript_nil, Setting.allScript_nil⟩
  | .var ⟨kind, ⟨target, init⟩ :: ds⟩, place, h => by
    refine .ite (fun _ => ?_) fun _ => ?_
    · refine (gathers_hoist fun h => .addVariables h _).bind fun _ _ => ?_
      refine (target.lower_script h.left.left).bind fun _ htarget => .pure ⟨htarget, ?_⟩
      exact Setting.script_headExports target
    · refine (target.lower_script h.left.left).bind fun target htarget => ?_
      refine (lowerExpr?_script init h.left.right).bind fun init hinit => ?_
      refine (lowerDeclarators_script ds h.right).bind
        fun ds hds => .pure ⟨?_, Setting.allScript_nil⟩
      exact (htarget.append hinit).append hds
  | .pattern p, _, h => (p.lower_script h).bind fun _ hp => .pure ⟨hp, Setting.allScript_nil⟩

theorem Catch.lower_script : (c : Catch) → (place : Place) → AllUnmarked c.visits →
    Yields s.Scripts (c.lower s place) fun c' => s.AllScript c'.visits
  | ⟨param, body⟩, place, h => by
    refine (lowerPattern?_script param h.left).bind fun param hparam => ?_
    refine (lowerStmts_script body place h.right).bind fun body hbody => .pure ?_
    exact hparam.append hbody

theorem lowerCatch?_script : (c : Option Catch) → (place : Place) →
    AllUnmarked (catchVisits? c) →
    Yields s.Scripts (lowerCatch? s place c) fun c' => s.AllScript (catchVisits? c')
  | none, _, _ => .pure Setting.allScript_nil
  | some c, place, h => (c.lower_script place h).bind fun _ hc => .pure hc

theorem lowerBlock?_script : (body : Option (List Stmt)) → (place : Place) →
    AllUnmarked (blockVisits? body) →
    Yields s.Scripts (lowerBlock? s place body) fun body' => s.AllScript (blockVisits? body')
  | none, _, _ => .pure Setting.allScript_nil
  | some body, place, h => (lowerStmts_script body place h).bind fun _ hbody => .pure hbody

theorem Case.lower_script : (c : Case) → (place : Place) → AllUnmarked c.visits →
    Yields s.Scripts (c.lower s place) fun c' => s.AllScript c'.visits
  | ⟨test, body⟩, place, h => by
    refine (lowerExpr?_script test h.left).bind fun test htest => ?_
    refine (lowerStmts_script body place h.right).bind fun body hbody => .pure ?_
    exact htest.append hbody

theorem lowerCases_script : (cs : List Case) → (place : Place) → AllUnmarked (casesVisits cs) →
    Yields s.Scripts (lowerCases s place cs) fun cs' => s.AllScript (casesVisits cs')
  | [], _, _ => .pure Setting.allScript_nil
  | c :: cs, place, h => by
    refine (c.lower_script place h.left).bind fun c hc => ?_
    refine (lowerCases_script cs place h.right).bind fun cs hcs => .pure ?_
    exact hc.append hcs

theorem lowerStmts_script : (sts : List Stmt) → (place : Place) →
    AllUnmarked (stmtsVisits sts) →
    Yields s.Scripts (lowerStmts s place sts) fun sts' => s.AllScript (stmtsVisits sts')
  | [], _, _ => .pure Setting.allScript_nil
  | st :: sts, place, h => by
    obtain ⟨htail, hst⟩ := AllUnmarked.of_stmt h.left
    refine (st.lower_script place htail (.inr hst)).bind fun first hfirst => ?_
    refine (lowerStmts_script sts place h.right).bind fun more hmore => .pure ?_
    rw [NameTable.stmtsVisits_append, Setting.allScript_append]
    exact ⟨hfirst, hmore⟩

theorem lowerUnused?_script : (e : Option Expr) → AllUnmarked (exprVisits? e) →
    Yields s.Scripts (lowerUnused? s e) fun e' => s.AllScript (exprVisits? e')
  | none, _ => .pure Setting.allScript_nil
  | some e, h => (e.lower_script false h).bind fun _ he => .pure he

/-- Module syntax is taken away at the top level, and stands nowhere else. -/
theorem Stmt.lower_script : (st : Stmt) → (place : Place) → AllUnmarked st.visits.tail →
    place = .topLevel ∨ st.isModular = false →
    Yields s.Scripts (st.lower s place) fun sts => s.AllScript (stmtsVisits sts)
  | .expr e, _, h, _ => by
    refine .deeper s ((e.lower_script false h).bind fun e he => .pure ?_)
    exact .single (.node rfl he)
  | .var modifiers list, place, h, hst => by
    have hhoisted : Yields s.Scripts
        (do return (Expr.ofList (← list.hoisted s)).toList.map Stmt.expr)
        fun sts => s.AllScript (stmtsVisits sts) := by
      refine (list.hoisted_script h).bind fun exprs hexprs => .pure ?_
      cases he : Expr.ofList exprs with
      | none => exact Setting.allScript_nil
      | some e => exact .single (.node rfl (Setting.script_ofList hexprs he))
    refine .deeper s (.ite (fun _ => .ite (fun _ => ?_) fun _ => ?_) fun hkept => ?_)
    · exact (gathers_addExportedNames _).bind fun _ _ => hhoisted
    · exact hhoisted
    · have hplace : place ≠ .topLevel := by
        rintro rfl
        exact hkept rfl
      have hplain : modifiers = {} := by simpa [Stmt.isModular] using hst.resolve_left hplace
      subst hplain
      refine (list.lower_script h).bind fun list hlist => .pure ?_
      exact .single (.node rfl hlist)
  | .function modifiers f, place, h, hst => by
    refine .deeper s ((f.lower_script h).bind fun f hf => .ite (fun _ => ?_) fun hplace => .pure ?_)
    · exact (yields_hoistFunction_script modifiers hf).bind fun _ _ => .pure Setting.allScript_nil
    · have hplain : modifiers = {} := by simpa [Stmt.isModular] using hst.resolve_left hplace
      subst hplain
      exact .single (.node rfl hf)
  | .classDecl modifiers c, place, h, hst => by
    refine .deeper s (.ite (fun _ => ?_) fun hplace => ?_)
    · refine (yields_hoistClassName_script c.name).bind fun name _ => ?_
      refine (c.lower_script h).bind fun c hc => ?_
      exact yields_classAssignment_script modifiers name hc
    · have hplain : modifiers = {} := by simpa [Stmt.isModular] using hst.resolve_left hplace
      subst hplain
      refine (c.lower_script h).bind fun c hc => .pure ?_
      exact .single (.node rfl hc)
  | .importFrom site clause specifier isTypeOnly, place, _, hst => by
    refine .deeper s (.ite (fun _ => ?_) fun h => absurd hst (by simp [h, Stmt.isModular]))
    exact (gathers_hoist fun h => .addVariables h _).bind fun _ _ => .pure Setting.allScript_nil
  | .importEquals site isExported name kind value, place, h, hst => by
    refine .deeper s (.ite (fun _ => ?_) fun h => absurd hst (by simp [h, Stmt.isModular]))
    refine .ite (fun _ => .pure Setting.allScript_nil) fun _ => ?_
    refine (gathers_hoist fun h => .addVariable h _).bind fun _ _ => ?_
    have hkind : Yields s.Scripts (match kind with
        | .require => return []
        | .entity => return [.expr (s.bindingAssignment name (← value.lower s true))])
        fun sts => s.AllScript (stmtsVisits sts) := by
      cases kind with
      | require => exact .pure Setting.allScript_nil
      | entity =>
        refine (value.lower_script true h.tail).bind fun value hvalue => .pure ?_
        exact .single (.node rfl (Setting.script_bindingAssignment name hvalue))
    exact .ite (fun _ => (gathers_addExportedName _).bind fun _ _ => hkind) fun _ => hkind
  | .exportFrom site clause specifier isTypeOnly, place, _, hst => by
    refine .deeper s (.ite (fun _ => ?_) fun h => absurd hst (by simp [h, Stmt.isModular]))
    split
    · next specs _ => exact yields_exportSpecifiers_script specs
    · exact .pure Setting.allScript_nil
  | .exportValue site form value, place, h, hst => by
    refine .deeper s (.ite (fun _ => ?_) fun h => absurd hst (by simp [h, Stmt.isModular]))
    refine .ite (fun _ => .pure Setting.allScript_nil) fun _ => ?_
    refine (value.lower_script true h).bind fun value hvalue => .pure ?_
    exact .single (.node rfl ((Setting.script_publish _ _).mpr hvalue))
  | .ambient name isExported, _, _, _ => by
    exact .deeper s (.pure Setting.allScript_nil)
  | .block body, place, h, _ => by
    refine .deeper s ((lowerStmts_script body place.inner h).bind fun body hbody => .pure ?_)
    exact .single (.node rfl hbody)
  | .ifThen test yes, place, h, _ => by
    obtain ⟨hyes, hinner⟩ := AllUnmarked.of_stmt h.right
    refine .deeper s ((test.lower_script true h.left).bind fun test htest => ?_)
    refine (yes.lower_script place.inner hyes (.inr hinner)).bind fun yes hyes => .pure ?_
    exact .single (.node rfl (htest.append (Setting.script_stmtOfList hyes)))
  | .ifElse test yes no, place, h, _ => by
    obtain ⟨hyes, hyesInner⟩ := AllUnmarked.of_stmt h.left.right
    obtain ⟨hno, hnoInner⟩ := AllUnmarked.of_stmt h.right
    refine .deeper s ((test.lower_script true h.left.left).bind fun test htest => ?_)
    refine (yes.lower_script place.inner hyes (.inr hyesInner)).bind fun yes hyes => ?_
    refine (no.lower_script place.inner hno (.inr hnoInner)).bind fun no hno => .pure ?_
    exact .single (.node rfl ((htest.append (Setting.script_stmtOfList hyes)).append
      (Setting.script_stmtOfList hno)))
  | .forLoop init test update body, place, h, _ => by
    obtain ⟨hbody, hinner⟩ := AllUnmarked.of_stmt h.right
    refine .deeper s ((init.lower_script place h.left.left.left).bind fun init hinit => ?_)
    refine (lowerExpr?_script test h.left.left.right).bind fun test htest => ?_
    refine (lowerUnused?_script update h.left.right).bind fun update hupdate => ?_
    refine (body.lower_script place.inner hbody (.inr hinner)).bind fun body hbody => .pure ?_
    exact .single (.node rfl (((hinit.append htest).append hupdate).append
      (Setting.script_stmtOfList hbody)))
  | .forIn head object body, place, h, _ => by
    have hhead := head.lower_script place h.left.left
    have hobject := object.lower_script true h.left.right
    obtain ⟨hunmarked, hinner⟩ := AllUnmarked.of_stmt h.right
    have hbody := body.lower_script place.inner hunmarked (.inr hinner)
    cases body with
    | block inner =>
      have hstmts := lowerStmts_script inner place.inner hunmarked
      refine .deeper s (hhead.bind fun r hr => hobject.bind fun object hobject => ?_)
      refine (yields_blockBody_script hr.2 hstmts).bind fun body hbody => .pure ?_
      exact .single (.node rfl ((hr.1.append hobject).append hbody))
    | _ =>
      refine .deeper s (hhead.bind fun r hr => hobject.bind fun object hobject => ?_)
      refine hbody.bind fun body hbody => .pure ?_
      exact .single (.node rfl ((hr.1.append hobject).append (script_loopBody hr.2 hbody)))
  | .forOf head iterable body isAwait, place, h, _ => by
    have hhead := head.lower_script place h.left.left
    have hiterable := iterable.lower_script true h.left.right
    obtain ⟨hunmarked, hinner⟩ := AllUnmarked.of_stmt h.right
    have hbody := body.lower_script place.inner hunmarked (.inr hinner)
    cases body with
    | block inner =>
      have hstmts := lowerStmts_script inner place.inner hunmarked
      refine .deeper s (hhead.bind fun r hr => hiterable.bind fun iterable hiterable => ?_)
      refine (yields_blockBody_script hr.2 hstmts).bind fun body hbody => .pure ?_
      exact .single (.node rfl ((hr.1.append hiterable).append hbody))
    | _ =>
      refine .deeper s (hhead.bind fun r hr => hiterable.bind fun iterable hiterable => ?_)
      refine hbody.bind fun body hbody => .pure ?_
      exact .single (.node rfl ((hr.1.append hiterable).append (script_loopBody hr.2 hbody)))
  | .whileLoop test body, place, h, _ => by
    obtain ⟨hbody, hinner⟩ := AllUnmarked.of_stmt h.right
    refine .deeper s ((test.lower_script true h.left).bind fun test htest => ?_)
    refine (body.lower_script place.inner hbody (.inr hinner)).bind fun body hbody => .pure ?_
    exact .single (.node rfl (htest.append (Setting.script_stmtOfList hbody)))
  | .doWhile body test, place, h, _ => by
    obtain ⟨hbody, hinner⟩ := AllUnmarked.of_stmt h.right
    refine .deeper s ((body.lower_script place.inner hbody (.inr hinner)).bind fun body hbody => ?_)
    refine (test.lower_script true h.left).bind fun test htest => .pure ?_
    exact .single (.node rfl (htest.append (Setting.script_stmtOfList hbody)))
  | .tryCatch body handler finalizer, place, h, _ => by
    refine .deeper s ((lowerStmts_script body place.inner h.left.left).bind fun body hbody => ?_)
    refine (lowerCatch?_script handler place.inner h.left.right).bind fun handler hhandler => ?_
    refine (lowerBlock?_script finalizer place.inner h.right).bind
      fun finalizer hfinalizer => .pure ?_
    exact .single (.node rfl ((hbody.append hhandler).append hfinalizer))
  | .switch subject cases, place, h, _ => by
    refine .deeper s ((subject.lower_script true h.left).bind fun subject hsubject => ?_)
    refine (lowerCases_script cases place.inner h.right).bind fun cases hcases => .pure ?_
    exact .single (.node rfl (hsubject.append hcases))
  | .labeled label body, place, h, _ => by
    obtain ⟨hbody, hinner⟩ := AllUnmarked.of_stmt h.tail
    refine .deeper s ((body.lower_script place.inner hbody (.inr hinner)).bind
      fun body hbody => .pure ?_)
    exact .single (.node rfl (.node rfl (Setting.script_stmtOfList hbody)))
  | .withObject object body, place, h, _ => by
    obtain ⟨hbody, hinner⟩ := AllUnmarked.of_stmt h.right
    refine .deeper s ((object.lower_script true h.left).bind fun object hobject => ?_)
    refine (body.lower_script place.inner hbody (.inr hinner)).bind fun body hbody => .pure ?_
    exact .single (.node rfl (hobject.append (Setting.script_stmtOfList hbody)))
  | .ret arg, _, h, _ => by
    refine .deeper s ((lowerExpr?_script arg h).bind fun arg harg => .pure ?_)
    exact .single (.node rfl harg)
  | .throw arg, _, h, _ => by
    refine .deeper s ((arg.lower_script true h).bind fun arg harg => .pure ?_)
    exact .single (.node rfl harg)
  | .breakTo label, _, _, _ | .continueTo label, _, _, _ => by
    refine .deeper s (.pure ?_)
    exact .single (.node rfl (Setting.allScript_names _))
  | .empty, _, _, _ | .debugger, _, _, _ => by
    refine .deeper s (.pure ?_)
    exact .single (.node rfl Setting.allScript_nil)

end
end RegisterForm
