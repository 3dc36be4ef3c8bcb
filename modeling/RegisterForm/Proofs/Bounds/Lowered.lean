import RegisterForm.Proofs.Bounds.Step
/-!
# Lowered trees stay within allowances

A tree that asks for no more than an allowance grants is lowered within it: the calls of the
exporter that lowering adds publish allowed names, and the variables that become variables of the
module are allowed. The proof follows the lowering of every kind of node.
-/
namespace RegisterForm
open Lowering Vocabulary

/-- What a step makes keeps to an allowance, and so do the variables that it declares around. -/
abbrev Setting.Stays (s : Setting) (A : Allowance) {α : Type} (x : Lowering α)
    (visits : α → List Visit) : Prop :=
  Yields (Progress.Extends A.hoists) x fun a => s.Keeps A (visits a)

/-- What stands at the top level and declares more than variables of its own. -/
def Stmt.isDeclaration : Stmt → Bool
  | .function .. | .classDecl .. | .importFrom .. | .importEquals .. | .exportFrom ..
  | .exportValue .. => true
  | _ => false

variable {s : Setting} {A : Allowance} (hrest : s.exporter ≠ restName)

-- Only patterns with a rest call the helper for it.
set_option linter.unusedSectionVars false

include hrest

mutual

theorem Expr.lower_stays : (e : Expr) → (isUsed : Bool) → s.AllowsAll A e.visits →
    s.Stays A (e.lower s isUsed) Expr.visits
  | .ident x, _, _ =>
    .deeper s (.pure (Setting.keeps_read x))
  | .literal _, _, h | .this, _, h | .super, _, h =>
    .deeper s (.pure h.keeps)
  | .template chunks parts, _, h => by
    refine .deeper s ((lowerExprs_stays parts h.tail).bind fun parts hparts => .pure ?_)
    exact .expr rfl hparts
  | .tagged tag chunks parts, _, h => by
    refine .deeper s ((tag.lower_stays true h.tail.left).bind fun tag htag => ?_)
    refine (lowerExprs_stays parts h.tail.right).bind fun parts hparts => .pure ?_
    exact .expr rfl (.append htag hparts)
  | .array elements, _, h => by
    refine .deeper s ((lowerSlots_stays elements h.tail).bind fun elements helements => .pure ?_)
    exact .expr rfl helements
  | .object properties, _, h => by
    refine .deeper s ((lowerProperties_stays properties h.tail).bind fun ps hps => .pure ?_)
    exact .expr rfl hps
  | .function f, _, h => by
    refine .deeper s ((f.lower_stays h.tail).bind fun f hf => .pure ?_)
    exact .expr rfl hf
  | .arrow params body isAsync, _, h => by
    have hinner : Yields (Progress.Extends A.hoists)
        (do return (← lowerParams s params, ← body.lower s) : Lowering (List Param × ArrowBody))
        fun r => s.Keeps A (paramsVisits r.1) ∧ s.Keeps A r.2.visits :=
      (lowerParams_stays params h.tail.left).bind fun params hparams =>
        (body.lower_stays h.tail.right).bind fun body hbody => .pure ⟨hparams, hbody⟩
    refine .deeper s ((yields_inFunction_keeps s hinner).bind fun r hr => .pure ?_)
    have hbody := keeps_withDeclarations hr.1.2 hr.2
    exact .expr rfl (.append hr.1.1 hbody)
  | .classExpr c, _, h => by
    refine .deeper s ((c.lower_stays h.tail).bind fun c hc => .pure ?_)
    exact .expr rfl hc
  | .unary op arg, _, h => by
    refine .deeper s ((arg.lower_stays true h.tail).bind fun arg harg => .pure ?_)
    exact .expr rfl harg
  | .update op isPrefix arg, isUsed, h => by
    refine .deeper s ?_
    cases hpublished : s.publishedUpdate? op isPrefix isUsed arg with
    | some e =>
      refine .pure (Setting.keeps_publishedUpdate? (fun x hx => ?_) hpublished)
      refine h.tail.names (mem_identsIn_of_skipParens arg hx) (h.head.assigned x ?_)
      simp [Visit.assigned, hx, Expr.ident?]
    | none =>
      refine (arg.lower_stays true h.tail).bind fun arg harg => .pure ?_
      exact .expr rfl harg
  | .binary op left right, _, h => by
    refine .deeper s ((left.lower_stays true h.tail.left).bind fun left hleft => ?_)
    refine (right.lower_stays true h.tail.right).bind fun right hright => .pure ?_
    exact .expr rfl (.append hleft hright)
  | .assign op target value, isUsed, h => by
    refine .deeper s (.ite (fun _ => ?_) fun _ => ?_)
    · refine (value.lower_stays true h.tail.right).bind fun value hvalue => ?_
      have hassigns : ∀ (r : List Expr × Expr) (result : List Expr),
          s.Keeps A (exprsVisits r.1) ∧ s.Keeps A r.2.visits → s.Keeps A (exprsVisits result) →
          s.Stays A (do
            let exprs ← target.flatten s target.boundNames 0 r.2
            return (Expr.ofList (r.1 ++ exprs ++ result)).getD r.2) Expr.visits := by
        intro r result hr hresult
        refine (target.flatten_stays h.tail.left _ 0 r.2 hr.2).bind fun exprs hexprs => .pure ?_
        cases he : Expr.ofList (r.1 ++ exprs ++ result) with
        | none => exact hr.2
        | some e => exact Setting.keeps_ofList ((hr.1.exprs hexprs).exprs hresult) he
      refine .ite (fun hused => ?_) fun hunused => ?_
      · subst hused
        refine (yields_stabilize_keeps target.boundNames hvalue).bind fun r hr => ?_
        exact hassigns r [r.2] hr (.oneExpr hr.2)
      · obtain rfl : isUsed = false := by simpa using hunused
        exact hassigns ([], value) [] ⟨Setting.keeps_nil, hvalue⟩ Setting.keeps_nil
    · have htarget := (target.lower_stays h.tail.left).and (target.lower_ident? s)
      refine htarget.bind fun target' htarget' => ?_
      refine (value.lower_stays true h.tail.right).bind fun value hvalue => .pure ?_
      refine Setting.keeps_publishedTo (fun x hx => h.tail.left.ident x (htarget'.2 ▸ hx)) ?_
      exact .expr rfl (.append htarget'.1 hvalue)
  | .conditional test yes no, isUsed, h => by
    refine .deeper s ((test.lower_stays true h.tail.left.left).bind fun test htest => ?_)
    refine (yes.lower_stays isUsed h.tail.left.right).bind fun yes hyes => ?_
    refine (no.lower_stays isUsed h.tail.right).bind fun no hno => .pure ?_
    exact .expr rfl (.append (.append htest hyes) hno)
  | .call callee args isOptional, _, h => by
    have hcallee := (callee.lower_stays true h.tail.left).and (callee.lower_ident (s := s) true)
    refine .deeper s (hcallee.bind fun callee' hcallee' => ?_)
    refine (lowerExprs_stays args h.tail.right).bind fun args hargs => .pure ?_
    refine (Setting.keeps_call fun hcalls => ?_).mpr ⟨hcallee'.1, hargs⟩
    -- A callee that is lowered to an identifier was one, and only an import reads as another.
    obtain ⟨⟨_, _, he, hexporter⟩, himports⟩ := hcalls
    obtain ⟨x, hx, hread⟩ := hcallee'.2 _ ((Expr.call.inj he).1 ▸ hexporter)
    have hlocal : s.names.importOf? x = none := by
      by_contra hsome
      exact himports x (Option.isSome_iff_ne_none.mpr hsome) hread
    rw [Setting.read, hlocal] at hread
    refine h.head.calls ?_
    simp [Visit.called?, Expr.called?, hx, Expr.ident?, Expr.ident.inj hread]
  | .newBare callee, _, h => by
    refine .deeper s ((callee.lower_stays true h.tail).bind fun callee hcallee => .pure ?_)
    exact .expr rfl hcallee
  | .newCall callee args, _, h => by
    refine .deeper s ((callee.lower_stays true h.tail.left).bind fun callee hcallee => ?_)
    refine (lowerExprs_stays args h.tail.right).bind fun args hargs => .pure ?_
    exact .expr rfl (.append hcallee hargs)
  | .member owner name isOptional, _, h => by
    refine .deeper s ((owner.lower_stays true h.tail.left).bind fun owner howner => .pure ?_)
    exact .expr rfl (.append howner h.tail.right.keeps)
  | .index owner key isOptional, _, h => by
    refine .deeper s ((owner.lower_stays true h.tail.left).bind fun owner howner => ?_)
    refine (key.lower_stays true h.tail.right).bind fun key hkey => .pure ?_
    exact .expr rfl (.append howner hkey)
  | .sequence exprs, isUsed, h => by
    refine .deeper s ((lowerSequence_stays exprs isUsed h.tail).bind fun exprs hexprs => .pure ?_)
    exact .expr rfl hexprs
  | .paren inner, isUsed, h => by
    refine .deeper s ((inner.lower_stays isUsed h.tail).bind fun inner hinner => .pure ?_)
    exact .expr rfl hinner
  | .yield arg isDelegate, _, h => by
    refine .deeper s ((lowerExpr?_stays arg h.tail).bind fun arg harg => .pure ?_)
    exact .expr rfl harg
  | .await arg, _, h => by
    refine .deeper s ((arg.lower_stays true h.tail).bind fun arg harg => .pure ?_)
    exact .expr rfl harg
  | .spread arg, _, h => by
    refine .deeper s ((arg.lower_stays true h.tail).bind fun arg harg => .pure ?_)
    exact .expr rfl harg
  | .importCall specifier, _, h => by
    refine .deeper s ((specifier.lower_stays true h.tail).bind fun specifier hspecifier => .pure ?_)
    refine (Setting.keeps_call (Setting.not_callsExporter fun h => by cases h)).mpr ⟨?_, ?_⟩
    · exact (Setting.keeps_dot _ _).mpr (Setting.keeps_ofName _)
    · exact .oneExpr hspecifier
  | .importMeta, _, _ =>
    .deeper s (.pure (by simp))

theorem lowerExprs_stays : (es : List Expr) → s.AllowsAll A (exprsVisits es) →
    s.Stays A (lowerExprs s es) exprsVisits
  | [], _ => .pure Setting.keeps_nil
  | e :: es, h => by
    refine (e.lower_stays true h.left).bind fun e he => ?_
    exact (lowerExprs_stays es h.right).bind fun es hes => .pure (.append he hes)

theorem lowerSequence_stays : (es : List Expr) → (isUsed : Bool) →
    s.AllowsAll A (exprsVisits es) → s.Stays A (lowerSequence s isUsed es) exprsVisits
  | [], _, _ => .pure Setting.keeps_nil
  | e :: es, isUsed, h => by
    refine (e.lower_stays _ h.left).bind fun e he => ?_
    exact (lowerSequence_stays es isUsed h.right).bind fun es hes =>
      .pure (.append he hes)

theorem lowerExpr?_stays : (e : Option Expr) → s.AllowsAll A (exprVisits? e) →
    s.Stays A (lowerExpr? s e) exprVisits?
  | none, _ => .pure Setting.keeps_nil
  | some e, h => (e.lower_stays true h).bind fun _ he => .pure he

theorem lowerSlots_stays : (es : List (Option Expr)) → s.AllowsAll A (slotsVisits es) →
    s.Stays A (lowerSlots s es) slotsVisits
  | [], _ => .pure Setting.keeps_nil
  | e :: es, h => by
    refine (lowerExpr?_stays e h.left).bind fun e he => ?_
    exact (lowerSlots_stays es h.right).bind fun es hes => .pure (.append he hes)

theorem Key.lower_stays : (key : Key) → s.AllowsAll A key.visits →
    s.Stays A (key.lower s) Key.visits
  | .name _, h | .string _, h | .number _, h => .pure h.keeps
  | .computed e, h => (e.lower_stays true h).bind fun _ he => .pure he

theorem Property.lower_stays : (p : Property) → s.AllowsAll A p.visits →
    s.Stays A (p.lower s) Property.visits
  | .keyed key value, h => by
    refine (key.lower_stays h.left).bind fun key hkey => ?_
    exact (value.lower_stays true h.right).bind fun value hvalue =>
      .pure (.append hkey hvalue)
  | .shorthand x, _ => .pure (Setting.keeps_readShorthand x)
  | .method key kind f, h => by
    refine (key.lower_stays h.left).bind fun key hkey => ?_
    exact (f.lower_stays h.right).bind fun f hf => .pure (.append hkey hf)
  | .spread e, h => (e.lower_stays true h).bind fun _ he => .pure he

theorem lowerProperties_stays : (ps : List Property) → s.AllowsAll A (propertiesVisits ps) →
    s.Stays A (lowerProperties s ps) propertiesVisits
  | [], _ => .pure Setting.keeps_nil
  | p :: ps, h => by
    refine (p.lower_stays h.left).bind fun p hp => ?_
    exact (lowerProperties_stays ps h.right).bind fun ps hps =>
      .pure (.append hp hps)

-- Patterns that stay patterns.

theorem Pattern.lower_stays : (p : Pattern) → s.AllowsAll A p.visits →
    s.Stays A (p.lower s) Pattern.visits
  | .ident _, h => .pure h.keeps
  | .expr e, h =>
    (e.lower_stays true h.tail).bind fun e he => .pure ((Setting.keeps_exprPattern e).mpr he)
  | .object properties rest, h => by
    refine (lowerPatternProperties_stays properties h.tail.left).bind
      fun properties hproperties => ?_
    refine (lowerPattern?_stays rest h.tail.right).bind fun rest hrest' => .pure ?_
    exact .cons trivial (.append hproperties hrest')
  | .array elements rest, h => by
    refine (lowerPatternSlots_stays elements h.tail.left).bind fun elements helements => ?_
    refine (lowerPattern?_stays rest h.tail.right).bind fun rest hrest' => .pure ?_
    exact .cons trivial (.append helements hrest')

theorem lowerPattern?_stays : (p : Option Pattern) → s.AllowsAll A (patternVisits? p) →
    s.Stays A (lowerPattern? s p) patternVisits?
  | none, _ => .pure Setting.keeps_nil
  | some p, h => (p.lower_stays h).bind fun _ hp => .pure hp

theorem PatternProperty.lower_stays : (p : PatternProperty) → s.AllowsAll A p.visits →
    s.Stays A (p.lower s) PatternProperty.visits
  | .keyed key target fallback, h => by
    refine (key.lower_stays h.left.left).bind fun key hkey => ?_
    refine (target.lower_stays h.left.right).bind fun target htarget => ?_
    refine (lowerExpr?_stays fallback h.right).bind fun fallback hfallback => .pure ?_
    exact .append (.append hkey htarget) hfallback
  | .shorthand x fallback, h => by
    refine (lowerExpr?_stays fallback h.tail).bind fun fallback hfallback => .pure ?_
    exact .cons trivial hfallback

theorem lowerPatternProperties_stays : (ps : List PatternProperty) →
    s.AllowsAll A (patternPropertiesVisits ps) →
    s.Stays A (lowerPatternProperties s ps) patternPropertiesVisits
  | [], _ => .pure Setting.keeps_nil
  | p :: ps, h => by
    refine (p.lower_stays h.left).bind fun p hp => ?_
    exact (lowerPatternProperties_stays ps h.right).bind fun ps hps =>
      .pure (.append hp hps)

theorem PatternElement.lower_stays : (e : PatternElement) → s.AllowsAll A e.visits →
    s.Stays A (e.lower s) PatternElement.visits
  | ⟨target, fallback⟩, h => by
    refine (target.lower_stays h.left).bind fun target htarget => ?_
    exact (lowerExpr?_stays fallback h.right).bind fun fallback hfallback =>
      .pure (.append htarget hfallback)

theorem lowerPatternSlot_stays : (e : Option PatternElement) →
    s.AllowsAll A (patternSlotVisits e) → s.Stays A (lowerPatternSlot s e) patternSlotVisits
  | none, _ => .pure Setting.keeps_nil
  | some e, h => (e.lower_stays h).bind fun _ he => .pure he

theorem lowerPatternSlots_stays : (es : List (Option PatternElement)) →
    s.AllowsAll A (patternSlotsVisits es) → s.Stays A (lowerPatternSlots s es) patternSlotsVisits
  | [], _ => .pure Setting.keeps_nil
  | e :: es, h => by
    refine (lowerPatternSlot_stays e h.left).bind fun e he => ?_
    exact (lowerPatternSlots_stays es h.right).bind fun es hes =>
      .pure (.append he hes)

-- Patterns that are taken apart.

theorem Pattern.flatten_stays : (p : Pattern) → s.AllowsAll A p.visits →
    ∀ (bound : List String) (depth : Nat) (value : Expr), s.Keeps A value.visits →
      s.Stays A (p.flatten s bound depth value) exprsVisits
  | .ident x, h => by
    intro bound depth value hvalue
    refine (yields_guardPatternDepth s depth).bind fun _ _ => .pure ?_
    exact .oneExpr (Setting.keeps_bindingAssignment (h.ident x rfl) hvalue)
  | .expr e, h => by
    intro bound depth value hvalue
    refine (yields_guardPatternDepth s depth).bind fun _ _ => ?_
    refine (e.lower_stays true h.tail).bind fun e he => .pure ?_
    exact .oneExpr (.expr rfl (.append ((Setting.keeps_exprPattern e).mpr he) hvalue))
  | .object properties rest, h => by
    intro bound depth value hvalue
    have hown := h.head.assigned
    refine (yields_guardPatternDepth s depth).bind fun _ _ => ?_
    refine (yields_stabilizeUnlessOne_keeps _ bound hvalue).bind fun r hr => ?_
    refine (flattenProperties_stays properties h.tail.left hown bound _ rest.isSome r.2 hr.2).bind
      fun r' hr' => ?_
    have hremaining : s.Stays A (do
        let remaining ← flattenRest s bound (depth + 1) rest (restCall r.2 r'.2)
        return r.1 ++ r'.1 ++ remaining) exprsVisits := by
      have hcall := Setting.keeps_restCall hrest hr.2 hr'.2
      refine (flattenRest_stays rest h.tail.right bound (depth + 1) _ hcall).bind
        fun remaining hremaining => .pure ?_
      exact (hr.1.exprs hr'.1).exprs hremaining
    exact .ite (fun _ => yields_requireRest.bind fun _ _ => hremaining) fun _ => hremaining
  | .array elements rest, h => by
    intro bound depth value hvalue
    refine (yields_guardPatternDepth s depth).bind fun _ _ => ?_
    refine (yields_stabilizeUnlessOne_keeps _ bound hvalue).bind fun r hr => ?_
    refine (flattenSlots_stays elements h.tail.left bound _ 0 r.2 hr.2).bind fun exprs hexprs => ?_
    have hslice := Setting.keeps_restSlice elements.length hr.2
    refine (flattenRest_stays rest h.tail.right bound _ _ hslice).bind
      fun remaining hremaining => .pure ?_
    exact (hr.1.exprs hexprs).exprs hremaining

theorem flattenRest_stays : (rest : Option Pattern) → s.AllowsAll A (patternVisits? rest) →
    ∀ (bound : List String) (depth : Nat) (value : Expr), s.Keeps A value.visits →
      s.Stays A (flattenRest s bound depth rest value) exprsVisits
  | none, _ => fun _ _ _ _ => .pure Setting.keeps_nil
  | some p, h => p.flatten_stays h

theorem flattenFallback_stays : (fallback : Option Expr) → s.AllowsAll A (exprVisits? fallback) →
    ∀ (bound : List String) (value : Expr), s.Keeps A value.visits →
      Yields (Progress.Extends A.hoists) (flattenFallback s bound fallback value) fun r =>
        s.Keeps A (exprsVisits r.1) ∧ s.Keeps A r.2.visits
  | none, _ => fun _ _ hvalue => .pure ⟨Setting.keeps_nil, hvalue⟩
  | some e, h => by
    intro bound value hvalue
    refine (yields_stabilize_keeps bound hvalue).bind fun r hr => ?_
    exact (e.lower_stays true h).bind fun e he => .pure ⟨hr.1, Setting.keeps_orFallback hr.2 he⟩

theorem Key.flatten_stays : (key : Key) → s.AllowsAll A key.visits →
    ∀ (bound : List String) (hasRest : Bool) (value : Expr), s.Keeps A value.visits →
      Yields (Progress.Extends A.hoists) (key.flatten s bound hasRest value) fun r =>
        s.Keeps A (exprsVisits r.1) ∧ s.Keeps A r.2.1.visits ∧ s.Keeps A r.2.2.visits
  | .name text, _ => fun _ _ value hvalue =>
    .pure ⟨Setting.keeps_nil, (Setting.keeps_dot value text).mpr hvalue,
      Setting.keeps_ofString text⟩
  | .string text, _ => by
    intro bound hasRest value hvalue
    refine .pure ⟨Setting.keeps_nil, ?_, Setting.keeps_ofString text⟩
    dsimp only
    split
    · exact (Setting.keeps_dot value text).mpr hvalue
    · exact (Setting.keeps_lookup _ _).mpr ⟨hvalue, Setting.keeps_ofString text⟩
  | .number source, _ => by
    intro bound hasRest value hvalue
    refine .pure ⟨Setting.keeps_nil, ?_, Setting.keeps_ofString source⟩
    exact (Setting.keeps_lookup _ _).mpr ⟨hvalue, Setting.keeps_ofNumber source⟩
  | .computed e, h => by
    intro bound hasRest value hvalue
    refine (e.lower_stays true h).bind fun key hkey => .ite (fun _ => ?_) fun _ => .pure ?_
    · refine (yields_stabilize_keeps bound hkey).bind fun r hr => .pure ⟨hr.1, ?_⟩
      exact ⟨(Setting.keeps_lookup _ _).mpr ⟨hvalue, hr.2⟩, Setting.keeps_propertyKey hr.2⟩
    · exact ⟨Setting.keeps_nil, (Setting.keeps_lookup _ _).mpr ⟨hvalue, hkey⟩, hkey⟩

theorem PatternProperty.flatten_stays : (p : PatternProperty) → s.AllowsAll A p.visits →
    (∀ x, p.shorthand? = some x → A.assigns x) →
    ∀ (bound : List String) (depth : Nat) (hasRest : Bool) (value : Expr), s.Keeps A value.visits →
      Yields (Progress.Extends A.hoists) (p.flatten s bound depth hasRest value) fun r =>
        s.Keeps A (exprsVisits r.1) ∧ s.Keeps A r.2.visits
  | .keyed key target fallback, h, _ => by
    intro bound depth hasRest value hvalue
    refine (key.flatten_stays h.left.left bound hasRest value hvalue).bind fun r hr => ?_
    refine (flattenFallback_stays fallback h.right bound r.2.1 hr.2.1).bind fun r' hr' => ?_
    refine (target.flatten_stays h.left.right bound depth r'.2 hr'.2).bind
      fun exprs hexprs => .pure ?_
    exact ⟨(hr.1.exprs hr'.1).exprs hexprs, hr.2.2⟩
  | .shorthand x fallback, h, hx => by
    intro bound depth hasRest value hvalue
    have hproperty := (Setting.keeps_dot value x.name).mpr hvalue
    refine (flattenFallback_stays fallback h.tail bound _ hproperty).bind fun r hr => ?_
    refine (yields_guardPatternDepth s depth).bind fun _ _ => .pure ⟨?_, Setting.keeps_ofString _⟩
    have hassign := Setting.keeps_bindingAssignment (h.head.names x rfl (hx x rfl)) hr.2
    exact hr.1.exprs (.oneExpr hassign)

theorem flattenProperties_stays : (ps : List PatternProperty) →
    s.AllowsAll A (patternPropertiesVisits ps) →
    (∀ x ∈ ps.filterMap PatternProperty.shorthand?, A.assigns x) →
    ∀ (bound : List String) (depth : Nat) (hasRest : Bool) (value : Expr), s.Keeps A value.visits →
      Yields (Progress.Extends A.hoists) (flattenProperties s bound depth hasRest ps value) fun r =>
        s.Keeps A (exprsVisits r.1) ∧ s.Keeps A (exprsVisits r.2)
  | [], _, _ => fun _ _ _ _ _ => .pure ⟨Setting.keeps_nil, Setting.keeps_nil⟩
  | p :: ps, h, hx => by
    intro bound depth hasRest value hvalue
    obtain ⟨hxp, hxps⟩ := forall_mem_shorthands.mp hx
    refine (p.flatten_stays h.left hxp bound depth hasRest value hvalue).bind fun r hr => ?_
    refine (flattenProperties_stays ps h.right hxps bound depth hasRest value hvalue).bind
      fun r' hr' => .pure ?_
    exact ⟨hr.1.exprs hr'.1, hr.2.append hr'.2⟩

theorem PatternElement.flatten_stays : (e : PatternElement) → s.AllowsAll A e.visits →
    ∀ (bound : List String) (depth : Nat) (value : Expr), s.Keeps A value.visits →
      s.Stays A (e.flatten s bound depth value) exprsVisits
  | ⟨target, fallback⟩, h => by
    intro bound depth value hvalue
    refine (flattenFallback_stays fallback h.right bound value hvalue).bind fun r hr => ?_
    refine (target.flatten_stays h.left bound depth r.2 hr.2).bind fun exprs hexprs => .pure ?_
    exact hr.1.exprs hexprs

theorem flattenSlot_stays : (e : Option PatternElement) → s.AllowsAll A (patternSlotVisits e) →
    ∀ (bound : List String) (depth : Nat) (value : Expr), s.Keeps A value.visits →
      s.Stays A (flattenSlot s bound depth e value) exprsVisits
  | none, _ => fun _ _ _ _ => .pure Setting.keeps_nil
  | some e, h => e.flatten_stays h

theorem flattenSlots_stays : (es : List (Option PatternElement)) →
    s.AllowsAll A (patternSlotsVisits es) →
    ∀ (bound : List String) (depth index : Nat) (value : Expr), s.Keeps A value.visits →
      s.Stays A (flattenSlots s bound depth index es value) exprsVisits
  | [], _ => fun _ _ _ _ _ => .pure Setting.keeps_nil
  | e :: es, h => by
    intro bound depth index value hvalue
    have hslot := (Setting.keeps_lookup value _).mpr
      ⟨hvalue, Setting.keeps_ofNumber (toString index)⟩
    refine (flattenSlot_stays e h.left bound depth _ hslot).bind fun exprs hexprs => ?_
    refine (flattenSlots_stays es h.right bound depth _ value hvalue).bind
      fun more hmore => .pure ?_
    exact hexprs.exprs hmore

-- Functions and classes.

theorem Param.lower_stays : (p : Param) → s.AllowsAll A p.visits →
    s.Stays A (p.lower s) Param.visits
  | ⟨pattern, fallback, isRest⟩, h => by
    refine (pattern.lower_stays h.left).bind fun pattern hpattern => ?_
    exact (lowerExpr?_stays fallback h.right).bind fun fallback hfallback =>
      .pure (.append hpattern hfallback)

theorem lowerParams_stays : (ps : List Param) → s.AllowsAll A (paramsVisits ps) →
    s.Stays A (lowerParams s ps) paramsVisits
  | [], _ => .pure Setting.keeps_nil
  | p :: ps, h => by
    refine (p.lower_stays h.left).bind fun p hp => ?_
    exact (lowerParams_stays ps h.right).bind fun ps hps => .pure (.append hp hps)

theorem Func.lower_stays : (f : Func) → s.AllowsAll A f.visits →
    s.Stays A (f.lower s) Func.visits
  | ⟨name, params, body, isAsync, isGenerator⟩, h => by
    have hinner : Yields (Progress.Extends A.hoists)
        (do return (← lowerParams s params, ← lowerStmts s .function body) :
          Lowering (List Param × List Stmt))
        fun r => s.Keeps A (paramsVisits r.1) ∧ s.Keeps A (stmtsVisits r.2) :=
      (lowerParams_stays params h.tail.left.right).bind fun params hparams =>
        (lowerStmts_stays body .function h.tail.right nofun fun st _ => .of_function st).bind
          fun body hbody => .pure ⟨hparams, hbody⟩
    refine (yields_inFunction_keeps s hinner).bind fun r hr => .pure ?_
    exact .cons trivial (.append (.append h.tail.left.left.keeps hr.1.1) (hr.2.stmts hr.1.2))

theorem ArrowBody.lower_stays : (body : ArrowBody) → s.AllowsAll A body.visits →
    s.Stays A (body.lower s) ArrowBody.visits
  | .block body, h =>
    (lowerStmts_stays body .function h nofun fun st _ => .of_function st).bind fun _ hbody =>
      .pure hbody
  | .expr e, h => (e.lower_stays true h).bind fun _ he => .pure he

theorem Class.lower_stays : (c : Class) → s.AllowsAll A c.visits →
    s.Stays A (c.lower s) Class.visits
  | ⟨name, base, members⟩, h => by
    refine (lowerExpr?_stays base h.tail.left.right).bind fun base hbase => ?_
    refine (lowerMembers_stays members h.tail.right).bind fun members hmembers => .pure ?_
    exact .cons trivial (.append (.append h.tail.left.left.keeps hbase) hmembers)

theorem ClassMember.lower_stays : (m : ClassMember) → s.AllowsAll A m.visits →
    s.Stays A (m.lower s) ClassMember.visits
  | .method key kind isStatic f, h => by
    refine (key.lower_stays h.left).bind fun key hkey => ?_
    exact (f.lower_stays h.right).bind fun f hf => .pure (.append hkey hf)
  | .field key isStatic value, h => by
    refine (key.lower_stays h.left).bind fun key hkey => ?_
    exact (lowerExpr?_stays value h.right).bind fun value hvalue =>
      .pure (.append hkey hvalue)
  | .staticBlock body, h => by
    have hbody := lowerStmts_stays body .function h nofun fun st _ => .of_function st
    exact (yields_inFunction_keeps s hbody).bind fun r hr => .pure (hr.2.stmts hr.1)

theorem lowerMembers_stays : (ms : List ClassMember) → s.AllowsAll A (membersVisits ms) →
    s.Stays A (lowerMembers s ms) membersVisits
  | [], _ => .pure Setting.keeps_nil
  | m :: ms, h => by
    refine (m.lower_stays h.left).bind fun m hm => ?_
    exact (lowerMembers_stays ms h.right).bind fun ms hms => .pure (.append hm hms)

-- Declaration lists.

theorem Declarator.lower_stays : (d : Declarator) → s.AllowsAll A d.visits →
    s.Stays A (d.lower s) Declarator.visits
  | ⟨target, init⟩, h => by
    refine (target.lower_stays h.left).bind fun target htarget => ?_
    exact (lowerExpr?_stays init h.right).bind fun init hinit =>
      .pure (.append htarget hinit)

theorem lowerDeclarators_stays : (ds : List Declarator) → s.AllowsAll A (declaratorsVisits ds) →
    s.Stays A (lowerDeclarators s ds) declaratorsVisits
  | [], _ => .pure Setting.keeps_nil
  | d :: ds, h => by
    refine (d.lower_stays h.left).bind fun d hd => ?_
    exact (lowerDeclarators_stays ds h.right).bind fun ds hds =>
      .pure (.append hd hds)

theorem VarList.lower_stays : (list : VarList) → s.AllowsAll A list.visits →
    s.Stays A (list.lower s) VarList.visits
  | ⟨_, ds⟩, h => (lowerDeclarators_stays ds h).bind fun _ hds => .pure hds

theorem Declarator.hoisted_stays : (d : Declarator) → s.AllowsAll A d.visits →
    (∀ x ∈ d.target.boundIdents, A.hoists x.name) → s.Stays A (d.hoisted s) exprsVisits
  | ⟨target, init⟩, h, hnames => by
    have hbound : ∀ name ∈ target.boundNames, A.hoists name := by
      intro name hname
      obtain ⟨x, hx, rfl⟩ := List.mem_map.mp hname
      exact hnames x hx
    cases init with
    | none => exact (yields_addVariables_extends hbound).bind fun _ _ => .pure Setting.keeps_nil
    | some init =>
      refine (yields_addVariables_extends hbound).bind fun _ _ => ?_
      refine (init.lower_stays true h.right).bind fun value hvalue => ?_
      exact target.flatten_stays h.left _ 0 value hvalue

theorem hoistedDeclarators_stays : (ds : List Declarator) → s.AllowsAll A (declaratorsVisits ds) →
    (∀ d ∈ ds, ∀ x ∈ d.target.boundIdents, A.hoists x.name) →
    s.Stays A (hoistedDeclarators s ds) exprsVisits
  | [], _, _ => .pure Setting.keeps_nil
  | d :: ds, h, hnames => by
    obtain ⟨hd, hds⟩ := List.forall_mem_cons.mp hnames
    refine (d.hoisted_stays h.left hd).bind fun exprs hexprs => ?_
    refine (hoistedDeclarators_stays ds h.right hds).bind fun more hmore => .pure ?_
    exact hexprs.exprs hmore

theorem VarList.hoisted_stays : (list : VarList) → s.AllowsAll A list.visits →
    (∀ x ∈ list.boundIdents, A.hoists x.name) → s.Stays A (list.hoisted s) exprsVisits
  | ⟨_, ds⟩, h, hnames => hoistedDeclarators_stays ds h fun d hd x hx =>
    hnames x (List.mem_flatMap.mpr ⟨d, hd, hx⟩)

-- Statements.

theorem ForInit.lower_stays : (init : ForInit) → (place : Place) → s.AllowsAll A init.visits →
    (place.hoistsVars = true → ∀ b ∈ init.varBindings, A.hoists b.ident.name) →
    s.Stays A (init.lower s place) ForInit.visits
  | .absent, _, _, _ => .pure Setting.keeps_nil
  | .var list, place, h, hnames => by
    refine .ite (fun hhoisted => ?_) fun _ => ?_
    · obtain ⟨hplace, hkind⟩ := Bool.and_eq_true_iff.mp hhoisted
      have hlist := binds_varBindings (V := A.variables) hkind (hnames hplace)
      refine (list.hoisted_stays h hlist).bind fun exprs hexprs => ?_
      cases he : Expr.ofList exprs with
      | none => exact .pure Setting.keeps_nil
      | some e => exact .pure (Setting.keeps_ofList hexprs he)
    · exact (list.lower_stays h).bind fun _ hlist => .pure hlist
  | .expr e, _, h, _ => (e.lower_stays false h).bind fun _ he => .pure he

theorem ForHead.lower_stays : (head : ForHead) → (place : Place) → s.AllowsAll A head.visits →
    (place.hoistsVars = true → ∀ b ∈ head.varBindings, A.hoists b.ident.name) →
    Yields (Progress.Extends A.hoists) (head.lower s place) fun r =>
      s.Keeps A r.1.visits ∧ s.Keeps A (stmtsVisits r.2)
  | .var ⟨kind, []⟩, _, _, _ => .pure ⟨Setting.keeps_nil, Setting.keeps_nil⟩
  | .var ⟨kind, ⟨target, init⟩ :: ds⟩, place, h, hnames => by
    refine .ite (fun hhoisted => ?_) fun _ => ?_
    · obtain ⟨hplace, hkind⟩ := Bool.and_eq_true_iff.mp hhoisted
      have hlist := binds_varBindings (V := A.variables) hkind (hnames hplace)
      have hbound : ∀ name ∈ target.boundNames, A.hoists name := by
        intro name hname
        obtain ⟨x, hx, rfl⟩ := List.mem_map.mp hname
        exact hlist x (List.mem_append_left _ hx)
      refine (yields_addVariables_extends hbound).bind fun _ _ => ?_
      refine (target.lower_stays h.left.left).bind fun _ htarget => .pure ⟨htarget, ?_⟩
      exact Setting.keeps_headExports h.left.left.bound
    · refine (target.lower_stays h.left.left).bind fun target htarget => ?_
      refine (lowerExpr?_stays init h.left.right).bind fun init hinit => ?_
      refine (lowerDeclarators_stays ds h.right).bind fun ds hds => .pure ⟨?_, Setting.keeps_nil⟩
      exact .append (.append htarget hinit) hds
  | .pattern p, _, h, _ => (p.lower_stays h).bind fun _ hp => .pure ⟨hp, Setting.keeps_nil⟩

theorem Catch.lower_stays : (c : Catch) → (place : Place) → s.AllowsAll A c.visits →
    place ≠ .topLevel → (∀ st ∈ c.body, s.Hoistable A.variables place st) →
    s.Stays A (c.lower s place) Catch.visits
  | ⟨param, body⟩, place, h, hplace, hnames => by
    refine (lowerPattern?_stays param h.left).bind fun param hparam => ?_
    exact (lowerStmts_stays body place h.right hplace hnames).bind fun body hbody =>
      .pure (.append hparam hbody)

theorem lowerCatch?_stays : (c : Option Catch) → (place : Place) →
    s.AllowsAll A (catchVisits? c) →
    (place.hoistsVars = true → ∀ b ∈ catchVarBindings c, A.hoists b.ident.name) →
    s.Stays A (lowerCatch? s place.inner c) catchVisits?
  | none, _, _, _ => .pure Setting.keeps_nil
  | some ⟨param, body⟩, place, h, hnames =>
    (Catch.lower_stays ⟨param, body⟩ place.inner h Setting.Hoistable.inner_ne_topLevel
      (.of_body hnames)).bind fun _ hc => .pure hc

theorem lowerBlock?_stays : (body : Option (List Stmt)) → (place : Place) →
    s.AllowsAll A (blockVisits? body) →
    (place.hoistsVars = true → ∀ b ∈ finallyVarBindings body, A.hoists b.ident.name) →
    s.Stays A (lowerBlock? s place.inner body) blockVisits?
  | none, _, _, _ => .pure Setting.keeps_nil
  | some body, place, h, hnames =>
    (lowerStmts_stays body place.inner h Setting.Hoistable.inner_ne_topLevel
      (.of_body hnames)).bind fun _ hbody => .pure hbody

theorem Case.lower_stays : (c : Case) → (place : Place) → s.AllowsAll A c.visits →
    place ≠ .topLevel → (∀ st ∈ c.body, s.Hoistable A.variables place st) →
    s.Stays A (c.lower s place) Case.visits
  | ⟨test, body⟩, place, h, hplace, hnames => by
    refine (lowerExpr?_stays test h.left).bind fun test htest => ?_
    exact (lowerStmts_stays body place h.right hplace hnames).bind fun body hbody =>
      .pure (.append htest hbody)

theorem lowerCases_stays : (cs : List Case) → (place : Place) → s.AllowsAll A (casesVisits cs) →
    (place.hoistsVars = true → ∀ b ∈ casesVarBindings cs, A.hoists b.ident.name) →
    s.Stays A (lowerCases s place.inner cs) casesVisits
  | [], _, _, _ => .pure Setting.keeps_nil
  | ⟨test, body⟩ :: cs, place, h, hnames => by
    obtain ⟨hbodyVars, hcasesVars⟩ := Setting.Hoistable.split (V := A.variables) hnames
    refine (Case.lower_stays ⟨test, body⟩ place.inner h.left Setting.Hoistable.inner_ne_topLevel
      (.of_body hbodyVars)).bind fun c hc => ?_
    exact (lowerCases_stays cs place h.right hcasesVars).bind fun cs hcs =>
      .pure (.append hc hcs)

theorem lowerStmts_stays : (sts : List Stmt) → (place : Place) → s.AllowsAll A (stmtsVisits sts) →
    place ≠ .topLevel → (∀ st ∈ sts, s.Hoistable A.variables place st) →
    s.Stays A (lowerStmts s place sts) stmtsVisits
  | [], _, _, _, _ => .pure Setting.keeps_nil
  | st :: sts, place, h, hplace, hnames => by
    obtain ⟨hst, hsts⟩ := List.forall_mem_cons.mp hnames
    refine (st.lower_stays place h.left hst fun htop => absurd htop hplace).bind
      fun first hfirst => ?_
    refine (lowerStmts_stays sts place h.right hplace hsts).bind fun more hmore => .pure ?_
    exact hfirst.stmts hmore

theorem lowerUnused?_stays : (e : Option Expr) → s.AllowsAll A (exprVisits? e) →
    s.Stays A (lowerUnused? s e) exprVisits?
  | none, _ => .pure Setting.keeps_nil
  | some e, h => (e.lower_stays false h).bind fun _ he => .pure he

/-- The statements of a loop body that is a block. -/
theorem Stmt.block_stays (st : Stmt) (place : Place) (h : s.AllowsAll A st.visits)
    (hnames : place.hoistsVars = true → ∀ b ∈ st.varBindings, A.hoists b.ident.name) :
    ∀ inner, st = .block inner → s.Stays A (lowerStmts s place.inner inner) stmtsVisits := by
  cases st with
  | block inner =>
    rintro _ ⟨⟩
    exact lowerStmts_stays inner place.inner h.tail Setting.Hoistable.inner_ne_topLevel
      (.of_body hnames)
  | _ => nofun

/-- Declarations of the top level aside, a statement is lowered within the allowance. -/
theorem Stmt.lower_stays : (st : Stmt) → (place : Place) → s.AllowsAll A st.visits →
    s.Hoistable A.variables place st → (place = .topLevel → st.isDeclaration = false) →
    s.Stays A (st.lower s place) stmtsVisits
  | .expr e, _, h, _, _ => by
    refine .deeper s ((e.lower_stays false h.tail).bind fun e he => .pure ?_)
    exact .one (.cons trivial he)
  | .var modifiers list, place, h, hnames, _ => by
    have hhoisted : place.takesApart list.kind = true → s.Stays A
        (do return (Expr.ofList (← list.hoisted s)).toList.map Stmt.expr) stmtsVisits := by
      intro happart
      have hbound : ∀ x ∈ list.boundIdents, A.hoists x.name := by
        cases place with
        | topLevel =>
          exact fun x hx => (hnames.top rfl x.name (List.mem_map.mpr ⟨x, hx, rfl⟩)).1
        | moduleBlock => exact binds_varBindings (V := A.variables) happart (hnames.vars rfl)
        | function => cases happart
      refine (list.hoisted_stays h.tail hbound).bind fun exprs hexprs => .pure ?_
      cases he : Expr.ofList exprs with
      | none => exact Setting.keeps_nil
      | some e => exact .one (.cons trivial (Setting.keeps_ofList hexprs he))
    refine .deeper s (.ite (fun happart => .ite (fun _ => ?_) fun _ => ?_) fun _ => ?_)
    · exact (yields_addExportedNames_extends _).bind fun _ _ => hhoisted happart
    · exact hhoisted happart
    · refine (list.lower_stays h.tail).bind fun list hlist => .pure ?_
      exact .one (.cons trivial hlist)
  | .function modifiers f, place, h, _, hdecl => by
    refine .deeper s ((f.lower_stays h.tail).bind fun f hf => ?_)
    refine .ite (fun hplace => ?_) fun _ => .pure ?_
    · cases hdecl hplace
    · exact .one (.cons trivial hf)
  | .classDecl modifiers c, place, h, _, hdecl => by
    refine .deeper s (.ite (fun hplace => ?_) fun _ => ?_)
    · cases hdecl hplace
    · refine (c.lower_stays h.tail).bind fun c hc => .pure ?_
      exact .one (.cons trivial hc)
  | .importFrom site clause specifier isTypeOnly, place, h, _, hdecl
  | .importEquals site isTypeOnly clause specifier _, place, h, _, hdecl
  | .exportFrom site clause specifier isTypeOnly, place, h, _, hdecl
  | .exportValue site clause specifier, place, h, _, hdecl => by
    refine .deeper s (.ite (fun hplace => ?_) fun _ => .pure ?_)
    · cases hdecl hplace
    · exact .one h.keeps
  | .ambient name isExported, _, _, _, _ =>
    .deeper s (.pure Setting.keeps_nil)
  | .block body, place, h, hnames, _ => by
    have hinner := Setting.Hoistable.of_body (s := s) hnames.vars
    refine .deeper s ((lowerStmts_stays body place.inner h.tail Setting.Hoistable.inner_ne_topLevel
      hinner).bind fun body hbody => .pure ?_)
    exact .one (.cons trivial hbody)
  | .ifThen test yes, place, h, hnames, _ => by
    refine .deeper s ((test.lower_stays true h.tail.left).bind fun test htest => ?_)
    refine (yes.lower_stays place.inner h.tail.right (.of_vars hnames.vars) fun htop =>
      absurd htop Setting.Hoistable.inner_ne_topLevel).bind fun yes hyes => .pure ?_
    exact .one (.cons trivial (.append htest (Setting.keeps_stmtOfList hyes)))
  | .ifElse test yes no, place, h, hnames, _ => by
    obtain ⟨hyesVars, hnoVars⟩ := hnames.both rfl
    refine .deeper s ((test.lower_stays true h.tail.left.left).bind fun test htest => ?_)
    refine (yes.lower_stays place.inner h.tail.left.right (.of_vars hyesVars) fun htop =>
      absurd htop Setting.Hoistable.inner_ne_topLevel).bind fun yes hyes => ?_
    refine (no.lower_stays place.inner h.tail.right (.of_vars hnoVars) fun htop =>
      absurd htop Setting.Hoistable.inner_ne_topLevel).bind fun no hno => .pure ?_
    have hbranches := htest.append (Setting.keeps_stmtOfList hyes)
    exact .one (.cons trivial (hbranches.append (Setting.keeps_stmtOfList hno)))
  | .forLoop init test update body, place, h, hnames, _ => by
    obtain ⟨hinitVars, hbodyVars⟩ := hnames.both rfl
    refine .deeper s ((init.lower_stays place h.tail.left.left.left hinitVars).bind
      fun init hinit => ?_)
    refine (lowerExpr?_stays test h.tail.left.left.right).bind fun test htest => ?_
    refine (lowerUnused?_stays update h.tail.left.right).bind fun update hupdate => ?_
    refine (body.lower_stays place.inner h.tail.right (.of_vars hbodyVars) fun htop =>
      absurd htop Setting.Hoistable.inner_ne_topLevel).bind fun body hbody => .pure ?_
    have hhead := (hinit.append htest).append hupdate
    exact .one (.cons trivial (hhead.append (Setting.keeps_stmtOfList hbody)))
  | .forIn head object body, place, h, hnames, _ => by
    rw [Stmt.lower_forIn]
    obtain ⟨hheadVars, hbodyVars⟩ := hnames.both rfl
    have hbody := body.lower_stays place.inner h.tail.right (.of_vars hbodyVars)
      fun htop => absurd htop Setting.Hoistable.inner_ne_topLevel
    refine .deeper s ((head.lower_stays place h.tail.left.left hheadVars).bind fun r hr => ?_)
    refine (object.lower_stays true h.tail.left.right).bind fun object hobject => ?_
    refine (lowerLoopBody_keeps hr.2 (body.block_stays place h.tail.right hbodyVars) hbody).bind
      fun body hbody => .pure ?_
    exact .one (.cons trivial ((hr.1.append hobject).append hbody))
  | .forOf head iterable body isAwait, place, h, hnames, _ => by
    rw [Stmt.lower_forOf]
    obtain ⟨hheadVars, hbodyVars⟩ := hnames.both rfl
    have hbody := body.lower_stays place.inner h.tail.right (.of_vars hbodyVars)
      fun htop => absurd htop Setting.Hoistable.inner_ne_topLevel
    refine .deeper s ((head.lower_stays place h.tail.left.left hheadVars).bind fun r hr => ?_)
    refine (iterable.lower_stays true h.tail.left.right).bind fun iterable hiterable => ?_
    refine (lowerLoopBody_keeps hr.2 (body.block_stays place h.tail.right hbodyVars) hbody).bind
      fun body hbody => .pure ?_
    exact .one (.cons trivial ((hr.1.append hiterable).append hbody))
  | .whileLoop test body, place, h, hnames, _ => by
    refine .deeper s ((test.lower_stays true h.tail.left).bind fun test htest => ?_)
    refine (body.lower_stays place.inner h.tail.right (.of_vars hnames.vars) fun htop =>
      absurd htop Setting.Hoistable.inner_ne_topLevel).bind fun body hbody => .pure ?_
    exact .one (.cons trivial (.append htest (Setting.keeps_stmtOfList hbody)))
  | .doWhile body test, place, h, hnames, _ => by
    refine .deeper s ((body.lower_stays place.inner h.tail.right (.of_vars hnames.vars) fun htop =>
      absurd htop Setting.Hoistable.inner_ne_topLevel).bind fun body hbody => ?_)
    refine (test.lower_stays true h.tail.left).bind fun test htest => .pure ?_
    exact .one (.cons trivial (.append htest (Setting.keeps_stmtOfList hbody)))
  | .tryCatch body handler finalizer, place, h, hnames, _ => by
    obtain ⟨hinnerVars, hfinalizerVars⟩ := hnames.both rfl
    obtain ⟨hbodyVars, hhandlerVars⟩ := Setting.Hoistable.split hinnerVars
    have hinner := Setting.Hoistable.of_body (s := s) hbodyVars
    have hbody := lowerStmts_stays body place.inner h.tail.left.left
      Setting.Hoistable.inner_ne_topLevel hinner
    refine .deeper s (hbody.bind fun body hbody => ?_)
    refine (lowerCatch?_stays handler place h.tail.left.right hhandlerVars).bind
      fun handler hhandler => ?_
    refine (lowerBlock?_stays finalizer place h.tail.right hfinalizerVars).bind
      fun finalizer hfinalizer => .pure ?_
    exact .one (.cons trivial (.append (.append hbody hhandler) hfinalizer))
  | .switch subject cases, place, h, hnames, _ => by
    refine .deeper s ((subject.lower_stays true h.tail.left).bind fun subject hsubject => ?_)
    refine (lowerCases_stays cases place h.tail.right hnames.vars).bind fun cases hcases => .pure ?_
    exact .one (.cons trivial (.append hsubject hcases))
  | .labeled label body, place, h, hnames, _ => by
    refine .deeper s ((body.lower_stays place.inner h.tail.tail (.of_vars hnames.vars) fun htop =>
      absurd htop Setting.Hoistable.inner_ne_topLevel).bind fun body hbody => .pure ?_)
    exact .one (.cons trivial (.cons trivial (Setting.keeps_stmtOfList hbody)))
  | .withObject object body, place, h, hnames, _ => by
    refine .deeper s ((object.lower_stays true h.tail.left).bind fun object hobject => ?_)
    refine (body.lower_stays place.inner h.tail.right (.of_vars hnames.vars) fun htop =>
      absurd htop Setting.Hoistable.inner_ne_topLevel).bind fun body hbody => .pure ?_
    exact .one (.cons trivial (.append hobject (Setting.keeps_stmtOfList hbody)))
  | .ret arg, _, h, _, _ => by
    refine .deeper s ((lowerExpr?_stays arg h.tail).bind fun arg harg => .pure ?_)
    exact .one (.cons trivial harg)
  | .throw arg, _, h, _, _ => by
    refine .deeper s ((arg.lower_stays true h.tail).bind fun arg harg => .pure ?_)
    exact .one (.cons trivial harg)
  | .breakTo _, _, h, _, _ | .continueTo _, _, h, _, _ | .empty, _, h, _, _
  | .debugger, _, h, _, _ =>
    .deeper s (.pure (.one h.keeps))

end
end RegisterForm
