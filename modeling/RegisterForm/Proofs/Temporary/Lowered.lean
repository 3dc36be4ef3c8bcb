import RegisterForm.Proofs.Temporary.Step
/-!
# Temporaries of lowered trees

A tree that mentions none of the followed names is lowered to one that shows them only where a
function around declares them. The proof follows the lowering of every kind of node; a function is
lowered with its own variables among those declared.
-/
namespace RegisterForm
open Lowering Vocabulary

variable {s : Setting} {T : String → Prop} (hs : s.SpokenIn (sparing T))
  (hform : ∀ name, T name → ∃ n, name = NameSupply.temporaryName n)

section steps
variable {D : String → Prop} {P : Prop}

include hform in
/-- Only temporaries are followed, and a default name is none. -/
theorem shows_uniqueDefault :
    Shows T D P (hoistGet (·.unique "default")) fun name => ¬T name := by
  refine .of_kept (fun _ => rfl) (fun _ => rfl) fun p _ hT => ?_
  obtain ⟨n, hn⟩ := hform _ hT
  have hchars := congrArg (List.head? ∘ String.toList) hn
  have hunderscore : (NameSupply.temporaryName n).toList.head? = some '_' := by
    rcases Nat.lt_or_ge n 26 with h | h
    · rw [NameSupply.toList_temporaryName_of_lt h, List.head?_cons]
    · rw [NameSupply.toList_temporaryName_of_le h, List.head?_cons]
  rw [Function.comp_apply, Function.comp_apply, hunderscore] at hchars
  simp [Hoisting.unique, NameSupply.unique, NameSupply.numbered, NameSupply.numberedStem] at hchars

theorem shows_exportCall (modifiers : Modifiers) {name : String} (hs : s.SpokenIn (sparing T))
    (h : P → ¬T name) :
    Shows T D P (exportCall s modifiers name) fun call => Shown T D call.sights := by
  have hcall : P → Shown T D
      (s.publish (Interface.exportNameOf modifiers name) (.ofName name)).sights := fun hP =>
    hs.shown_publish _ (shown_ofName fun hT => absurd hT (h hP))
  unfold exportCall
  refine .ite (fun _ => ?_) fun _ => .pure hcall
  exact (shows_addExportedName name).bind fun _ => .pure fun hP => hcall hP.1

include hs hform in
theorem shows_hoistFunction (modifiers : Modifiers) {f : Func}
    (hname : P → ∀ x ∈ f.name, ¬T x.name) (hf : P → Shown T D f.sights) :
    Shows T D P (hoistFunction s modifiers f) fun _ => True := by
  obtain ⟨name, params, body, isAsync, isGenerator⟩ := f
  have hrest : ∀ (x : Ident) {P' : Prop}, (P' → ¬T x.name) → (P' → P) → Shows T D P' (do
      if modifiers.isExported then addFunctionExport (← exportCall s modifiers x.name)
      hoist (·.addFunction (.function {} ⟨some x, params, body, isAsync, isGenerator⟩)))
      fun _ => True := by
    intro x P' hx hP'
    have hfunction : P' → Shown T D
        (Stmt.function {} ⟨some x, params, body, isAsync, isGenerator⟩).sights := fun hP =>
      shown_renamed (hx hP) (hf (hP' hP))
    refine .ite (fun _ => ?_) fun _ => shows_addFunction hfunction
    refine (shows_exportCall modifiers hs hx).bind fun call => ?_
    exact (shows_addFunctionExport call).bind fun _ => shows_addFunction fun hP => hfunction hP.1.1
  unfold hoistFunction
  cases name with
  | some x => exact hrest x (fun hP => hname hP x rfl) id
  | none =>
    have hfresh : Shows T D P (Ident.synthetic <$> hoistGet (·.unique "default")) fun x =>
        ¬T x.name := by
      rw [← bind_pure_comp]
      exact (shows_uniqueDefault hform).bind fun name => .pure fun hP => hP.2
    exact hfresh.bind fun x => hrest x (fun hP => hP.2) fun hP => hP.1

include hform in
theorem shows_hoistClassName {name : Option Ident} (h : ∀ x ∈ name, ¬T x.name) :
    Shows T D P (hoistClassName name) fun name => ¬T name := by
  have hadd : ∀ (name : String) {P' : Prop}, (P' → ¬T name) → Shows T D P' (do
      hoist (·.addVariable name)
      return name) fun name => ¬T name := fun name _ hname =>
    (shows_addVariable name).bind fun _ => .pure fun hP => hname hP.1
  unfold hoistClassName
  cases name with
  | some x => exact hadd x.name fun _ => h x rfl
  | none => exact (shows_uniqueDefault hform).bind fun name => hadd name fun hP => hP.2

theorem shows_classAssignment (hs : s.SpokenIn (sparing T)) (modifiers : Modifiers) {name : String}
    {c : Class} (hname : P → ¬T name) (hc : P → Shown T D c.sights) :
    Shows T D P (classAssignment s modifiers name c) fun sts => Shown T D (stmtsSights sts) := by
  have hassign : P → Shown T D (Expr.assignName name (.classExpr c)).sights := by
    intro hP
    have htarget : Shown T D (Pattern.ident (.synthetic name)).sights :=
      .sightsOf fun _ hx hT => absurd hT (List.mem_singleton.mp hx ▸ hname hP)
    exact shown_assignTo htarget (hc hP)
  unfold classAssignment
  refine .ite (fun _ => ?_) fun _ => .pure fun hP => shown_singleStmt _ (hassign hP)
  refine (shows_exportCall modifiers hs hname).bind fun call => .pure ?_
  exact fun ⟨hP, hcall⟩ => (hassign hP).append (shown_singleStmt _ hcall)

theorem shows_exportSpecifiers (hs : s.SpokenIn (sparing T)) : ∀ specs : List ExportSpecifier,
    (∀ spec ∈ specs, ¬T spec.source.name) → ∀ {P : Prop},
      Shows T D P (exportSpecifiers s specs) fun sts => Shown T D (stmtsSights sts)
  | [], _, _ => .pure fun _ => .nil
  | spec :: specs, h, P => by
    obtain ⟨hspec, hspecs⟩ := List.forall_mem_cons.mp h
    have hsource : Shown T D (Expr.ident spec.source).sights :=
      .sightsOf fun _ hx hT => absurd (List.mem_singleton.mp hx ▸ hT) hspec
    have hfirst : Shows T D P (exportSpecifier s spec) fun sts => Shown T D (stmtsSights sts) := by
      unfold exportSpecifier
      refine .ite (fun _ => .pure fun _ => .nil) fun _ => ?_
      refine (shows_addExportedName _).bind fun _ => ?_
      refine .ite (fun _ => .pure fun _ => .nil) fun _ => .ite (fun _ => ?_) fun _ => .pure fun _ => ?_
      · exact (shows_addFunctionExport _).bind fun _ => .pure fun _ => .nil
      · exact shown_singleStmt (.expr _) (hs.shown_publish spec.exportedName hsource)
    refine hfirst.bind fun sts => (shows_exportSpecifiers hs specs hspecs).bind fun more => .pure ?_
    exact fun ⟨⟨_, hsts⟩, hmore⟩ => shown_stmtsAppend hsts hmore

end steps

-- Only identifiers ask what the setting says, and only a function without a name what is followed.
set_option linter.unusedSectionVars false

include hs hform

mutual

theorem Expr.lower_shown {P : Prop} {D : String → Prop} : (e : Expr) → (isUsed : Bool) →
    (sparing T).Covers e.visits →
    Shows T D P (e.lower s isUsed) fun e' => Shown T D e'.sights
  | .ident x, _, h => by
    have hread := hs.covers_read ((covers_identExpr x).mp h)
    exact .deeper s (.pure fun _ => .of_covers (s.read x).names_sights hread)
  | .literal _, _, _ | .this, _, _ | .super, _, _ =>
    .deeper s (.pure fun _ => .nil)
  | .template chunks parts, _, h =>
    .deeper s ((lowerExprs_shown parts h.tail).bind fun _ => .pure fun hP => hP.2)
  | .tagged tag chunks parts, _, h => by
    refine .deeper s ((tag.lower_shown true h.tail.left).bind fun tag => ?_)
    refine (lowerExprs_shown parts h.tail.right).bind fun parts => .pure ?_
    exact fun ⟨⟨_, htag⟩, hparts⟩ => htag.append hparts
  | .array elements, _, h => by
    have helements := (covers_array elements).mp h
    exact .deeper s ((lowerSlots_shown elements helements).bind fun _ => .pure fun hP => hP.2)
  | .object properties, _, h => by
    have hproperties := (covers_object properties).mp h
    exact .deeper s ((lowerProperties_shown properties hproperties).bind fun _ => .pure fun hP => hP.2)
  | .function f, _, h => by
    have hf := (covers_functionExpr f).mp h
    exact .deeper s ((f.lower_shown hf).bind fun _ => .pure fun hP => hP.2)
  | .arrow params body isAsync, _, h => by
    have hinner : ∀ D, Shows T D P
        (do return (← lowerParams s params, ← body.lower s) : Lowering (List Param × ArrowBody))
        fun r => Shown T D (paramsSights r.1) ∧ Shown T D r.2.sights := by
      intro D
      refine (lowerParams_shown params h.tail.left).bind fun params => ?_
      exact (body.lower_shown h.tail.right).bind fun body => .pure fun ⟨⟨_, hparams⟩, hbody⟩ =>
        ⟨hparams, hbody⟩
    refine .deeper s ((shows_inFunction hinner).bind fun r => .pure ?_)
    rintro ⟨-, frame, hframe, ⟨hparams, hbody⟩, hfunctions⟩
    rw [hframe]
    exact shown_arrow hparams hbody hfunctions
  | .classExpr c, _, h =>
    .deeper s ((c.lower_shown h.tail).bind fun _ => .pure fun hP => hP.2)
  | .unary op arg, _, h => by
    have harg := (covers_unary op arg).mp h
    exact .deeper s ((arg.lower_shown true harg).bind fun _ => .pure fun hP => hP.2)
  | .update op isPrefix arg, isUsed, h => by
    have harg := (covers_update op isPrefix arg).mp h
    refine .deeper s ?_
    cases hpublished : s.publishedUpdate? op isPrefix isUsed arg with
    | some e =>
      have hcovers := hs.covers_publishedUpdate? harg hpublished
      exact .pure fun _ => .of_covers e.names_sights hcovers
    | none => exact (arg.lower_shown true harg).bind fun _ => .pure fun hP => hP.2
  | .binary op left right, _, h => by
    obtain ⟨hleft, hright⟩ := (covers_binary op left right).mp h
    refine .deeper s ((left.lower_shown true hleft).bind fun left => ?_)
    refine (right.lower_shown true hright).bind fun right => .pure ?_
    exact fun ⟨⟨_, hleft⟩, hright⟩ => hleft.append hright
  | .assign op target value, isUsed, h => by
    obtain ⟨htarget, hvalue⟩ := (covers_assign op target value).mp h
    refine .deeper s (.ite (fun _ => ?_) fun _ => ?_)
    · refine (value.lower_shown true hvalue).bind fun value => ?_
      have hassigns : ∀ (r : List Expr × Expr) (result : List Expr) {P' : Prop},
          (P' → Shown T D (exprsSights r.1) ∧ Shown T D r.2.sights) →
          (P' → Shown T D (exprsSights result)) →
          Shows T D P' (do
            let exprs ← target.flatten s target.boundNames 0 r.2
            return (Expr.ofList (r.1 ++ exprs ++ result)).getD r.2)
            fun e => Shown T D e.sights := by
        intro r result P' hr hresult
        refine (target.flatten_shown htarget _ 0 r.2 fun hP => (hr hP).2).bind fun exprs => ?_
        refine .pure fun ⟨hP, hexprs⟩ => ?_
        cases he : Expr.ofList (r.1 ++ exprs ++ result) with
        | none => exact (hr hP).2
        | some e =>
          exact shown_ofList (shown_exprsAppend (shown_exprsAppend (hr hP).1 hexprs) (hresult hP)) he
      refine .ite (fun hused => ?_) fun hunused => ?_
      · subst hused
        refine (shows_stabilize target.boundNames fun hP => hP.2).bind fun r => ?_
        exact hassigns r [r.2] (fun hP => hP.2) fun hP => shown_single hP.2.2
      · have hunused' : isUsed = false := by simpa using hunused
        subst hunused'
        exact hassigns ([], value) [] (fun hP => ⟨.nil, hP.2⟩) fun _ => .nil
    · refine (target.lower_shown htarget).bind fun target => ?_
      refine (value.lower_shown true hvalue).bind fun value => .pure ?_
      exact fun ⟨⟨_, htarget⟩, hvalue⟩ => hs.shown_publishedTo target (htarget.append hvalue)
  | .conditional test yes no, isUsed, h => by
    obtain ⟨htest, hyes, hno⟩ := (covers_conditional test yes no).mp h
    refine .deeper s ((test.lower_shown true htest).bind fun test => ?_)
    refine (yes.lower_shown isUsed hyes).bind fun yes => ?_
    refine (no.lower_shown isUsed hno).bind fun no => .pure ?_
    exact fun ⟨⟨⟨_, htest⟩, hyes⟩, hno⟩ => (htest.append hyes).append hno
  | .call callee args isOptional, _, h => by
    obtain ⟨-, hcallee, hargs⟩ := (covers_call callee args isOptional).mp h
    refine .deeper s ((callee.lower_shown true hcallee).bind fun callee => ?_)
    refine (lowerExprs_shown args hargs).bind fun args => .pure ?_
    exact fun ⟨⟨_, hcallee⟩, hargs⟩ => hcallee.append hargs
  | .newBare callee, _, h =>
    .deeper s ((callee.lower_shown true h.tail).bind fun _ => .pure fun hP => hP.2)
  | .newCall callee args, _, h => by
    refine .deeper s ((callee.lower_shown true h.tail.left).bind fun callee => ?_)
    refine (lowerExprs_shown args h.tail.right).bind fun args => .pure ?_
    exact fun ⟨⟨_, hcallee⟩, hargs⟩ => hcallee.append hargs
  | .member owner name isOptional, _, h =>
    .deeper s ((owner.lower_shown true h.tail.left).bind fun _ => .pure fun hP => hP.2)
  | .index owner key isOptional, _, h => by
    refine .deeper s ((owner.lower_shown true h.tail.left).bind fun owner => ?_)
    refine (key.lower_shown true h.tail.right).bind fun key => .pure ?_
    exact fun ⟨⟨_, howner⟩, hkey⟩ => howner.append hkey
  | .sequence exprs, isUsed, h => by
    have hexprs := (covers_sequence exprs).mp h
    exact .deeper s ((lowerSequence_shown exprs isUsed hexprs).bind fun _ => .pure fun hP => hP.2)
  | .paren inner, isUsed, h => by
    have hinner := (covers_paren inner).mp h
    exact .deeper s ((inner.lower_shown isUsed hinner).bind fun _ => .pure fun hP => hP.2)
  | .yield arg isDelegate, _, h =>
    .deeper s ((lowerExpr?_shown arg h.tail).bind fun _ => .pure fun hP => hP.2)
  | .await arg, _, h | .spread arg, _, h =>
    .deeper s ((arg.lower_shown true h.tail).bind fun _ => .pure fun hP => hP.2)
  | .importCall specifier, _, h => by
    refine .deeper s ((specifier.lower_shown true h.tail).bind fun arg => .pure fun ⟨_, harg⟩ => ?_)
    exact (shown_ofName fun hT => absurd hT hs.context).append (shown_single harg)
  | .importMeta, _, _ =>
    .deeper s (.pure fun _ => shown_ofName fun hT => absurd hT hs.context)

theorem lowerExprs_shown {P : Prop} {D : String → Prop} : (es : List Expr) →
    (sparing T).Covers (exprsVisits es) →
    Shows T D P (lowerExprs s es) fun es' => Shown T D (exprsSights es')
  | [], _ => .pure fun _ => .nil
  | e :: es, h => by
    refine (e.lower_shown true h.left).bind fun e =>
      (lowerExprs_shown es h.right).bind fun es => .pure ?_
    exact fun ⟨⟨_, he⟩, hes⟩ => he.append hes

theorem lowerSequence_shown {P : Prop} {D : String → Prop} : (es : List Expr) → (isUsed : Bool) →
    (sparing T).Covers (exprsVisits es) →
    Shows T D P (lowerSequence s isUsed es) fun es' => Shown T D (exprsSights es')
  | [], _, _ => .pure fun _ => .nil
  | e :: es, isUsed, h => by
    refine (e.lower_shown _ h.left).bind fun e => ?_
    refine (lowerSequence_shown es isUsed h.right).bind fun es => .pure ?_
    exact fun ⟨⟨_, he⟩, hes⟩ => he.append hes

theorem lowerExpr?_shown {P : Prop} {D : String → Prop} : (e : Option Expr) →
    (sparing T).Covers (exprVisits? e) →
    Shows T D P (lowerExpr? s e) fun e' => Shown T D (exprSights? e')
  | none, _ => .pure fun _ => .nil
  | some e, h => (e.lower_shown true h).bind fun _ => .pure fun hP => hP.2

theorem lowerSlots_shown {P : Prop} {D : String → Prop} : (es : List (Option Expr)) →
    (sparing T).Covers (slotsVisits es) →
    Shows T D P (lowerSlots s es) fun es' => Shown T D (slotsSights es')
  | [], _ => .pure fun _ => .nil
  | e :: es, h => by
    refine (lowerExpr?_shown e h.left).bind fun e =>
      (lowerSlots_shown es h.right).bind fun es => .pure ?_
    exact fun ⟨⟨_, he⟩, hes⟩ => he.append hes

theorem Key.lower_shown {P : Prop} {D : String → Prop} : (key : Key) →
    (sparing T).Covers key.visits →
    Shows T D P (key.lower s) fun key' => Shown T D key'.sights
  | .name _, _ | .string _, _ | .number _, _ => .pure fun _ => .nil
  | .computed e, h => (e.lower_shown true h).bind fun _ => .pure fun hP => hP.2

theorem Property.lower_shown {P : Prop} {D : String → Prop} : (p : Property) →
    (sparing T).Covers p.visits →
    Shows T D P (p.lower s) fun p' => Shown T D p'.sights
  | .keyed key value, h => by
    refine (key.lower_shown h.left).bind fun key => ?_
    refine (value.lower_shown true h.right).bind fun value => .pure ?_
    exact fun ⟨⟨_, hkey⟩, hvalue⟩ => hkey.append hvalue
  | .shorthand x, h => by
    have hread := hs.covers_readShorthand (x := x) ((admits_ident x).mp h.head)
    exact .pure fun _ => .of_covers (s.readShorthand x).names_sights hread
  | .method key kind f, h => by
    refine (key.lower_shown h.left).bind fun key => (f.lower_shown h.right).bind fun f => .pure ?_
    exact fun ⟨⟨_, hkey⟩, hf⟩ => hkey.append hf
  | .spread e, h => (e.lower_shown true h).bind fun _ => .pure fun hP => hP.2

theorem lowerProperties_shown {P : Prop} {D : String → Prop} : (ps : List Property) →
    (sparing T).Covers (propertiesVisits ps) →
    Shows T D P (lowerProperties s ps) fun ps' => Shown T D (propertiesSights ps')
  | [], _ => .pure fun _ => .nil
  | p :: ps, h => by
    refine (p.lower_shown h.left).bind fun p =>
      (lowerProperties_shown ps h.right).bind fun ps => .pure ?_
    exact fun ⟨⟨_, hp⟩, hps⟩ => hp.append hps

-- Patterns that stay patterns.

theorem Pattern.lower_shown {P : Prop} {D : String → Prop} : (p : Pattern) →
    (sparing T).Covers p.visits →
    Shows T D P (p.lower s) fun p' => Shown T D p'.sights
  | .ident x, h => .pure fun _ => .of_covers (Pattern.ident x).names_sights h
  | .expr e, h => by
    have he := (covers_exprPattern e).mp h
    exact (e.lower_shown true he).bind fun _ => .pure fun hP => hP.2
  | .object properties rest, h => by
    refine (lowerPatternProperties_shown properties h.tail.left).bind fun properties => ?_
    refine (lowerPattern?_shown rest h.tail.right).bind fun rest => .pure ?_
    exact fun ⟨⟨_, hproperties⟩, hrest⟩ => hproperties.append hrest
  | .array elements rest, h => by
    refine (lowerPatternSlots_shown elements h.tail.left).bind fun elements => ?_
    refine (lowerPattern?_shown rest h.tail.right).bind fun rest => .pure ?_
    exact fun ⟨⟨_, helements⟩, hrest⟩ => helements.append hrest

theorem lowerPattern?_shown {P : Prop} {D : String → Prop} : (p : Option Pattern) →
    (sparing T).Covers (patternVisits? p) →
    Shows T D P (lowerPattern? s p) fun p' => Shown T D (patternSights? p')
  | none, _ => .pure fun _ => .nil
  | some p, h => (p.lower_shown h).bind fun _ => .pure fun hP => hP.2

theorem PatternProperty.lower_shown {P : Prop} {D : String → Prop} : (p : PatternProperty) →
    (sparing T).Covers p.visits →
    Shows T D P (p.lower s) fun p' => Shown T D p'.sights
  | .keyed key target fallback, h => by
    refine (key.lower_shown h.left.left).bind fun key =>
      (target.lower_shown h.left.right).bind fun target => ?_
    refine (lowerExpr?_shown fallback h.right).bind fun fallback => .pure ?_
    exact fun ⟨⟨⟨_, hkey⟩, htarget⟩, hfallback⟩ => (hkey.append htarget).append hfallback
  | .shorthand x fallback, h => by
    have hx : Shown T D (sightsOf [x]) :=
      .sightsOf fun _ hy hT => absurd (List.mem_singleton.mp hy ▸ hT) ((admits_ident x).mp h.head)
    refine (lowerExpr?_shown fallback h.tail).bind fun fallback => .pure ?_
    exact fun ⟨_, hfallback⟩ => hx.append hfallback

theorem lowerPatternProperties_shown {P : Prop} {D : String → Prop} : (ps : List PatternProperty) →
    (sparing T).Covers (patternPropertiesVisits ps) →
    Shows T D P (lowerPatternProperties s ps) fun ps' => Shown T D (patternPropertiesSights ps')
  | [], _ => .pure fun _ => .nil
  | p :: ps, h => by
    refine (p.lower_shown h.left).bind fun p => ?_
    refine (lowerPatternProperties_shown ps h.right).bind fun ps => .pure ?_
    exact fun ⟨⟨_, hp⟩, hps⟩ => hp.append hps

theorem PatternElement.lower_shown {P : Prop} {D : String → Prop} : (e : PatternElement) →
    (sparing T).Covers e.visits →
    Shows T D P (e.lower s) fun e' => Shown T D e'.sights
  | ⟨target, fallback⟩, h => by
    refine (target.lower_shown h.left).bind fun target => ?_
    refine (lowerExpr?_shown fallback h.right).bind fun fallback => .pure ?_
    exact fun ⟨⟨_, htarget⟩, hfallback⟩ => htarget.append hfallback

theorem lowerPatternSlot_shown {P : Prop} {D : String → Prop} : (e : Option PatternElement) →
    (sparing T).Covers (patternSlotVisits e) →
    Shows T D P (lowerPatternSlot s e) fun e' => Shown T D (patternSlotSights e')
  | none, _ => .pure fun _ => .nil
  | some e, h => (e.lower_shown h).bind fun _ => .pure fun hP => hP.2

theorem lowerPatternSlots_shown {P : Prop} {D : String → Prop} :
    (es : List (Option PatternElement)) → (sparing T).Covers (patternSlotsVisits es) →
    Shows T D P (lowerPatternSlots s es) fun es' => Shown T D (patternSlotsSights es')
  | [], _ => .pure fun _ => .nil
  | e :: es, h => by
    refine (lowerPatternSlot_shown e h.left).bind fun e => ?_
    refine (lowerPatternSlots_shown es h.right).bind fun es => .pure ?_
    exact fun ⟨⟨_, he⟩, hes⟩ => he.append hes

-- Patterns that are taken apart.

theorem Pattern.flatten_shown {P : Prop} {D : String → Prop} : (p : Pattern) →
    (sparing T).Covers p.visits →
    ∀ (bound : List String) (depth : Nat) (value : Expr), (P → Shown T D value.sights) →
      Shows T D P (p.flatten s bound depth value) fun es => Shown T D (exprsSights es)
  | .ident x, h => by
    intro bound depth value hvalue
    have hx := ((covers_identPattern x).mp h).2
    refine (shows_guardPatternDepth depth).bind fun _ => .pure fun ⟨hP, _⟩ => ?_
    exact shown_single (hs.shown_bindingAssignment hx (hvalue hP))
  | .expr e, h => by
    intro bound depth value hvalue
    have he := (covers_exprPattern e).mp h
    refine (shows_guardPatternDepth depth).bind fun _ => ?_
    refine (e.lower_shown true he).bind fun e => .pure fun ⟨⟨hP, _⟩, he⟩ => ?_
    exact shown_single (he.append (hvalue hP))
  | .object properties rest, h => by
    intro bound depth value hvalue
    refine (shows_guardPatternDepth depth).bind fun _ => ?_
    refine (shows_stabilizeUnlessOne _ bound fun hP => hvalue hP.1).bind fun r => ?_
    refine (flattenProperties_shown properties h.tail.left bound _ rest.isSome r.2
      fun hP => hP.2.2).bind fun r' => ?_
    have hrest : ∀ {P' : Prop}, (P' → (Shown T D (exprsSights r.1) ∧ Shown T D r.2.sights) ∧
          Shown T D (exprsSights r'.1) ∧ Shown T D (exprsSights r'.2)) → Shows T D P' (do
        let remaining ← flattenRest s bound (depth + 1) rest (restCall r.2 r'.2)
        return r.1 ++ r'.1 ++ remaining) fun es => Shown T D (exprsSights es) := by
      intro P' hr
      refine (flattenRest_shown rest h.tail.right bound (depth + 1) _ fun hP =>
        hs.shown_restCall (hr hP).1.2 (hr hP).2.2).bind fun remaining => .pure ?_
      exact fun ⟨hP, hremaining⟩ =>
        shown_exprsAppend (shown_exprsAppend (hr hP).1.1 (hr hP).2.1) hremaining
    refine .ite (fun _ => shows_requireRest.bind fun _ => ?_) fun _ => ?_
    · exact hrest fun hP => ⟨hP.1.1.2, hP.1.2⟩
    · exact hrest fun hP => ⟨hP.1.2, hP.2⟩
  | .array elements rest, h => by
    intro bound depth value hvalue
    refine (shows_guardPatternDepth depth).bind fun _ => ?_
    refine (shows_stabilizeUnlessOne _ bound fun hP => hvalue hP.1).bind fun r => ?_
    refine (flattenSlots_shown elements h.tail.left bound _ 0 r.2 fun hP => hP.2.2).bind
      fun exprs => ?_
    refine (flattenRest_shown rest h.tail.right bound _ _ fun hP =>
      shown_restSlice elements.length hP.1.2.2).bind fun remaining => .pure ?_
    exact fun ⟨⟨⟨_, hheld⟩, hexprs⟩, hremaining⟩ =>
      shown_exprsAppend (shown_exprsAppend hheld.1 hexprs) hremaining

theorem flattenRest_shown {P : Prop} {D : String → Prop} : (rest : Option Pattern) →
    (sparing T).Covers (patternVisits? rest) →
    ∀ (bound : List String) (depth : Nat) (value : Expr), (P → Shown T D value.sights) →
      Shows T D P (flattenRest s bound depth rest value) fun es => Shown T D (exprsSights es)
  | none, _ => fun _ _ _ _ => .pure fun _ => .nil
  | some p, h => p.flatten_shown h

theorem flattenFallback_shown {P : Prop} {D : String → Prop} : (fallback : Option Expr) →
    (sparing T).Covers (exprVisits? fallback) →
    ∀ (bound : List String) (value : Expr), (P → Shown T D value.sights) →
      Shows T D P (flattenFallback s bound fallback value) fun r =>
        Shown T D (exprsSights r.1) ∧ Shown T D r.2.sights
  | none, _ => fun _ _ hvalue => .pure fun hP => ⟨.nil, hvalue hP⟩
  | some e, h => by
    intro bound value hvalue
    refine (shows_stabilize bound hvalue).bind fun r => ?_
    refine (e.lower_shown true h).bind fun e => .pure fun ⟨⟨_, hr⟩, he⟩ => ⟨hr.1, ?_⟩
    exact shown_orFallback hr.2 he

theorem Key.flatten_shown {P : Prop} {D : String → Prop} : (key : Key) →
    (sparing T).Covers key.visits →
    ∀ (bound : List String) (hasRest : Bool) (value : Expr), (P → Shown T D value.sights) →
      Shows T D P (key.flatten s bound hasRest value) fun r =>
        Shown T D (exprsSights r.1) ∧ Shown T D r.2.1.sights ∧ Shown T D r.2.2.sights
  | .name _, _ => fun _ _ _ hvalue => .pure fun hP => ⟨.nil, hvalue hP, .nil⟩
  | .string _, _ => by
    intro bound hasRest value hvalue
    refine .pure fun hP => ⟨.nil, ?_, .nil⟩
    dsimp only
    split
    · exact hvalue hP
    · exact shown_lookup (hvalue hP) .nil
  | .number _, _ => fun _ _ _ hvalue =>
    .pure fun hP => ⟨.nil, shown_lookup (hvalue hP) .nil, .nil⟩
  | .computed e, h => by
    intro bound hasRest value hvalue
    refine (e.lower_shown true h).bind fun key => .ite (fun _ => ?_) fun _ => ?_
    · refine (shows_stabilize bound fun hP => hP.2).bind fun r => .pure ?_
      exact fun ⟨⟨hP, _⟩, hr⟩ => ⟨hr.1, shown_lookup (hvalue hP) hr.2, shown_propertyKey hr.2⟩
    · exact .pure fun ⟨hP, hkey⟩ => ⟨.nil, shown_lookup (hvalue hP) hkey, hkey⟩

theorem PatternProperty.flatten_shown {P : Prop} {D : String → Prop} : (p : PatternProperty) →
    (sparing T).Covers p.visits →
    ∀ (bound : List String) (depth : Nat) (hasRest : Bool) (value : Expr),
      (P → Shown T D value.sights) →
      Shows T D P (p.flatten s bound depth hasRest value) fun r =>
        Shown T D (exprsSights r.1) ∧ Shown T D r.2.sights
  | .keyed key target fallback, h => by
    intro bound depth hasRest value hvalue
    refine (key.flatten_shown h.left.left bound hasRest value hvalue).bind fun r => ?_
    refine (flattenFallback_shown fallback h.right bound r.2.1 fun hP => hP.2.2.1).bind fun r' => ?_
    refine (target.flatten_shown h.left.right bound depth r'.2 fun hP => hP.2.2).bind
      fun exprs => .pure ?_
    exact fun ⟨⟨⟨_, hr⟩, hr'⟩, hexprs⟩ =>
      ⟨shown_exprsAppend (shown_exprsAppend hr.1 hr'.1) hexprs, hr.2.2⟩
  | .shorthand x fallback, h => by
    intro bound depth hasRest value hvalue
    have hx := (admits_ident x).mp h.head
    refine (flattenFallback_shown fallback h.tail bound (value.dot x.name) hvalue).bind fun r => ?_
    refine (shows_guardPatternDepth depth).bind fun _ => .pure fun ⟨⟨_, hr⟩, _⟩ => ?_
    exact ⟨shown_exprsAppend hr.1 (shown_single (hs.shown_bindingAssignment hx hr.2)), .nil⟩

theorem flattenProperties_shown {P : Prop} {D : String → Prop} : (ps : List PatternProperty) →
    (sparing T).Covers (patternPropertiesVisits ps) →
    ∀ (bound : List String) (depth : Nat) (hasRest : Bool) (value : Expr),
      (P → Shown T D value.sights) →
      Shows T D P (flattenProperties s bound depth hasRest ps value) fun r =>
        Shown T D (exprsSights r.1) ∧ Shown T D (exprsSights r.2)
  | [], _ => fun _ _ _ _ _ => .pure fun _ => ⟨.nil, .nil⟩
  | p :: ps, h => by
    intro bound depth hasRest value hvalue
    refine (p.flatten_shown h.left bound depth hasRest value hvalue).bind fun r => ?_
    refine (flattenProperties_shown ps h.right bound depth hasRest value fun hP => hvalue hP.1).bind
      fun r' => .pure fun ⟨⟨_, hr⟩, hr'⟩ => ?_
    exact ⟨shown_exprsAppend hr.1 hr'.1, hr.2.append hr'.2⟩

theorem PatternElement.flatten_shown {P : Prop} {D : String → Prop} : (e : PatternElement) →
    (sparing T).Covers e.visits →
    ∀ (bound : List String) (depth : Nat) (value : Expr), (P → Shown T D value.sights) →
      Shows T D P (e.flatten s bound depth value) fun es => Shown T D (exprsSights es)
  | ⟨target, fallback⟩, h => by
    intro bound depth value hvalue
    refine (flattenFallback_shown fallback h.right bound value hvalue).bind fun r => ?_
    refine (target.flatten_shown h.left bound depth r.2 fun hP => hP.2.2).bind fun exprs => .pure ?_
    exact fun ⟨⟨_, hr⟩, hexprs⟩ => shown_exprsAppend hr.1 hexprs

theorem flattenSlot_shown {P : Prop} {D : String → Prop} : (e : Option PatternElement) →
    (sparing T).Covers (patternSlotVisits e) →
    ∀ (bound : List String) (depth : Nat) (value : Expr), (P → Shown T D value.sights) →
      Shows T D P (flattenSlot s bound depth e value) fun es => Shown T D (exprsSights es)
  | none, _ => fun _ _ _ _ => .pure fun _ => .nil
  | some e, h => e.flatten_shown h

theorem flattenSlots_shown {P : Prop} {D : String → Prop} : (es : List (Option PatternElement)) →
    (sparing T).Covers (patternSlotsVisits es) →
    ∀ (bound : List String) (depth index : Nat) (value : Expr), (P → Shown T D value.sights) →
      Shows T D P (flattenSlots s bound depth index es value) fun es => Shown T D (exprsSights es)
  | [], _ => fun _ _ _ _ _ => .pure fun _ => .nil
  | e :: es, h => by
    intro bound depth index value hvalue
    refine (flattenSlot_shown e h.left bound depth _ fun hP =>
      shown_lookup (hvalue hP) .nil).bind fun exprs => ?_
    refine (flattenSlots_shown es h.right bound depth _ value fun hP => hvalue hP.1).bind
      fun more => .pure fun ⟨⟨_, hexprs⟩, hmore⟩ => ?_
    exact shown_exprsAppend hexprs hmore

-- Functions and classes.

theorem Param.lower_shown {P : Prop} {D : String → Prop} : (p : Param) →
    (sparing T).Covers p.visits →
    Shows T D P (p.lower s) fun p' => Shown T D p'.sights
  | ⟨pattern, fallback, isRest⟩, h => by
    refine (pattern.lower_shown h.left).bind fun pattern => ?_
    refine (lowerExpr?_shown fallback h.right).bind fun fallback => .pure ?_
    exact fun ⟨⟨_, hpattern⟩, hfallback⟩ => hpattern.append hfallback

theorem lowerParams_shown {P : Prop} {D : String → Prop} : (ps : List Param) →
    (sparing T).Covers (paramsVisits ps) →
    Shows T D P (lowerParams s ps) fun ps' => Shown T D (paramsSights ps')
  | [], _ => .pure fun _ => .nil
  | p :: ps, h => by
    refine (p.lower_shown h.left).bind fun p =>
      (lowerParams_shown ps h.right).bind fun ps => .pure ?_
    exact fun ⟨⟨_, hp⟩, hps⟩ => hp.append hps

/-- The parameter list is lowered with the body, so that the variables of both are declared in the
body. -/
theorem Func.lower_shown {P : Prop} {D : String → Prop} : (f : Func) →
    (sparing T).Covers f.visits →
    Shows T D P (f.lower s) fun f' => Shown T D f'.sights
  | ⟨name, params, body, isAsync, isGenerator⟩, h => by
    obtain ⟨hname, hparams, hbody⟩ := (covers_func name params body isAsync isGenerator).mp h
    have hinner : ∀ D, Shows T D P
        (do return (← lowerParams s params, ← lowerStmts s .function body) :
          Lowering (List Param × List Stmt))
        fun r => Shown T D (paramsSights r.1) ∧ Shown T D (stmtsSights r.2) := by
      intro D
      refine (lowerParams_shown params hparams).bind fun params => ?_
      exact (lowerStmts_shown body .function hbody).bind fun body =>
        .pure fun ⟨⟨_, hparams⟩, hbody⟩ => ⟨hparams, hbody⟩
    refine (shows_inFunction hinner).bind fun r => .pure ?_
    rintro ⟨-, frame, hframe, ⟨hparams, hbody⟩, hfunctions⟩
    rw [hframe]
    exact shown_func (fun x hx => (hname x hx).2) hparams hbody hfunctions

theorem ArrowBody.lower_shown {P : Prop} {D : String → Prop} : (body : ArrowBody) →
    (sparing T).Covers body.visits →
    Shows T D P (body.lower s) fun body' => Shown T D body'.sights
  | .block body, h => (lowerStmts_shown body .function h).bind fun _ => .pure fun hP => hP.2
  | .expr e, h => (e.lower_shown true h).bind fun _ => .pure fun hP => hP.2

theorem Class.lower_shown {P : Prop} {D : String → Prop} : (c : Class) →
    (sparing T).Covers c.visits →
    Shows T D P (c.lower s) fun c' => Shown T D c'.sights
  | ⟨name, base, members⟩, h => by
    have hname : Shown T D (sightsOf name.toList) :=
      .sightsOf fun x hx hT => absurd hT (covers_idents.mp h.tail.left.left x hx)
    refine (lowerExpr?_shown base h.tail.left.right).bind fun base => ?_
    refine (lowerMembers_shown members h.tail.right).bind fun members => .pure ?_
    exact fun ⟨⟨_, hbase⟩, hmembers⟩ => (hname.append hbase).append hmembers

theorem ClassMember.lower_shown {P : Prop} {D : String → Prop} : (m : ClassMember) →
    (sparing T).Covers m.visits →
    Shows T D P (m.lower s) fun m' => Shown T D m'.sights
  | .method key kind isStatic f, h => by
    refine (key.lower_shown h.left).bind fun key => (f.lower_shown h.right).bind fun f => .pure ?_
    exact fun ⟨⟨_, hkey⟩, hf⟩ => hkey.append hf
  | .field key isStatic value, h => by
    refine (key.lower_shown h.left).bind fun key => ?_
    refine (lowerExpr?_shown value h.right).bind fun value => .pure ?_
    exact fun ⟨⟨_, hkey⟩, hvalue⟩ => hkey.append hvalue
  | .staticBlock body, h => by
    refine (shows_inFunction fun _ => lowerStmts_shown body .function h).bind fun r => .pure ?_
    rintro ⟨-, frame, hframe, hbody, hfunctions⟩
    rw [hframe]
    exact shown_staticBlock hbody hfunctions

theorem lowerMembers_shown {P : Prop} {D : String → Prop} : (ms : List ClassMember) →
    (sparing T).Covers (membersVisits ms) →
    Shows T D P (lowerMembers s ms) fun ms' => Shown T D (membersSights ms')
  | [], _ => .pure fun _ => .nil
  | m :: ms, h => by
    refine (m.lower_shown h.left).bind fun m =>
      (lowerMembers_shown ms h.right).bind fun ms => .pure ?_
    exact fun ⟨⟨_, hm⟩, hms⟩ => hm.append hms

-- Declaration lists.

theorem Declarator.lower_shown {P : Prop} {D : String → Prop} : (d : Declarator) →
    (sparing T).Covers d.visits →
    Shows T D P (d.lower s) fun d' => Shown T D d'.sights
  | ⟨target, init⟩, h => by
    refine (target.lower_shown h.left).bind fun target => ?_
    refine (lowerExpr?_shown init h.right).bind fun init => .pure ?_
    exact fun ⟨⟨_, htarget⟩, hinit⟩ => htarget.append hinit

theorem lowerDeclarators_shown {P : Prop} {D : String → Prop} : (ds : List Declarator) →
    (sparing T).Covers (declaratorsVisits ds) →
    Shows T D P (lowerDeclarators s ds) fun ds' => Shown T D (declaratorsSights ds')
  | [], _ => .pure fun _ => .nil
  | d :: ds, h => by
    refine (d.lower_shown h.left).bind fun d =>
      (lowerDeclarators_shown ds h.right).bind fun ds => .pure ?_
    exact fun ⟨⟨_, hd⟩, hds⟩ => hd.append hds

theorem VarList.lower_shown {P : Prop} {D : String → Prop} : (list : VarList) →
    (sparing T).Covers list.visits →
    Shows T D P (list.lower s) fun list' => Shown T D list'.sights
  | ⟨_, ds⟩, h => (lowerDeclarators_shown ds h).bind fun _ => .pure fun hP => hP.2

theorem Declarator.hoisted_shown {P : Prop} {D : String → Prop} : (d : Declarator) →
    (sparing T).Covers d.visits →
    Shows T D P (d.hoisted s) fun es => Shown T D (exprsSights es)
  | ⟨target, none⟩, _ => (shows_addVariables _).bind fun _ => .pure fun _ => .nil
  | ⟨target, some init⟩, h => by
    refine (shows_addVariables _).bind fun _ => (init.lower_shown true h.right).bind fun value => ?_
    exact target.flatten_shown h.left _ 0 value fun hP => hP.2

theorem hoistedDeclarators_shown {P : Prop} {D : String → Prop} : (ds : List Declarator) →
    (sparing T).Covers (declaratorsVisits ds) →
    Shows T D P (hoistedDeclarators s ds) fun es => Shown T D (exprsSights es)
  | [], _ => .pure fun _ => .nil
  | d :: ds, h => by
    refine (d.hoisted_shown h.left).bind fun exprs => ?_
    refine (hoistedDeclarators_shown ds h.right).bind fun more => .pure ?_
    exact fun ⟨⟨_, hexprs⟩, hmore⟩ => shown_exprsAppend hexprs hmore

theorem VarList.hoisted_shown {P : Prop} {D : String → Prop} : (list : VarList) →
    (sparing T).Covers list.visits →
    Shows T D P (list.hoisted s) fun es => Shown T D (exprsSights es)
  | ⟨_, ds⟩, h => hoistedDeclarators_shown ds h

-- Statements.

theorem ForInit.lower_shown {P : Prop} {D : String → Prop} : (init : ForInit) → (place : Place) →
    (sparing T).Covers init.visits →
    Shows T D P (init.lower s place) fun init' => Shown T D init'.sights
  | .absent, _, _ => .pure fun _ => .nil
  | .var list, place, h => by
    refine .ite (fun _ => ?_) fun _ => ?_
    · refine (list.hoisted_shown h).bind fun exprs => ?_
      cases he : Expr.ofList exprs with
      | none => exact .pure fun _ => .nil
      | some e => exact .pure fun hP => shown_ofList hP.2 he
    · exact (list.lower_shown h).bind fun _ => .pure fun hP => hP.2
  | .expr e, _, h => (e.lower_shown false h).bind fun _ => .pure fun hP => hP.2

theorem ForHead.lower_shown {P : Prop} {D : String → Prop} : (head : ForHead) → (place : Place) →
    (sparing T).Covers head.visits →
    Shows T D P (head.lower s place) fun r =>
      Shown T D r.1.sights ∧ Shown T D (stmtsSights r.2)
  | .var ⟨kind, []⟩, _, _ => .pure fun _ => ⟨.nil, .nil⟩
  | .var ⟨kind, ⟨target, init⟩ :: ds⟩, place, h => by
    refine .ite (fun _ => ?_) fun _ => ?_
    · have hexports := hs.covers_headExports fun x hx =>
        mentions_of_mem_identsIn h.left.left (target.boundIdents_subset hx)
      refine (shows_addVariables _).bind fun _ =>
        (target.lower_shown h.left.left).bind fun _ => .pure ?_
      exact fun ⟨_, htarget⟩ => ⟨htarget, .of_covers (names_stmtsSights _) hexports⟩
    · refine (target.lower_shown h.left.left).bind fun target => ?_
      refine (lowerExpr?_shown init h.left.right).bind fun init => ?_
      refine (lowerDeclarators_shown ds h.right).bind fun ds => .pure ?_
      exact fun ⟨⟨⟨_, htarget⟩, hinit⟩, hds⟩ => ⟨(htarget.append hinit).append hds, .nil⟩
  | .pattern p, _, h => (p.lower_shown h).bind fun _ => .pure fun hP => ⟨hP.2, .nil⟩

theorem Catch.lower_shown {P : Prop} {D : String → Prop} : (c : Catch) → (place : Place) →
    (sparing T).Covers c.visits →
    Shows T D P (c.lower s place) fun c' => Shown T D c'.sights
  | ⟨param, body⟩, place, h => by
    refine (lowerPattern?_shown param h.left).bind fun param => ?_
    refine (lowerStmts_shown body place h.right).bind fun body => .pure ?_
    exact fun ⟨⟨_, hparam⟩, hbody⟩ => hparam.append hbody

theorem lowerCatch?_shown {P : Prop} {D : String → Prop} : (c : Option Catch) → (place : Place) →
    (sparing T).Covers (catchVisits? c) →
    Shows T D P (lowerCatch? s place c) fun c' => Shown T D (catchSights? c')
  | none, _, _ => .pure fun _ => .nil
  | some c, place, h => (c.lower_shown place h).bind fun _ => .pure fun hP => hP.2

theorem lowerBlock?_shown {P : Prop} {D : String → Prop} : (body : Option (List Stmt)) →
    (place : Place) → (sparing T).Covers (blockVisits? body) →
    Shows T D P (lowerBlock? s place body) fun body' => Shown T D (blockSights? body')
  | none, _, _ => .pure fun _ => .nil
  | some body, place, h => (lowerStmts_shown body place h).bind fun _ => .pure fun hP => hP.2

theorem Case.lower_shown {P : Prop} {D : String → Prop} : (c : Case) → (place : Place) →
    (sparing T).Covers c.visits →
    Shows T D P (c.lower s place) fun c' => Shown T D c'.sights
  | ⟨test, body⟩, place, h => by
    refine (lowerExpr?_shown test h.left).bind fun test => ?_
    refine (lowerStmts_shown body place h.right).bind fun body => .pure ?_
    exact fun ⟨⟨_, htest⟩, hbody⟩ => htest.append hbody

theorem lowerCases_shown {P : Prop} {D : String → Prop} : (cs : List Case) → (place : Place) →
    (sparing T).Covers (casesVisits cs) →
    Shows T D P (lowerCases s place cs) fun cs' => Shown T D (casesSights cs')
  | [], _, _ => .pure fun _ => .nil
  | c :: cs, place, h => by
    refine (c.lower_shown place h.left).bind fun c => ?_
    refine (lowerCases_shown cs place h.right).bind fun cs => .pure ?_
    exact fun ⟨⟨_, hc⟩, hcs⟩ => hc.append hcs

theorem lowerStmts_shown {P : Prop} {D : String → Prop} : (sts : List Stmt) → (place : Place) →
    (sparing T).Covers (stmtsVisits sts) →
    Shows T D P (lowerStmts s place sts) fun sts' => Shown T D (stmtsSights sts')
  | [], _, _ => .pure fun _ => .nil
  | st :: sts, place, h => by
    refine (st.lower_shown place h.left).bind fun first => ?_
    refine (lowerStmts_shown sts place h.right).bind fun more => .pure ?_
    exact fun ⟨⟨_, hfirst⟩, hmore⟩ => shown_stmtsAppend hfirst hmore

theorem lowerUnused?_shown {P : Prop} {D : String → Prop} : (e : Option Expr) →
    (sparing T).Covers (exprVisits? e) →
    Shows T D P (lowerUnused? s e) fun e' => Shown T D (exprSights? e')
  | none, _ => .pure fun _ => .nil
  | some e, h => (e.lower_shown false h).bind fun _ => .pure fun hP => hP.2

/-- The statements of a loop body that is a block. -/
theorem Stmt.block_shown {P : Prop} {D : String → Prop} (st : Stmt) (place : Place)
    (h : (sparing T).Covers st.visits) : ∀ inner, st = .block inner →
      Shows T D P (lowerStmts s place.inner inner) fun sts => Shown T D (stmtsSights sts) := by
  cases st with
  | block inner =>
    rintro _ ⟨⟩
    exact lowerStmts_shown inner place.inner h.tail
  | _ => nofun

theorem Stmt.lower_shown {P : Prop} {D : String → Prop} : (st : Stmt) → (place : Place) →
    (sparing T).Covers st.visits →
    Shows T D P (st.lower s place) fun sts => Shown T D (stmtsSights sts)
  | .expr e, _, h => by
    have he := (covers_exprStmt e).mp h
    refine .deeper s ((e.lower_shown false he).bind fun e => .pure fun hP => ?_)
    exact shown_singleStmt (.expr e) hP.2
  | .var modifiers list, place, h => by
    have hlist := (covers_var modifiers list).mp h
    have hhoisted : ∀ {P' : Prop}, Shows T D P'
        (do return (Expr.ofList (← list.hoisted s)).toList.map Stmt.expr)
        fun sts => Shown T D (stmtsSights sts) := by
      intro P'
      refine (list.hoisted_shown hlist).bind fun exprs => .pure fun ⟨_, hexprs⟩ => ?_
      cases he : Expr.ofList exprs with
      | none => exact .nil
      | some e => exact shown_singleStmt (.expr e) (shown_ofList hexprs he)
    refine .deeper s (.ite (fun _ => .ite (fun _ => ?_) fun _ => hhoisted) fun _ => ?_)
    · exact (shows_addExportedNames _).bind fun _ => hhoisted
    · refine (list.lower_shown hlist).bind fun list => .pure fun hP => ?_
      exact shown_singleStmt (.var modifiers list) hP.2
  | .function modifiers f, place, h => by
    have hf := (covers_functionStmt modifiers f).mp h
    have hname : ∀ x ∈ f.name, ¬T x.name := by
      obtain ⟨name, params, body, isAsync, isGenerator⟩ := f
      exact fun x hx => (((covers_func _ _ _ _ _).mp hf).1 x hx).2
    refine .deeper s (((f.lower_shown hf).also (f.lower_name s)).bind fun f' =>
      .ite (fun _ => ?_) fun _ => .pure fun hP => ?_)
    · refine (shows_hoistFunction hs hform modifiers (fun hP => hP.2.2 ▸ hname) fun hP =>
        hP.2.1).bind fun _ => .pure fun _ => .nil
    · exact shown_singleStmt (.function modifiers f') hP.2.1
  | .classDecl modifiers c, place, h => by
    refine .deeper s (.ite (fun hplace => ?_) fun _ => ?_)
    · have hname : ∀ x ∈ c.name, ¬T x.name := by
        obtain ⟨name, base, members⟩ := c
        exact fun x hx => covers_idents.mp h.tail.tail.left.left x (Option.mem_toList.mpr hx)
      refine (shows_hoistClassName hform hname).bind fun name => ?_
      refine (c.lower_shown h.tail).bind fun c => ?_
      exact shows_classAssignment hs modifiers (fun hP => hP.1.2) fun hP => hP.2
    · refine (c.lower_shown h.tail).bind fun c => .pure fun hP => ?_
      exact shown_singleStmt (.classDecl modifiers c) hP.2
  | .importFrom site clause specifier isTypeOnly, place, h => by
    refine .deeper s (.ite (fun _ => ?_) fun _ => .pure fun _ => ?_)
    · exact (shows_addVariables _).bind fun _ => .pure fun _ => .nil
    · exact shown_singleStmt _ (.of_covers (Stmt.names_sights _) h)
  | .importEquals site isExported name kind value, place, h => by
    refine .deeper s (.ite (fun _ => ?_) fun _ => .pure fun _ => ?_)
    · refine .ite (fun _ => .pure fun _ => .nil) fun _ => ?_
      refine (shows_addVariable _).bind fun _ => ?_
      have hkind : ∀ {P' : Prop}, Shows T D P' (match kind with
          | .require => return []
          | .entity => return [.expr (s.bindingAssignment name (← value.lower s true))])
          fun sts => Shown T D (stmtsSights sts) := by
        intro P'
        cases kind with
        | require => exact .pure fun _ => .nil
        | entity =>
          refine (value.lower_shown true h.tail.tail).bind fun value => .pure fun ⟨_, hvalue⟩ => ?_
          exact shown_singleStmt (.expr _)
            (hs.shown_bindingAssignment ((admits_ident name).mp h.tail.head) hvalue)
      exact .ite (fun _ => (shows_addExportedName _).bind fun _ => hkind) fun _ => hkind
    · exact shown_singleStmt _ (.of_covers (Stmt.names_sights _) h)
  | .exportFrom site clause specifier isTypeOnly, place, h => by
    refine .deeper s (.ite (fun _ => ?_) fun _ => .pure fun _ => ?_)
    · split
      · next specs =>
        refine shows_exportSpecifiers hs specs fun spec hspec => ?_
        exact mentions_of_mem_identsIn h (source_mem_identsIn hspec)
      · exact .pure fun _ => .nil
    · exact shown_singleStmt _ (.of_covers (Stmt.names_sights _) h)
  | .exportValue site form value, place, h => by
    refine .deeper s (.ite (fun _ => ?_) fun _ => .pure fun _ => ?_)
    · refine .ite (fun _ => .pure fun _ => .nil) fun _ => ?_
      refine (value.lower_shown true h.tail).bind fun value => .pure fun ⟨_, hvalue⟩ => ?_
      exact shown_singleStmt (.expr _) (hs.shown_publish "default" hvalue)
    · exact shown_singleStmt _ (.of_covers (Stmt.names_sights _) h)
  | .ambient name isExported, _, _ =>
    .deeper s (.pure fun _ => .nil)
  | .block body, place, h => by
    have hbody := (covers_block body).mp h
    refine .deeper s ((lowerStmts_shown body place.inner hbody).bind fun body => .pure fun hP => ?_)
    exact shown_singleStmt (.block body) hP.2
  | .ifThen test yes, place, h => by
    obtain ⟨htest, hyes⟩ := (covers_ifThen test yes).mp h
    refine .deeper s ((test.lower_shown true htest).bind fun test => ?_)
    refine (yes.lower_shown place.inner hyes).bind fun yes => .pure fun ⟨⟨_, htest⟩, hyes⟩ => ?_
    exact shown_singleStmt (.ifThen test _) (htest.append (shown_stmtOfList hyes))
  | .ifElse test yes no, place, h => by
    refine .deeper s ((test.lower_shown true h.tail.left.left).bind fun test => ?_)
    refine (yes.lower_shown place.inner h.tail.left.right).bind fun yes => ?_
    refine (no.lower_shown place.inner h.tail.right).bind fun no => .pure ?_
    intro ⟨⟨⟨_, htest⟩, hyes⟩, hno⟩
    have hbranches := (htest.append (shown_stmtOfList hyes)).append (shown_stmtOfList hno)
    exact shown_singleStmt (.ifElse test _ _) hbranches
  | .forLoop init test update body, place, h => by
    obtain ⟨hinit, htest, hupdate, hbody⟩ := (covers_forLoop init test update body).mp h
    refine .deeper s ((init.lower_shown place hinit).bind fun init => ?_)
    refine (lowerExpr?_shown test htest).bind fun test => ?_
    refine (lowerUnused?_shown update hupdate).bind fun update => ?_
    refine (body.lower_shown place.inner hbody).bind fun body => .pure ?_
    intro ⟨⟨⟨⟨_, hinit⟩, htest⟩, hupdate⟩, hbody⟩
    have hparts := ((hinit.append htest).append hupdate).append (shown_stmtOfList hbody)
    exact shown_singleStmt (.forLoop init test update _) hparts
  | .forIn head object body, place, h => by
    rw [Stmt.lower_forIn]
    obtain ⟨hhead, hobject, hbody⟩ := (covers_forIn head object body).mp h
    refine .deeper s ((head.lower_shown place hhead).bind fun r => ?_)
    refine (object.lower_shown true hobject).bind fun object => ?_
    refine (shows_lowerLoopBody (fun hP => hP.1.2.2) (body.block_shown place hbody)
      (body.lower_shown place.inner hbody)).bind fun body => .pure ?_
    intro ⟨⟨⟨_, hr⟩, hobject⟩, hbody⟩
    exact shown_singleStmt (.forIn r.1 object body) ((hr.1.append hobject).append hbody)
  | .forOf head iterable body isAwait, place, h => by
    rw [Stmt.lower_forOf]
    obtain ⟨hhead, hiterable, hbody⟩ := (covers_forOf head iterable body isAwait).mp h
    refine .deeper s ((head.lower_shown place hhead).bind fun r => ?_)
    refine (iterable.lower_shown true hiterable).bind fun iterable => ?_
    refine (shows_lowerLoopBody (fun hP => hP.1.2.2) (body.block_shown place hbody)
      (body.lower_shown place.inner hbody)).bind fun body => .pure ?_
    intro ⟨⟨⟨_, hr⟩, hiterable⟩, hbody⟩
    exact shown_singleStmt (.forOf r.1 iterable body isAwait)
      ((hr.1.append hiterable).append hbody)
  | .whileLoop test body, place, h => by
    refine .deeper s ((test.lower_shown true h.tail.left).bind fun test => ?_)
    refine (body.lower_shown place.inner h.tail.right).bind
      fun body => .pure fun ⟨⟨_, htest⟩, hbody⟩ => ?_
    exact shown_singleStmt (.whileLoop test _) (htest.append (shown_stmtOfList hbody))
  | .doWhile body test, place, h => by
    refine .deeper s ((body.lower_shown place.inner h.tail.right).bind fun body => ?_)
    refine (test.lower_shown true h.tail.left).bind fun test => .pure fun ⟨⟨_, hbody⟩, htest⟩ => ?_
    exact shown_singleStmt (.doWhile _ test) (htest.append (shown_stmtOfList hbody))
  | .tryCatch body handler finalizer, place, h => by
    refine .deeper s ((lowerStmts_shown body place.inner h.tail.left.left).bind fun body => ?_)
    refine (lowerCatch?_shown handler place.inner h.tail.left.right).bind fun handler => ?_
    refine (lowerBlock?_shown finalizer place.inner h.tail.right).bind fun finalizer => .pure ?_
    intro ⟨⟨⟨_, hbody⟩, hhandler⟩, hfinalizer⟩
    have hparts := (hbody.append hhandler).append hfinalizer
    exact shown_singleStmt (.tryCatch body handler finalizer) hparts
  | .switch subject cases, place, h => by
    refine .deeper s ((subject.lower_shown true h.tail.left).bind fun subject => ?_)
    refine (lowerCases_shown cases place.inner h.tail.right).bind fun cases => .pure ?_
    exact fun ⟨⟨_, hsubject⟩, hcases⟩ =>
      shown_singleStmt (.switch subject cases) (hsubject.append hcases)
  | .labeled label body, place, h => by
    refine .deeper s ((body.lower_shown place.inner h.tail.tail).bind
      fun body => .pure fun hP => ?_)
    exact shown_singleStmt (.labeled label _) (shown_stmtOfList hP.2)
  | .withObject object body, place, h => by
    refine .deeper s ((object.lower_shown true h.tail.left).bind fun object => ?_)
    refine (body.lower_shown place.inner h.tail.right).bind fun body => .pure ?_
    exact fun ⟨⟨_, hobject⟩, hbody⟩ =>
      shown_singleStmt (.withObject object _) (hobject.append (shown_stmtOfList hbody))
  | .ret arg, _, h => by
    have harg := (covers_ret arg).mp h
    refine .deeper s ((lowerExpr?_shown arg harg).bind fun arg => .pure fun hP => ?_)
    exact shown_singleStmt (.ret arg) hP.2
  | .throw arg, _, h => by
    refine .deeper s ((arg.lower_shown true h.tail).bind fun arg => .pure fun hP => ?_)
    exact shown_singleStmt (.throw arg) hP.2
  | .breakTo _, _, _ | .continueTo _, _, _ | .empty, _, _ | .debugger, _, _ =>
    .deeper s (.pure fun _ => shown_singleStmt _ .nil)

end
end RegisterForm
