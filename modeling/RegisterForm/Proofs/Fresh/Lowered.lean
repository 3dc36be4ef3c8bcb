import RegisterForm.Proofs.Fresh.Accounts
/-!
# Names in lowered trees

Whatever a tree says is said again when it is lowered, and what lowering adds is said with names
that the supply gave out, with the names of the setting and with those that the module hoists.
The proof follows the lowering of every kind of node.
-/
namespace RegisterForm
open Lowering Vocabulary

/-! ## Hoisted names -/

/-- The variables that a statement of the top level declares for the module, those aside that its
blocks and loops declare with `var`. -/
def Setting.topNames (s : Setting) : Stmt → List String
  | .var _ list => list.boundIdents.map (·.name)
  | .classDecl _ c => c.name.toList.map (·.name)
  | .importFrom site _ _ _ => (s.holders.lookup site.id).toList
  | .importEquals _ _ name _ _ => [name.name]
  | _ => []

/-- A vocabulary may declare the variables that a statement makes variables of the module. -/
structure Setting.Hoistable (s : Setting) (V : Vocabulary) (place : Place) (st : Stmt) : Prop where
  vars : place.hoistsVars = true → ∀ b ∈ st.varBindings, V.binds (.synthetic b.ident.name)
  top : place = .topLevel → ∀ name ∈ s.topNames st,
    V.binds (.synthetic name) ∧ V.mentions name

namespace Setting.Hoistable
variable {s : Setting} {V : Vocabulary} {place : Place}

theorem hoistsVars_of_inner (h : place.inner.hoistsVars = true) : place.hoistsVars = true := by
  cases place <;> first | rfl | cases h

theorem inner_ne_topLevel : place.inner ≠ .topLevel := by
  cases place <;> nofun

/-- Inside a statement only `var`s become variables of the module. -/
theorem of_vars {st : Stmt}
    (h : place.hoistsVars = true → ∀ b ∈ st.varBindings, V.binds (.synthetic b.ident.name)) :
    s.Hoistable V place.inner st :=
  ⟨fun hplace => h (hoistsVars_of_inner hplace), fun htop => absurd htop inner_ne_topLevel⟩

theorem of_body {body : List Stmt}
    (h : place.hoistsVars = true → ∀ b ∈ blockVarBindings body, V.binds (.synthetic b.ident.name)) :
    ∀ st ∈ body, s.Hoistable V place.inner st := by
  induction body with
  | nil => exact List.forall_mem_nil _
  | cons st body ih =>
    refine List.forall_mem_cons.mpr ⟨of_vars fun hplace => ?_, ih fun hplace => ?_⟩
    · exact fun b hb => h hplace b (List.mem_append_left _ hb)
    · exact fun b hb => h hplace b (List.mem_append_right _ hb)

/-- What is asked of the `var`s of two parts. -/
theorem split {bs cs : List Binding}
    (h : place.hoistsVars = true → ∀ b ∈ bs ++ cs, V.binds (.synthetic b.ident.name)) :
    (place.hoistsVars = true → ∀ b ∈ bs, V.binds (.synthetic b.ident.name)) ∧
      (place.hoistsVars = true → ∀ b ∈ cs, V.binds (.synthetic b.ident.name)) :=
  ⟨fun hplace b hb => h hplace b (List.mem_append_left _ hb),
    fun hplace b hb => h hplace b (List.mem_append_right _ hb)⟩

/-- A statement that has the `var`s of two parts. -/
theorem both {st : Stmt} {bs cs : List Binding} (h : s.Hoistable V place st)
    (hst : st.varBindings = bs ++ cs) :
    (place.hoistsVars = true → ∀ b ∈ bs, V.binds (.synthetic b.ident.name)) ∧
      (place.hoistsVars = true → ∀ b ∈ cs, V.binds (.synthetic b.ident.name)) :=
  split (hst ▸ h.vars)

/-- In a function nothing becomes a variable of the module. -/
theorem of_function (st : Stmt) : s.Hoistable V .function st := ⟨nofun, nofun⟩

end Setting.Hoistable

variable {s : Setting} {V : Vocabulary}

/-- The names of a pattern that is hoisted. -/
theorem binds_boundNames {p : Pattern} (hp : V.Covers p.visits)
    (h : ∀ x ∈ p.boundIdents, V.binds (.synthetic x.name)) :
    ∀ name ∈ p.boundNames, V.binds (.synthetic name) ∧ V.mentions name := by
  intro name hname
  obtain ⟨x, hx, rfl⟩ := List.mem_map.mp hname
  exact ⟨h x hx, mentions_of_mem_identsIn hp (p.boundIdents_subset hx)⟩

/-- The names of a `var` list, whose bindings are all hoisted. -/
theorem binds_varBindings {isExported : Bool} {list : VarList}
    (hkind : (list.kind == .var) = true)
    (h : ∀ b ∈ list.varBindings isExported, V.binds (.synthetic b.ident.name)) :
    ∀ x ∈ list.boundIdents, V.binds (.synthetic x.name) := by
  intro x hx
  have hvar : list.kind = .var := by simpa using hkind
  refine h ⟨x, { isVariable := true, isExported }, none⟩ ?_
  rw [VarList.varBindings, hvar]
  exact List.mem_map.mpr ⟨x, hx, rfl⟩

theorem forall_mem_shorthands {B : Ident → Prop} {p : PatternProperty} {ps : List PatternProperty} :
    (∀ x ∈ (p :: ps).filterMap PatternProperty.shorthand?, B x) ↔
      (∀ x, p.shorthand? = some x → B x) ∧
        ∀ x ∈ ps.filterMap PatternProperty.shorthand?, B x := by
  cases hp : p.shorthand? <;> simp [hp]

variable (hs : s.SpokenIn V)

-- Only identifiers ask what the setting says.
set_option linter.unusedSectionVars false

include hs

mutual

theorem Expr.lower_covers {P : Prop} : (e : Expr) → (isUsed : Bool) → V.Covers e.visits →
    Accounts V P (e.lower s isUsed) fun e' => V.Covers e'.visits
  | .ident x, _, h => by
    exact .deeper s (.pure fun _ => hs.covers_read ((covers_identExpr x).mp h))
  | .literal value, _, _ => by
    exact .deeper s (.pure fun _ => covers_literal value)
  | .this, _, _ => by
    exact .deeper s (.pure fun _ => covers_this)
  | .super, _, h => by
    exact .deeper s (.pure fun _ => h)
  | .template chunks parts, _, h => by
    refine .deeper s ((lowerExprs_covers parts h.tail).bind
      fun parts => .pure fun ⟨_, hparts⟩ => ?_)
    exact .expr rfl hparts
  | .tagged tag chunks parts, _, h => by
    refine .deeper s ((tag.lower_covers true h.tail.left).bind fun tag => ?_)
    refine (lowerExprs_covers parts h.tail.right).bind
      fun parts => .pure fun ⟨⟨_, htag⟩, hparts⟩ => ?_
    exact .expr rfl (.append htag hparts)
  | .array elements, _, h => by
    have helements := (covers_array elements).mp h
    refine .deeper s ((lowerSlots_covers elements helements).bind fun elements => .pure ?_)
    exact fun ⟨_, helements⟩ => (covers_array elements).mpr helements
  | .object properties, _, h => by
    have hproperties := (covers_object properties).mp h
    refine .deeper s ((lowerProperties_covers properties hproperties).bind fun ps => .pure ?_)
    exact fun ⟨_, hps⟩ => (covers_object ps).mpr hps
  | .function f, _, h => by
    have hf := (covers_functionExpr f).mp h
    refine .deeper s ((f.lower_covers hf).bind fun f => .pure fun ⟨_, hf⟩ => ?_)
    exact (covers_functionExpr f).mpr hf
  | .arrow params body isAsync, _, h => by
    have hinner : Accounts V P
        (do return (← lowerParams s params, ← body.lower s) : Lowering (List Param × ArrowBody))
        fun r => V.Covers (paramsVisits r.1) ∧ V.Covers r.2.visits := by
      refine (lowerParams_covers params h.tail.left).bind fun params => ?_
      exact (body.lower_covers h.tail.right).bind fun body => .pure fun ⟨⟨_, hparams⟩, hbody⟩ =>
        ⟨hparams, hbody⟩
    refine .deeper s ((accounts_inFunction hinner).bind fun r => .pure fun ⟨_, hr, hd⟩ => ?_)
    have hbody := covers_withDeclarations hr.2 hd
    exact .expr rfl (.append hr.1 hbody)
  | .classExpr c, _, h => by
    refine .deeper s ((c.lower_covers h.tail).bind fun c => .pure fun ⟨_, hc⟩ => ?_)
    exact .expr rfl hc
  | .unary op arg, _, h => by
    have harg := (covers_unary op arg).mp h
    refine .deeper s ((arg.lower_covers true harg).bind fun arg => .pure fun ⟨_, harg⟩ => ?_)
    exact (covers_unary op arg).mpr harg
  | .update op isPrefix arg, isUsed, h => by
    have harg := (covers_update op isPrefix arg).mp h
    refine .deeper s ?_
    cases hpublished : s.publishedUpdate? op isPrefix isUsed arg with
    | some e => exact .pure fun _ => hs.covers_publishedUpdate? harg hpublished
    | none =>
      refine (arg.lower_covers true harg).bind fun arg => .pure fun ⟨_, harg⟩ => ?_
      exact (covers_update op isPrefix arg).mpr harg
  | .binary op left right, _, h => by
    obtain ⟨hleft, hright⟩ := (covers_binary op left right).mp h
    refine .deeper s ((left.lower_covers true hleft).bind fun left => ?_)
    refine (right.lower_covers true hright).bind fun right => .pure fun ⟨⟨_, hleft⟩, hright⟩ => ?_
    exact (covers_binary op left right).mpr ⟨hleft, hright⟩
  | .assign op target value, isUsed, h => by
    obtain ⟨htarget, hvalue⟩ := (covers_assign op target value).mp h
    refine .deeper s (.ite (fun _ => ?_) fun _ => ?_)
    · refine (value.lower_covers true hvalue).bind fun value => ?_
      have hassigns : ∀ (r : List Expr × Expr) (result : List Expr) {P' : Prop},
          (P' → V.Covers (exprsVisits r.1) ∧ V.Covers r.2.visits) →
          (P' → V.Covers (exprsVisits result)) →
          Accounts V P' (do
            let exprs ← target.flatten s target.boundNames 0 r.2
            return (Expr.ofList (r.1 ++ exprs ++ result)).getD r.2)
            fun e => V.Covers e.visits := by
        intro r result P' hr hresult
        refine (target.flatten_covers htarget _ 0 r.2 fun hP => (hr hP).2).bind fun exprs => ?_
        refine .pure fun ⟨hP, hexprs⟩ => ?_
        cases he : Expr.ofList (r.1 ++ exprs ++ result) with
        | none => exact (hr hP).2
        | some e => exact covers_ofList (by simp [(hr hP).1, hexprs, hresult hP]) he
      refine .ite (fun hused => ?_) fun hunused => ?_
      · subst hused
        refine (accounts_stabilize hs target.boundNames fun hP => hP.2).bind fun r => ?_
        exact hassigns r [r.2] (fun hP => hP.2) fun hP => by simpa [exprsVisits] using hP.2.2
      · have hunused' : isUsed = false := by simpa using hunused
        subst hunused'
        exact hassigns ([], value) [] (fun hP => ⟨covers_nil, hP.2⟩) fun _ => covers_nil
    · refine (target.lower_covers htarget).bind fun target => ?_
      refine (value.lower_covers true hvalue).bind fun value => .pure ?_
      exact fun ⟨⟨_, htarget⟩, hvalue⟩ =>
        hs.covers_publishedTo target ((covers_assign op target value).mpr ⟨htarget, hvalue⟩)
  | .conditional test yes no, isUsed, h => by
    obtain ⟨htest, hyes, hno⟩ := (covers_conditional test yes no).mp h
    refine .deeper s ((test.lower_covers true htest).bind fun test => ?_)
    refine (yes.lower_covers isUsed hyes).bind fun yes => ?_
    refine (no.lower_covers isUsed hno).bind fun no => .pure fun ⟨⟨⟨_, htest⟩, hyes⟩, hno⟩ => ?_
    exact (covers_conditional test yes no).mpr ⟨htest, hyes, hno⟩
  | .call callee args isOptional, _, h => by
    obtain ⟨hcalls, hcallee, hargs⟩ := (covers_call callee args isOptional).mp h
    have hread := callee.lower_ident (s := s) true
    refine .deeper s (((callee.lower_covers true hcallee).also hread).bind fun callee' => ?_)
    refine (lowerExprs_covers args hargs).bind fun args => .pure fun ⟨⟨_, hcallee', hy⟩, hargs⟩ => ?_
    refine (covers_call callee' args isOptional).mpr ⟨fun y hcalled => ?_, hcallee', hargs⟩
    have hident : callee'.skipParens = .ident y := by
      unfold Expr.ident? at hcalled
      split at hcalled <;> simp_all
    obtain ⟨x, hx, hxy⟩ := hy y hident
    exact hs.calls_read (hcalls x (by rw [hx, Expr.ident?])) hxy
  | .newBare callee, _, h => by
    refine .deeper s ((callee.lower_covers true h.tail).bind fun callee => .pure fun ⟨_, hc⟩ => ?_)
    exact .expr rfl hc
  | .newCall callee args, _, h => by
    refine .deeper s ((callee.lower_covers true h.tail.left).bind fun callee => ?_)
    refine (lowerExprs_covers args h.tail.right).bind fun args => .pure fun ⟨⟨_, hc⟩, hargs⟩ => ?_
    exact .expr rfl (.append hc hargs)
  | .member owner name isOptional, _, h => by
    refine .deeper s ((owner.lower_covers true h.tail.left).bind
      fun owner => .pure fun ⟨_, ho⟩ => ?_)
    exact .expr rfl (.append ho (covers_names [name]))
  | .index owner key isOptional, _, h => by
    refine .deeper s ((owner.lower_covers true h.tail.left).bind fun owner => ?_)
    refine (key.lower_covers true h.tail.right).bind fun key => .pure fun ⟨⟨_, howner⟩, hkey⟩ => ?_
    exact .expr rfl (.append howner hkey)
  | .sequence exprs, isUsed, h => by
    have hexprs := (covers_sequence exprs).mp h
    refine .deeper s ((lowerSequence_covers exprs isUsed hexprs).bind fun exprs => .pure ?_)
    exact fun ⟨_, hexprs⟩ => (covers_sequence exprs).mpr hexprs
  | .paren inner, isUsed, h => by
    have hinner := (covers_paren inner).mp h
    refine .deeper s ((inner.lower_covers isUsed hinner).bind fun inner => .pure ?_)
    exact fun ⟨_, hinner⟩ => (covers_paren inner).mpr hinner
  | .yield arg isDelegate, _, h => by
    refine .deeper s ((lowerExpr?_covers arg h.tail).bind fun arg => .pure fun ⟨_, harg⟩ => ?_)
    exact .expr rfl harg
  | .await arg, _, h => by
    refine .deeper s ((arg.lower_covers true h.tail).bind fun arg => .pure fun ⟨_, harg⟩ => ?_)
    exact .expr rfl harg
  | .spread arg, _, h => by
    refine .deeper s ((arg.lower_covers true h.tail).bind fun arg => .pure fun ⟨_, harg⟩ => ?_)
    exact .expr rfl harg
  | .importCall specifier, _, h => by
    refine .deeper s ((specifier.lower_covers true h.tail).bind
      fun arg => .pure fun ⟨_, harg⟩ => ?_)
    rw [covers_applyDot, covers_ofName]
    exact ⟨hs.context, .append harg covers_nil⟩
  | .importMeta, _, _ => by
    exact .deeper s (.pure fun _ => by simp [hs.context])

theorem lowerExprs_covers {P : Prop} : (es : List Expr) → V.Covers (exprsVisits es) →
    Accounts V P (lowerExprs s es) fun es' => V.Covers (exprsVisits es')
  | [], _ => .pure fun _ => covers_nil
  | e :: es, h => by
    refine (e.lower_covers true h.left).bind fun e => ?_
    refine (lowerExprs_covers es h.right).bind fun es => .pure fun ⟨⟨_, he⟩, hes⟩ => ?_
    exact .append he hes

theorem lowerSequence_covers {P : Prop} : (es : List Expr) → (isUsed : Bool) →
    V.Covers (exprsVisits es) →
    Accounts V P (lowerSequence s isUsed es) fun es' => V.Covers (exprsVisits es')
  | [], _, _ => .pure fun _ => covers_nil
  | e :: es, isUsed, h => by
    refine (e.lower_covers _ h.left).bind fun e => ?_
    refine (lowerSequence_covers es isUsed h.right).bind fun es => .pure fun ⟨⟨_, he⟩, hes⟩ => ?_
    exact .append he hes

theorem lowerExpr?_covers {P : Prop} : (e : Option Expr) → V.Covers (exprVisits? e) →
    Accounts V P (lowerExpr? s e) fun e' => V.Covers (exprVisits? e')
  | none, _ => .pure fun _ => covers_nil
  | some e, h => (e.lower_covers true h).bind fun _ => .pure fun hP => hP.2

theorem lowerSlots_covers {P : Prop} : (es : List (Option Expr)) → V.Covers (slotsVisits es) →
    Accounts V P (lowerSlots s es) fun es' => V.Covers (slotsVisits es')
  | [], _ => .pure fun _ => covers_nil
  | e :: es, h => by
    refine (lowerExpr?_covers e h.left).bind fun e => ?_
    refine (lowerSlots_covers es h.right).bind fun es => .pure fun ⟨⟨_, he⟩, hes⟩ => ?_
    exact .append he hes

theorem Key.lower_covers {P : Prop} : (key : Key) → V.Covers key.visits →
    Accounts V P (key.lower s) fun key' => V.Covers key'.visits
  | .name _, h => .pure fun _ => h
  | .string _, h => .pure fun _ => h
  | .number _, h => .pure fun _ => h
  | .computed e, h => (e.lower_covers true h).bind fun _ => .pure fun hP => hP.2

theorem Property.lower_covers {P : Prop} : (p : Property) → V.Covers p.visits →
    Accounts V P (p.lower s) fun p' => V.Covers p'.visits
  | .keyed key value, h => by
    refine (key.lower_covers h.left).bind fun key => ?_
    refine (value.lower_covers true h.right).bind fun value => .pure fun ⟨⟨_, hkey⟩, hvalue⟩ => ?_
    exact .append hkey hvalue
  | .shorthand x, h => .pure fun _ => hs.covers_readShorthand ((admits_ident x).mp h.head)
  | .method key kind f, h => by
    refine (key.lower_covers h.left).bind fun key => ?_
    refine (f.lower_covers h.right).bind fun f => .pure fun ⟨⟨_, hkey⟩, hf⟩ => ?_
    exact .append hkey hf
  | .spread e, h => (e.lower_covers true h).bind fun _ => .pure fun hP => hP.2

theorem lowerProperties_covers {P : Prop} : (ps : List Property) → V.Covers (propertiesVisits ps) →
    Accounts V P (lowerProperties s ps) fun ps' => V.Covers (propertiesVisits ps')
  | [], _ => .pure fun _ => covers_nil
  | p :: ps, h => by
    refine (p.lower_covers h.left).bind fun p => ?_
    refine (lowerProperties_covers ps h.right).bind fun ps => .pure fun ⟨⟨_, hp⟩, hps⟩ => ?_
    exact .append hp hps

-- Patterns that stay patterns.

theorem Pattern.lower_covers {P : Prop} : (p : Pattern) → V.Covers p.visits →
    Accounts V P (p.lower s) fun p' => V.Covers p'.visits
  | .ident x, h => .pure fun _ => h
  | .expr e, h => by
    have he := (covers_exprPattern e).mp h
    refine (e.lower_covers true he).bind fun e => .pure fun ⟨_, he⟩ => ?_
    exact (covers_exprPattern e).mpr he
  | .object properties rest, h => by
    have hproperties :=
      lowerPatternProperties_covers (P := P) properties h.tail.left h.head.binds
    refine hproperties.bind fun properties => (lowerPattern?_covers rest h.tail.right).bind
      fun rest => .pure fun ⟨⟨_, hps, hxs⟩, hrest⟩ => ?_
    exact .cons ⟨nofun, hxs, nofun⟩ (.append hps hrest)
  | .array elements rest, h => by
    refine (lowerPatternSlots_covers elements h.tail.left).bind fun elements => ?_
    refine (lowerPattern?_covers rest h.tail.right).bind fun rest => .pure ?_
    exact fun ⟨⟨_, hes⟩, hrest⟩ => .cons ⟨nofun, nofun, nofun⟩ (.append hes hrest)

theorem lowerPattern?_covers {P : Prop} : (p : Option Pattern) → V.Covers (patternVisits? p) →
    Accounts V P (lowerPattern? s p) fun p' => V.Covers (patternVisits? p')
  | none, _ => .pure fun _ => covers_nil
  | some p, h => (p.lower_covers h).bind fun _ => .pure fun hP => hP.2

/-- A shorthand stays one for the same identifier. -/
theorem PatternProperty.lower_covers {P : Prop} : (p : PatternProperty) → V.Covers p.visits →
    (∀ x, p.shorthand? = some x → V.binds x) →
    Accounts V P (p.lower s) fun p' =>
      V.Covers p'.visits ∧ ∀ x, p'.shorthand? = some x → V.binds x
  | .keyed key target fallback, h, _ => by
    refine (key.lower_covers h.left.left).bind fun key => ?_
    refine (target.lower_covers h.left.right).bind fun target => ?_
    refine (lowerExpr?_covers fallback h.right).bind fun fallback => .pure ?_
    exact fun ⟨⟨⟨_, hkey⟩, htarget⟩, hfallback⟩ =>
      ⟨.append (.append hkey htarget) hfallback, nofun⟩
  | .shorthand x fallback, h, hx => by
    refine (lowerExpr?_covers fallback h.tail).bind fun fallback => .pure fun ⟨_, hfallback⟩ => ?_
    exact ⟨(covers_cons _ _).mpr ⟨h.head, hfallback⟩, hx⟩

theorem lowerPatternProperties_covers {P : Prop} : (ps : List PatternProperty) →
    V.Covers (patternPropertiesVisits ps) →
    (∀ x ∈ ps.filterMap PatternProperty.shorthand?, V.binds x) →
    Accounts V P (lowerPatternProperties s ps) fun ps' => V.Covers (patternPropertiesVisits ps') ∧
      ∀ x ∈ ps'.filterMap PatternProperty.shorthand?, V.binds x
  | [], _, _ => .pure fun _ => ⟨covers_nil, List.forall_mem_nil _⟩
  | p :: ps, h, hx => by
    obtain ⟨hxp, hxps⟩ := forall_mem_shorthands.mp hx
    refine (p.lower_covers h.left hxp).bind fun p => ?_
    refine (lowerPatternProperties_covers ps h.right hxps).bind fun ps => .pure ?_
    refine fun ⟨⟨_, hp, hxp⟩, hps, hxps⟩ => ⟨(covers_append _ _).mpr ⟨hp, hps⟩, ?_⟩
    exact forall_mem_shorthands.mpr ⟨hxp, hxps⟩

theorem PatternElement.lower_covers {P : Prop} : (e : PatternElement) → V.Covers e.visits →
    Accounts V P (e.lower s) fun e' => V.Covers e'.visits
  | ⟨target, fallback⟩, h => by
    refine (target.lower_covers h.left).bind fun target => ?_
    refine (lowerExpr?_covers fallback h.right).bind fun fallback => .pure ?_
    exact fun ⟨⟨_, htarget⟩, hfallback⟩ => .append htarget hfallback

theorem lowerPatternSlot_covers {P : Prop} : (e : Option PatternElement) →
    V.Covers (patternSlotVisits e) →
    Accounts V P (lowerPatternSlot s e) fun e' => V.Covers (patternSlotVisits e')
  | none, _ => .pure fun _ => covers_nil
  | some e, h => (e.lower_covers h).bind fun _ => .pure fun hP => hP.2

theorem lowerPatternSlots_covers {P : Prop} : (es : List (Option PatternElement)) →
    V.Covers (patternSlotsVisits es) →
    Accounts V P (lowerPatternSlots s es) fun es' => V.Covers (patternSlotsVisits es')
  | [], _ => .pure fun _ => covers_nil
  | e :: es, h => by
    refine (lowerPatternSlot_covers e h.left).bind fun e => ?_
    refine (lowerPatternSlots_covers es h.right).bind fun es => .pure fun ⟨⟨_, he⟩, hes⟩ => ?_
    exact .append he hes

-- Patterns that are taken apart.

theorem Pattern.flatten_covers {P : Prop} : (p : Pattern) → V.Covers p.visits →
    ∀ (bound : List String) (depth : Nat) (value : Expr), (P → V.Covers value.visits) →
      Accounts V P (p.flatten s bound depth value) fun es => V.Covers (exprsVisits es)
  | .ident x, h => by
    intro bound depth value hvalue
    have hx := (covers_identPattern x).mp h
    refine (accounts_guardPatternDepth depth).bind fun _ => .pure fun ⟨hP, _⟩ => ?_
    exact .oneExpr (hs.covers_bindingAssignment hx (hvalue hP))
  | .expr e, h => by
    intro bound depth value hvalue
    have he := (covers_exprPattern e).mp h
    refine (accounts_guardPatternDepth depth).bind fun _ => ?_
    refine (e.lower_covers true he).bind fun e => .pure fun ⟨⟨hP, _⟩, he⟩ => ?_
    exact .oneExpr ((covers_assignTo ..).mpr ⟨(covers_exprPattern e).mpr he, hvalue hP⟩)
  | .object properties rest, h => by
    intro bound depth value hvalue
    refine (accounts_guardPatternDepth depth).bind fun _ => ?_
    refine (accounts_stabilizeUnlessOne hs _ bound fun hP => hvalue hP.1).bind fun r => ?_
    refine (flattenProperties_covers properties h.tail.left h.head.binds bound _ rest.isSome r.2
      fun hP => hP.2.2).bind fun r' => ?_
    have hrest : ∀ {P' : Prop}, (P' → V.Covers (exprsVisits r.1) ∧ V.Covers (exprsVisits r'.1)) →
        (P' → rest.isSome = true → V.Covers (restCall r.2 r'.2).visits) →
        Accounts V P' (do
          let remaining ← flattenRest s bound (depth + 1) rest (restCall r.2 r'.2)
          return r.1 ++ r'.1 ++ remaining) fun es => V.Covers (exprsVisits es) := by
      intro P' hr hcall
      have hremaining := flattenRest_covers (P := P') rest h.tail.right bound (depth + 1) _ hcall
      refine hremaining.bind fun remaining => .pure fun ⟨hP, hremaining⟩ => ?_
      simp [(hr hP).1, (hr hP).2, hremaining]
    refine .ite (fun _ => accounts_requireRest.bind fun _ => ?_) fun hnone => ?_
    · refine hrest (fun hP => ⟨hP.1.1.2.1, hP.1.2.1⟩) fun hP _ => ?_
      exact hs.covers_restCall hP.2 hP.1.1.2.2 hP.1.2.2
    · exact hrest (fun hP => ⟨hP.1.2.1, hP.2.1⟩) fun _ hsome => absurd hsome hnone
  | .array elements rest, h => by
    intro bound depth value hvalue
    refine (accounts_guardPatternDepth depth).bind fun _ => ?_
    refine (accounts_stabilizeUnlessOne hs _ bound fun hP => hvalue hP.1).bind fun r => ?_
    refine (flattenSlots_covers elements h.tail.left bound _ 0 r.2 fun hP => hP.2.2).bind
      fun exprs => ?_
    refine (flattenRest_covers rest h.tail.right bound _ _ fun hP _ =>
      covers_restSlice elements.length hP.1.2.2).bind fun remaining => .pure ?_
    refine fun ⟨⟨⟨_, hheld⟩, hexprs⟩, hremaining⟩ => ?_
    simp [hheld.1, hexprs, hremaining]

/-- The value of the rest is read only if there is one. -/
theorem flattenRest_covers {P : Prop} : (rest : Option Pattern) → V.Covers (patternVisits? rest) →
    ∀ (bound : List String) (depth : Nat) (value : Expr),
      (P → rest.isSome = true → V.Covers value.visits) →
      Accounts V P (flattenRest s bound depth rest value) fun es => V.Covers (exprsVisits es)
  | none, _ => fun _ _ _ _ => .pure fun _ => covers_nil
  | some p, h => fun bound depth value hvalue =>
    p.flatten_covers h bound depth value fun hP => hvalue hP rfl

theorem flattenFallback_covers {P : Prop} : (fallback : Option Expr) →
    V.Covers (exprVisits? fallback) →
    ∀ (bound : List String) (value : Expr), (P → V.Covers value.visits) →
      Accounts V P (flattenFallback s bound fallback value) fun r =>
        V.Covers (exprsVisits r.1) ∧ V.Covers r.2.visits
  | none, _ => fun _ _ hvalue => .pure fun hP => ⟨covers_nil, hvalue hP⟩
  | some e, h => by
    intro bound value hvalue
    refine (accounts_stabilize hs bound hvalue).bind fun r => ?_
    refine (e.lower_covers true h).bind fun e => .pure fun ⟨⟨_, hr⟩, he⟩ => ⟨hr.1, ?_⟩
    exact covers_orFallback hr.2 he

theorem Key.flatten_covers {P : Prop} : (key : Key) → V.Covers key.visits →
    ∀ (bound : List String) (hasRest : Bool) (value : Expr), (P → V.Covers value.visits) →
      Accounts V P (key.flatten s bound hasRest value) fun r =>
        V.Covers (exprsVisits r.1) ∧ V.Covers r.2.1.visits ∧ V.Covers r.2.2.visits
  | .name text, _ => fun _ _ value hvalue => .pure fun hP =>
    ⟨covers_nil, (covers_dot value text).mpr (hvalue hP), covers_ofString text⟩
  | .string text, _ => by
    intro bound hasRest value hvalue
    refine .pure fun hP => ⟨covers_nil, ?_, covers_ofString text⟩
    dsimp only
    split
    · exact (covers_dot value text).mpr (hvalue hP)
    · exact (covers_lookup _ _).mpr ⟨hvalue hP, covers_ofString text⟩
  | .number source, _ => by
    intro bound hasRest value hvalue
    refine .pure fun hP => ⟨covers_nil, ?_, covers_ofString source⟩
    exact (covers_lookup _ _).mpr ⟨hvalue hP, covers_ofNumber source⟩
  | .computed e, h => by
    intro bound hasRest value hvalue
    refine (e.lower_covers true h).bind fun key => .ite (fun _ => ?_) fun _ => ?_
    · refine (accounts_stabilize hs bound fun hP => hP.2).bind fun r => .pure ?_
      refine fun ⟨⟨hP, _⟩, hr⟩ => ⟨hr.1, ?_, covers_propertyKey hr.2⟩
      exact (covers_lookup _ _).mpr ⟨hvalue hP, hr.2⟩
    · refine .pure fun ⟨hP, hkey⟩ => ⟨covers_nil, ?_, hkey⟩
      exact (covers_lookup _ _).mpr ⟨hvalue hP, hkey⟩

theorem PatternProperty.flatten_covers {P : Prop} : (p : PatternProperty) → V.Covers p.visits →
    (∀ x, p.shorthand? = some x → V.binds x) →
    ∀ (bound : List String) (depth : Nat) (hasRest : Bool) (value : Expr),
      (P → V.Covers value.visits) →
      Accounts V P (p.flatten s bound depth hasRest value) fun r =>
        V.Covers (exprsVisits r.1) ∧ V.Covers r.2.visits
  | .keyed key target fallback, h, _ => by
    intro bound depth hasRest value hvalue
    refine (key.flatten_covers h.left.left bound hasRest value hvalue).bind fun r => ?_
    refine (flattenFallback_covers fallback h.right bound r.2.1 fun hP => hP.2.2.1).bind
      fun r' => ?_
    refine (target.flatten_covers h.left.right bound depth r'.2 fun hP => hP.2.2).bind
      fun exprs => .pure ?_
    exact fun ⟨⟨⟨_, hr⟩, hr'⟩, hexprs⟩ => ⟨by simp [hr.1, hr'.1, hexprs], hr.2.2⟩
  | .shorthand x fallback, h, hx => by
    intro bound depth hasRest value hvalue
    have hbound : V.binds x ∧ V.mentions x.name := ⟨hx x rfl, (admits_ident x).mp h.head⟩
    refine (flattenFallback_covers fallback h.tail bound _ fun hP =>
      (covers_dot value x.name).mpr (hvalue hP)).bind fun r => ?_
    refine (accounts_guardPatternDepth depth).bind fun _ => .pure fun ⟨⟨_, hr⟩, _⟩ => ?_
    have hassign := hs.covers_bindingAssignment hbound hr.2
    refine ⟨?_, covers_ofString x.name⟩
    rw [exprsVisits_append]
    exact .append hr.1 (.oneExpr hassign)

theorem flattenProperties_covers {P : Prop} : (ps : List PatternProperty) →
    V.Covers (patternPropertiesVisits ps) →
    (∀ x ∈ ps.filterMap PatternProperty.shorthand?, V.binds x) →
    ∀ (bound : List String) (depth : Nat) (hasRest : Bool) (value : Expr),
      (P → V.Covers value.visits) →
      Accounts V P (flattenProperties s bound depth hasRest ps value) fun r =>
        V.Covers (exprsVisits r.1) ∧ V.Covers (exprsVisits r.2)
  | [], _, _ => fun _ _ _ _ _ => .pure fun _ => ⟨covers_nil, covers_nil⟩
  | p :: ps, h, hx => by
    intro bound depth hasRest value hvalue
    obtain ⟨hxp, hxps⟩ := forall_mem_shorthands.mp hx
    refine (p.flatten_covers h.left hxp bound depth hasRest value hvalue).bind fun r => ?_
    refine (flattenProperties_covers ps h.right hxps bound depth hasRest value
      fun hP => hvalue hP.1).bind fun r' => .pure fun ⟨⟨_, hr⟩, hr'⟩ => ?_
    exact ⟨by simp [hr.1, hr'.1], (covers_append _ _).mpr ⟨hr.2, hr'.2⟩⟩

theorem PatternElement.flatten_covers {P : Prop} : (e : PatternElement) → V.Covers e.visits →
    ∀ (bound : List String) (depth : Nat) (value : Expr), (P → V.Covers value.visits) →
      Accounts V P (e.flatten s bound depth value) fun es => V.Covers (exprsVisits es)
  | ⟨target, fallback⟩, h => by
    intro bound depth value hvalue
    refine (flattenFallback_covers fallback h.right bound value hvalue).bind fun r => ?_
    refine (target.flatten_covers h.left bound depth r.2 fun hP => hP.2.2).bind
      fun exprs => .pure ?_
    exact fun ⟨⟨_, hr⟩, hexprs⟩ => by simp [hr.1, hexprs]

theorem flattenSlot_covers {P : Prop} : (e : Option PatternElement) →
    V.Covers (patternSlotVisits e) →
    ∀ (bound : List String) (depth : Nat) (value : Expr), (P → V.Covers value.visits) →
      Accounts V P (flattenSlot s bound depth e value) fun es => V.Covers (exprsVisits es)
  | none, _ => fun _ _ _ _ => .pure fun _ => covers_nil
  | some e, h => e.flatten_covers h

theorem flattenSlots_covers {P : Prop} : (es : List (Option PatternElement)) →
    V.Covers (patternSlotsVisits es) →
    ∀ (bound : List String) (depth index : Nat) (value : Expr), (P → V.Covers value.visits) →
      Accounts V P (flattenSlots s bound depth index es value) fun es =>
        V.Covers (exprsVisits es)
  | [], _ => fun _ _ _ _ _ => .pure fun _ => covers_nil
  | e :: es, h => by
    intro bound depth index value hvalue
    refine (flattenSlot_covers e h.left bound depth _ fun hP =>
      (covers_lookup _ _).mpr ⟨hvalue hP, covers_ofNumber _⟩).bind fun exprs => ?_
    refine (flattenSlots_covers es h.right bound depth _ value fun hP => hvalue hP.1).bind
      fun more => .pure fun ⟨⟨_, hexprs⟩, hmore⟩ => ?_
    simp [hexprs, hmore]

-- Functions and classes.

theorem Param.lower_covers {P : Prop} : (p : Param) → V.Covers p.visits →
    Accounts V P (p.lower s) fun p' => V.Covers p'.visits
  | ⟨pattern, fallback, isRest⟩, h => by
    refine (pattern.lower_covers h.left).bind fun pattern => ?_
    refine (lowerExpr?_covers fallback h.right).bind fun fallback => .pure ?_
    exact fun ⟨⟨_, hpattern⟩, hfallback⟩ => .append hpattern hfallback

theorem lowerParams_covers {P : Prop} : (ps : List Param) → V.Covers (paramsVisits ps) →
    Accounts V P (lowerParams s ps) fun ps' => V.Covers (paramsVisits ps')
  | [], _ => .pure fun _ => covers_nil
  | p :: ps, h => by
    refine (p.lower_covers h.left).bind fun p => ?_
    refine (lowerParams_covers ps h.right).bind fun ps => .pure fun ⟨⟨_, hp⟩, hps⟩ => ?_
    exact .append hp hps

theorem Func.lower_covers {P : Prop} : (f : Func) → V.Covers f.visits →
    Accounts V P (f.lower s) fun f' => V.Covers f'.visits
  | ⟨name, params, body, isAsync, isGenerator⟩, h => by
    obtain ⟨hname, hparams, hbody⟩ := (covers_func name params body isAsync isGenerator).mp h
    have hinner : Accounts V P
        (do return (← lowerParams s params, ← lowerStmts s .function body) :
          Lowering (List Param × List Stmt))
        fun r => V.Covers (paramsVisits r.1) ∧ V.Covers (stmtsVisits r.2) := by
      refine (lowerParams_covers params hparams).bind fun params => ?_
      exact (lowerStmts_covers body .function hbody fun st _ => .of_function st).bind fun body =>
        .pure fun ⟨⟨_, hparams⟩, hbody⟩ => ⟨hparams, hbody⟩
    refine (accounts_inFunction hinner).bind fun r => .pure fun ⟨_, hr, hd⟩ => ?_
    rw [covers_func, NameTable.stmtsVisits_append, covers_append]
    exact ⟨hname, hr.1, hd, hr.2⟩

theorem ArrowBody.lower_covers {P : Prop} : (body : ArrowBody) → V.Covers body.visits →
    Accounts V P (body.lower s) fun body' => V.Covers body'.visits
  | .block body, h =>
    (lowerStmts_covers body .function h fun st _ => .of_function st).bind fun _ =>
      .pure fun hP => hP.2
  | .expr e, h => (e.lower_covers true h).bind fun _ => .pure fun hP => hP.2

theorem Class.lower_covers {P : Prop} : (c : Class) → V.Covers c.visits →
    Accounts V P (c.lower s) fun c' => V.Covers c'.visits
  | ⟨name, base, members⟩, h => by
    refine (lowerExpr?_covers base h.tail.left.right).bind fun base => ?_
    refine (lowerMembers_covers members h.tail.right).bind fun members => .pure ?_
    intro ⟨⟨_, hbase⟩, hmembers⟩
    exact .cons ⟨nofun, h.head.binds, nofun⟩ (.append (.append h.tail.left.left hbase) hmembers)

theorem ClassMember.lower_covers {P : Prop} : (m : ClassMember) → V.Covers m.visits →
    Accounts V P (m.lower s) fun m' => V.Covers m'.visits
  | .method key kind isStatic f, h => by
    refine (key.lower_covers h.left).bind fun key => ?_
    refine (f.lower_covers h.right).bind fun f => .pure fun ⟨⟨_, hkey⟩, hf⟩ => ?_
    exact .append hkey hf
  | .field key isStatic value, h => by
    refine (key.lower_covers h.left).bind fun key => ?_
    refine (lowerExpr?_covers value h.right).bind fun value => .pure fun ⟨⟨_, hkey⟩, hvalue⟩ => ?_
    exact .append hkey hvalue
  | .staticBlock body, h => by
    have hbody := lowerStmts_covers (P := P) body .function h fun st _ => .of_function st
    refine (accounts_inFunction hbody).bind fun r => .pure fun ⟨_, hr, hd⟩ => ?_
    change V.Covers (stmtsVisits _)
    rw [NameTable.stmtsVisits_append]
    exact .append hd hr

theorem lowerMembers_covers {P : Prop} : (ms : List ClassMember) → V.Covers (membersVisits ms) →
    Accounts V P (lowerMembers s ms) fun ms' => V.Covers (membersVisits ms')
  | [], _ => .pure fun _ => covers_nil
  | m :: ms, h => by
    refine (m.lower_covers h.left).bind fun m => ?_
    refine (lowerMembers_covers ms h.right).bind fun ms => .pure fun ⟨⟨_, hm⟩, hms⟩ => ?_
    exact .append hm hms

-- Declaration lists.

theorem Declarator.lower_covers {P : Prop} : (d : Declarator) → V.Covers d.visits →
    Accounts V P (d.lower s) fun d' => V.Covers d'.visits
  | ⟨target, init⟩, h => by
    refine (target.lower_covers h.left).bind fun target => ?_
    refine (lowerExpr?_covers init h.right).bind fun init => .pure fun ⟨⟨_, htarget⟩, hinit⟩ => ?_
    exact .append htarget hinit

theorem lowerDeclarators_covers {P : Prop} : (ds : List Declarator) →
    V.Covers (declaratorsVisits ds) →
    Accounts V P (lowerDeclarators s ds) fun ds' => V.Covers (declaratorsVisits ds')
  | [], _ => .pure fun _ => covers_nil
  | d :: ds, h => by
    refine (d.lower_covers h.left).bind fun d => ?_
    refine (lowerDeclarators_covers ds h.right).bind fun ds => .pure fun ⟨⟨_, hd⟩, hds⟩ => ?_
    exact .append hd hds

theorem VarList.lower_covers {P : Prop} : (list : VarList) → V.Covers list.visits →
    Accounts V P (list.lower s) fun list' => V.Covers list'.visits
  | ⟨_, ds⟩, h => (lowerDeclarators_covers ds h).bind fun _ => .pure fun hP => hP.2

theorem Declarator.hoisted_covers {P : Prop} : (d : Declarator) → V.Covers d.visits →
    (∀ x ∈ d.target.boundIdents, V.binds (.synthetic x.name)) →
    Accounts V P (d.hoisted s) fun es => V.Covers (exprsVisits es)
  | ⟨target, none⟩, h, hnames => by
    have hbound := binds_boundNames h.left hnames
    exact (accounts_addVariables fun _ => hbound).bind fun _ => .pure fun _ => covers_nil
  | ⟨target, some init⟩, h, hnames => by
    have hbound := binds_boundNames h.left hnames
    refine (accounts_addVariables fun _ => hbound).bind fun _ => ?_
    refine (init.lower_covers true h.right).bind fun value => ?_
    exact target.flatten_covers h.left _ 0 value fun hP => hP.2

theorem hoistedDeclarators_covers {P : Prop} : (ds : List Declarator) →
    V.Covers (declaratorsVisits ds) →
    (∀ d ∈ ds, ∀ x ∈ d.target.boundIdents, V.binds (.synthetic x.name)) →
    Accounts V P (hoistedDeclarators s ds) fun es => V.Covers (exprsVisits es)
  | [], _, _ => .pure fun _ => covers_nil
  | d :: ds, h, hnames => by
    obtain ⟨hd, hds⟩ := List.forall_mem_cons.mp hnames
    refine (d.hoisted_covers h.left hd).bind fun exprs => ?_
    refine (hoistedDeclarators_covers ds h.right hds).bind fun more => .pure ?_
    exact fun ⟨⟨_, hexprs⟩, hmore⟩ => by simp [hexprs, hmore]

theorem VarList.hoisted_covers {P : Prop} : (list : VarList) → V.Covers list.visits →
    (∀ x ∈ list.boundIdents, V.binds (.synthetic x.name)) →
    Accounts V P (list.hoisted s) fun es => V.Covers (exprsVisits es)
  | ⟨_, ds⟩, h, hnames => hoistedDeclarators_covers ds h fun d hd x hx =>
    hnames x (List.mem_flatMap.mpr ⟨d, hd, hx⟩)

-- Statements.

theorem ForInit.lower_covers {P : Prop} : (init : ForInit) → (place : Place) →
    V.Covers init.visits →
    (place.hoistsVars = true → ∀ b ∈ init.varBindings, V.binds (.synthetic b.ident.name)) →
    Accounts V P (init.lower s place) fun init' => V.Covers init'.visits
  | .absent, _, _, _ => .pure fun _ => covers_nil
  | .var list, place, h, hnames => by
    refine .ite (fun hhoisted => ?_) fun _ => ?_
    · obtain ⟨hplace, hkind⟩ := Bool.and_eq_true_iff.mp hhoisted
      have hlist : ∀ x ∈ list.boundIdents, V.binds (.synthetic x.name) :=
        binds_varBindings hkind (hnames hplace)
      refine (list.hoisted_covers h hlist).bind fun exprs => ?_
      cases he : Expr.ofList exprs with
      | none => exact .pure fun _ => covers_nil
      | some e => exact .pure fun hP => covers_ofList hP.2 he
    · exact (list.lower_covers h).bind fun _ => .pure fun hP => hP.2
  | .expr e, _, h, _ => (e.lower_covers false h).bind fun _ => .pure fun hP => hP.2

theorem ForHead.lower_covers {P : Prop} : (head : ForHead) → (place : Place) →
    V.Covers head.visits →
    (place.hoistsVars = true → ∀ b ∈ head.varBindings, V.binds (.synthetic b.ident.name)) →
    Accounts V P (head.lower s place) fun r =>
      V.Covers r.1.visits ∧ V.Covers (stmtsVisits r.2)
  | .var ⟨kind, []⟩, _, _, _ => .pure fun _ => ⟨covers_nil, covers_nil⟩
  | .var ⟨kind, ⟨target, init⟩ :: ds⟩, place, h, hnames => by
    refine .ite (fun hhoisted => ?_) fun _ => ?_
    · obtain ⟨hplace, hkind⟩ := Bool.and_eq_true_iff.mp hhoisted
      have hlist := binds_varBindings hkind (hnames hplace)
      have htarget : ∀ x ∈ target.boundIdents, V.binds (.synthetic x.name) := fun x hx =>
        hlist x (List.mem_append_left _ hx)
      have hbound := binds_boundNames h.left.left htarget
      refine (accounts_addVariables fun _ => hbound).bind fun _ => ?_
      refine (target.lower_covers h.left.left).bind
        fun _ => .pure fun ⟨_, hlowered⟩ => ⟨hlowered, ?_⟩
      exact hs.covers_headExports fun x hx =>
        mentions_of_mem_identsIn h.left.left (target.boundIdents_subset hx)
    · refine (target.lower_covers h.left.left).bind fun target => ?_
      refine (lowerExpr?_covers init h.left.right).bind fun init => ?_
      refine (lowerDeclarators_covers ds h.right).bind fun ds => .pure ?_
      exact fun ⟨⟨⟨_, htarget⟩, hinit⟩, hds⟩ =>
        ⟨.append (.append htarget hinit) hds, covers_nil⟩
  | .pattern p, _, h, _ => (p.lower_covers h).bind fun _ => .pure fun hP => ⟨hP.2, covers_nil⟩

theorem Catch.lower_covers {P : Prop} : (c : Catch) → (place : Place) → V.Covers c.visits →
    (∀ st ∈ c.body, s.Hoistable V place st) →
    Accounts V P (c.lower s place) fun c' => V.Covers c'.visits
  | ⟨param, body⟩, place, h, hnames => by
    refine (lowerPattern?_covers param h.left).bind fun param => ?_
    refine (lowerStmts_covers body place h.right hnames).bind fun body => .pure ?_
    exact fun ⟨⟨_, hparam⟩, hbody⟩ => .append hparam hbody

theorem lowerCatch?_covers {P : Prop} : (c : Option Catch) → (place : Place) →
    V.Covers (catchVisits? c) →
    (place.hoistsVars = true → ∀ b ∈ catchVarBindings c, V.binds (.synthetic b.ident.name)) →
    Accounts V P (lowerCatch? s place.inner c) fun c' => V.Covers (catchVisits? c')
  | none, _, _, _ => .pure fun _ => covers_nil
  | some ⟨param, body⟩, place, h, hnames =>
    (Catch.lower_covers ⟨param, body⟩ place.inner h (.of_body hnames)).bind fun _ =>
      .pure fun hP => hP.2

theorem lowerBlock?_covers {P : Prop} : (body : Option (List Stmt)) → (place : Place) →
    V.Covers (blockVisits? body) →
    (place.hoistsVars = true → ∀ b ∈ finallyVarBindings body, V.binds (.synthetic b.ident.name)) →
    Accounts V P (lowerBlock? s place.inner body) fun body' => V.Covers (blockVisits? body')
  | none, _, _, _ => .pure fun _ => covers_nil
  | some body, place, h, hnames =>
    (lowerStmts_covers body place.inner h (.of_body hnames)).bind fun _ => .pure fun hP => hP.2

theorem Case.lower_covers {P : Prop} : (c : Case) → (place : Place) → V.Covers c.visits →
    (∀ st ∈ c.body, s.Hoistable V place st) →
    Accounts V P (c.lower s place) fun c' => V.Covers c'.visits
  | ⟨test, body⟩, place, h, hnames => by
    refine (lowerExpr?_covers test h.left).bind fun test => ?_
    refine (lowerStmts_covers body place h.right hnames).bind fun body => .pure ?_
    exact fun ⟨⟨_, htest⟩, hbody⟩ => .append htest hbody

theorem lowerCases_covers {P : Prop} : (cs : List Case) → (place : Place) →
    V.Covers (casesVisits cs) →
    (place.hoistsVars = true → ∀ b ∈ casesVarBindings cs, V.binds (.synthetic b.ident.name)) →
    Accounts V P (lowerCases s place.inner cs) fun cs' => V.Covers (casesVisits cs')
  | [], _, _, _ => .pure fun _ => covers_nil
  | ⟨test, body⟩ :: cs, place, h, hnames => by
    obtain ⟨hbodyVars, hcasesVars⟩ := Setting.Hoistable.split hnames
    refine (Case.lower_covers ⟨test, body⟩ place.inner h.left
      (.of_body hbodyVars)).bind fun c => ?_
    refine (lowerCases_covers cs place h.right hcasesVars).bind fun cs => .pure ?_
    exact fun ⟨⟨_, hc⟩, hcs⟩ => .append hc hcs

theorem lowerStmts_covers {P : Prop} : (sts : List Stmt) → (place : Place) →
    V.Covers (stmtsVisits sts) → (∀ st ∈ sts, s.Hoistable V place st) →
    Accounts V P (lowerStmts s place sts) fun sts' => V.Covers (stmtsVisits sts')
  | [], _, _, _ => .pure fun _ => covers_nil
  | st :: sts, place, h, hnames => by
    obtain ⟨hst, hsts⟩ := List.forall_mem_cons.mp hnames
    refine (st.lower_covers place h.left hst).bind fun first => ?_
    refine (lowerStmts_covers sts place h.right hsts).bind fun more => .pure ?_
    intro ⟨⟨_, hfirst⟩, hmore⟩
    rw [NameTable.stmtsVisits_append]
    exact .append hfirst hmore

theorem lowerUnused?_covers {P : Prop} : (e : Option Expr) → V.Covers (exprVisits? e) →
    Accounts V P (lowerUnused? s e) fun e' => V.Covers (exprVisits? e')
  | none, _ => .pure fun _ => covers_nil
  | some e, h => (e.lower_covers false h).bind fun _ => .pure fun hP => hP.2

/-- The statements of a loop body that is a block. -/
theorem Stmt.block_covers {P : Prop} (st : Stmt) (place : Place) (h : V.Covers st.visits)
    (hnames : place.hoistsVars = true → ∀ b ∈ st.varBindings, V.binds (.synthetic b.ident.name)) :
    ∀ inner, st = .block inner →
      Accounts V P (lowerStmts s place.inner inner) fun sts => V.Covers (stmtsVisits sts) := by
  cases st with
  | block inner =>
    rintro _ ⟨⟩
    exact lowerStmts_covers inner place.inner h.tail (.of_body hnames)
  | _ => nofun

/-- What a statement declares for the module is hoisted, and all else it says is said again. -/
theorem Stmt.lower_covers {P : Prop} : (st : Stmt) → (place : Place) → V.Covers st.visits →
    s.Hoistable V place st →
    Accounts V P (st.lower s place) fun sts => V.Covers (stmtsVisits sts)
  | .expr e, _, h, _ => by
    have he := (covers_exprStmt e).mp h
    refine .deeper s ((e.lower_covers false he).bind fun e => .pure fun ⟨_, he⟩ => ?_)
    exact .one ((covers_exprStmt e).mpr he)
  | .var modifiers list, place, h, hnames => by
    have hlist := (covers_var modifiers list).mp h
    have hhoisted : place.takesApart list.kind = true → ∀ {P' : Prop}, Accounts V P'
        (do return (Expr.ofList (← list.hoisted s)).toList.map Stmt.expr)
        fun sts => V.Covers (stmtsVisits sts) := by
      intro happart P'
      have hbound : ∀ x ∈ list.boundIdents, V.binds (.synthetic x.name) := by
        cases place with
        | topLevel =>
          exact fun x hx => (hnames.top rfl x.name (List.mem_map.mpr ⟨x, hx, rfl⟩)).1
        | moduleBlock => exact binds_varBindings happart (hnames.vars rfl)
        | function => cases happart
      refine (list.hoisted_covers hlist hbound).bind fun exprs => .pure fun ⟨_, hexprs⟩ => ?_
      cases he : Expr.ofList exprs with
      | none => exact covers_nil
      | some e => exact .one ((covers_exprStmt e).mpr (covers_ofList hexprs he))
    refine .deeper s (.ite (fun happart => .ite (fun _ => ?_) fun _ => ?_) fun _ => ?_)
    · exact (accounts_addExportedNames _).bind fun _ => hhoisted happart
    · exact hhoisted happart
    · refine (list.lower_covers hlist).bind fun list => .pure fun ⟨_, hlist⟩ => ?_
      exact .one ((covers_var modifiers list).mpr hlist)
  | .function modifiers f, place, h, _ => by
    have hf := (covers_functionStmt modifiers f).mp h
    refine .deeper s ((f.lower_covers hf).bind fun f => .ite (fun _ => ?_) fun _ => .pure ?_)
    · exact (accounts_hoistFunction hs modifiers fun hP => hP.2).bind fun _ =>
        .pure fun _ => covers_nil
    · exact fun ⟨_, hf⟩ => .one ((covers_functionStmt modifiers _).mpr hf)
  | .classDecl modifiers c, place, h, hnames => by
    refine .deeper s (.ite (fun hplace => ?_) fun _ => ?_)
    · have hname : ∀ x, c.name = some x → V.binds (.synthetic x.name) ∧ V.mentions x.name := by
        intro x hx
        exact hnames.top hplace x.name (by simp [Setting.topNames, hx])
      refine (accounts_hoistClassName hs fun _ => hname).bind fun name => ?_
      refine (c.lower_covers h.tail).bind fun c => ?_
      exact accounts_classAssignment hs modifiers (fun hP => hP.1.2) fun hP => hP.2
    · refine (c.lower_covers h.tail).bind fun c => .pure fun ⟨_, hc⟩ => ?_
      exact .one (.stmt rfl hc)
  | .importFrom site clause specifier isTypeOnly, place, h, hnames => by
    refine .deeper s (.ite (fun hplace => ?_) fun _ => .pure fun _ => ?_)
    · exact (accounts_addVariables fun _ => hnames.top hplace).bind fun _ =>
        .pure fun _ => covers_nil
    · exact .one h
  | .importEquals site isExported name kind value, place, h, hnames => by
    refine .deeper s (.ite (fun hplace => ?_) fun _ => .pure fun _ => ?_)
    · have hname := hnames.top hplace name.name (List.mem_singleton_self _)
      have hbinds : V.binds name := h.head.binds name (List.mem_singleton_self _)
      refine .ite (fun _ => .pure fun _ => covers_nil) fun _ => ?_
      refine (accounts_addVariable fun _ => hname).bind fun _ => ?_
      have hkind : ∀ {P' : Prop}, Accounts V P' (match kind with
          | .require => return []
          | .entity => return [.expr (s.bindingAssignment name (← value.lower s true))])
          fun sts => V.Covers (stmtsVisits sts) := by
        intro P'
        cases kind with
        | require => exact .pure fun _ => covers_nil
        | entity =>
          refine (value.lower_covers true h.tail.tail).bind fun value => .pure fun ⟨_, hvalue⟩ => ?_
          have hassign := hs.covers_bindingAssignment ⟨hbinds, hname.2⟩ hvalue
          exact .one ((covers_exprStmt _).mpr hassign)
      exact .ite (fun _ => (accounts_addExportedName _).bind fun _ => hkind) fun _ => hkind
    · exact .one h
  | .exportFrom site clause specifier isTypeOnly, place, h, _ => by
    refine .deeper s (.ite (fun _ => ?_) fun _ => .pure fun _ => ?_)
    · split
      · next specs _ =>
        refine accounts_exportSpecifiers hs specs fun spec hspec => ?_
        exact mentions_of_mem_identsIn h (source_mem_identsIn hspec)
      · exact .pure fun _ => covers_nil
    · exact .one h
  | .exportValue site form value, place, h, _ => by
    refine .deeper s (.ite (fun _ => ?_) fun _ => .pure fun _ => ?_)
    · refine .ite (fun _ => .pure fun _ => covers_nil) fun _ => ?_
      refine (value.lower_covers true h.tail).bind fun value => .pure fun ⟨_, hvalue⟩ => ?_
      exact .one ((covers_exprStmt _).mpr (hs.covers_publish "default" hvalue))
    · exact .one h
  | .ambient name isExported, _, _, _ => by
    exact .deeper s (.pure fun _ => covers_nil)
  | .block body, place, h, hnames => by
    have hbody := (covers_block body).mp h
    have hinner := Setting.Hoistable.of_body (s := s) hnames.vars
    refine .deeper s ((lowerStmts_covers body place.inner hbody hinner).bind fun body => .pure ?_)
    exact fun ⟨_, hbody⟩ => .one ((covers_block _).mpr hbody)
  | .ifThen test yes, place, h, hnames => by
    obtain ⟨htest, hyes⟩ := (covers_ifThen test yes).mp h
    refine .deeper s ((test.lower_covers true htest).bind fun test => ?_)
    refine (yes.lower_covers place.inner hyes (.of_vars hnames.vars)).bind fun yes => .pure ?_
    exact fun ⟨⟨_, htest⟩, hyes⟩ =>
      .one ((covers_ifThen ..).mpr ⟨htest, covers_stmtOfList hyes⟩)
  | .ifElse test yes no, place, h, hnames => by
    obtain ⟨hyesVars, hnoVars⟩ := hnames.both rfl
    refine .deeper s ((test.lower_covers true h.tail.left.left).bind fun test => ?_)
    refine (yes.lower_covers place.inner h.tail.left.right (.of_vars hyesVars)).bind fun yes => ?_
    refine (no.lower_covers place.inner h.tail.right (.of_vars hnoVars)).bind fun no => .pure ?_
    intro ⟨⟨⟨_, htest⟩, hyes⟩, hno⟩
    have hbranches := Covers.append htest (covers_stmtOfList hyes)
    exact .one (.stmt rfl (.append hbranches (covers_stmtOfList hno)))
  | .forLoop init test update body, place, h, hnames => by
    obtain ⟨hinit, htest, hupdate, hbody⟩ := (covers_forLoop init test update body).mp h
    obtain ⟨hinitVars, hbodyVars⟩ := hnames.both rfl
    refine .deeper s ((init.lower_covers place hinit hinitVars).bind fun init => ?_)
    refine (lowerExpr?_covers test htest).bind fun test => ?_
    refine (lowerUnused?_covers update hupdate).bind fun update => ?_
    refine (body.lower_covers place.inner hbody (.of_vars hbodyVars)).bind fun body => .pure ?_
    intro ⟨⟨⟨⟨_, hinit⟩, htest⟩, hupdate⟩, hbody⟩
    exact .one ((covers_forLoop ..).mpr ⟨hinit, htest, hupdate, covers_stmtOfList hbody⟩)
  | .forIn head object body, place, h, hnames => by
    obtain ⟨hhead, hobject, hbody⟩ := (covers_forIn head object body).mp h
    obtain ⟨hheadVars, hbodyVars⟩ := hnames.both rfl
    rw [Stmt.lower_forIn]
    refine .deeper s ((head.lower_covers place hhead hheadVars).bind fun r => ?_)
    refine (object.lower_covers true hobject).bind fun object => ?_
    refine (accounts_lowerLoopBody (fun hP => hP.1.2.2) (body.block_covers place hbody hbodyVars)
      (body.lower_covers place.inner hbody (.of_vars hbodyVars))).bind fun body => .pure ?_
    exact fun ⟨⟨⟨_, hr⟩, hobject⟩, hbody⟩ => .one ((covers_forIn ..).mpr ⟨hr.1, hobject, hbody⟩)
  | .forOf head iterable body isAwait, place, h, hnames => by
    obtain ⟨hhead, hiterable, hbody⟩ := (covers_forOf head iterable body isAwait).mp h
    obtain ⟨hheadVars, hbodyVars⟩ := hnames.both rfl
    rw [Stmt.lower_forOf]
    refine .deeper s ((head.lower_covers place hhead hheadVars).bind fun r => ?_)
    refine (iterable.lower_covers true hiterable).bind fun iterable => ?_
    refine (accounts_lowerLoopBody (fun hP => hP.1.2.2) (body.block_covers place hbody hbodyVars)
      (body.lower_covers place.inner hbody (.of_vars hbodyVars))).bind fun body => .pure ?_
    exact fun ⟨⟨⟨_, hr⟩, hiterable⟩, hbody⟩ => .one ((covers_forOf ..).mpr ⟨hr.1, hiterable, hbody⟩)
  | .whileLoop test body, place, h, hnames => by
    refine .deeper s ((test.lower_covers true h.tail.left).bind fun test => ?_)
    refine (body.lower_covers place.inner h.tail.right (.of_vars hnames.vars)).bind
      fun body => .pure ?_
    intro ⟨⟨_, htest⟩, hbody⟩
    exact .one (.stmt rfl (.append htest (covers_stmtOfList hbody)))
  | .doWhile body test, place, h, hnames => by
    refine .deeper s ((body.lower_covers place.inner h.tail.right (.of_vars hnames.vars)).bind
      fun body => ?_)
    refine (test.lower_covers true h.tail.left).bind fun test => .pure fun ⟨⟨_, hbody⟩, htest⟩ => ?_
    exact .one (.stmt rfl (.append htest (covers_stmtOfList hbody)))
  | .tryCatch body handler finalizer, place, h, hnames => by
    obtain ⟨hinnerVars, hfinalizerVars⟩ := hnames.both rfl
    obtain ⟨hbodyVars, hhandlerVars⟩ := Setting.Hoistable.split hinnerVars
    refine .deeper s (.bind
      (lowerStmts_covers body place.inner h.tail.left.left (.of_body hbodyVars)) fun body => ?_)
    refine (lowerCatch?_covers handler place h.tail.left.right hhandlerVars).bind fun handler => ?_
    refine (lowerBlock?_covers finalizer place h.tail.right hfinalizerVars).bind
      fun finalizer => .pure ?_
    intro ⟨⟨⟨_, hbody⟩, hhandler⟩, hfinalizer⟩
    exact .one (.stmt rfl (.append (.append hbody hhandler) hfinalizer))
  | .switch subject cases, place, h, hnames => by
    refine .deeper s ((subject.lower_covers true h.tail.left).bind fun subject => ?_)
    refine (lowerCases_covers cases place h.tail.right hnames.vars).bind fun cases => .pure ?_
    intro ⟨⟨_, hsubject⟩, hcases⟩
    exact .one (.stmt rfl (.append hsubject hcases))
  | .labeled label body, place, h, hnames => by
    refine .deeper s ((body.lower_covers place.inner h.tail.tail (.of_vars hnames.vars)).bind
      fun body => .pure fun ⟨_, hbody⟩ => ?_)
    exact .one (.stmt rfl (.cons (admits_name label) (covers_stmtOfList hbody)))
  | .withObject object body, place, h, hnames => by
    refine .deeper s ((object.lower_covers true h.tail.left).bind fun object => ?_)
    refine (body.lower_covers place.inner h.tail.right (.of_vars hnames.vars)).bind
      fun body => .pure ?_
    intro ⟨⟨_, hobject⟩, hbody⟩
    exact .one (.stmt rfl (.append hobject (covers_stmtOfList hbody)))
  | .ret arg, _, h, _ => by
    have harg := (covers_ret arg).mp h
    refine .deeper s ((lowerExpr?_covers arg harg).bind fun arg => .pure fun ⟨_, harg⟩ => ?_)
    exact .one ((covers_ret arg).mpr harg)
  | .throw arg, _, h, _ => by
    refine .deeper s ((arg.lower_covers true h.tail).bind fun arg => .pure fun ⟨_, harg⟩ => ?_)
    exact .one (.stmt rfl harg)
  | .breakTo label, _, h, _ | .continueTo label, _, h, _ => by
    exact .deeper s (.pure fun _ => .one h)
  | .empty, _, h, _ | .debugger, _, h, _ => by
    exact .deeper s (.pure fun _ => .one h)

end
end RegisterForm
