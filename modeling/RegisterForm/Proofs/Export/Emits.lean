import RegisterForm.Proofs.Export.Published
import RegisterForm.Proofs.Lowering.Hoisted
import RegisterForm.Proofs.Lowering.Loops
/-!
# Emitted parts

What the single steps of lowering make of parts whose writes are published: their writes are
published too. The functions that they hoist are of the same kind.
-/
namespace RegisterForm
open Lowering

/-- The functions that the steps collect publish their writes. -/
abbrev Setting.Emits (s : Setting) : Progress → Progress → Prop :=
  Collects fun st => s.AllPublished st.exprs

variable {s : Setting}

theorem Lowering.Yields.and {α : Type} {R : Progress → Progress → Prop} {x : Lowering α}
    {Q Q' : α → Prop} (h : Yields R x Q) (h' : Yields Any x Q') :
    Yields R x fun a => Q a ∧ Q' a :=
  fun _ _ _ hr => ⟨(h hr).1, (h hr).2, (h' hr).2⟩

/-! ## Steps without parts -/

theorem yields_stabilize_published (bound : List String) {value : Expr} (h : s.Published value) :
    Yields s.Emits (stabilize bound value) fun r => s.AllPublished r.1 ∧ s.Published r.2 := by
  refine (yields_stabilize bound value).mono ?_
  rintro _ (rfl | ⟨temporary, rfl⟩)
  · exact ⟨Setting.allPublished_nil, h⟩
  · exact ⟨by simpa using Setting.published_assignName temporary h, Setting.published_ident _⟩

theorem yields_stabilizeUnlessOne_published (count : Nat) (bound : List String) {value : Expr}
    (h : s.Published value) : Yields s.Emits (stabilizeUnlessOne count bound value) fun r =>
      s.AllPublished r.1 ∧ s.Published r.2 := by
  unfold stabilizeUnlessOne
  exact .ite (fun _ => .pure ⟨Setting.allPublished_nil, h⟩) fun _ => yields_stabilize_published bound h

theorem yields_inFunction_published {α : Type} {x : Lowering α} {Q : α → Prop}
    (h : Yields s.Emits x Q) :
    Yields s.Emits (inFunction x) fun r => Q r.1 ∧ s.AllPublished (stmtsExprs r.2) := by
  refine (yields_inFunction h).mono fun r hr => ⟨hr.1, fun e he => ?_⟩
  rw [stmtsExprs_eq] at he
  obtain ⟨st, hst, he⟩ := List.mem_flatMap.mp he
  rcases hr.2 st hst with ⟨names, rfl⟩ | hpublished
  · simp [exprs_varNames] at he
  · exact hpublished e he

/-- What is lowered reads as an identifier only where the source has one. -/
def Setting.ReadsAs (s : Setting) (e e' : Expr) : Prop :=
  ∀ y, e'.skipParens = .ident y → ∃ x, e.skipParens = .ident x ∧ s.read x = .ident y

/-- A call whose callee is lowered is a call of the exporter only by the name of an import. -/
theorem published_call {callee callee' : Expr} {args : List Expr} {isOptional : Bool}
    (h : AllSound callee.visits) (hread : s.ReadsAs callee callee')
    (hcallee : s.Published callee') (hargs : s.AllPublished args) :
    s.Published (.call callee' args isOptional) := by
  have hparts : s.AllPublished (Expr.call callee' args isOptional).parts := by
    simpa [Expr.parts] using ⟨hcallee, hargs⟩
  by_cases he : callee' = .ofName s.exporter
  · obtain ⟨x, hx, hxread⟩ := hread (.synthetic s.exporter) (by rw [he]; rfl)
    refine .imported (by rw [hxread, he]; rfl) (x := x) ?_ hparts
    by_contra hnone
    have hident : s.read x = .ident x := by
      rw [Setting.read, Option.not_isSome_iff_eq_none.mp hnone]
    rw [hident, Expr.ident.injEq] at hxread
    have hsource := h.not_synthetic (mem_identsIn_of_skipParens callee hx)
    rw [hxread] at hsource
    cases hsource
  · exact .other (by simpa [Expr.callee?] using he) rfl hparts

/-- What an identifier reads is exported no more than the identifier. -/
theorem exportNames_of_read {x y : Ident} (hread : s.read x = .ident y)
    (h : s.exportNames x = []) : s.exportNames y = [] := by
  unfold Setting.read Setting.importedProperty at hread
  repeat' split at hread
  all_goals first
    | cases hread; exact h
    | cases hread; exact Setting.exportNames_synthetic _
    | cases hread

/-- An update that is not published writes no exported identifier. -/
theorem published_update {op : UpdateOp} {isPrefix isUsed : Bool} {arg arg' : Expr}
    (hp : s.publishedUpdate? op isPrefix isUsed arg = none) (hread : s.ReadsAs arg arg')
    (harg : s.Published arg') : s.Published (.update op isPrefix arg') := by
  have hparts : s.AllPublished (Expr.update op isPrefix arg').parts := by
    simpa [Expr.parts] using harg
  cases hy : arg'.skipParens.ident? with
  | none => exact .other (fun he => by cases he) hy hparts
  | some y =>
    have hident : arg'.skipParens = .ident y := by
      cases he : arg'.skipParens <;> simp_all [Expr.ident?]
    obtain ⟨x, hx, hxread⟩ := hread y hident
    have hx' : s.exportNames x = [] := by
      rw [Setting.publishedUpdate?, hx] at hp
      by_contra hne
      simp [hne] at hp
    have hpeel : (Expr.update op isPrefix arg').peel s.exporter =
        (s.exportNames y, .update op isPrefix arg') := by
      rw [exportNames_of_read hxread hx']
      rfl
    exact .write hpeel hy hparts

theorem readShorthand_published (x : Ident) : s.AllPublished (s.readShorthand x).exprs := by
  unfold Setting.readShorthand
  split
  · next y hy =>
    split
    · exact Setting.allPublished_nil
    · simpa [Property.ofName, Property.exprs, Key.exprs] using Setting.published_ident y
  · simpa [Property.ofName, Property.exprs, Key.exprs] using Setting.published_read x

theorem headExports_published {place : Place} (hplace : place ≠ .function) (target : Pattern) :
    s.AllPublishedAt place (stmtsExprs (headExports s target)) := by
  intro e he
  rw [stmtsExprs_eq] at he
  obtain ⟨st, hst, he⟩ := List.mem_flatMap.mp he
  obtain ⟨x, -, hst⟩ := List.mem_flatMap.mp hst
  obtain ⟨name, -, rfl⟩ := List.mem_map.mp hst
  obtain rfl := List.mem_singleton.mp he
  exact .inr ⟨hplace, name, _, rfl, Setting.published_ident _⟩

theorem AllSound.of_stmt {st : Stmt} (h : AllSound st.visits) :
    AllSound st.visits.tail ∧ st.isModuleSyntax = false := by
  rw [Stmt.visits_cons] at h
  have hst : (!st.isModuleSyntax) = true := ((allSound_cons _ _).mp h).1
  exact ⟨h.tail, (Bool.not_eq_true' _).mp hst⟩

theorem Setting.AllPublished.stmts_ofList {es : List Expr} {place : Place} (h : s.AllPublished es) :
    s.AllPublishedAt place (stmtsExprs ((Expr.ofList es).toList.map .expr)) := by
  cases he : Expr.ofList es with
  | none => exact Setting.allPublishedAt_nil
  | some e => simpa [stmtsExprs] using (Setting.published_ofList h he).at

/-! ## Declarations of the module -/

theorem yields_exportCall (modifiers : Modifiers) (name : String) :
    Yields s.Emits (exportCall s modifiers name) fun call =>
      ∃ exported, call = s.publish exported (.ofName name) := by
  unfold exportCall
  exact .ite (fun _ => (yields_addExportedName _).bind fun _ _ => .pure ⟨_, rfl⟩)
    fun _ => .pure ⟨_, rfl⟩

theorem yields_hoistFunction (modifiers : Modifiers) {f : Func} (hf : s.AllPublished f.exprs) :
    Yields s.Emits (hoistFunction s modifiers f) fun _ => True := by
  obtain ⟨name, params, body, isAsync, isGenerator⟩ := f
  unfold hoistFunction
  have hrest : ∀ x : Ident, Yields s.Emits (do
      if modifiers.isExported then addFunctionExport (← exportCall s modifiers x.name)
      hoist (·.addFunction (.function {} ⟨some x, params, body, isAsync, isGenerator⟩)))
      fun _ => True := by
    intro x
    have hadd : Yields s.Emits
        (hoist (·.addFunction (.function {} ⟨some x, params, body, isAsync, isGenerator⟩)))
        fun _ => True := yields_hoist fun h => .addFunction h hf
    exact .ite (fun _ => (yields_exportCall modifiers _).bind fun call _ =>
      (yields_addFunctionExport call).bind fun _ _ => hadd) fun _ => hadd
  cases name with
  | some x => exact hrest x
  | none =>
    have hname : Yields s.Emits (Ident.synthetic <$> hoistGet (·.unique "default"))
        fun _ => True := (yields_unique "default").map fun _ _ => trivial
    exact hname.bind fun x _ => hrest x

theorem yields_hoistClassName (name : Option Ident) :
    Yields s.Emits (hoistClassName name) fun _ => True := by
  unfold hoistClassName
  cases name with
  | some x => exact (yields_hoist fun h => .addVariable h _).bind fun _ _ => .pure trivial
  | none => exact (yields_unique "default").bind fun name _ =>
    (yields_hoist fun h => .addVariable h _).bind fun _ _ => .pure trivial

theorem classAssignment_published {place : Place} (hplace : place ≠ .function)
    (modifiers : Modifiers) (name : String) {c : Class} (hc : s.AllPublished c.exprs) :
    Yields s.Emits (classAssignment s modifiers name c) fun sts =>
      s.AllPublishedAt place (stmtsExprs sts) := by
  have hassign : s.PublishedAt place (.assignName name (.classExpr c)) :=
    (Setting.published_assignName name (Setting.published_of_parts hc rfl rfl)).at
  unfold classAssignment
  refine .ite (fun _ => (yields_exportCall modifiers name).bind fun call hcall => .pure ?_)
    fun _ => .pure ?_
  · obtain ⟨exported, rfl⟩ := hcall
    have hexport : s.PublishedAt place (s.publish exported (.ofName name)) :=
      .inr ⟨hplace, _, _, rfl, Setting.published_ident _⟩
    simpa [stmtsExprs] using And.intro hassign hexport
  · simpa [stmtsExprs] using hassign

theorem exportSpecifiers_published {place : Place} (hplace : place ≠ .function) :
    ∀ specs : List ExportSpecifier, Yields s.Emits (exportSpecifiers s specs) fun sts =>
      s.AllPublishedAt place (stmtsExprs sts)
  | [] => .pure Setting.allPublishedAt_nil
  | spec :: specs => by
    have hfirst : Yields s.Emits (exportSpecifier s spec) fun sts =>
        s.AllPublishedAt place (stmtsExprs sts) := by
      unfold exportSpecifier
      refine .ite (fun _ => .pure Setting.allPublishedAt_nil) fun _ =>
        (yields_addExportedName _).bind fun _ _ => ?_
      refine .ite (fun _ => .pure Setting.allPublishedAt_nil) fun _ => .ite (fun _ => ?_) fun _ =>
        .pure ?_
      · exact (yields_addFunctionExport _).bind fun _ _ => .pure Setting.allPublishedAt_nil
      · have hexport : s.PublishedAt place (s.publish spec.exportedName (.ident spec.source)) :=
          .inr ⟨hplace, _, _, rfl, Setting.published_ident _⟩
        simpa [stmtsExprs] using hexport
    exact hfirst.bind fun sts hsts => (exportSpecifiers_published hplace specs).bind
      fun more hmore => .pure (.stmts_append hsts hmore)

/-! ## Loop bodies -/

/-- A loop body publishes what its own statements and those put before them do. -/
theorem loopBody_published {place : Place} {exports body : List Stmt}
    (hexports : s.AllPublishedAt place (stmtsExprs exports))
    (hbody : s.AllPublishedAt place (stmtsExprs body)) :
    s.AllPublishedAt place (loopBody exports body).exprs := by
  unfold loopBody
  split
  · simpa using hbody
  · simpa using And.intro hexports hbody

theorem blockBody_published {place : Place} {exports : List Stmt} {body : Lowering (List Stmt)}
    (hexports : s.AllPublishedAt place (stmtsExprs exports))
    (hbody : Yields s.Emits body fun sts => s.AllPublishedAt place.inner (stmtsExprs sts)) :
    Yields s.Emits (blockBody s exports body) fun st => s.AllPublishedAt place st.exprs := by
  unfold blockBody
  refine .ite (fun _ => .deeper s ?_) fun _ => ?_
  · exact hbody.bind fun _ hsts => .pure hsts.of_inner
  · exact hbody.bind fun _ hsts => .pure (by simpa using And.intro hexports hsts.of_inner)

theorem lowerLoopBody_published {place : Place} {exports : List Stmt} {body : Stmt}
    (hexports : s.AllPublishedAt place (stmtsExprs exports))
    (hblock : ∀ inner, body = .block inner → Yields s.Emits (lowerStmts s place.inner inner)
      fun sts => s.AllPublishedAt place.inner (stmtsExprs sts))
    (hbody : Yields s.Emits (body.lower s place.inner) fun sts =>
      s.AllPublishedAt place.inner (stmtsExprs sts)) :
    Yields s.Emits (lowerLoopBody s place.inner exports body) fun st =>
      s.AllPublishedAt place st.exprs := by
  cases body with
  | block inner => exact blockBody_published hexports (hblock inner rfl)
  | _ => exact hbody.bind fun _ hsts => .pure (loopBody_published hexports hsts.of_inner)

end RegisterForm
