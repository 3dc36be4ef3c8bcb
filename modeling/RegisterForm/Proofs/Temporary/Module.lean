import RegisterForm.Proofs.Fresh.Generated
import RegisterForm.Proofs.Fresh.Helpers
import RegisterForm.Proofs.Temporary.Lowered
/-!
# Temporaries of a module

Every temporary that is made up while a module is lowered is declared by a `var` in the innermost
function around the place that it is made up for. That function declares it in its body, so that it
is in scope wherever it occurs, except in the parameter list of the same function.
-/
namespace RegisterForm
open Lowering Vocabulary

/-- A name of the form of temporaries that is not in use when the statements of a file are lowered. -/
def IsTemporary (options : Options) (t : NameTable) (file : SourceFile) (name : String) : Prop :=
  (Setting.ofFile options t file).2.supply.isUsed name = false ∧
    ∃ n, name = NameSupply.temporaryName n

section module
variable {options : Options} {t : NameTable} {file : SourceFile} {lowered : Lowered}

/-- Whenever a temporary is drawn while the statements are lowered, it is one. -/
theorem isTemporary_temporary {names : List String} {supply : NameSupply}
    (h : (Setting.ofFile options t file).2.supply.Gives names supply) :
    IsTemporary options t file supply.temporary.1 := by
  refine ⟨?_, _, rfl⟩
  by_contra hused
  have hlater := (h.isUsed_iff supply.temporary.1).mpr (.inr (by simpa using hused))
  rw [supply.isUsed_temporary_before] at hlater
  cases hlater

theorem not_isTemporary_of_isUsed {name : String}
    (h : (Setting.ofFile options t file).2.supply.isUsed name = true) :
    ¬IsTemporary options t file name := fun htemporary => by
  rw [htemporary.1] at h
  cases h

/-- The texts of a file are in use from the start. -/
theorem isUsed_text {name : String} (h : name ∈ file.texts) :
    (Setting.ofFile options t file).2.supply.isUsed name = true := by
  obtain ⟨holders, hgives, -⟩ := gives_setting options t file
  exact (hgives.isUsed_iff name).mpr (.inr ((file.isUsed_iff name).mpr h))

/-- No temporary stands in the source. -/
theorem covers_withoutTemporaries :
    (sparing (IsTemporary options t file)).Covers file.visits := fun v hv => by
  refine ⟨fun x hx => ?_, fun _ _ => trivial, fun _ _ => trivial⟩
  have htext := SourceFile.mem_texts (List.mem_filterMap.mpr ⟨v, hv, hx⟩)
  exact not_isTemporary_of_isUsed (isUsed_text htext)

/-- No parameter of the registered function, no holder and no helper is a temporary. -/
theorem spokenIn_withoutTemporaries :
    (Setting.ofFile options t file).1.SpokenIn (sparing (IsTemporary options t file)) := by
  obtain ⟨holders, hgives, -, hheld⟩ := gives_setting options t file
  have hgiven : ∀ name ∈ (Setting.ofFile options t file).1.exporter ::
      (Setting.ofFile options t file).1.context :: holders, ¬IsTemporary options t file name :=
    fun name hname => not_isTemporary_of_isUsed ((hgives.isUsed_iff name).mpr (.inl hname))
  refine ⟨hgiven _ (by simp), trivial, hgiven _ (by simp), fun declaration holder hlookup => ?_, ?_,
    fun _ _ => trivial⟩
  · refine ⟨?_, trivial⟩
    rcases hheld declaration holder hlookup with hholder | htext
    · exact hgiven holder (by simp [hholder])
    · exact not_isTemporary_of_isUsed (isUsed_text htext)
  · rintro ⟨-, hform⟩
    exact NameSupply.IsMadeUp.not_mem_helperNames (.inr hform) (by simp [helperNames])

/-- What the registered function declares with `var` are the variables that were collected. -/
theorem vars_subset_body (s : Setting) (groups : List Dependency) (execute : List Stmt)
    (p : Progress) : p.hoisting.pop.1.vars ⊆ bodyVars (s.body groups execute p) := by
  intro name hname
  have hdeclared := subset_variableStmt p.hoisting.pop.1 hname
  simp only [Setting.body, Setting.prologue, bodyVars_append, List.mem_append]
  exact .inl (.inl (.inl (.inl (.inl (.inl (.inr hdeclared))))))

/-- Where a temporary occurs in the functions and in the body of a registered module, a `var` of a
function around it declares it, and it is in scope there or stands in the parameter list of the very
function whose body declares it. -/
theorem lower_declaresTemporaries (h : lower options t file = .ok lowered) :
    ∃ groups execute p, lowered = (Setting.ofFile options t file).1.assemble groups execute p ∧
      (lowerStmts (Setting.ofFile options t file).1 .topLevel file.statements).run
          { hoisting := (Setting.ofFile options t file).2 } = .ok (execute, p) ∧
        ∀ u ∈ stmtsSights (p.hoisting.pop.1.functions ++ [.expr (.functionOf none [] execute)])
            [⟨bodyVars ((Setting.ofFile options t file).1.body groups execute p), true⟩],
          IsTemporary options t file u.name → u.InScope ∨ u.InParameters := by
  obtain ⟨groups, execute, p, -, hrun, rfl⟩ := lower_parts h
  refine ⟨groups, execute, p, rfl, hrun, fun u hu htemporary => u.declared_iff.mp ?_⟩
  set s := (Setting.ofFile options t file).1
  set vars := bodyVars (s.body groups execute p) with hvars
  -- All that is collected for the registered function is declared in its body.
  have hrestates := ((lowerStmts_shown (P := True) (D := (· ∈ vars)) spokenIn_withoutTemporaries
    (fun _ htemporary => htemporary.2) file.statements .topLevel covers_withoutTemporaries).ok hrun).2
  have hopen : (Setting.ofFile options t file).2.frames ≠ [] := by
    rw [frames_setting]
    exact List.cons_ne_nil _ _
  have hnone : (Setting.ofFile options t file).2.Sound (IsTemporary options t file) (· ∈ vars) := by
    intro st hst
    rw [Hoisting.pop, frames_setting] at hst
    cases hst
  obtain ⟨hfunctions, hexecute⟩ := hrestates hopen
    (fun name hname _ => vars_subset_body s groups execute p hname) trivial hnone
  have hbody : Shown (IsTemporary options t file) (· ∈ vars)
      (Stmt.expr (.functionOf none [] execute)).sights := by
    have hinside := (hexecute.mono fun name hname =>
      (Or.inl hname : name ∈ vars ∨ name ∈ bodyVars execute)).inside true
    exact (Shown.nil.append .nil).append hinside
  have hparts := shown_stmtsAppend (shown_stmts hfunctions) (shown_singleStmt _ hbody)
  refine hparts _ (fun name _ hname => ?_) u hu htemporary
  exact ⟨_, List.mem_singleton_self _, hname⟩

end module

/-- `export var x; function f(a = [x] = o()) { return [x] = o(); }` -/
def parameterAssignment : SourceFile :=
  let assignment (i : Nat) : Expr := .assign .plain
    (.array [some ⟨.ident ⟨.numbered i, "x"⟩, none⟩] none)
    (.call (.ident ⟨.numbered (i + 1), "o"⟩) [] false)
  { id := .numbered 100
    name := "m.ts"
    statements := [
      .var { isExported := true } ⟨.var, [⟨.ident ⟨.numbered 0, "x"⟩, none⟩]⟩,
      .function {} ⟨some ⟨.numbered 1, "f"⟩,
        [⟨.ident ⟨.numbered 2, "a"⟩, some (assignment 3), false⟩],
        [.ret (some (assignment 5))], false, false⟩] }

/-- The temporary of the body is in scope where it occurs. -/
theorem lower_declaresTemporaries_function : ∃ lowered,
    lower {} (.ofFile parameterAssignment) parameterAssignment = .ok lowered ∧
      ∃ groups execute p, lowered =
          (Setting.ofFile {} (.ofFile parameterAssignment) parameterAssignment).1.assemble groups
            execute p ∧
        (lowerStmts (Setting.ofFile {} (.ofFile parameterAssignment) parameterAssignment).1 .topLevel
            parameterAssignment.statements).run
            { hoisting := (Setting.ofFile {} (.ofFile parameterAssignment) parameterAssignment).2 } =
          .ok (execute, p) ∧
        ∀ u ∈ stmtsSights (p.hoisting.pop.1.functions ++ [.expr (.functionOf none [] execute)])
            [⟨bodyVars ((Setting.ofFile {} (.ofFile parameterAssignment) parameterAssignment).1.body
              groups execute p), true⟩],
          IsTemporary {} (.ofFile parameterAssignment) parameterAssignment u.name →
            u.InScope ∨ u.InParameters := by
  obtain ⟨lowered, h⟩ : ∃ lowered,
      lower {} (.ofFile parameterAssignment) parameterAssignment = .ok lowered :=
    exists_lowered (by decide +kernel)
  exact ⟨lowered, h, lower_declaresTemporaries h⟩

/-- The temporary of the parameter list is declared in the body, and so it is out of scope. -/
theorem parameterTemporary_outOfScope : ∃ lowered,
    lower {} (.ofFile parameterAssignment) parameterAssignment = .ok lowered ∧
      IsTemporary {} (.ofFile parameterAssignment) parameterAssignment "_a" ∧
      ∃ u ∈ lowered.statement.sights [], u.name = "_a" ∧ ¬u.InScope := by
  obtain ⟨lowered, h, hmem⟩ : ∃ lowered,
      lower {} (.ofFile parameterAssignment) parameterAssignment = .ok lowered ∧
        ⟨"_a", [⟨["_a", "_b"], false⟩, ⟨["x", "__moduleName"], true⟩]⟩ ∈
          lowered.statement.sights [] := exists_ok (by decide +kernel)
  exact ⟨lowered, h, ⟨by decide +kernel, 0, rfl⟩, _, hmem, rfl, by decide⟩

end RegisterForm
