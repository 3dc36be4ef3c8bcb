import RegisterForm.Proofs.Export.Everywhere
import RegisterForm.Proofs.Script.Holders
import RegisterForm.Proofs.Script.Lowered
/-!
# Lowered modules are scripts

The call that registers a module is a script, all of it: the lowered statements, what is hoisted
to their front, the setters, and the functions that a module defines for itself.
-/
namespace RegisterForm
open Lowering NameTable

namespace Setting
variable {s : Setting}

/-! ## Functions that a module defines for itself -/

theorem script_prototypeCall (method : String) {owner key : Expr} (howner : s.AllScript owner.visits)
    (hkey : s.AllScript key.visits) : s.AllScript (Expr.prototypeCall method owner key).visits := by
  simp [Expr.prototypeCall, exprsVisits, script_ofPath, howner, hkey]

theorem script_notExcluded {key : Expr} (h : s.AllScript key.visits) :
    s.AllScript (Rest.notExcluded key).visits := by
  simp [Rest.notExcluded, exprsVisits, h]

theorem script_copyProperty {key : Expr} (h : s.AllScript key.visits) :
    s.AllScript (Rest.copyProperty key).visits := by
  simp [Rest.copyProperty, h]

theorem script_varHead (name : String) :
    s.AllScript (ForHead.var ⟨.var, [.ofName name none]⟩).visits := by
  rw [ForHead.visits, VarList.visits, declaratorsVisits, declaratorsVisits, List.append_nil,
    script_declaratorOfName]
  exact allScript_nil

theorem script_copyStrings : s.AllScript Rest.copyStrings.visits := by
  have hkey : s.AllScript (Expr.ofName "p").visits := script_ofName "p"
  have howned := script_prototypeCall "hasOwnProperty" (s := s) (script_ofName "s") hkey
  have hexcluded := script_notExcluded hkey
  have hcopy := script_copyProperty hkey
  simp [Rest.copyStrings, script_varHead, howned, hexcluded, hcopy]

theorem script_copySymbols : s.AllScript Rest.copySymbols.visits := by
  have hkey : s.AllScript ((Expr.ofName "p").lookup (.ofName "i")).visits := by simp
  have howned := script_prototypeCall "propertyIsEnumerable" (s := s) (script_ofName "s") hkey
  have hexcluded := script_notExcluded hkey
  have hcopy := script_copyProperty hkey
  simp [Rest.copySymbols, script_ofPath, ForInit.visits, VarList.visits, declaratorsVisits,
    script_declaratorOfName, exprVisits?, exprsVisits, stmtsVisits, howned, hexcluded, hcopy]

theorem script_rest : s.AllScript Rest.define.visits := by
  have hempty : s.AllScript (Expr.object []).visits := script_object allScript_nil fun _ h => absurd h List.not_mem_nil
  simp [Rest.define, exprVisits?, paramsVisits, stmtsVisits, script_copyStrings,
    script_copySymbols, hempty]

/-- An object literal whose properties all have string keys. -/
theorem script_record {ps : List Property}
    (h : ∀ p ∈ ps, ∃ name value, p = .ofString name value ∧ s.AllScript value.visits) :
    s.AllScript (Expr.object ps).visits := by
  refine script_object (allScript_propertiesVisits fun p hp => ?_) fun x hx => ?_
  · obtain ⟨name, value, rfl, hvalue⟩ := h p hp
    simpa [Property.ofString, Property.visits, Key.visits] using hvalue
  · obtain ⟨name, value, heq, -⟩ := h _ hx
    cases heq

theorem script_starHelper (name : String) (ownNames : Option String) :
    s.AllScript (StarExport.helper s name ownNames).visits := by
  have hempty : s.AllScript (Expr.object []).visits := script_object allScript_nil fun _ h => absurd h List.not_mem_nil
  unfold StarExport.helper
  cases ownNames with
  | none =>
    simp [Stmt.functionNamed, script_func, paramsVisits, stmtsVisits, exprVisits?, exprsVisits,
      script_varHead, script_ofPath, hempty]
  | some map =>
    simp [Stmt.functionNamed, script_func, paramsVisits, stmtsVisits, exprVisits?, exprsVisits,
      script_varHead, script_ofPath, Expr.negate, hempty]

theorem script_star (exportedNames : List String) (groups : List Dependency) (h : Hoisting) :
    s.AllScript (stmtsVisits (StarExport.define s exportedNames groups h).2.1) := by
  unfold StarExport.define
  split
  · exact allScript_nil
  · dsimp only
    split
    · simpa [stmtsVisits] using script_starHelper _ none
    · refine (allScript_append _ _).mpr ⟨?_, ?_⟩
      · rw [script_varInit]
        refine script_record fun p hp => ?_
        obtain ⟨name, -, rfl⟩ := List.mem_map.mp hp
        exact ⟨name, _, rfl, script_ofBool true⟩
      · simpa [stmtsVisits] using script_starHelper _ _

/-! ## Setters -/

theorem script_publishAll {ps : List Property}
    (h : ∀ p ∈ ps, ∃ name value, p = .ofString name value ∧ s.AllScript value.visits) :
    s.AllScript (stmtsVisits (s.publishAll ps)) := by
  unfold publishAll
  split
  · exact allScript_nil
  · simpa [stmtsVisits, exprsVisits] using script_record h

theorem script_importedValue (parameter : String) (kind : ImportKind) :
    s.AllScript (importedValue parameter kind).visits := by
  cases kind <;> simp [importedValue]

theorem script_keep (name parameter : String) : s.AllScript (keep name parameter).visits := by
  simp [keep]

theorem reexports_record {declaration : NodeId} {parameter : String} {x : Ident} {p : Property}
    (h : p ∈ s.reexports declaration parameter x) :
    ∃ name value, p = .ofString name value ∧ s.AllScript value.visits := by
  unfold reexports at h
  split at h
  · cases h
  · next origin _ =>
    split at h
    · obtain ⟨spec, -, rfl⟩ := List.mem_map.mp h
      exact ⟨spec.exportedName, _, rfl, script_importedValue parameter origin.kind⟩
    · cases h

theorem script_serve (star : Option String) (parameter : String) (d : Dependence) :
    s.AllScript (stmtsVisits (s.serve star parameter d)) := by
  have hkeep : ∀ names : List String, s.AllScript (stmtsVisits (names.map (keep · parameter))) := by
    intro names
    refine allScript_stmtsVisits fun st hst => ?_
    obtain ⟨name, -, rfl⟩ := List.mem_map.mp hst
    exact script_keep name parameter
  unfold serve
  split
  · exact allScript_nil
  · dsimp only
    rw [stmtsVisits_append, allScript_append]
    refine ⟨hkeep _, script_publishAll fun p hp => ?_⟩
    obtain ⟨x, -, hp⟩ := List.mem_flatMap.mp hp
    exact reexports_record hp
  · next name isExported _ =>
    have hreexports : s.AllScript
        (stmtsVisits (s.publishAll (s.reexports d.site.id parameter name))) :=
      script_publishAll fun p hp => reexports_record hp
    rw [List.cons_append, stmtsVisits, stmtsVisits_append, allScript_append, allScript_append]
    refine ⟨script_keep _ _, ?_, hreexports⟩
    split
    · simp [stmtsVisits]
    · exact allScript_nil
  · refine script_publishAll fun p hp => ?_
    obtain ⟨spec, -, rfl⟩ := List.mem_map.mp hp
    exact ⟨spec.exportedName, _, rfl, by simp⟩
  · simp [stmtsVisits]
  · refine allScript_stmtsVisits fun st hst => ?_
    obtain ⟨helper, -, rfl⟩ := List.mem_map.mp hst
    simp [exprsVisits]

theorem script_setter (star : Option String) (d : Dependency) (h : Hoisting) :
    s.AllScript (s.setter star d h).1.visits := by
  unfold setter
  rw [script_functionOf]
  refine ⟨by simp [paramsVisits], allScript_stmtsVisits fun st hst => ?_⟩
  obtain ⟨use, -, hst⟩ := List.mem_flatMap.mp hst
  exact fun v hv => script_serve star _ use v (stmt_visits_subset hst hv)

theorem script_setters (star : Option String) (groups : List Dependency) (h : Hoisting) :
    s.AllScript (exprsVisits (s.setters star groups h).1) := by
  induction groups generalizing h with
  | nil => exact allScript_nil
  | cons d groups ih =>
    rw [setters]
    exact (allScript_append _ _).mpr ⟨script_setter star d h, ih _⟩

/-! ## The registration call -/

theorem script_prologue (needsRest : Bool) {frame : Frame} {functionExports : List Stmt}
    (hframe : ∀ st ∈ frame.functions, s.AllScript st.visits)
    (hexports : ∀ st ∈ functionExports, s.AllScript st.visits) :
    s.AllScript (stmtsVisits (s.prologue frame functionExports needsRest)) := by
  have hvars : s.AllScript (stmtsVisits frame.variableStmt?.toList) := by
    unfold Frame.variableStmt?
    split
    · exact allScript_nil
    · simpa [stmtsVisits] using script_varNames frame.vars
  simp only [prologue, stmtsVisits_append, allScript_append]
  refine ⟨⟨⟨⟨⟨?_, hvars⟩, ?_⟩, allScript_stmtsVisits hframe⟩, allScript_stmtsVisits hexports⟩, ?_⟩
  · split <;> simp [stmtsVisits]
  · split <;> simp [stmtsVisits, exprVisits?]
  · split <;> simp [stmtsVisits, script_rest]

theorem script_registration (groups : List Dependency) {body : List Stmt}
    (h : s.AllScript (stmtsVisits body)) : s.AllScript (s.registration groups body).visits := by
  have hnames : s.AllScript (exprsVisits (groups.map (.ofString ·.name))) := by
    refine allScript_exprsVisits fun e he => ?_
    obtain ⟨group, -, rfl⟩ := List.mem_map.mp he
    exact script_ofString group.name
  have hmodule : s.AllScript (exprsVisits (s.file.moduleName.toList.map .ofString)) := by
    refine allScript_exprsVisits fun e he => ?_
    obtain ⟨name, -, rfl⟩ := List.mem_map.mp he
    exact script_ofString name
  simp [registration, exprsVisits, paramsVisits, script_ofPath, hnames, hmodule, h]

/-- A module whose lowered and hoisted statements are scripts is registered by a script. -/
theorem script_assemble (groups : List Dependency) {execute : List Stmt} {p : Progress}
    (hexecute : s.AllScript (stmtsVisits execute))
    (hframe : ∀ st ∈ p.hoisting.pop.1.functions, s.AllScript st.visits)
    (hexports : ∀ st ∈ p.functionExports, s.AllScript st.visits) :
    s.AllScript (s.assemble groups execute p).statement.visits := by
  have hresult : ∀ setters : List Expr, s.AllScript (exprsVisits setters) →
      s.AllScript (Expr.object [.ofName "setters" (.arrayOf setters),
        .ofName "execute" (.functionOf none [] execute)]).visits := by
    intro setters hsetters
    refine script_object ?_ nofun
    simp [propertiesVisits, Property.ofName, Property.visits, Key.visits, paramsVisits, hsetters,
      hexecute]
  unfold assemble
  refine script_registration groups ?_
  rw [stmtsVisits_append, stmtsVisits_append, allScript_append, allScript_append]
  refine ⟨⟨script_prologue _ hframe hexports, script_star _ _ _⟩, ?_⟩
  simpa [stmtsVisits, exprVisits?] using hresult _ (script_setters _ _ _)

end Setting

variable {file : SourceFile} {options : Options}

theorem lowerModule_script {s : Setting} (hheld : s.HoldsImports) :
    ∀ sts : List Stmt, (∀ st ∈ sts, AllUnmarked st.visits.tail) →
      Yields s.Scripts (lowerStmts s .topLevel sts) fun sts' => s.AllScript (stmtsVisits sts')
  | [], _ => .pure Setting.allScript_nil
  | st :: sts, h => by
    obtain ⟨hst, hsts⟩ := List.forall_mem_cons.mp h
    refine (st.lower_script hheld .topLevel hst (.inl rfl)).bind fun first hfirst => ?_
    refine (lowerModule_script hheld sts hsts).bind fun more hmore => .pure ?_
    rw [stmtsVisits_append, Setting.allScript_append]
    exact ⟨hfirst, hmore⟩

/-- What a module is lowered to holds no module syntax and no import that is read by its own
name, anywhere in the registering call: a module as a whole is read by the name of the variable
that holds it, and what it exports is read off that variable. -/
theorem lower_allScript {lowered : Lowered} (hf : file.IsStrictlyFlat)
    (hl : lower options (ofFile file) file = .ok lowered) :
    (Setting.ofFile options (ofFile file) file).1.AllScript lowered.statement.visits := by
  set s := (Setting.ofFile options (ofFile file) file).1 with hs
  have hheld : s.HoldsImports := Setting.holdsImports_ofFile options hf.isFlat
  obtain ⟨groups, execute, p, hrun, rfl⟩ := lower_eq_ok hl
  obtain ⟨⟨hcollects, hexports⟩, hexecute⟩ := lowerModule_script hheld file.statements hf hrun
  have hgrows : List.Forall₂ (fun f f' : Frame => ∀ st ∈ f'.functions,
      st ∈ f.functions ∨ s.AllScript st.visits) [{}] p.hoisting.frames := by
    rw [← frames_ofFile options file]
    exact hcollects
  have hframe : ∀ st ∈ p.hoisting.pop.1.functions, s.AllScript st.visits := by
    unfold Hoisting.pop
    generalize p.hoisting.frames = frames at hgrows
    cases hgrows with
    | cons hhead htail => exact fun st hst => (hhead st hst).resolve_left List.not_mem_nil
  refine Setting.script_assemble groups hexecute hframe fun st hst => ?_
  exact (hexports st hst).resolve_left List.not_mem_nil

/-- `import d, * as ns from "m"; import { a as b } from "n"; export function f(x = { b }) { ns; }` -/
def importingModule : SourceFile where
  id := .numbered 20
  name := "m.ts"
  statements := [
    .importFrom ⟨.numbered 10, {}⟩
      (some ⟨some ⟨.numbered 0, "d"⟩, some (.star ⟨.numbered 1, "ns"⟩)⟩) (.ofString "m") false,
    .importFrom ⟨.numbered 11, {}⟩
      (some ⟨none, some (.named [⟨some "a", ⟨.numbered 2, "b"⟩, false⟩])⟩) (.ofString "n") false,
    .function { isExported := true } ⟨some ⟨.numbered 3, "f"⟩,
      [⟨.ident ⟨.numbered 4, "x"⟩, some (.object [.shorthand ⟨.numbered 5, "b"⟩]), false⟩],
      [.expr (.ident ⟨.numbered 6, "ns"⟩), .expr (.importCall (.ofString "m"))], false, false⟩]

theorem importingModule_isStrictlyFlat : importingModule.IsStrictlyFlat := by
  unfold SourceFile.IsStrictlyFlat AllUnmarked
  decide

/-- Imports are read in a parameter and in a body, and both reads are taken away. -/
theorem lower_allScript_importing : ∃ lowered,
    lower {} (ofFile importingModule) importingModule = .ok lowered ∧
      (Setting.ofFile {} (ofFile importingModule) importingModule).1.AllScript
        lowered.statement.visits :=
  ⟨_, rfl, lower_allScript importingModule_isStrictlyFlat rfl⟩

end RegisterForm
