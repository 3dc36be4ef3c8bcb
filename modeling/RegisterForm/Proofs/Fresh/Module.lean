import RegisterForm.Proofs.Fresh.Assembled
import RegisterForm.Proofs.Registration.Groups
/-!
# Made-up names of a module

All names that are made up while a module is lowered come from one supply, one after another: the
parameters of the registered function, the holders, the temporaries and the default names, the
helpers for star exports and the parameters of the setters. Every identifier of the lowered module
is one of them, or is written with a name of the file or of a helper.
-/
namespace RegisterForm
open Lowering Vocabulary

/-! ## Runs -/

/-- The whole language: everything may be said. -/
def Vocabulary.all : Vocabulary := ⟨fun _ => True, fun _ => True, fun _ => True⟩

theorem Vocabulary.covers_all (vs : List Visit) : Vocabulary.all.Covers vs := fun _ _ =>
  ⟨fun _ _ => trivial, fun _ _ => trivial, fun _ _ => trivial⟩

theorem Setting.spokenIn_all (s : Setting) : s.SpokenIn Vocabulary.all :=
  ⟨trivial, trivial, trivial, fun _ _ _ => ⟨trivial, trivial⟩, trivial, fun _ _ => trivial⟩

theorem Setting.hoistable_all (s : Setting) (place : Place) (st : Stmt) :
    s.Hoistable Vocabulary.all place st := ⟨fun _ _ _ => trivial, fun _ _ _ => ⟨trivial, trivial⟩⟩

/-- Lowering statements leads on. -/
theorem lowerStmts_leads {s : Setting} {place : Place} {sts sts' : List Stmt} {p p' : Progress}
    (hrun : (lowerStmts s place sts).run p = .ok (sts', p')) : p.Leads p' :=
  ((lowerStmts_covers (P := True) s.spokenIn_all sts place (Vocabulary.covers_all _) fun st _ =>
    s.hoistable_all place st).ok hrun).1

/-- Statements that cannot be lowered are nested too deeply. -/
theorem lowerStmts_error {s : Setting} {place : Place} {sts : List Stmt} {p : Progress}
    {e : LowerError} (hrun : (lowerStmts s place sts).run p = .error e) : ∃ file, e = .tooDeep file :=
  (lowerStmts_covers (P := True) s.spokenIn_all sts place (Vocabulary.covers_all _) fun st _ =>
    s.hoistable_all place st).error hrun

/-! ## Names of the module's own statements -/

/-- The identifier that holds a module stands in the statement that names the module. -/
theorem Stmt.mem_of_ownHolder? {st : Stmt} {d : Dependence} {x : Ident}
    (hd : st.dependence? = some d) (hx : d.ownHolder? = some x) : x ∈ identsIn st.visits := by
  unfold Dependence.ownHolder? at hx
  rcases Stmt.dependence?_eq_some hd with ⟨clause, isTypeOnly, rfl, hform⟩ |
    ⟨name, isExported, rfl, hform⟩ | ⟨clause, rfl, hform⟩
  · rw [hform] at hx
    rcases clause with _ | ⟨_ | _, _ | _ | _⟩ <;> cases hx
    simp [Stmt.visits_importFrom, ImportClause.visits, ImportBindings.visits]
  · rw [hform] at hx
    cases hx
    exact List.mem_cons_self
  · rw [hform] at hx
    rcases clause with _ | _ | _ <;> cases hx
    exact List.mem_cons_self

namespace Setting
variable {s : Setting}

/-- A variable of the module is named by an identifier of its statement, or it is a holder. -/
theorem topNames_cases {st : Stmt} {name : String} (h : name ∈ s.topNames st) :
    (∃ x ∈ identsIn st.visits, x.name = name) ∨
      ∃ declaration, s.holders.lookup declaration = some name := by
  cases st with
  | var modifiers list =>
    obtain ⟨x, hx, rfl⟩ := List.mem_map.mp h
    exact .inl ⟨x, list.boundIdents_subset hx, rfl⟩
  | classDecl modifiers c =>
    obtain ⟨name, base, members⟩ := c
    obtain ⟨x, hx, rfl⟩ := List.mem_map.mp h
    obtain rfl : name = some x := Option.mem_toList.mp hx
    exact .inl ⟨x, List.mem_cons_self, rfl⟩
  | importFrom site clause specifier isTypeOnly => exact .inr ⟨site.id, Option.mem_toList.mp h⟩
  | importEquals site isExported name kind value =>
    obtain rfl := List.mem_singleton.mp h
    exact .inl ⟨_, List.mem_cons_self, rfl⟩
  | _ => cases h

/-- A setter keeps its module in variables of the module. -/
theorem keptNames_subset {st : Stmt} {d : Dependence} (hd : st.dependence? = some d) :
    s.keptNames d ⊆ s.topNames st := by
  intro name hname
  unfold keptNames at hname
  rcases Stmt.dependence?_eq_some hd with ⟨clause, isTypeOnly, rfl, hform⟩ |
    ⟨x, isExported, rfl, hform⟩ | ⟨clause, rfl, hform⟩
  · rw [hform] at hname
    cases clause with
    | none => cases hname
    | some clause => exact hname
  · rw [hform] at hname
    exact hname
  · rw [hform] at hname
    cases hname

end Setting

/-! ## The registered function -/

/-- A vocabulary knows the names of a file, of the run that lowers it and of the helpers. -/
structure Setting.KnownTo (s : Setting) (V : Vocabulary) (groups : List Dependency)
    (p : Progress) : Prop where
  spoken : s.SpokenIn V
  helpers : V.KnowsHelpers
  source : V.Covers s.file.visits
  vars : ∀ st ∈ s.file.statements, ∀ b ∈ st.varBindings, V.binds (.synthetic b.ident.name)
  top : ∀ st ∈ s.file.statements, ∀ name ∈ s.topNames st,
    V.binds (.synthetic name) ∧ V.mentions name
  inUse : p.KnownTo V
  stars : ∀ name ∈ (s.starPart groups p).2.1.filterMap Stmt.declaredName?,
    V.binds (.synthetic name) ∧ V.mentions name
  starCalls : ∀ name, (s.starPart groups p).1 = some name → V.calls (.synthetic name)
  parameters : ∀ name ∈ (s.setterPart groups p).1.flatMap Expr.parameterNames,
    V.binds (.synthetic name) ∧ V.mentions name

/-- What the registered function holds, the helper for object rests aside. -/
structure Setting.PartsCovered (s : Setting) (V : Vocabulary) (groups : List Dependency)
    (execute : List Stmt) (p : Progress) : Prop where
  prologue : V.Covers (stmtsVisits (s.prologue p.hoisting.pop.1 p.functionExports false))
  stars : V.Covers (stmtsVisits (s.starPart groups p).2.1)
  result : V.Covers (Setting.result (s.setterPart groups p).1 execute).visits

section run
variable {options : Options} {names : NameTable} {file : SourceFile} {groups : List Dependency}
  {execute : List Stmt} {p : Progress} {V : Vocabulary}

theorem frames_setting (options : Options) (names : NameTable) (file : SourceFile) :
    (Setting.ofFile options names file).2.frames = [{}] := by
  unfold Setting.ofFile
  exact frames_holdersOf _ _

/-- The statements that the setters serve are statements of the file. -/
theorem exists_statement_of_mem_uses {s : Setting}
    (hs : s.interface = Interface.ofFile names file)
    (hgroups : Dependency.group file s.interface.dependences = .ok groups) {group : Dependency}
    (hgroup : group ∈ groups) {d : Dependence} (hd : d ∈ group.uses) :
    ∃ st ∈ file.statements, st.dependence? = some d := by
  rw [(Dependency.files_of_group hgroups).filed group hgroup, hs, Interface.dependences_ofFile]
    at hd
  exact List.mem_filterMap.mp (List.mem_of_mem_filter hd)

/-- The parts of the registered function keep to a vocabulary that knows the names of the run. -/
theorem Setting.KnownTo.covers
    (hk : (Setting.ofFile options names file).1.KnownTo V groups p)
    (hgroups : Dependency.group file
      (Setting.ofFile options names file).1.interface.dependences = .ok groups)
    (hrun : (lowerStmts (Setting.ofFile options names file).1 .topLevel file.statements).run
      { hoisting := (Setting.ofFile options names file).2 } = .ok (execute, p)) :
    (Setting.ofFile options names file).1.PartsCovered V groups execute p := by
  have hhoistable : ∀ st ∈ file.statements,
      (Setting.ofFile options names file).1.Hoistable V .topLevel st := fun st hst =>
    ⟨fun _ => hk.vars st hst, fun _ => hk.top st hst⟩
  obtain ⟨-, hcovers⟩ :=
    (lowerStmts_covers (P := True) hk.spoken file.statements .topLevel hk.source hhoistable).ok hrun
  have hempty : Progress.Kept V { hoisting := (Setting.ofFile options names file).2 } := by
    refine ⟨fun frame hframe => ?_, nofun⟩
    rw [show (Setting.ofFile options names file).2.frames = [{}] from frames_setting _ _ _]
      at hframe
    obtain rfl := List.mem_singleton.mp hframe
    exact ⟨nofun, nofun⟩
  obtain ⟨⟨hframes, hexports⟩, hexecute⟩ := hcovers hk.inUse trivial hempty
  have hframe : Progress.FrameKept V p.hoisting.pop.1 := by
    unfold Hoisting.pop
    split
    · exact ⟨nofun, nofun⟩
    · next frame frames hf =>
      rw [hf] at hframes
      exact hframes frame (List.mem_cons_self ..)
  refine ⟨covers_prologue hk.spoken hk.helpers hframe hexports,
    StarExport.covers_define hk.spoken hk.helpers hk.stars, covers_result ?_ hexecute⟩
  refine covers_setters hk.spoken (fun name hname => ⟨hk.starCalls name hname, ?_⟩) _ _
    (fun group hgroup d hd name hname => ?_) hk.parameters
  · exact (hk.stars name (StarExport.mem_declaredNames hname)).2
  · obtain ⟨st, hst, hdepends⟩ := exists_statement_of_mem_uses rfl hgroups hgroup hd
    exact hk.top st hst name (keptNames_subset hdepends hname)

/-- With the helper for object rests, where one is needed, these are the whole body. -/
theorem Setting.KnownTo.covers_body
    (hk : (Setting.ofFile options names file).1.KnownTo V groups p)
    (hgroups : Dependency.group file
      (Setting.ofFile options names file).1.interface.dependences = .ok groups)
    (hrun : (lowerStmts (Setting.ofFile options names file).1 .topLevel file.statements).run
      { hoisting := (Setting.ofFile options names file).2 } = .ok (execute, p))
    (hrest : V.binds (.synthetic restName)) :
    V.Covers (stmtsVisits ((Setting.ofFile options names file).1.body groups execute p)) := by
  obtain ⟨hprologue, hstars, hresult⟩ := hk.covers hgroups hrun
  have hhelper : V.Covers (stmtsVisits (if p.needsRest then [Rest.define] else [])) := by
    split
    · exact (covers_append _ _).mpr
        ⟨hk.helpers.covers_rest ⟨hrest, hk.spoken.rest⟩, covers_nil⟩
    · exact covers_nil
  rw [Setting.body, prologue_eq]
  simp only [NameTable.stmtsVisits_append, covers_append, stmtsVisits, covers_nil, and_true]
  exact ⟨⟨⟨hprologue, hhelper⟩, hstars⟩, (covers_ret _).mpr hresult⟩

end run

end RegisterForm
