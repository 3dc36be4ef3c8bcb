import RegisterForm.Proofs.Fresh.Generated
import RegisterForm.Proofs.Hoist.Scope
/-!
# The declarations of a registered function

The registered function declares what the scope of the module holds, each name once, and otherwise
only names that are made up: holders of other modules, temporaries, and the names of functions and
classes that are exported without one.
-/
namespace RegisterForm
open Lowering

/-! ## Holders of a file -/

namespace Dependence

theorem holdersOf_concat (uses : List Dependence) (d : Dependence) (h : Hoisting) :
    holdersOf (uses ++ [d]) h = d.enterHolder (holdersOf uses h) := by
  simp only [holdersOf_eq_foldl, List.foldl_append, List.foldl_cons, List.foldl_nil]

/-- A statement enters its own name, a name that is made up for it, or none. -/
theorem enterHolder_cases (d : Dependence) (r : List (NodeId × String) × Hoisting) :
    (d.isDerived = true ∧ d.enterHolder r =
        ((d.site.id, (d.freshHolder r.2).1) :: r.1, (d.freshHolder r.2).2)) ∨
      d.isDerived = false ∧
        d.enterHolder r = ((d.ownHolder?.map fun x => (d.site.id, x.name)).toList ++ r.1, r.2) := by
  unfold enterHolder
  rcases d.holder?_cases r.2 with ⟨hderived, hholder⟩ | ⟨hown, hholder⟩
  · rw [hholder]
    exact .inl ⟨hderived, rfl⟩
  · rw [hholder]
    refine .inr ⟨hown, ?_⟩
    cases d.ownHolder? <;> rfl

/-- A statement that is held under its own identifier has no name made up for it. -/
theorem isDerived_of_ownHolder? {d : Dependence} {x : Ident} (h : d.ownHolder? = some x) :
    d.isDerived = false := by
  obtain ⟨site, specifier, form⟩ := d
  unfold ownHolder? at h
  unfold isDerived
  cases form with
  | importing clause =>
    rcases clause with _ | ⟨_ | _, _ | _ | _⟩ <;> first | rfl | cases h
  | equals name isExported => rfl
  | exporting clause => rfl

/-- Every holder is made up or the own identifier of its statement, which is always entered. -/
theorem holdersOf_entries (uses : List Dependence) (h : Hoisting) : ∃ made,
    h.supply.Gives made (holdersOf uses h).2.supply ∧
      (∀ entry ∈ (holdersOf uses h).1, ∃ d ∈ uses, d.site.id = entry.1 ∧
        (d.ownHolder?.map (·.name) = some entry.2 ∨ d.isDerived = true ∧ entry.2 ∈ made)) ∧
      ∀ d ∈ uses, ∀ x, d.ownHolder? = some x → (d.site.id, x.name) ∈ (holdersOf uses h).1 := by
  induction uses using List.reverseRecOn with
  | nil => exact ⟨[], .nothing _, List.forall_mem_nil _, List.forall_mem_nil _⟩
  | append_singleton uses d ih =>
    obtain ⟨made, hgives, hentries, hown⟩ := ih
    rw [holdersOf_concat]
    rcases d.enterHolder_cases (holdersOf uses h) with ⟨hderived, henter⟩ | ⟨hnot, henter⟩
    · rw [henter]
      have hnew : ∃ d' ∈ uses ++ [d], d'.site.id = d.site.id ∧
          (d'.ownHolder?.map (·.name) = some (d.freshHolder (holdersOf uses h).2).1 ∨
            d'.isDerived = true ∧ (d.freshHolder (holdersOf uses h).2).1 ∈
              made ++ [(d.freshHolder (holdersOf uses h).2).1]) :=
        ⟨d, by simp, rfl, .inr ⟨hderived, by simp⟩⟩
      refine ⟨_, hgives.append (.unique _ (.nothing _)),
        List.forall_mem_cons.mpr ⟨hnew, fun entry he => ?_⟩, ?_⟩
      · obtain ⟨d', hd', hid, hname⟩ := hentries entry he
        exact ⟨d', List.mem_append_left _ hd', hid,
          hname.imp_right (And.imp_right (List.mem_append_left _))⟩
      · intro d' hd' x hx
        rcases List.mem_append.mp hd' with hold | hnew
        · exact List.mem_cons_of_mem _ (hown d' hold x hx)
        · obtain rfl := List.mem_singleton.mp hnew
          rw [isDerived_of_ownHolder? hx] at hderived
          cases hderived
    · rw [henter]
      refine ⟨made, hgives, fun entry he => ?_, ?_⟩
      · rcases List.mem_append.mp he with hnew | hold
        · obtain ⟨x, hx, rfl⟩ := Option.map_eq_some_iff.mp (Option.mem_toList.mp hnew)
          exact ⟨d, by simp, rfl, .inl (by rw [hx]; rfl)⟩
        · obtain ⟨d', hd', hid, hname⟩ := hentries entry hold
          exact ⟨d', List.mem_append_left _ hd', hid, hname⟩
      · intro d' hd' x hx
        rcases List.mem_append.mp hd' with hold | hnew
        · exact List.mem_append_right _ (hown d' hold x hx)
        · obtain rfl := List.mem_singleton.mp hnew
          exact List.mem_append_left _ (by simp [hx])

end Dependence

section holders
variable {file : SourceFile} {st : Stmt} {d : Dependence} {options : Options} {t : NameTable}

theorem Stmt.siteId_mem (h : st.dependence? = some d) :
    d.site.id ∈ st.visits.flatMap Visit.ids := by
  rw [Stmt.visits_cons, List.flatMap_cons]
  refine List.mem_append_left _ ?_
  rcases Stmt.dependence?_eq_some h with ⟨clause, _, rfl, -⟩ | ⟨x, _, rfl, -⟩ | ⟨clause, rfl, -⟩
  · exact List.mem_singleton_self _
  · exact List.mem_singleton_self _
  · match clause with
    | none => exact List.mem_singleton_self _
    | some (.star x) => exact List.mem_singleton_self _
    | some (.named specs) => exact List.mem_cons_self ..

theorem Stmt.site_of_import {site : Site} {clause : Option ImportClause} {specifier : Expr}
    {isTypeOnly : Bool}
    (h : (Stmt.importFrom site clause specifier isTypeOnly).dependence? = some d) :
    d.site = site := by
  rcases Stmt.dependence?_eq_some h with ⟨_, _, heq, -⟩ | ⟨_, _, heq, -⟩ | ⟨_, heq, -⟩ <;> cases heq
  rfl

/-- What is named at the site of a statement is named by that statement. -/
theorem SourceFile.dependence?_of_site (hids : file.ids.Nodup) (hst : st ∈ file.statements)
    (hd : d ∈ file.statements.filterMap Stmt.dependence?)
    (hsite : d.site.id ∈ st.visits.flatMap Visit.ids) : st.dependence? = some d := by
  obtain ⟨st', hst', hdepends⟩ := List.mem_filterMap.mp hd
  have hflat : file.ids = file.statements.flatMap fun st => st.visits.flatMap Visit.ids := by
    rw [SourceFile.ids, SourceFile.visits]
    induction file.statements with
    | nil => rfl
    | cons st sts ih => rw [stmtsVisits, List.flatMap_append, ih, List.flatMap_cons]
  rw [hflat] at hids
  obtain rfl := eq_of_mem_flatMap hids hst hst' hsite (Stmt.siteId_mem hdepends)
  exact hdepends

/-- An import is hoisted under its own name exactly if it is held under it. -/
theorem Stmt.mem_ownVars_import {site : Site} {clause : Option ImportClause} {specifier : Expr}
    {isTypeOnly : Bool} {x : Ident} :
    x ∈ (Stmt.importFrom site clause specifier isTypeOnly).ownVars t ↔
      ∃ d, (Stmt.importFrom site clause specifier isTypeOnly).dependence? = some d ∧
        d.site = site ∧ d.ownHolder? = some x := by
  cases isTypeOnly with
  | true => simp [Stmt.ownVars, Stmt.dependence?]
  | false =>
    rcases clause with _ | ⟨_ | _, _ | _ | _⟩ <;>
      simp [Stmt.ownVars, Stmt.dependence?, ImportClause.isTypeOnly, Dependence.ownHolder?]
    exact eq_comm

theorem Setting.holders_ofFile (options : Options) (t : NameTable) (file : SourceFile) : ∃ given,
    (Hoisting.ofFile file).supply.Gives given (Setting.ofFile options t file).2.supply ∧
      (∀ entry ∈ (Setting.ofFile options t file).1.holders,
        ∃ d ∈ file.statements.filterMap Stmt.dependence?, d.site.id = entry.1 ∧
          (d.ownHolder?.map (·.name) = some entry.2 ∨ d.isDerived = true ∧ entry.2 ∈ given)) ∧
      ∀ d ∈ file.statements.filterMap Stmt.dependence?, ∀ x, d.ownHolder? = some x →
        (d.site.id, x.name) ∈ (Setting.ofFile options t file).1.holders := by
  obtain ⟨made, hgives, hentries, hown⟩ := Dependence.holdersOf_entries
    (Interface.ofFile t file).dependences
    (((Hoisting.ofFile file).unique "exports").2.unique "context").2.push
  refine ⟨_, .unique "exports" (.unique "context" hgives), fun entry he => ?_, ?_⟩
  · rw [← Interface.dependences_ofFile t]
    obtain ⟨d, hd, hid, hname⟩ := hentries entry he
    exact ⟨d, hd, hid, hname.imp_right (And.imp_right fun hmade =>
      List.mem_cons_of_mem _ (List.mem_cons_of_mem _ hmade))⟩
  · rw [← Interface.dependences_ofFile t]
    exact hown

/-- A holder at an identity of a statement is entered by that statement, and a statement with a
holder of its own enters it. -/
theorem Setting.lookup_holders_ofFile (hids : file.ids.Nodup) (options : Options) (t : NameTable) :
    ∃ given, (Hoisting.ofFile file).supply.Gives given (Setting.ofFile options t file).2.supply ∧
      ∀ st ∈ file.statements,
        (∀ id ∈ st.visits.flatMap Visit.ids, ∀ name,
          (Setting.ofFile options t file).1.holders.lookup id = some name →
            ∃ d, st.dependence? = some d ∧
              (d.ownHolder?.map (·.name) = some name ∨ d.isDerived = true ∧ name ∈ given)) ∧
        ∀ d x, st.dependence? = some d → d.ownHolder? = some x →
          (Setting.ofFile options t file).1.holders.lookup d.site.id = some x.name := by
  obtain ⟨given, hgives, hentries, hown⟩ := Setting.holders_ofFile options t file
  have hentry : ∀ st ∈ file.statements, ∀ id ∈ st.visits.flatMap Visit.ids, ∀ name,
      (Setting.ofFile options t file).1.holders.lookup id = some name →
        ∃ d, st.dependence? = some d ∧
          (d.ownHolder?.map (·.name) = some name ∨ d.isDerived = true ∧ name ∈ given) := by
    intro st hst id hid name hlookup
    obtain ⟨before, after, hmem, -⟩ := List.lookup_eq_some_iff.mp hlookup
    obtain ⟨d, hd, rfl, hname⟩ := hentries (id, name) (by simp [hmem])
    exact ⟨d, SourceFile.dependence?_of_site hids hst hd hid, hname⟩
  refine ⟨given, hgives, fun st hst => ⟨hentry st hst, fun d x hdepends hholder => ?_⟩⟩
  have hmem := hown d (List.mem_filterMap.mpr ⟨st, hst, hdepends⟩) x hholder
  have hsome : (Setting.ofFile options t file).1.holders.lookup d.site.id ≠ none := fun hnone => by
    simpa using List.lookup_eq_none_iff.mp hnone _ hmem
  obtain ⟨held, hlookup⟩ := Option.ne_none_iff_exists'.mp hsome
  obtain ⟨d', hdepends', hheld⟩ := hentry st hst _ (Stmt.siteId_mem hdepends) held hlookup
  obtain rfl := Option.some.inj (hdepends.symm.trans hdepends')
  rcases hheld with hheld | ⟨hderived, -⟩
  · rw [hholder] at hheld
    rw [hlookup, ← Option.some.inj hheld]
  · rw [Dependence.isDerived_of_ownHolder? hholder] at hderived
    cases hderived

/-- An import that binds a namespace and nothing else is held under its own name; the holder of
any other import is made up. -/
theorem Setting.heldNames_ofFile (hids : file.ids.Nodup) (options : Options) (t : NameTable) :
    ∃ given, (Hoisting.ofFile file).supply.Gives given (Setting.ofFile options t file).2.supply ∧
      ∀ st ∈ file.statements,
        (st.ownVars t).map (·.name) ⊆ (Setting.ofFile options t file).1.heldNames st ∧
        ∀ name ∈ (Setting.ofFile options t file).1.heldNames st,
          name ∈ (st.ownVars t).map (·.name) ∨ name ∈ given := by
  obtain ⟨given, hgives, hholders⟩ := Setting.lookup_holders_ofFile hids options t
  refine ⟨given, hgives, fun st hst => ?_⟩
  have hsame : ∀ {names : List String}, names = (st.ownVars t).map (·.name) →
      (st.ownVars t).map (·.name) ⊆ names ∧
        ∀ name ∈ names, name ∈ (st.ownVars t).map (·.name) ∨ name ∈ given := by
    rintro _ rfl
    exact ⟨List.Subset.refl _, fun _ => .inl⟩
  cases st with
  | importEquals site isExported x kind value =>
    have hnames : (Setting.ofFile options t file).1.heldNames
        (.importEquals site isExported x kind value) =
          if t.importEqualsIsValue kind value then [x.name] else [] := rfl
    refine hsame (hnames.trans ?_)
    rw [Stmt.ownVars]
    split <;> rfl
  | importFrom site clause specifier isTypeOnly =>
    obtain ⟨hentry, hown⟩ := hholders _ hst
    refine ⟨fun name hname => ?_, fun name hname => ?_⟩
    · obtain ⟨x, hx, rfl⟩ := List.mem_map.mp hname
      obtain ⟨d, hdepends, rfl, hholder⟩ := Stmt.mem_ownVars_import.mp hx
      exact Option.mem_toList.mpr (hown d x hdepends hholder)
    · have hid : site.id ∈
          (Stmt.importFrom site clause specifier isTypeOnly).visits.flatMap Visit.ids := by
        simp [Stmt.visits_importFrom, Visit.ids]
      obtain ⟨d, hdepends, hheld⟩ := hentry site.id hid name (Option.mem_toList.mp hname)
      refine hheld.imp (fun hheld => ?_) And.right
      obtain ⟨x, hholder, rfl⟩ := Option.map_eq_some_iff.mp hheld
      exact List.mem_map_of_mem
        (Stmt.mem_ownVars_import.mpr ⟨d, hdepends, Stmt.site_of_import hdepends, hholder⟩)
  | var modifiers list => exact hsame rfl
  | classDecl modifiers c => exact hsame rfl
  | _ => exact hsame rfl

end holders

/-! ## What a registered function declares -/

/-- The name that a declaration gives no value. -/
def Declarator.bareName? : Declarator → Option String
  | ⟨.ident x, none⟩ => some x.name
  | _ => none

/-- The names that a statement declares with `var` and gives no value. -/
def Stmt.bareNames : Stmt → List String
  | .var _ list => list.declarators.filterMap Declarator.bareName?
  | _ => []

theorem bareNames_varNames (names : List String) : (Stmt.varNames names).bareNames = names := by
  simp [Stmt.varNames, Stmt.bareNames, List.filterMap_map, Declarator.ofName, Declarator.bareName?,
    Ident.synthetic, Function.comp_def]

theorem Frame.bareNames_variableStmt? (frame : Frame) :
    frame.variableStmt?.toList.flatMap Stmt.bareNames = frame.vars := by
  unfold variableStmt?
  split
  · next h => simpa using (List.isEmpty_iff.mp h).symm
  · rw [Option.toList_some, List.flatMap_singleton, bareNames_varNames]

namespace Lowered

/-- The statements of the registered function. -/
def body (l : Lowered) : List Stmt := l.statement.factory?.toList.flatMap (·.body)

/-- The variables that the registered function declares and gives no value. -/
def hoistedVars (l : Lowered) : List String := l.body.flatMap Stmt.bareNames

/-- The functions that the registered function declares. -/
def functionNames (l : Lowered) : List String := (l.body.filterMap Stmt.functionName?).map (·.name)

end Lowered

section assembled
variable {s : Setting} {groups : List Dependency} {execute : List Stmt} {p : Progress}
  {frame : Frame}

theorem Setting.body_assemble : (s.assemble groups execute p).body = s.body groups execute p := by
  simp [Lowered.body, factory?_assemble]

/-- What stands beside the hoisted declarations. -/
theorem Setting.prologue_parts (s : Setting) (frame : Frame) (calls : List Stmt)
    (needsRest : Bool) : ∃ opening binding rest, s.prologue frame calls needsRest =
        opening ++ frame.variableStmt?.toList ++ binding ++ frame.functions ++ calls ++ rest ∧
      ∀ st ∈ opening ++ binding ++ rest, st.bareNames = [] ∧ st.functionName? = none := by
  refine ⟨_, _, _, rfl, fun st hst => ?_⟩
  simp only [List.mem_append] at hst
  rcases hst with (hst | hst) | hst <;> split at hst <;> first
    | obtain rfl := List.mem_singleton.mp hst
      exact ⟨rfl, rfl⟩
    | cases hst

theorem StarExport.parts_define (s : Setting) (exportedNames : List String)
    (groups : List Dependency) (h : Hoisting) :
    (define s exportedNames groups h).2.1.flatMap Stmt.bareNames = [] ∧
      ((define s exportedNames groups h).2.1.filterMap Stmt.functionName?).map (·.name) ⊆
        (define s exportedNames groups h).2.1.filterMap Stmt.declaredName? := by
  unfold define
  split
  · exact ⟨rfl, List.Subset.refl _⟩
  · dsimp only
    split
    · exact ⟨rfl, List.Subset.refl _⟩
    · exact ⟨rfl, List.subset_cons_self _ _⟩

/-- The variables without a value are those that are hoisted, and the functions are those that are
hoisted and the helper for star exports. -/
theorem Setting.declarations_assemble (s : Setting) (groups : List Dependency)
    (execute : List Stmt) (hframe : p.hoisting.pop.1 = frame)
    (hfunctions : ∀ st ∈ frame.functions, ∃ modifiers f, st = .function modifiers f)
    (hcalls : ∀ st ∈ p.functionExports, st.IsExpr) :
    (s.assemble groups execute p).hoistedVars = frame.vars ∧
      ∃ stars ⊆ (s.starPart groups p).2.1.filterMap Stmt.declaredName?,
        (s.assemble groups execute p).functionNames = frame.functionNames ++ stars := by
  obtain ⟨opening, binding, rest, hprologue, hbeside⟩ :=
    s.prologue_parts frame p.functionExports p.needsRest
  obtain ⟨hstarVars, hstarNames⟩ :=
    StarExport.parts_define s p.exportedNames groups p.hoisting.pop.2
  have hbody : (s.assemble groups execute p).body = opening ++ frame.variableStmt?.toList ++
      binding ++ frame.functions ++ p.functionExports ++ rest ++ (s.starPart groups p).2.1 ++
        [.ret (some (result (s.setterPart groups p).1 execute))] := by
    rw [body_assemble, Setting.body, hframe, hprologue]
  have hbare : ∀ sts : List Stmt, (∀ st ∈ sts, st.bareNames = []) →
      sts.flatMap Stmt.bareNames = [] := fun _ => List.flatMap_eq_nil_iff.mpr
  have hnameless : ∀ sts : List Stmt, (∀ st ∈ sts, st.functionName? = none) →
      sts.filterMap Stmt.functionName? = [] := fun _ => List.filterMap_eq_nil_iff.mpr
  have hopening := fun st hst =>
    hbeside st (List.mem_append_left rest (List.mem_append_left binding hst))
  have hbinding := fun st hst =>
    hbeside st (List.mem_append_left rest (List.mem_append_right opening hst))
  have hrest := fun st hst => hbeside st (List.mem_append_right (opening ++ binding) hst)
  have hcall : ∀ st ∈ p.functionExports, st.bareNames = [] ∧ st.functionName? = none := by
    intro st hst
    obtain ⟨e, rfl⟩ := hcalls st hst
    exact ⟨rfl, rfl⟩
  refine ⟨?_, _, hstarNames, ?_⟩
  · have hfunction : ∀ st ∈ frame.functions, st.bareNames = [] := by
      intro st hst
      obtain ⟨modifiers, f, rfl⟩ := hfunctions st hst
      rfl
    rw [Lowered.hoistedVars, hbody]
    simp only [List.flatMap_append]
    rw [hbare opening fun st hst => (hopening st hst).1, frame.bareNames_variableStmt?,
      hbare binding fun st hst => (hbinding st hst).1, hbare frame.functions hfunction,
      hbare p.functionExports fun st hst => (hcall st hst).1,
      hbare rest fun st hst => (hrest st hst).1, starPart, hstarVars]
    simp [Stmt.bareNames]
  · have hvariable : ∀ st ∈ frame.variableStmt?.toList, st.functionName? = none := by
      intro st hst
      unfold Frame.variableStmt? at hst
      split at hst
      · cases hst
      · obtain rfl := List.mem_singleton.mp hst
        rfl
    rw [Lowered.functionNames, hbody]
    simp only [List.filterMap_append, List.map_append]
    rw [hnameless opening fun st hst => (hopening st hst).2, hnameless _ hvariable,
      hnameless binding fun st hst => (hbinding st hst).2,
      hnameless p.functionExports fun st hst => (hcall st hst).2,
      hnameless rest fun st hst => (hrest st hst).2]
    simp [Frame.functionNames, Stmt.functionName?, starPart]

end assembled

/-! ## The scope of the module -/

section scope
variable {options : Options} {file : SourceFile} {lowered : Lowered}

/-- The statements of the module hoist the variables of its scope, and else only names that are
made up. -/
theorem Setting.hoistedVars_ofFile (hids : file.ids.Nodup) (options : Options) : ∃ given,
    (Hoisting.ofFile file).supply.Gives given
        (Setting.ofFile options (.ofFile file) file).2.supply ∧
      file.hoistedVars.map (·.name) ⊆ file.statements.flatMap
        ((Setting.ofFile options (.ofFile file) file).1.hoistedVars .topLevel) ∧
      ∀ name ∈ file.statements.flatMap
          ((Setting.ofFile options (.ofFile file) file).1.hoistedVars .topLevel),
        name ∈ file.hoistedVars.map (·.name) ∨ name ∈ given := by
  obtain ⟨given, hgives, hheld⟩ := Setting.heldNames_ofFile hids options (.ofFile file)
  have htop : ∀ st, (Setting.ofFile options (.ofFile file) file).1.hoistedVars .topLevel st =
      st.varBindings.map (·.ident.name) ++
        (Setting.ofFile options (.ofFile file) file).1.heldNames st := fun _ => rfl
  refine ⟨given, hgives, fun name hname => ?_, fun name hname => ?_⟩
  · obtain ⟨x, hx, rfl⟩ := List.mem_map.mp hname
    obtain ⟨st, hst, hx⟩ := List.mem_flatMap.mp hx
    refine List.mem_flatMap.mpr ⟨st, hst, ?_⟩
    rw [htop]
    refine (List.mem_append.mp hx).elim (fun hvar => ?_) fun hown => ?_
    · obtain ⟨b, hb, rfl⟩ := List.mem_map.mp hvar
      exact List.mem_append_left _ (List.mem_map_of_mem hb)
    · exact List.mem_append_right _ ((hheld st hst).1 (List.mem_map_of_mem hown))
  · obtain ⟨st, hst, hname⟩ := List.mem_flatMap.mp hname
    have hmem : ∀ x ∈ st.varBindings.map (·.ident) ++ st.ownVars (.ofFile file),
        x.name ∈ file.hoistedVars.map (·.name) := fun x hx =>
      List.mem_map_of_mem (List.mem_flatMap.mpr ⟨st, hst, hx⟩)
    rw [htop] at hname
    rcases List.mem_append.mp hname with hvar | hheldName
    · obtain ⟨b, hb, rfl⟩ := List.mem_map.mp hvar
      exact .inl (hmem _ (List.mem_append_left _ (List.mem_map_of_mem hb)))
    · refine ((hheld st hst).2 name hheldName).imp_left fun hown => ?_
      obtain ⟨x, hx, rfl⟩ := List.mem_map.mp hown
      exact hmem x (List.mem_append_right _ hx)

theorem SourceFile.flatMap_hoistedFunctions (file : SourceFile) :
    file.statements.flatMap (·.hoistedFunctions .topLevel) =
      file.hoistedFunctions.map (·.name) := by
  rw [SourceFile.hoistedFunctions, List.map_filterMap, List.filterMap_eq_flatMap_toList]
  rfl

/-- What a lowered module declares is what its statements hoist, and the helper for star exports. -/
theorem lower_gains {t : NameTable} (hheads : SingleHeads (stmtsWithin file.statements))
    (h : lower options t file = .ok lowered) : ∃ frame given stars supply,
      supplyAfter options t file = .ok supply ∧
      (Setting.ofFile options t file).2.supply.Gives given supply ∧
      Frame.Gains given
        (file.statements.flatMap ((Setting.ofFile options t file).1.hoistedVars .topLevel))
        (file.hoistedFunctions.map (·.name)) {} frame ∧
      stars ⊆ given ∧ lowered.hoistedVars = frame.vars ∧
      lowered.functionNames = frame.functionNames ++ stars := by
  obtain ⟨groups, execute, p, hgroups, hrun, rfl⟩ := lower_parts h
  obtain ⟨inner, hhoisting, hcalls⟩ :=
    lowerStmts_hoists file.statements .topLevel (fun _ => hheads) hrun
  obtain ⟨frame, hframes, hgains⟩ := hhoisting.frames (frames_setting options t file)
  have hframe : p.hoisting.pop.1 = frame := by
    unfold Hoisting.pop
    rw [hframes]
  obtain ⟨hvars, stars, hstars, hfunctions⟩ := Setting.declarations_assemble
    (Setting.ofFile options t file).1 groups execute hframe
    (fun st hst => (hgains.added st hst).resolve_left (List.not_mem_nil))
    fun st hst => (hcalls st hst).resolve_left (List.not_mem_nil)
  have hhelpers := StarExport.gives_define (Setting.ofFile options t file).1 p.exportedNames groups
    p.hoisting.pop.2
  rw [Hoisting.supply_pop] at hhelpers
  obtain ⟨parameters, hparameters, -⟩ := Setting.gives_setters
    (Setting.ofFile options t file).1
    ((Setting.ofFile options t file).1.starPart groups p).1 groups
    ((Setting.ofFile options t file).1.starPart groups p).2.2
  rw [file.flatMap_hoistedFunctions] at hgains
  refine ⟨frame, _, stars, ((Setting.ofFile options t file).1.setterPart groups p).2.supply, ?_,
    hhoisting.gives.append (hhelpers.append hparameters),
    hgains.weaken (List.subset_append_left _ _), ?_, hvars, hfunctions⟩
  · unfold supplyAfter
    simp only [hgroups, hrun, bind, Except.bind]
    rfl
  · exact fun name hname => List.mem_append_right _ (List.mem_append_left _ (hstars hname))

/-- The registered function declares the given variables and functions of the module's scope, each
once, and otherwise names that are made up. -/
structure SourceFile.Hoisted (file : SourceFile) (lowered : Lowered)
    (vars functions given : List String) : Prop where
  /-- A repeated `var` is declared once. -/
  nodup : lowered.hoistedVars.Nodup
  varNames : ∃ made ⊆ given, lowered.hoistedVars.Perm (vars ++ made)
  functionNames : ∃ made ⊆ given, lowered.functionNames.Perm (functions ++ made)
  /-- No name of the module is declared both as a variable and as a function. -/
  once : (vars ++ functions).Nodup
  scope : ∀ name, name ∈ vars ++ functions ↔
    ∃ symbol, (NameTable.ofFile file).moduleSymbol? name = some symbol ∧ file.HoistsSymbol symbol
  /-- A `var` is declared from any depth of statements. -/
  nested : ∀ b ∈ blockVarBindings file.statements, b.ident.name ∈ vars

/-- A name that is not made up is declared once if it is hoisted, and else not at all. -/
theorem SourceFile.Hoisted.count_eq {vars functions given : List String} {name : String}
    (h : file.Hoisted lowered vars functions given) (hname : name ∉ given) :
    (lowered.hoistedVars ++ lowered.functionNames).count name =
      if name ∈ vars ++ functions then 1 else 0 := by
  obtain ⟨made, hmade, hvars⟩ := h.varNames
  obtain ⟨madeFunctions, hmadeFunctions, hfunctions⟩ := h.functionNames
  have hnone : made.count name = 0 := List.count_eq_zero.mpr (mt (@hmade name) hname)
  have hnoFunction : madeFunctions.count name = 0 :=
    List.count_eq_zero.mpr (mt (@hmadeFunctions name) hname)
  rw [← h.once.count, List.count_append, hvars.count_eq, hfunctions.count_eq, List.count_append,
    List.count_append, List.count_append, hnone, hnoFunction, Nat.add_zero, Nat.add_zero]

/-- The registered function declares what is hoisted from the module's scope, each name once, and
otherwise names that are made up. While fewer names are in use than are tried for one, those are no
texts of the file, so that no other name of the file is declared. -/
theorem lower_hoisted (hids : file.ids.Nodup) (hd : file.DeclaresOnce)
    (hheads : SingleHeads (stmtsWithin file.statements))
    (h : lower options (.ofFile file) file = .ok lowered) : ∃ vars functions given supply,
      file.Hoisted lowered vars functions given ∧
      supplyAfter options (.ofFile file) file = .ok supply ∧
      (Hoisting.ofFile file).supply.Gives given supply ∧
      (supply.used.size < maxNameAttempts → ∀ name ∈ file.texts, name ∉ given ∧
        (lowered.hoistedVars ++ lowered.functionNames).count name =
          if name ∈ vars ++ functions then 1 else 0) := by
  obtain ⟨frame, inner, stars, supply, hsupply, hinner, hgains, hstars, hvars, hfunctions⟩ :=
    lower_gains hheads h
  obtain ⟨held, hheld, hown, hmem⟩ := Setting.hoistedVars_ofFile hids options
  have hgives := hheld.append hinner
  obtain ⟨made, hmade, hframeVars⟩ := hgains.vars
  obtain ⟨madeFunctions, hmadeFunctions, hframeFunctions⟩ := hgains.functions
  have hidents : ((identsIn file.visits).map (·.id)).Nodup := hids.sublist (identIds_sublist _)
  obtain ⟨hdistinct, happart⟩ := hd.hoisted
  have hnodup : frame.vars.Nodup := hgains.nodup List.nodup_nil
  -- The variables that the module names itself are told apart from those that are made up.
  let isOwn : String → Bool := fun name => decide (name ∈ file.hoistedVars.map (·.name))
  have hfilter : ∀ name, name ∈ frame.vars.filter isOwn ↔
      ∃ x ∈ file.hoistedVars, x.name = name := by
    intro name
    rw [List.mem_filter, decide_eq_true_iff, List.mem_map, hframeVars]
    exact and_iff_right_of_imp fun hname => .inr (.inl (hown (List.mem_map.mpr hname)))
  have hmadeVars : frame.vars.filter (fun name => !isOwn name) ⊆ held ++ inner := by
    intro name hname
    obtain ⟨hname, hnot⟩ := List.mem_filter.mp hname
    have hnot : name ∉ file.hoistedVars.map (·.name) := by simpa [isOwn] using hnot
    rcases (hframeVars name).mp hname with hnone | hhoisted | hmadeName
    · cases hnone
    · exact List.mem_append_left _ ((hmem name hhoisted).resolve_left hnot)
    · exact List.mem_append_right _ (hmade hmadeName)
  have hdisjoint : (frame.vars.filter isOwn).Disjoint (file.hoistedFunctions.map (·.name)) := by
    intro name hvar hfunction
    obtain ⟨x, hx, rfl⟩ := (hfilter name).mp hvar
    obtain ⟨y, hy, hname⟩ := List.mem_map.mp hfunction
    exact happart x hx y hy hname.symm
  have hhoisted : file.Hoisted lowered (frame.vars.filter isOwn)
      (file.hoistedFunctions.map (·.name)) (held ++ inner) := by
    refine ⟨?nodup, ⟨_, hmadeVars, ?vars⟩, ⟨madeFunctions ++ stars, ?made, ?functions⟩, ?once,
      ?scope, ?nested⟩
    case nodup => exact hvars ▸ hnodup
    case vars => exact hvars ▸ (List.filter_append_perm isOwn frame.vars).symm
    case made =>
      have hboth : madeFunctions ++ stars ⊆ inner :=
        List.append_subset.mpr ⟨hmadeFunctions, hstars⟩
      exact List.Subset.trans hboth (List.subset_append_right held inner)
    case functions =>
      have hall := hframeFunctions.append_right stars
      rw [hfunctions]
      simpa [Frame.functionNames] using hall
    case once => exact (hnodup.filter isOwn).append hdistinct hdisjoint
    case scope =>
      intro name
      rw [← file.mem_hoisted_iff hidents hd name, List.mem_append, hfilter, List.mem_map]
      simp only [List.mem_append, or_and_right, exists_or]
    case nested =>
      intro b hb
      obtain ⟨st, hst, hb⟩ := mem_blockVarBindings.mp hb
      refine (hfilter _).mpr ⟨b.ident, List.mem_flatMap.mpr ⟨st, hst, ?_⟩, rfl⟩
      exact List.mem_append_left _ (List.mem_map_of_mem hb)
  refine ⟨_, _, _, supply, hhoisted, hsupply, hgives, fun hsize name htext => ?_⟩
  have hnew : name ∉ held ++ inner := fun hgiven => by
    have hunused := (hgives.fresh hsize).2 name hgiven
    rw [(file.isUsed_iff name).mpr htext] at hunused
    cases hunused
  exact ⟨hnew, hhoisted.count_eq hnew⟩

/-- `import * as ns from "n"; import { a } from "m"; import alias = ns.value;
for (var k in a) { let inner = k; var x = inner; }
const [y] = a; export default function () { var local; } function f() {} class C {}`, with another
`var x;` under a label. -/
def hoistingModule : SourceFile where
  id := .numbered 40
  name := "hoisting.ts"
  statements := [
    .importFrom ⟨.numbered 30, {}⟩ (some ⟨none, some (.star ⟨.numbered 0, "ns"⟩)⟩) (.ofString "n")
      false,
    .importFrom ⟨.numbered 31, {}⟩
      (some ⟨none, some (.named [⟨none, ⟨.numbered 1, "a"⟩, false⟩])⟩) (.ofString "m") false,
    .importEquals ⟨.numbered 32, {}⟩ false ⟨.numbered 2, "alias"⟩ .entity
      ((Expr.ident ⟨.numbered 3, "ns"⟩).dot "value"),
    .forIn (.var ⟨.var, [⟨.ident ⟨.numbered 4, "k"⟩, none⟩]⟩) (.ident ⟨.numbered 5, "a"⟩) (.block [
      .var {} ⟨.let, [⟨.ident ⟨.numbered 6, "inner"⟩, some (.ident ⟨.numbered 7, "k"⟩)⟩]⟩,
      .var {} ⟨.var, [⟨.ident ⟨.numbered 8, "x"⟩, some (.ident ⟨.numbered 9, "inner"⟩)⟩]⟩]),
    .var {} ⟨.const, [⟨.array [some ⟨.ident ⟨.numbered 10, "y"⟩, none⟩] none,
      some (.ident ⟨.numbered 11, "a"⟩)⟩]⟩,
    .function { isExported := true, isDefault := true } ⟨none, [],
      [.var {} ⟨.var, [⟨.ident ⟨.numbered 12, "local"⟩, none⟩]⟩], false, false⟩,
    .function {} ⟨some ⟨.numbered 13, "f"⟩, [], [], false, false⟩,
    .classDecl {} ⟨some ⟨.numbered 14, "C"⟩, none, []⟩,
    .labeled "l" (.block [.var {} ⟨.var, [⟨.ident ⟨.numbered 15, "x"⟩, none⟩]⟩])]

theorem singleHeads_hoistingModule : SingleHeads (stmtsWithin hoistingModule.statements) := by
  refine List.forall_iff_forall_mem.mp ⟨nofun, nofun, nofun, ?_, nofun, nofun, nofun, nofun, nofun,
    nofun, nofun, nofun, nofun, nofun⟩
  -- the one loop
  rintro _ _ ⟨⟩
  exact Nat.le_refl 1

/-- Beside the names of its scope, a module declares one holder and one function of its default
export. The variables of the loop body and of the function are not hoisted. -/
theorem lower_hoisted_nested : ∃ lowered,
    lower {} (.ofFile hoistingModule) hoistingModule = .ok lowered ∧
      lowered.hoistedVars = ["ns", "m_1", "alias", "k", "x", "y", "C"] ∧
      lowered.functionNames = ["default_1", "f"] ∧
      hoistingModule.ids.Nodup ∧ hoistingModule.DeclaresOnce ∧
      SingleHeads (stmtsWithin hoistingModule.statements) ∧
      ∃ vars functions given supply, hoistingModule.Hoisted lowered vars functions given ∧
        supplyAfter {} (.ofFile hoistingModule) hoistingModule = .ok supply ∧
        (Hoisting.ofFile hoistingModule).supply.Gives given supply ∧
        (supply.used.size < maxNameAttempts → ∀ name ∈ hoistingModule.texts, name ∉ given ∧
          (lowered.hoistedVars ++ lowered.functionNames).count name =
            if name ∈ vars ++ functions then 1 else 0) := by
  obtain ⟨lowered, h, hvars, hfunctions⟩ : ∃ lowered,
      lower {} (.ofFile hoistingModule) hoistingModule = .ok lowered ∧
        lowered.hoistedVars = ["ns", "m_1", "alias", "k", "x", "y", "C"] ∧
        lowered.functionNames = ["default_1", "f"] := exists_ok (by decide +kernel)
  exact ⟨lowered, h, hvars, hfunctions, by decide, ⟨by decide, by decide⟩,
    singleHeads_hoistingModule, lower_hoisted (by decide) ⟨by decide, by decide⟩
      singleHeads_hoistingModule h⟩

end scope
end RegisterForm
