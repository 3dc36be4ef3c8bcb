import RegisterForm.Proofs.Bounds.Noted
import RegisterForm.Proofs.Fresh.Module
import RegisterForm.Proofs.Fresh.Source
/-!
# Precedence of own names

A module that forwards all names of another lists the names that it publishes itself: those that
its statements noted, and those of its other re-exports. Everything that is published anywhere in
the registered function is in that list, save for `default`.
-/
namespace RegisterForm
open Lowering NameTable

/-! ## The list -/

namespace StarExport

/-- The names that a module publishes itself. -/
def ownNames (exportedNames : List String) (groups : List Dependency) : List String :=
  exportedNames ++ (clauses groups).flatMap namesOf

/-- The list is built name by name; `default` and what stands in it already is left out. -/
theorem foldl_precedence (names seen : List String) (hseen : seen.Nodup) :
    (names.foldl (fun seen name =>
        if name == "default" || seen.contains name then seen else seen ++ [name]) seen).Nodup ∧
      ∀ name, name ∈ names.foldl (fun seen name =>
          if name == "default" || seen.contains name then seen else seen ++ [name]) seen ↔
        name ∈ seen ∨ name ∈ names ∧ name ≠ "default" := by
  induction names generalizing seen with
  | nil => simpa using hseen
  | cons first names ih =>
    rw [List.foldl_cons]
    by_cases hskip : (first == "default" || seen.contains first) = true
    · rw [if_pos hskip]
      obtain ⟨hnodup, hmem⟩ := ih seen hseen
      refine ⟨hnodup, fun name => (hmem name).trans ?_⟩
      rw [Bool.or_eq_true, beq_iff_eq, List.contains_iff_mem] at hskip
      grind
    · rw [if_neg hskip]
      rw [Bool.or_eq_true, beq_iff_eq, List.contains_iff_mem] at hskip
      have hnew : (seen ++ [first]).Nodup := by
        rw [← List.concat_eq_append]
        exact hseen.concat fun hold => hskip (.inr hold)
      obtain ⟨hnodup, hmem⟩ := ih _ hnew
      refine ⟨hnodup, fun name => (hmem name).trans ?_⟩
      grind

theorem nodup_precedence (names : List String) : (precedence names).Nodup :=
  (foldl_precedence names [] List.nodup_nil).1

theorem mem_precedence {names : List String} {name : String} :
    name ∈ precedence names ↔ name ∈ names ∧ name ≠ "default" :=
  ((foldl_precedence names [] List.nodup_nil).2 name).trans (by simp)

end StarExport

/-! ## Star exports in the interface -/

namespace Interface
variable {t : NameTable} (i : Interface)

@[simp] theorem hasStar_addExport (d : NodeId) (name : String) :
    (i.addExport d name).hasStar = i.hasStar := by
  unfold addExport
  split <;> rfl

@[simp] theorem hasStar_addNamed (modifiers : Modifiers) (name : Ident) :
    (i.addNamed modifiers name).hasStar = i.hasStar := by
  unfold addNamed
  split <;> simp

@[simp] theorem hasStar_addFunction (d : NodeId) : (i.addFunction d).hasStar = i.hasStar := by
  unfold addFunction
  split <;> rfl

theorem hasStar_addSpecifier (spec : ExportSpecifier) :
    (i.addSpecifier t spec).hasStar = i.hasStar := by
  unfold addSpecifier
  split
  · dsimp only
    split <;> simp
  · rfl

/-- No statement takes back that names are forwarded. -/
theorem hasStar_addStmt (s : Stmt) (h : i.hasStar = true) : (i.addStmt t s).hasStar = true := by
  cases s with
  | importFrom | classDecl =>
    simp only [addStmt]
    split <;> simpa [addDependence] using h
  | importEquals site isExported x kind value =>
    cases kind <;> simp only [addStmt] <;> split <;> simpa [addDependence] using h
  | exportFrom site clause specifier isTypeOnly =>
    cases isTypeOnly with
    | true => exact h
    | false =>
      cases specifier with
      | some specifier =>
        simp only [addStmt]
        split <;> simp [addDependence, h]
      | none =>
        rcases clause with _ | specs | x
        · exact h
        · exact (part_foldl (fun i spec => hasStar_addSpecifier i spec) specs i).trans h
        · exact h
  | exportValue site form value => cases form <;> exact h
  | var modifiers list =>
    simp only [addStmt]
    split
    · exact (part_foldl (fun i (x : Ident) => hasStar_addExport i x.id x.name) _ i).trans h
    · exact h
  | function modifiers f =>
    simp only [addStmt]
    split <;> simpa using h
  | _ => exact h

theorem hasStar_ofFile {file : SourceFile} {site : Site} {specifier : Expr}
    (hstar : .exportFrom site none (some specifier) false ∈ file.statements) :
    (ofFile t file).hasStar = true := by
  have hkept : ∀ (sts : List Stmt) (i : Interface), i.hasStar = true →
      (sts.foldl (addStmt t) i).hasStar = true := by
    intro sts
    induction sts with
    | nil => exact fun i => id
    | cons st sts ih => exact fun i hi => ih _ (hasStar_addStmt i st hi)
  obtain ⟨before, after, hsplit⟩ := List.append_of_mem hstar
  rw [ofFile, hsplit, List.foldl_append, List.foldl_cons]
  apply hkept
  simp [addStmt, addDependence]

end Interface

/-! ## The parts of the registered function -/

namespace Setting
variable {s : Setting} {A : Allowance}

/-- A tree that does not call the exporter. -/
theorem keeps_of_covers {V : Vocabulary} {vs : List Visit} (hV : ¬ V.calls (.synthetic s.exporter))
    (h : V.Covers vs) : s.Keeps A vs := by
  intro v hv
  cases v with
  | expr e =>
    rintro args ⟨⟨callee, isOptional, rfl, hcallee⟩, -⟩
    refine absurd ((h _ hv).calls (.synthetic s.exporter) ?_) hV
    simp [Visit.called?, Expr.called?, hcallee, Expr.ofName, Expr.ident?]
  | _ => exact trivial

/-- A call that publishes several values at once. -/
theorem keeps_publishAll {ps : List Property} (h : ∀ p ∈ ps, ∃ name value,
      p = .ofString name value ∧ A.publishes name ∧ s.Keeps A value.visits) :
    s.Keeps A (stmtsVisits (s.publishAll ps)) := by
  have hobject : (∃ names, ps.mapM Property.stringKey? = some names ∧
      ∀ name ∈ names, A.publishes name) ∧ s.Keeps A (propertiesVisits ps) := by
    induction ps with
    | nil => exact ⟨⟨[], rfl, List.forall_mem_nil _⟩, keeps_nil⟩
    | cons p ps ih =>
      obtain ⟨⟨name, value, rfl, hname, hvalue⟩, hps⟩ := List.forall_mem_cons.mp h
      obtain ⟨⟨names, hnames, hall⟩, hvisits⟩ := ih hps
      refine ⟨⟨name :: names, ?_, List.forall_mem_cons.mpr ⟨hname, hall⟩⟩, ?_⟩
      · simp [List.mapM_cons, hnames, Property.ofString, Property.stringKey?]
      · simpa [propertiesVisits, Property.ofString, Property.visits, Key.visits] using
          And.intro hvalue hvisits
  unfold publishAll
  split
  · exact keeps_nil
  · next p ps =>
    obtain ⟨⟨names, hnames, hall⟩, hvisits⟩ := hobject
    have hcall : (Visit.expr ((Expr.ofName s.exporter).apply [.object (p :: ps)])).Announces s
        A.publishes := by
      rintro args ⟨⟨callee, isOptional, he, -⟩, -⟩
      obtain rfl : [Expr.object (p :: ps)] = args := (Expr.call.inj he).2.1
      exact ⟨names, hnames, hall⟩
    refine keeps_append.mpr ⟨?_, keeps_nil⟩
    exact .cons trivial (.cons hcall (.append (keeps_ofName _) (.oneExpr (.expr rfl hvisits))))

theorem keeps_importedValue (parameter : String) (kind : ImportKind) :
    s.Keeps A (importedValue parameter kind).visits := by
  cases kind <;> simp [importedValue]

theorem keeps_keep (name parameter : String) : s.Keeps A (keep name parameter).visits := by
  exact .cons trivial ((keeps_assignTo _ _).mpr ⟨keeps_identPattern _, keeps_ofName _⟩)

/-- The helper for object rests calls methods only. -/
theorem keeps_rest : s.Keeps A Rest.define.visits := by
  have hhelpers : Vocabulary.KnowsHelpers ⟨fun _ => True, fun _ => True, fun _ => False⟩ :=
    ⟨fun _ _ => ⟨trivial, trivial⟩, trivial⟩
  exact keeps_of_covers id (hhelpers.covers_rest ⟨trivial, trivial⟩)

theorem keeps_prologue {frame : Frame} {functionExports : List Stmt} (needsRest : Bool)
    (hframe : ∀ st ∈ frame.functions, s.Keeps A st.visits)
    (hexports : ∀ st ∈ functionExports, s.Keeps A st.visits) :
    s.Keeps A (stmtsVisits (s.prologue frame functionExports needsRest)) := by
  have hvars : s.Keeps A (stmtsVisits frame.variableStmt?.toList) := by
    unfold Frame.variableStmt?
    split
    · exact keeps_nil
    · exact keeps_append.mpr ⟨keeps_varNames _, keeps_nil⟩
  simp only [prologue, NameTable.stmtsVisits_append, keeps_append]
  refine ⟨⟨⟨⟨⟨?_, hvars⟩, ?_⟩, keeps_stmtsVisits hframe⟩, keeps_stmtsVisits hexports⟩, ?_⟩
  · split
    · exact .exprStmt (keeps_ofString _)
    · exact keeps_nil
  · split
    · have hid : s.Keeps A ((Expr.ofName s.context).dot "id").visits :=
        (keeps_dot _ _).mpr (keeps_ofName _)
      have hvalue : s.Keeps A
          (Expr.binary .and (.ofName s.context) ((Expr.ofName s.context).dot "id")).visits :=
        .expr rfl ((keeps_ofName _).append hid)
      exact .one (.cons trivial (.append (.append (keeps_identPattern _) hvalue) keeps_nil))
    · exact keeps_nil
  · split
    · exact keeps_append.mpr ⟨keeps_rest, keeps_nil⟩
    · exact keeps_nil

/-- What a setter does for one statement: it publishes the names of local clauses, the own name of
an exported import assignment and the names of a re-export. -/
theorem keeps_serve {star : Option String} {parameter : String} {d : Dependence}
    (hstar : ∀ name, star = some name → name ≠ s.exporter)
    (hspecifiers : ∀ spec ∈ s.interface.specifiers, A.publishes spec.exportedName)
    (hequals : ∀ x, d.form = .equals x true → A.publishes x.name)
    (hclause : ∀ clause, d.form = .exporting (some clause) →
      ∀ name ∈ StarExport.namesOf clause, A.publishes name) :
    s.Keeps A (stmtsVisits (s.serve star parameter d)) := by
  have hreexports : ∀ x, ∀ p ∈ s.reexports d.site.id parameter x, ∃ name value,
      p = .ofString name value ∧ A.publishes name ∧ s.Keeps A value.visits := by
    intro x p hp
    unfold reexports at hp
    split at hp
    · cases hp
    · next origin _ =>
      split at hp
      · obtain ⟨spec, hspec, rfl⟩ := List.mem_map.mp hp
        have hmem := List.mem_of_mem_filter (List.mem_of_mem_filter hspec)
        exact ⟨_, _, rfl, hspecifiers spec hmem, keeps_importedValue _ _⟩
      · cases hp
  unfold serve
  cases hform : d.form with
  | importing clause =>
    cases clause with
    | none => exact keeps_nil
    | some clause =>
      dsimp only
      rw [NameTable.stmtsVisits_append, keeps_append]
      refine ⟨keeps_stmtsVisits fun st hst => ?_, keeps_publishAll fun p hp => ?_⟩
      · obtain ⟨name, -, rfl⟩ := List.mem_map.mp hst
        exact keeps_keep name parameter
      · obtain ⟨x, -, hp⟩ := List.mem_flatMap.mp hp
        exact hreexports x p hp
  | equals x isExported =>
    dsimp only
    rw [List.cons_append, stmtsVisits, NameTable.stmtsVisits_append, keeps_append, keeps_append]
    refine ⟨keeps_keep x.name parameter, ?_, keeps_publishAll (hreexports x)⟩
    cases isExported with
    | false => exact keeps_nil
    | true =>
      have hcall := keeps_publish (hequals x hform) (keeps_ofName (s := s) (A := A) parameter)
      exact .exprStmt hcall
  | exporting clause =>
    cases clause with
    | none =>
      refine keeps_stmtsVisits fun st hst => ?_
      obtain ⟨helper, hhelper, rfl⟩ := List.mem_map.mp hst
      have hne := hstar helper (Option.mem_toList.mp hhelper)
      have hother : (Expr.ofName helper).skipParens ≠ .ofName s.exporter :=
        fun h => hne (congrArg Ident.name (Expr.ident.inj h))
      refine .cons trivial ((keeps_call (not_callsExporter hother)).mpr ?_)
      exact ⟨keeps_ofName _, .oneExpr (keeps_ofName _)⟩
    | some clause =>
      have hnames := hclause clause hform
      cases clause with
      | named specifiers =>
        refine keeps_publishAll fun p hp => ?_
        obtain ⟨spec, hspec, rfl⟩ := List.mem_map.mp hp
        exact ⟨_, _, rfl, hnames _ (List.mem_map_of_mem hspec), by simp⟩
      | star x =>
        have hcall := keeps_publish (hnames x.name (List.mem_singleton_self _))
          (keeps_ofName (s := s) (A := A) parameter)
        exact .exprStmt hcall

theorem keeps_functionOf (params : List String) {body : List Stmt}
    (hbody : s.Keeps A (stmtsVisits body)) :
    s.Keeps A (Expr.functionOf none (params.map .ofName) body).visits := by
  have hparams : s.Keeps A (paramsVisits (params.map Param.ofName)) := by
    induction params with
    | nil => exact keeps_nil
    | cons name params ih =>
      refine keeps_append.mpr ⟨?_, ih⟩
      simp [Param.ofName, Param.ofPattern, Param.visits, exprVisits?]
  exact .expr rfl (.cons trivial (.append (.append keeps_nil hparams) hbody))

theorem keeps_setters {star : Option String} : ∀ (groups : List Dependency) (h : Hoisting),
    (∀ group ∈ groups, ∀ d ∈ group.uses, ∀ parameter,
      s.Keeps A (stmtsVisits (s.serve star parameter d))) →
    s.Keeps A (exprsVisits (s.setters star groups h).1)
  | [], _, _ => keeps_nil
  | group :: groups, h, hserve => by
    obtain ⟨hgroup, hgroups⟩ := List.forall_mem_cons.mp hserve
    rw [setters]
    refine keeps_append.mpr ⟨?_, keeps_setters groups _ hgroups⟩
    refine keeps_functionOf [_] (keeps_stmtsVisits fun st hst => ?_)
    obtain ⟨d, hd, hst⟩ := List.mem_flatMap.mp hst
    exact fun v hv => hgroup d hd _ v (stmt_visits_subset hst hv)

/-- What the registered function returns. -/
theorem keeps_result {setters : List Expr} {execute : List Stmt}
    (hsetters : s.Keeps A (exprsVisits setters)) (hexecute : s.Keeps A (stmtsVisits execute)) :
    s.Keeps A (result setters execute).visits := by
  have hfunction := keeps_functionOf [] hexecute
  exact .expr rfl (.append (.cons trivial (keeps_arrayOf hsetters))
    (.append (.cons trivial hfunction) keeps_nil))

end Setting

/-! ## The module -/

namespace StarExport

theorem mem_clauses {groups : List Dependency} {group : Dependency} (hgroup : group ∈ groups)
    {d : Dependence} (hd : d ∈ group.uses) {clause : ExportClause}
    (hform : d.form = .exporting (some clause)) : clause ∈ clauses groups := by
  refine List.mem_filterMap.mpr ⟨d, List.mem_flatMap.mpr ⟨group, hgroup, hd⟩, ?_⟩
  rw [hform]

/-- The helper has a name of its own, unlike the exporter. -/
theorem define_ne_exporter (options : Options) (file : SourceFile) {exportedNames : List String}
    {groups : List Dependency} {h : Hoisting} {name : String}
    (hname : (define (Setting.ofFile options (ofFile file) file).1 exportedNames groups h).1 =
      some name) : name ≠ (Setting.ofFile options (ofFile file) file).1.exporter := by
  have hnumbered : ∃ n, name = NameSupply.numbered "exportStar_" n := by
    unfold define at hname
    split at hname
    · cases hname
    · dsimp only at hname
      split at hname
      · exact ⟨_, (Option.some.inj hname).symm⟩
      · exact ⟨_, (Option.some.inj hname).symm⟩
  obtain ⟨n, rfl⟩ := hnumbered
  intro h
  have hletter := congrArg (fun name : String => name.toList[6]?) h
  simp [Setting.ofFile, Setting.ofState, FileState.ofFile, Hoisting.unique, NameSupply.unique, NameSupply.numbered,
    NameSupply.numberedStem] at hletter

end StarExport

/-- Functions collected from nothing have the property that all collected ones have. -/
theorem Hoisting.Grows.of_empty {P : Stmt → Prop} {h h' : Hoisting} (hgrows : h.Grows P h')
    (hempty : h.frames = [{}]) : ∀ st ∈ h'.pop.1.functions, P st := by
  have hpush : h.frames = (Hoisting.push {}).frames := hempty
  unfold Hoisting.Grows at hgrows
  rw [hpush] at hgrows
  exact (Hoisting.Grows.of_push (h := {}) hgrows).2

section module
variable {file : SourceFile} {options : Options} (hw : file.WellNumbered) (hf : file.IsFlat)
  (hd : file.DeclaresOnce)
include hw hf hd

/-- The source of a module publishes nothing but what its statements note. -/
theorem allowsAll_source (haliases : file.SparesAliases) {A : Allowance}
    (hassigns : A.assigns = file.IsNoAlias) (hdefault : A.publishes "default")
    (hnoted : ∀ name ∈ file.statements.flatMap
      (Setting.ofFile options (ofFile file) file).1.noted, A.publishes name) :
    (Setting.ofFile options (ofFile file) file).1.AllowsAll A file.visits := by
  intro v hv
  refine ⟨fun x hx => hassigns ▸ haliases v hv x hx, fun x hx hassigned name hname => ?_, ?_⟩
  · have hident : x ∈ identsIn file.visits := List.mem_filterMap.mpr ⟨v, hv, hx⟩
    have hcases := (noted_of_exportNames hw hf hd hident hname).resolve_right ?_
    · rcases hcases with rfl | hname
      · exact hdefault
      · exact hnoted name hname
    · rintro ⟨site, y, kind, value, hst, -, -, hsame⟩
      rw [hassigns] at hassigned
      exact hassigned _ hst y rfl hsame
  · intro hcalled
    have hknown : Vocabulary.KnowsAll ⟨fun _ => True, fun _ => True, (· ∈ identsIn file.visits)⟩
        file.visits := fun x hx => ⟨trivial, trivial, hx⟩
    have hmem := (covers_known_stmts file.statements hknown v hv).calls _ hcalled
    cases hw.not_synthetic hmem

variable (haliases : file.SparesAliases) {groups : List Dependency} {execute : List Stmt}
  {p : Progress}
  (hgroups : Dependency.group file
    (Setting.ofFile options (ofFile file) file).1.interface.dependences = .ok groups)
  (hrun : (lowerStmts (Setting.ofFile options (ofFile file) file).1 .topLevel file.statements).run
    { hoisting := (Setting.ofFile options (ofFile file) file).2 } = .ok (execute, p))
include haliases hrun

/-- The names that the statements of the module note are noted at the end. -/
theorem noted_subset : file.statements.flatMap (Setting.ofFile options (ofFile file) file).1.noted ⊆
    p.exportedNames := by
  set s := (Setting.ofFile options (ofFile file) file).1
  let A : Allowance := ⟨fun _ => True, file.IsNoAlias, fun _ => True⟩
  have hsource : s.AllowsAll A file.visits :=
    allowsAll_source hw hf hd haliases rfl trivial fun _ _ => trivial
  have hparts : ∀ st ∈ file.statements, s.AllowsAll A st.visits.tail := fun st hst v hv =>
    hsource v (stmt_visits_subset hst (List.mem_of_mem_tail hv))
  have hreports := reports_lowerStmts (P := True) (exporter_ne_restName options file) trivial
    (fun _ => trivial) file.statements hparts fun _ _ _ _ _ _ => trivial
  exact (hreports.notes hrun).2

include hgroups

/-- What the registered function publishes outside the helper for star exports is named `default` or
is an own name of the module. -/
theorem keeps_parts {A : Allowance} (hA : A = ⟨fun _ => True, file.IsNoAlias, fun name =>
      name = "default" ∨ name ∈ StarExport.ownNames p.exportedNames groups⟩) :
    (Setting.ofFile options (ofFile file) file).1.Keeps A (stmtsVisits
        ((Setting.ofFile options (ofFile file) file).1.prologue p.hoisting.pop.1 p.functionExports
          p.needsRest)) ∧
      (Setting.ofFile options (ofFile file) file).1.Keeps A (Setting.result
        ((Setting.ofFile options (ofFile file) file).1.setterPart groups p).1 execute).visits := by
  have hnoted := noted_subset hw hf hd haliases hrun
  have hgranted : ∀ name ∈ p.exportedNames, A.publishes name := by
    intro name hname
    rw [hA]
    exact .inr (List.mem_append_left _ hname)
  have hdefault : A.publishes "default" := by
    rw [hA]
    exact .inl rfl
  have hpublishes : ∀ name, name = "default" ∨ name ∈ file.statements.flatMap
      (Setting.ofFile options (ofFile file) file).1.noted → A.publishes name := by
    rintro name (rfl | hname)
    · exact hdefault
    · exact hgranted name (hnoted hname)
  have hsource : (Setting.ofFile options (ofFile file) file).1.AllowsAll A file.visits :=
    allowsAll_source hw hf hd haliases (by rw [hA]) hdefault fun name hname =>
      hpublishes name (.inr hname)
  have hparts : ∀ st ∈ file.statements,
      (Setting.ofFile options (ofFile file) file).1.AllowsAll A st.visits.tail := fun st hst v hv =>
    hsource v (stmt_visits_subset hst (List.mem_of_mem_tail hv))
  have hreports := reports_lowerStmts (P := True) (exporter_ne_restName options file) hdefault
    (by simp [hA]) file.statements hparts fun st hst x hx name hname =>
      hpublishes name (noted_of_alias hw hf hd hst hx hname)
  obtain ⟨haside, hexecute⟩ := hreports.keeps hrun hgranted trivial
  have hfunctions := haside.functions.of_empty (frames_setting options (ofFile file) file)
  have hcalls : ∀ st ∈ p.functionExports, Setting.Keeps _ A st.visits := fun st hst =>
    (haside.calls st hst).resolve_left List.not_mem_nil
  refine ⟨Setting.keeps_prologue _ hfunctions hcalls, Setting.keeps_result ?_ hexecute⟩
  refine Setting.keeps_setters _ _ fun group hgroup d hd' parameter => ?_
  refine Setting.keeps_serve (fun name hname => ?_) (fun spec hspec => ?_) (fun x hx => ?_)
    fun clause hclause name hname => ?_
  · exact StarExport.define_ne_exporter options file hname
  · have hspec' := (Interface.parts_ofFile (ofFile file) file).1 ▸ hspec
    obtain ⟨hmem, hvalue⟩ := List.mem_filter.mp hspec'
    obtain ⟨site, specs, hst, hm, -⟩ := mem_exportedSpecifiers.mp hmem
    refine hpublishes _ (.inr (List.mem_flatMap.mpr ⟨_, hst, ?_⟩))
    exact List.mem_map_of_mem (List.mem_filter.mpr ⟨hm, hvalue⟩)
  · obtain ⟨st, hst, hdepends⟩ := exists_statement_of_mem_uses rfl hgroups hgroup hd'
    rcases Stmt.dependence?_eq_some hdepends with ⟨_, _, -, hform⟩ | ⟨y, isExported, rfl, hform⟩ |
      ⟨_, -, hform⟩
    · cases hx.symm.trans hform
    · cases hx.symm.trans hform
      exact hpublishes _ (.inr (List.mem_flatMap.mpr ⟨_, hst, List.mem_singleton_self _⟩))
    · cases hx.symm.trans hform
  · rw [hA]
    refine .inr (List.mem_append_right _ (List.mem_flatMap.mpr ⟨clause, ?_, hname⟩))
    exact StarExport.mem_clauses hgroup hd' hclause

end module

/-- How the names that take precedence are listed before the helper for star exports: in a map that
the helper tests, or not at all where there are none. -/
inductive Setting.ListsOwnNames (s : Setting) : List String → List Stmt → Prop
  | none (helper : String) : s.ListsOwnNames [] [StarExport.helper s helper none]
  | map (names : List String) (map helper : String) : s.ListsOwnNames names
      [.varInit map (some (.object (names.map fun name => .ofString name (.ofBool true)))),
        StarExport.helper s helper (some map)]

/-- A module that forwards all names of another lists each name that is published anywhere outside
the helper for it, once and without `default`. -/
theorem lower_listsOwnNames {file : SourceFile} {options : Options} {lowered : Lowered}
    (hw : file.WellNumbered) (hf : file.IsFlat) (hd : file.DeclaresOnce)
    (haliases : file.SparesAliases) {site : Site} {specifier : Expr}
    (hstar : .exportFrom site none (some specifier) false ∈ file.statements)
    (h : lower options (ofFile file) file = .ok lowered) :
    ∃ f opening helper closing names, lowered.statement.factory? = some f ∧
      f.params = [.ofName (Setting.ofFile options (ofFile file) file).1.exporter,
        .ofName (Setting.ofFile options (ofFile file) file).1.context] ∧
      f.body = opening ++ helper ++ closing ∧
      (Setting.ofFile options (ofFile file) file).1.ListsOwnNames names helper ∧
      names.Nodup ∧ "default" ∉ names ∧
      ∀ v ∈ stmtsVisits (opening ++ closing),
        v.Announces (Setting.ofFile options (ofFile file) file).1 fun name =>
          name = "default" ∨ name ∈ names := by
  obtain ⟨groups, execute, p, hgroups, hrun, rfl⟩ := lower_parts h
  obtain ⟨hopening, hresult⟩ := keeps_parts hw hf hd haliases hgroups hrun rfl
  set s := (Setting.ofFile options (ofFile file) file).1 with hs
  have hhelper : ∃ names, s.ListsOwnNames names (s.starPart groups p).2.1 ∧ names.Nodup ∧
      ∀ name, name ∈ names ↔ name ∈ StarExport.ownNames p.exportedNames groups ∧
        name ≠ "default" := by
    have hforwards : s.interface.hasStar = true := Interface.hasStar_ofFile hstar
    unfold Setting.starPart StarExport.define
    rw [if_neg (by simp [hforwards])]
    dsimp only
    split
    · next hnothing =>
      simp only [Bool.and_eq_true, List.isEmpty_iff] at hnothing
      refine ⟨[], .none _, List.nodup_nil, fun name => ?_⟩
      simp [StarExport.ownNames, hnothing.1.1, hnothing.2]
    · exact ⟨_, .map _ _ _, StarExport.nodup_precedence _, fun name => StarExport.mem_precedence⟩
  obtain ⟨names, hlists, hnodup, hnames⟩ := hhelper
  refine ⟨_, _, _, _, names, s.factory?_assemble groups execute p, rfl, rfl, hlists, hnodup,
    fun hdefault => ((hnames _).mp hdefault).2 rfl, ?_⟩
  have hlisted : ∀ name, name = "default" ∨ name ∈ StarExport.ownNames p.exportedNames groups →
      name = "default" ∨ name ∈ names := by
    intro name hname
    by_cases hdefault : name = "default"
    · exact .inl hdefault
    · exact .inr ((hnames name).mpr ⟨hname.resolve_left hdefault, hdefault⟩)
  intro v hv
  rw [NameTable.stmtsVisits_append, List.mem_append] at hv
  rcases hv with hv | hv
  · exact (hopening v hv).mono hlisted
  · rw [stmtsVisits, stmtsVisits, List.append_nil] at hv
    rcases List.mem_cons.mp hv with rfl | hv
    · exact trivial
    · exact (hresult v hv).mono hlisted

/-- `import { q } from "m"; export * from "n"; export { q as r }; export var x = 1;
function f() { x = 2; }` -/
def forwardingModule : SourceFile where
  id := .numbered 30
  name := "m.ts"
  statements := [
    .importFrom ⟨.numbered 10, {}⟩ (some ⟨none, some (.named [⟨none, ⟨.numbered 0, "q"⟩, false⟩])⟩)
      (.ofString "m") false,
    .exportFrom ⟨.numbered 11, {}⟩ none (some (.ofString "n")) false,
    .exportFrom ⟨.numbered 12, {}⟩
      (some (.named [⟨.numbered 20, ⟨.numbered 1, "q"⟩, some "r", false⟩])) none false,
    .var { isExported := true } ⟨.var, [⟨.ident ⟨.numbered 2, "x"⟩, some (.ofNumber "1")⟩]⟩,
    .function {} ⟨some ⟨.numbered 3, "f"⟩, [],
      [.expr (.assignTo (.ident ⟨.numbered 4, "x"⟩) (.ofNumber "2"))], false, false⟩]

/-- The setter of `m` publishes `r`, and both writes publish `x`. -/
theorem lower_listsOwnNames_forwarding : forwardingModule.WellNumbered ∧ forwardingModule.IsFlat ∧
    forwardingModule.DeclaresOnce ∧ forwardingModule.SparesAliases ∧
      .exportFrom ⟨.numbered 11, {}⟩ none (some (.ofString "n")) false ∈
        forwardingModule.statements ∧
      ∃ lowered, lower {} (ofFile forwardingModule) forwardingModule = .ok lowered ∧
        ∃ f opening helper closing names, lowered.statement.factory? = some f ∧
          f.params = [.ofName "exports_1", .ofName "context_1"] ∧
          f.body = opening ++ helper ++ closing ∧
          (Setting.ofFile {} (ofFile forwardingModule) forwardingModule).1.ListsOwnNames names
            helper ∧ names.Nodup ∧ "default" ∉ names ∧
          ∀ v ∈ stmtsVisits (opening ++ closing),
            v.Announces (Setting.ofFile {} (ofFile forwardingModule) forwardingModule).1 fun name =>
              name = "default" ∨ name ∈ names := by
  have hw : forwardingModule.WellNumbered := ⟨by decide, by decide⟩
  have hf : forwardingModule.IsFlat := by
    unfold SourceFile.IsFlat AllInner
    decide
  have hd : forwardingModule.DeclaresOnce := ⟨by decide, by decide⟩
  have haliases : forwardingModule.SparesAliases := by
    unfold SourceFile.SparesAliases SourceFile.IsNoAlias
    decide
  have hstar : .exportFrom ⟨.numbered 11, {}⟩ none (some (.ofString "n")) false ∈
      forwardingModule.statements := .tail _ (.head _)
  exact ⟨hw, hf, hd, haliases, hstar, _, rfl, lower_listsOwnNames hw hf hd haliases hstar rfl⟩

end RegisterForm
