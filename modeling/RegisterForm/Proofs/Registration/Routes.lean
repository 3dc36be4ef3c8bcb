import RegisterForm.Proofs.Registration.Clauses
/-!
# Initial publications of local clauses

Every name of a local export clause that has a value is published once to begin with: in the setter
of the import that it comes from, before the registered function returns, or where the clause
stands.
-/
namespace RegisterForm
open Lowering

/-! ## Runs -/

namespace Route

/-- The calls that the registered function makes for a name before it returns. -/
def prepared (s : Setting) (spec : ExportSpecifier) : Route → List Stmt
  | factory => [.expr (s.publish spec.exportedName (.ofName spec.source.name))]
  | _ => []

/-- The calls that the body of the module makes for a name where the clause stands. -/
def executed (s : Setting) (spec : ExportSpecifier) : Route → List Stmt
  | execute => [.expr (s.publish spec.exportedName (.ident spec.source))]
  | _ => []

/-- The import whose setter publishes a name. -/
def origin? : Route → Option ImportOrigin
  | setter origin => some origin
  | _ => none

end Route

theorem Setting.route_eq_nowhere {s : Setting} {isTypeOnly : Bool} {spec : ExportSpecifier} :
    s.route isTypeOnly spec = .nowhere ↔
      isTypeOnly = true ∨ s.names.specifierIsValue spec = false := by
  unfold Setting.route
  split
  · next h => simpa using h
  · next h =>
    have hvalue : ¬(isTypeOnly = true ∨ s.names.specifierIsValue spec = false) := by simpa using h
    refine iff_of_false ?_ hvalue
    split
    · nofun
    · split <;> nofun

theorem Setting.origin?_route (s : Setting) (isTypeOnly : Bool) (spec : ExportSpecifier) :
    (s.route isTypeOnly spec).origin? =
      if isTypeOnly || !s.names.specifierIsValue spec then none
      else s.names.importOf? spec.source := by
  unfold Setting.route
  split
  · rfl
  · split
    · next h => rw [h]; rfl
    · next h => rw [h]; split <;> rfl

section runs
variable {s : Setting} {place : Place}

theorem addExportedName_run (name : String) (p : Progress) :
    ∃ p', (addExportedName name).run p = .ok ((), p') ∧ p'.functionExports = p.functionExports := by
  refine ⟨_, rfl, ?_⟩
  dsimp only
  split <;> rfl

/-- A name of a clause adds the calls of its route. -/
theorem exportSpecifier_run (spec : ExportSpecifier) (p : Progress) :
    ∃ p', (exportSpecifier s spec).run p = .ok ((s.route false spec).executed s spec, p') ∧
      p'.functionExports = p.functionExports ++ (s.route false spec).prepared s spec := by
  unfold exportSpecifier Setting.route
  by_cases hvalue : s.names.specifierIsValue spec = true
  swap
  · simp only [hvalue, Bool.not_false, if_true, Bool.or_true]
    exact ⟨p, rfl, (List.append_nil _).symm⟩
  · obtain ⟨q, hq, hexports⟩ := addExportedName_run spec.exportedName p
    simp only [hvalue, Bool.not_true, Bool.or_false, Bool.false_eq_true, if_false]
    rw [run_bind_of_ok hq]
    cases himport : s.names.importOf? spec.source with
    | some origin => exact ⟨q, rfl, hexports.trans (List.append_nil _).symm⟩
    | none =>
      by_cases hfunction :
          (s.names.valueDeclaration? spec.source).any s.interface.functions.contains = true
      · simp only [hfunction, if_true]
        refine ⟨_, rfl, ?_⟩
        rw [← hexports]
        rfl
      · simp only [hfunction]
        exact ⟨q, rfl, hexports.trans (List.append_nil _).symm⟩

theorem exportSpecifiers_run (specs : List ExportSpecifier) (p : Progress) :
    ∃ p', (exportSpecifiers s specs).run p =
        .ok (specs.flatMap fun spec => (s.route false spec).executed s spec, p') ∧
      p'.functionExports =
        p.functionExports ++ specs.flatMap fun spec => (s.route false spec).prepared s spec := by
  induction specs generalizing p with
  | nil => exact ⟨p, rfl, (List.append_nil _).symm⟩
  | cons spec specs ih =>
    obtain ⟨q, hfirst, hexports⟩ := exportSpecifier_run (s := s) spec p
    obtain ⟨q', hrest, hexports'⟩ := ih q
    refine ⟨q', ?_, ?_⟩
    · rw [exportSpecifiers, run_bind_of_ok hfirst, run_bind_of_ok hrest]
      rfl
    · rw [hexports', hexports, List.append_assoc, List.flatMap_cons]

/-- A local clause of the module adds the calls of all its names, in order. -/
theorem clause_run (site : Site) (specs : List ExportSpecifier) (isTypeOnly : Bool) {p : Progress}
    (hdepth : p.depth < maxTreeDepth) :
    ∃ p', ((Stmt.exportFrom site (some (.named specs)) none isTypeOnly).lower s .topLevel).run p =
        .ok (specs.flatMap fun spec => (s.route isTypeOnly spec).executed s spec, p') ∧
      p'.functionExports = p.functionExports ++
        specs.flatMap fun spec => (s.route isTypeOnly spec).prepared s spec := by
  cases isTypeOnly with
  | true =>
    have hnowhere : ∀ calls : Route → ExportSpecifier → List Stmt, (∀ spec, calls .nowhere spec = []) →
        (specs.flatMap fun spec => calls (s.route true spec) spec) = [] := fun calls hcalls =>
      List.flatMap_eq_nil_iff.mpr fun spec _ => hcalls spec
    rw [hnowhere (fun route spec => route.executed s spec) fun _ => rfl,
      hnowhere (fun route spec => route.prepared s spec) fun _ => rfl]
    exact ⟨_, run_deeper_of_ok hdepth rfl, (List.append_nil _).symm⟩
  | false =>
    obtain ⟨q, hrun, hexports⟩ := exportSpecifiers_run specs { p with depth := p.depth + 1 }
    exact ⟨_, run_deeper_of_ok hdepth hrun, hexports⟩

theorem lowerStmts_append (before rest : List Stmt) : lowerStmts s place (before ++ rest) = (do
    let sts ← lowerStmts s place before
    let more ← lowerStmts s place rest
    return sts ++ more) := by
  induction before with
  | nil => simp [lowerStmts]
  | cons st before ih =>
    rw [List.cons_append, lowerStmts, ih, lowerStmts]
    simp only [bind_assoc, pure_bind, List.append_assoc]

/-- A local clause with some of its names. -/
abbrev localClause (site : Site) (isTypeOnly : Bool) (specs : List ExportSpecifier) : Stmt :=
  .exportFrom site (some (.named specs)) none isTypeOnly

/-- A run up to a clause, with the names of the clause taken in. -/
theorem clause_append_run (site : Site) (isTypeOnly : Bool) {before : List Stmt} {h : Hoisting}
    {made : List Stmt} {p : Progress} (hdepth : p.depth < maxTreeDepth)
    (hbefore : (lowerStmts s .topLevel before).run { hoisting := h } = .ok (made, p))
    (specs : List ExportSpecifier) :
    ∃ p', (lowerStmts s .topLevel (before ++ [localClause site isTypeOnly specs])).run
          { hoisting := h } =
        .ok (made ++ specs.flatMap fun spec => (s.route isTypeOnly spec).executed s spec, p') ∧
      p'.functionExports = p.functionExports ++
        specs.flatMap fun spec => (s.route isTypeOnly spec).prepared s spec := by
  obtain ⟨p', hclause, hexports⟩ := clause_run (s := s) site specs isTypeOnly hdepth
  refine ⟨p', ?_, hexports⟩
  have hone : (lowerStmts s .topLevel [localClause site isTypeOnly specs]).run p =
      .ok (specs.flatMap fun spec => (s.route isTypeOnly spec).executed s spec, p') := by
    rw [lowerStmts, run_bind_of_ok hclause, lowerStmts, pure_bind, List.append_nil]
    rfl
  rw [lowerStmts_append, run_bind_of_ok hbefore, run_bind_of_ok hone]
  rfl

end runs

/-- What the last name of some statements adds to a lowered module. Without it the statements leave
`made`, and with it some calls more; what they leave with it stands at the start of the body, and
the calls they note stand in the registered function before it returns. -/
def Lowered.Adds (l : Lowered) (s : Setting) (h : Hoisting) (without withName : List Stmt)
    (prepared executed : List Stmt) : Prop :=
  ∃ made p p' rest opening closing value,
    (lowerStmts s .topLevel without).run { hoisting := h } = .ok (made, p) ∧
      (lowerStmts s .topLevel withName).run { hoisting := h } = .ok (made ++ executed, p') ∧
      p'.functionExports = p.functionExports ++ prepared ∧
      l.execute? = some (made ++ executed ++ rest) ∧
      l.statement.factory?.map (·.body) =
        some (opening ++ p'.functionExports ++ closing ++ [.ret (some value)])

/-! ## Setters -/

/-- The properties of the object that a statement publishes. -/
def Stmt.properties : Stmt → List Property
  | .expr (.call _ [.object ps] _) => ps
  | _ => []

/-- The name that a property of such an object publishes. -/
def Property.name? : Property → Option String
  | .keyed (.string name) _ => some name
  | _ => none

/-- The names that a statement re-exports from another module. -/
def Dependence.forwards (d : Dependence) : List ExportSpecifier :=
  match d.form with
  | .exporting (some (.named specs)) => specs
  | _ => []

namespace Setting
variable {s : Setting}

theorem properties_publishAll (ps : List Property) :
    (s.publishAll ps).flatMap Stmt.properties = ps := by
  cases ps with
  | nil => rfl
  | cons p ps => simp [publishAll, Stmt.properties, Expr.apply]

/-- A statement's part of a setter publishes what is exported of its names, or what it re-exports. -/
theorem properties_serve (star : Option String) (parameter : String) (d : Dependence) :
    (s.serve star parameter d).flatMap Stmt.properties =
      d.bound.flatMap (s.reexports d.site.id parameter) ++ forwarded parameter d.forwards := by
  have hkeep : ∀ names : List String, (names.map (keep · parameter)).flatMap Stmt.properties = [] :=
    fun names => List.flatMap_eq_nil_iff.mpr fun st hst => by
      obtain ⟨name, -, rfl⟩ := List.mem_map.mp hst
      rfl
  unfold serve Dependence.bound Dependence.forwards
  cases d.form with
  | importing clause =>
    cases clause with
    | none => rfl
    | some clause =>
      dsimp only
      rw [List.flatMap_append, hkeep, properties_publishAll, Option.toList_some,
        List.flatMap_singleton, forwarded, List.filter_nil, List.map_nil, List.append_nil]
      rfl
  | equals name isExported =>
    have hpublish : (if isExported then [Stmt.expr (s.publish name.name (.ofName parameter))]
        else []).flatMap Stmt.properties = [] := by
      split <;> rfl
    dsimp only
    rw [List.flatMap_append, properties_publishAll, List.flatMap_cons, hpublish]
    simp [keep, Stmt.properties, Expr.assignName, Expr.assignTo, forwarded]
  | exporting clause =>
    cases clause with
    | none =>
      refine List.flatMap_eq_nil_iff.mpr fun st hst => ?_
      obtain ⟨helper, -, rfl⟩ := List.mem_map.mp hst
      rfl
    | some clause =>
      cases clause with
      | named specs => exact properties_publishAll _
      | star x => rfl

/-- Of what is exported of an imported name, only the specifiers with the exported name have that
name. -/
theorem filter_reexports (declaration : NodeId) (parameter name : String) (x : Ident) :
    (s.reexports declaration parameter x).filter (·.name? = some name) =
      match s.names.importOf? x with
      | none => []
      | some origin =>
        if origin.declaration = declaration then
          ((s.interface.specifiers.filter (·.exportedName = name)).filter fun spec =>
              spec.source.name == x.name && s.names.importOf? spec.source = some origin).map
            fun spec => .ofString spec.exportedName (importedValue parameter origin.kind)
        else [] := by
  unfold reexports
  cases s.names.importOf? x with
  | none => rfl
  | some origin =>
    dsimp only
    split
    · rw [List.filter_map, Interface.specifiersOf, List.filter_filter, List.filter_filter,
        List.filter_filter]
      congr 1
      refine List.filter_congr fun spec _ => ?_
      simp [Property.name?, Property.ofString]
      grind
    · rfl

end Setting

section setters
variable {options : Options} {file : SourceFile} {site : Site} {specs : List ExportSpecifier}
  {isTypeOnly : Bool} {spec : ExportSpecifier}

/-- The identities of the statements that name other modules are told apart. -/
theorem SourceFile.WellNumbered.dependenceIds (hw : file.WellNumbered) :
    (file.dependences.map (·.site.id)).Nodup := by
  have hone : ∀ st : Stmt, (st.dependence?.toList.map (·.site.id)).Sublist
      (st.visits.flatMap Visit.ids) := by
    intro st
    rw [Stmt.visits_cons, List.flatMap_cons]
    refine List.Sublist.trans ?_ (List.sublist_append_left _ _)
    cases hd : st.dependence? with
    | none => exact List.nil_sublist _
    | some d =>
      rcases Stmt.dependence?_eq_some hd with ⟨clause, _, rfl, -⟩ | ⟨x, _, rfl, -⟩ | ⟨clause, rfl, -⟩
      · exact List.Sublist.refl _
      · exact List.Sublist.refl _
      · match clause with
        | none => exact List.Sublist.refl _
        | some (.star x) => exact List.Sublist.refl _
        | some (.named specs) => exact (List.nil_sublist _).cons_cons _
  have hall : ∀ sts : List Stmt, ((sts.filterMap Stmt.dependence?).map (·.site.id)).Sublist
      ((stmtsVisits sts).flatMap Visit.ids) := by
    intro sts
    induction sts with
    | nil => exact .refl _
    | cons st sts ih =>
      rw [stmtsVisits, List.flatMap_append, List.filterMap_cons]
      have hboth := (hone st).append ih
      rw [← List.map_append] at hboth
      cases hd : st.dependence? <;> simpa [hd] using hboth
  exact hw.nodup.sublist (hall file.statements)

/-- The names that a statement binds to what it takes are told apart. -/
theorem SourceFile.DeclaresOnce.boundNames (hd : file.DeclaresOnce) {d : Dependence}
    (hmem : d ∈ file.dependences) : (d.bound.map (·.name)).Nodup := by
  obtain ⟨st, hst, hdepends⟩ := List.mem_filterMap.mp hmem
  have hbound : (st.lexicalBindings true).map (·.ident) = d.bound := by
    unfold Dependence.bound
    rcases Stmt.dependence?_eq_some hdepends with ⟨clause, isTypeOnly, rfl, hform⟩ |
      ⟨x, _, rfl, hform⟩ | ⟨clause, rfl, hform⟩
    · rw [hform]
      cases clause with
      | none => rfl
      | some clause =>
        simpa [Stmt.lexicalBindings] using clause.ident_bindingsOf d.site.id isTypeOnly
    · rw [hform]
      rfl
    · rw [hform]
      rfl
  have hall := hd.lexical
  rw [blockLexicalBindings, List.map_flatMap] at hall
  rw [← hbound, List.map_map]
  exact (List.nodup_flatMap.mp hall).1 st hst

/-- Of what is exported of an imported name, the exported name comes from its own import. -/
theorem filter_reexports_route (hnames : file.clauseNames.Nodup)
    (hst : localClause site isTypeOnly specs ∈ file.statements) (hspec : spec ∈ specs)
    (t : NameTable) (declaration : NodeId) (parameter : String) (x : Ident) :
    ((Setting.ofFile options t file).1.reexports declaration parameter x).filter
        (·.name? = some spec.exportedName) =
      match ((Setting.ofFile options t file).1.route isTypeOnly spec).origin? with
      | some origin =>
        if origin.declaration = declaration ∧ x.name = spec.source.name ∧
            t.importOf? x = some origin then
          [.ofString spec.exportedName (Setting.importedValue parameter origin.kind)]
        else []
      | none => [] := by
  have hspecifiers : (Setting.ofFile options t file).1.interface.specifiers.filter
      (·.exportedName = spec.exportedName) =
        if isTypeOnly || !t.specifierIsValue spec then [] else [spec] :=
    filter_specifiers hnames hst hspec t
  rw [Setting.filter_reexports, hspecifiers, Setting.origin?_route]
  change (match t.importOf? x with | none => [] | some origin => _) = _
  have hinterface : (Setting.ofFile options t file).1.names = t := rfl
  rw [hinterface]
  by_cases hnot : (isTypeOnly || !t.specifierIsValue spec) = true
  · simp only [hnot, if_true, List.filter_nil, List.map_nil, ite_self]
    cases t.importOf? x <;> rfl
  · simp only [hnot, Bool.false_eq_true, if_false]
    cases hx : t.importOf? x with
    | none => cases t.importOf? spec.source <;> simp
    | some origin =>
      cases hsource : t.importOf? spec.source with
      | none => simp [hsource]
      | some origin' =>
        by_cases horigin : origin = origin'
        · subst horigin
          by_cases hname : x.name = spec.source.name
          · simp [hsource, hname]
          · simp [hname, Ne.symm hname]
        · simp [hsource, horigin, Ne.symm horigin]

/-- The name that a value is imported under stands in the statement that imports it. -/
theorem exists_bound (hw : file.WellNumbered) (hf : file.IsFlat) (hd : file.DeclaresOnce)
    (hst : localClause site isTypeOnly specs ∈ file.statements) (hspec : spec ∈ specs)
    {origin : ImportOrigin} (horigin : (NameTable.ofFile file).importOf? spec.source = some origin) :
    ∃ d ∈ file.dependences, d.site.id = origin.declaration ∧ ∃ x ∈ d.bound,
      x.name = spec.source.name ∧ (NameTable.ofFile file).importOf? x = some origin := by
  obtain ⟨symbol, hsource, himport⟩ := Option.bind_eq_some_iff.mp horigin
  have hmodule := NameTable.symbolOf?_source hw hst hspec
  rw [hsource] at hmodule
  obtain ⟨b, hfirst, -, hb, htype⟩ := NameTable.moduleSymbol?_eq_some hw hf hd hmodule.symm
  have hmem : b ∈ file.bindings := List.mem_of_find?_eq_some hfirst
  have hname : b.ident.name = spec.source.name := by simpa using List.find?_some hfirst
  split at himport
  · cases himport
  · next hvalue =>
    have hvalue' : b.roles.isTypeOnly = false := Bool.eq_false_iff.mpr fun h => hvalue (htype h)
    obtain ⟨st, hst', hbinding⟩ := SourceFile.mem_bindings.mp hmem
    obtain ⟨d, hdepends, hsite, hbound⟩ :=
      Stmt.dependence_of_origin (hf st hst') hbinding hvalue' (hb ▸ himport)
    refine ⟨d, List.mem_filterMap.mpr ⟨st, hst', hdepends⟩, hsite, b.ident, hbound, hname, ?_⟩
    rw [← horigin, NameTable.importOf?, NameTable.importOf?, NameTable.symbolOf?_binding hw hmem,
      NameTable.symbolOf?_source hw hst hspec, hname]

end setters

/-- The properties of all setters that publish a name. -/
def Lowered.setterProperties? (l : Lowered) (name : String) : Option (List Property) :=
  l.setters?.map fun setters =>
    ((setters.flatMap Expr.statements).flatMap Stmt.properties).filter (·.name? = some name)

/-- One property in all setters publishes a name, and it stands in the setter of the module that the
name is imported from. -/
def Lowered.SetterPublishes (l : Lowered) (file : SourceFile) (name : String)
    (origin : ImportOrigin) : Prop :=
  ∃ d ∈ file.dependences, d.site.id = origin.declaration ∧ ∃ module setters setter parameter,
    d.module? file = some module ∧ l.setters? = some setters ∧
      (module, setter) ∈ l.dependencies.zip setters ∧
      setter = .functionOf none [.ofName parameter] setter.statements ∧
      .ofString name (Setting.importedValue parameter origin.kind) ∈
        setter.statements.flatMap Stmt.properties ∧
      l.setterProperties? name =
        some [.ofString name (Setting.importedValue parameter origin.kind)]

section published
variable {file : SourceFile} {lowered : Lowered} {site : Site}
  {specs : List ExportSpecifier} {isTypeOnly : Bool} {spec : ExportSpecifier}

/-- What serves a statement publishes the exported name if the statement is the import that the
name comes from. -/
theorem filter_properties_serve (options : Options) (t : NameTable)
    (hnames : file.clauseNames.Nodup) (hst : localClause site isTypeOnly specs ∈ file.statements)
    (hspec : spec ∈ specs) (star : Option String) (parameter : String) {d : Dependence}
    (hd : d ∈ file.dependences) :
    (((Setting.ofFile options t file).1.serve star parameter d).flatMap Stmt.properties).filter
        (·.name? = some spec.exportedName) =
      d.bound.flatMap fun x =>
        match ((Setting.ofFile options t file).1.route isTypeOnly spec).origin? with
        | some origin =>
          if origin.declaration = d.site.id ∧ x.name = spec.source.name ∧
              t.importOf? x = some origin then
            [.ofString spec.exportedName (Setting.importedValue parameter origin.kind)]
          else []
        | none => [] := by
  have hforwards : (Setting.forwarded parameter d.forwards).filter
      (·.name? = some spec.exportedName) = [] := by
    refine List.filter_eq_nil_iff.mpr fun p hp hname => ?_
    obtain ⟨other, hother, rfl⟩ := List.mem_map.mp hp
    have hmem := List.mem_of_mem_filter hother
    unfold Dependence.forwards at hmem
    split at hmem
    · next others hform =>
      refine exportedName_notMem_forwards hnames hst hspec hd hform other hmem ?_
      simpa [Property.name?, Property.ofString] using hname
    · cases hmem
  rw [Setting.properties_serve, List.filter_append, hforwards, List.append_nil, List.filter_flatMap]
  exact List.flatMap_congr fun x _ => filter_reexports_route hnames hst hspec t d.site.id parameter x

/-- The setters publish an exported name once if it comes from an import, and never otherwise. -/
theorem setters_of_lower {options : Options} (hw : file.WellNumbered) (hf : file.IsFlat) (hd : file.DeclaresOnce)
    (hnames : file.clauseNames.Nodup) (h : lower options (.ofFile file) file = .ok lowered)
    (hst : localClause site isTypeOnly specs ∈ file.statements) (hspec : spec ∈ specs) :
    match ((Setting.ofFile options (.ofFile file) file).1.route isTypeOnly spec).origin? with
    | some origin => lowered.SetterPublishes file spec.exportedName origin
    | none => lowered.setterProperties? spec.exportedName = some [] := by
  have haligned := aligned_of_lower h
  obtain ⟨star, parameters, hlength, hsetters⟩ := haligned.setters
  have hcount := fun (parameter : String) (d : Dependence) (hmem : d ∈ file.dependences) =>
    filter_properties_serve options (.ofFile file) hnames hst hspec star parameter hmem
  set s := (Setting.ofFile options (.ofFile file) file).1 with hs
  let count : String → Dependence → List Property := fun parameter d =>
    ((s.serve star parameter d).flatMap Stmt.properties).filter (·.name? = some spec.exportedName)
  have htotal : lowered.setterProperties? spec.exportedName =
      some ((lowered.dependencies.zip parameters).flatMap fun setter =>
        (file.dependences.filter (·.module? file = some setter.1)).flatMap (count setter.2)) := by
    rw [Lowered.setterProperties?, hsetters, Option.map_some, statements_setters,
      List.flatMap_assoc, List.filter_flatMap]
    simp only [List.flatMap_assoc, List.filter_flatMap, count]
    rfl
  cases horigin : (s.route isTypeOnly spec).origin? with
  | none =>
    simp only [horigin] at hcount
    rw [htotal]
    refine congrArg some (List.flatMap_eq_nil_iff.mpr fun setter _ => ?_)
    refine List.flatMap_eq_nil_iff.mpr fun d hmem => ?_
    rw [show count setter.2 d = _ from hcount setter.2 d (List.mem_of_mem_filter hmem)]
    exact List.flatMap_eq_nil_iff.mpr fun _ _ => rfl
  | some origin =>
    simp only [horigin] at hcount
    have hsource : (NameTable.ofFile file).importOf? spec.source = some origin := by
      rw [Setting.origin?_route] at horigin
      split at horigin
      · cases horigin
      · exact horigin
    obtain ⟨d, hmem, hsite, x, hx, hname, himport⟩ := exists_bound hw hf hd hst hspec hsource
    have hids := hw.dependenceIds
    have hother : ∀ parameter, ∀ d' ∈ file.dependences, d' ≠ d → count parameter d' = [] := by
      intro parameter d' hmem' hne
      rw [show count parameter d' = _ from hcount parameter d' hmem']
      refine List.flatMap_eq_nil_iff.mpr fun y _ => if_neg fun hy => ?_
      exact hne (List.inj_on_of_nodup_map hids hmem' hmem (hy.1.symm.trans hsite.symm))
    have hown : ∀ parameter, count parameter d =
        [.ofString spec.exportedName (Setting.importedValue parameter origin.kind)] := by
      intro parameter
      have hbound := hd.boundNames hmem
      rw [show count parameter d = _ from hcount parameter d hmem,
        flatMap_eq_single (List.Nodup.of_map _ hbound) hx, if_pos ⟨hsite.symm, hname, himport⟩]
      refine fun y hy hne => if_neg fun hboth => hne ?_
      exact List.inj_on_of_nodup_map hbound hy hx (hboth.2.1.trans hname.symm)
    obtain ⟨i, hmodule, -⟩ := haligned.served d hmem
    have hserved := flatMap_setters haligned.nodup hlength (List.Nodup.of_map _ hids) hmem i.isLt
      hmodule hother
    let uses := file.dependences.filter (·.module? s.file = some lowered.dependencies[i])
    refine ⟨d, hmem, hsite, lowered.dependencies[i], _, s.setterOf star parameters[i] uses,
      parameters[i], hmodule, hsetters, ?_, rfl, ?_,
      htotal.trans (congrArg some (hserved.trans (hown _)))⟩
    · refine List.mem_iff_getElem.mpr ⟨i, ?_, ?_⟩
      · simp [List.length_zip, List.length_zipWith, hlength]
      · simp [List.getElem_zip, List.getElem_zipWith]
        rfl
    · have hbody : (s.setterOf star parameters[i] uses).statements =
          uses.flatMap (s.serve star parameters[i]) := rfl
      rw [hbody, List.flatMap_assoc]
      refine List.mem_flatMap.mpr ⟨d, List.mem_filter.mpr ⟨hmem, by simpa using hmodule⟩, ?_⟩
      refine List.mem_of_mem_filter (p := (·.name? = some spec.exportedName)) ?_
      rw [show List.filter _ _ = _ from hown parameters[i]]
      exact List.mem_singleton_self _

end published

section module
variable {options : Options} {t : NameTable} {file : SourceFile} {lowered : Lowered}

/-- A name of a local clause adds the calls of its route where it stands. -/
theorem adds_of_lower (h : lower options t file = .ok lowered) {before after : List Stmt}
    {site : Site} {isTypeOnly : Bool} {earlier later : List ExportSpecifier} {spec : ExportSpecifier}
    (hfile : file.statements =
      before ++ localClause site isTypeOnly (earlier ++ spec :: later) :: after) :
    lowered.Adds (Setting.ofFile options t file).1 (Setting.ofFile options t file).2
      (before ++ [localClause site isTypeOnly earlier])
      (before ++ [localClause site isTypeOnly (earlier ++ [spec])])
      (((Setting.ofFile options t file).1.route isTypeOnly spec).prepared
        (Setting.ofFile options t file).1 spec)
      (((Setting.ofFile options t file).1.route isTypeOnly spec).executed
        (Setting.ofFile options t file).1 spec) := by
  obtain ⟨groups, execute, p, -, hrun, rfl⟩ := lower_parts h
  set s := (Setting.ofFile options t file).1
  rw [hfile, lowerStmts_append] at hrun
  obtain ⟨pre, p₀, hbefore, hrest⟩ := run_bind_eq_ok hrun
  obtain ⟨_, p₁, hrest, hpure⟩ := run_bind_eq_ok hrest
  cases hpure
  obtain ⟨calls, p₂, hclause, hrest⟩ := run_bind_eq_ok hrest
  obtain ⟨more, p₃, hafter, hpure⟩ := run_bind_eq_ok hrest
  cases hpure
  have hdepth : p₀.depth < maxTreeDepth := by
    exact (run_deeper_eq_ok hclause).1
  obtain ⟨p', hall, hexports⟩ :=
    clause_run (s := s) site (earlier ++ spec :: later) isTypeOnly hdepth
  rw [hclause, Except.ok.injEq, Prod.mk.injEq] at hall
  obtain ⟨rfl, rfl⟩ := hall
  obtain ⟨q, hwithout, hq⟩ := clause_append_run site isTypeOnly hdepth hbefore earlier
  obtain ⟨q', hwith, hq'⟩ := clause_append_run site isTypeOnly hdepth hbefore (earlier ++ [spec])
  obtain ⟨noted, hnoted⟩ := (lowerStmts_leads hafter).exports
  let executed := List.flatMap fun spec => (s.route isTypeOnly spec).executed s spec
  let prepared := List.flatMap fun spec => (s.route isTypeOnly spec).prepared s spec
  obtain ⟨opening, closing, value, hbody⟩ :=
    s.body_eq groups (pre ++ (executed (earlier ++ spec :: later) ++ more)) p
  refine ⟨pre ++ executed earlier, q, q', executed later ++ more, opening,
    prepared later ++ noted ++ closing, value, hwithout, hwith.trans ?_, ?_, ?_,
    (congrArg (Option.map (·.body)) (s.factory?_assemble groups _ p)).trans (congrArg some ?_)⟩
  · simp [executed]
  · simp [hq, hq']
  · rw [Setting.execute?_assemble]
    simp [executed]
  · refine hbody.trans ?_
    simp [prepared, ← hnoted, hexports, hq']

/-- `import d, { a as b } from "m"; function f() {} var x = 1; export { d, b as c, f, x as y };` -/
def mixedExports : SourceFile where
  id := .numbered 30
  name := "m.ts"
  statements := [
    .importFrom ⟨.numbered 10, {}⟩ (some ⟨some ⟨.numbered 0, "d"⟩,
      some (.named [⟨some "a", ⟨.numbered 1, "b"⟩, false⟩])⟩) (.ofString "m") false,
    .function {} ⟨some ⟨.numbered 2, "f"⟩, [], [], false, false⟩,
    .var {} ⟨.var, [⟨.ident ⟨.numbered 3, "x"⟩, some (.ofNumber "1")⟩]⟩,
    localClause ⟨.numbered 11, {}⟩ false [⟨.numbered 20, ⟨.numbered 4, "d"⟩, none, false⟩,
      ⟨.numbered 21, ⟨.numbered 5, "b"⟩, some "c", false⟩,
      ⟨.numbered 22, ⟨.numbered 6, "f"⟩, none, false⟩,
      ⟨.numbered 23, ⟨.numbered 7, "x"⟩, some "y", false⟩]]

theorem mixedExports_isFlat : mixedExports.IsFlat := by
  unfold SourceFile.IsFlat AllInner
  decide

/-- `b as c` -/
def renamedImport : ExportSpecifier := ⟨.numbered 21, ⟨.numbered 5, "b"⟩, some "c", false⟩

theorem route_renamedImport :
    mixedExports.route false renamedImport = .setter ⟨.numbered 10, .named "a"⟩ := by
  rfl

theorem mixedExports_lowered : ∃ lowered, lower {} (.ofFile mixedExports) mixedExports = .ok lowered :=
  ⟨_, rfl⟩

end module

end RegisterForm
