import Mathlib.Data.List.Pairwise
import RegisterForm.Proofs.Registration.Aligned
import RegisterForm.Proofs.Resolve.Nearest
/-!
# Routes of exported names

A name of a local export clause is published first by the setter of an import, before the
registered function returns, or where the clause stands. Which of these it is follows from the
declaration that the name refers to.
-/
namespace RegisterForm

/-! ## Files -/

/-- The name of the function that a statement declares. -/
def Stmt.functionName? : Stmt → Option Ident
  | .function _ f => f.name
  | _ => none

/-- The names that an export clause gives. -/
def Stmt.clauseNames : Stmt → List String
  | .exportFrom _ (some (.named specs)) _ _ => specs.map (·.exportedName)
  | _ => []

namespace SourceFile

/-- The names that the export clauses of a file give, those of re-exports among them. -/
def clauseNames (file : SourceFile) : List String := file.statements.flatMap Stmt.clauseNames

/-- Whether a function of the module bears the name. -/
def declaresFunction (file : SourceFile) (name : String) : Bool :=
  file.statements.any fun st => st.functionName?.any (·.name == name)

/-- No name of the module's scope is declared twice, save that a `var` may be repeated. -/
structure DeclaresOnce (file : SourceFile) : Prop where
  lexical : ((blockLexicalBindings true file.statements).map (·.ident.name)).Nodup
  apart : ∀ b ∈ blockLexicalBindings true file.statements,
    ∀ v ∈ blockVarBindings file.statements, v.ident.name ≠ b.ident.name

end SourceFile

/-- Where a name of a local clause is first published. -/
inductive Route where
  /-- In the setter of the import that it comes from. -/
  | setter (origin : ImportOrigin)
  /-- Before the registered function returns. -/
  | factory
  /-- Where the clause stands. -/
  | execute
  | nowhere
  deriving DecidableEq

/-- The route of a name of a local clause, by the declaration that it refers to: an import, a
function or any other. -/
def SourceFile.route (file : SourceFile) (isTypeOnly : Bool) (spec : ExportSpecifier) : Route :=
  if isTypeOnly || !(NameTable.ofFile file).specifierIsValue spec then .nowhere
  else
    match file.bindings.find? (·.ident.name == spec.source.name) with
    | none => .nowhere
    | some b =>
      match b.origin with
      | some origin => .setter origin
      | none => if file.declaresFunction spec.source.name then .factory else .execute

/-- The route that the lowering takes. -/
def Setting.route (s : Setting) (isTypeOnly : Bool) (spec : ExportSpecifier) : Route :=
  if isTypeOnly || !s.names.specifierIsValue spec then .nowhere
  else
    match s.names.importOf? spec.source with
    | some origin => .setter origin
    | none =>
      if (s.names.valueDeclaration? spec.source).any s.interface.functions.contains then .factory
      else .execute

/-! ## The interface -/

namespace Interface
variable {t : NameTable} (i : Interface)

@[simp] theorem specifiers_addExport (d : NodeId) (name : String) :
    (i.addExport d name).specifiers = i.specifiers := by
  unfold addExport
  split <;> rfl

@[simp] theorem functions_addExport (d : NodeId) (name : String) :
    (i.addExport d name).functions = i.functions := by
  unfold addExport
  split <;> rfl

@[simp] theorem specifiers_addNamed (modifiers : Modifiers) (name : Ident) :
    (i.addNamed modifiers name).specifiers = i.specifiers := by
  unfold addNamed
  split <;> simp

@[simp] theorem functions_addNamed (modifiers : Modifiers) (name : Ident) :
    (i.addNamed modifiers name).functions = i.functions := by
  unfold addNamed
  split <;> simp

@[simp] theorem specifiers_addFunction (d : NodeId) :
    (i.addFunction d).specifiers = i.specifiers := by
  unfold addFunction
  split <;> rfl

theorem mem_addFunction {d d' : NodeId} :
    d ∈ (i.addFunction d').functions ↔ d ∈ i.functions ∨ d = d' := by
  unfold addFunction
  split
  · next h =>
    have hin : d' ∈ i.functions := by simpa using h
    refine ⟨.inl, ?_⟩
    rintro (h | rfl)
    · exact h
    · exact hin
  · simp

theorem specifiers_addSpecifier (spec : ExportSpecifier) : (i.addSpecifier t spec).specifiers =
    i.specifiers ++ [spec].filter t.specifierIsValue := by
  unfold addSpecifier
  split
  · next h =>
    rw [List.filter_singleton, h]
    dsimp only
    split <;> simp
  · next h => simp [h]

theorem functions_addSpecifier (spec : ExportSpecifier) :
    (i.addSpecifier t spec).functions = i.functions := by
  unfold addSpecifier
  split
  · dsimp only
    split <;> simp
  · rfl

theorem specifiers_foldl_addSpecifier (specs : List ExportSpecifier) (i : Interface) :
    (specs.foldl (addSpecifier t) i).specifiers = i.specifiers ++ specs.filter t.specifierIsValue := by
  induction specs generalizing i with
  | nil => simp
  | cons spec specs ih =>
    rw [List.foldl_cons, ih, specifiers_addSpecifier, List.append_assoc, ← List.filter_append]
    rfl

/-- A statement adds the names of its local clause that have values, and the name of its
function. -/
theorem parts_addStmt (s : Stmt) :
    (i.addStmt t s).specifiers =
        i.specifiers ++ (NameTable.exportedSpecifiers [s]).filter t.specifierIsValue ∧
      ∀ d, d ∈ (i.addStmt t s).functions ↔
        d ∈ i.functions ∨ ∃ x, s.functionName? = some x ∧ x.id = d := by
  have hsame : ∀ {j : Interface} {s : Stmt}, j.specifiers = i.specifiers →
      j.functions = i.functions → NameTable.exportedSpecifiers [s] = [] → s.functionName? = none →
        j.specifiers = i.specifiers ++
            (NameTable.exportedSpecifiers [s]).filter t.specifierIsValue ∧
          ∀ d, d ∈ j.functions ↔ d ∈ i.functions ∨ ∃ x, s.functionName? = some x ∧ x.id = d := by
    intro j s hspecifiers hfunctions hs hname
    simp [hspecifiers, hfunctions, hs, hname]
  cases s with
  | importFrom site clause specifier isTypeOnly =>
    simp only [addStmt]
    split <;> exact hsame rfl rfl rfl rfl
  | importEquals site isExported x kind value =>
    cases kind <;> simp only [addStmt] <;> split <;>
      exact hsame (by simp [addDependence]) (by simp [addDependence]) rfl rfl
  | exportFrom site clause specifier isTypeOnly =>
    cases isTypeOnly with
    | true => exact hsame rfl rfl (by simp [NameTable.exportedSpecifiers]) rfl
    | false =>
      rcases specifier with _ | specifier
      · rcases clause with _ | specs | x
        · exact hsame rfl rfl rfl rfl
        · have hvalue : ∀ spec ∈ specs,
              (t.specifierIsValue spec && !spec.isTypeOnly) = t.specifierIsValue spec := by
            intro spec _
            simp only [NameTable.specifierIsValue]
            cases spec.isTypeOnly <;> simp
          constructor
          · simp only [addStmt, specifiers_foldl_addSpecifier, NameTable.exportedSpecifiers,
              List.flatMap_cons, List.flatMap_nil, List.append_nil, List.filter_filter]
            rw [List.filter_congr hvalue]
          · have hfunctions :
                (i.addStmt t (.exportFrom site (some (.named specs)) none false)).functions =
                  i.functions := part_foldl (fun i spec => functions_addSpecifier i spec) specs i
            simp [hfunctions, Stmt.functionName?]
        · exact hsame rfl rfl rfl rfl
      · simp only [addStmt]
        split <;> exact hsame rfl rfl (by simp [NameTable.exportedSpecifiers]) rfl
  | exportValue site form value => cases form <;> exact hsame rfl rfl rfl rfl
  | var modifiers list =>
    simp only [addStmt]
    split
    · exact hsame (part_foldl (fun i (x : Ident) => specifiers_addExport i x.id x.name) _ i)
        (part_foldl (fun i (x : Ident) => functions_addExport i x.id x.name) _ i) rfl rfl
    · exact hsame rfl rfl rfl rfl
  | function modifiers f =>
    simp only [addStmt, Stmt.functionName?]
    cases f.name with
    | none => exact hsame (s := .empty) rfl rfl rfl rfl
    | some x =>
      dsimp only
      refine ⟨by simp [NameTable.exportedSpecifiers], fun d => ?_⟩
      rw [functions_addNamed, mem_addFunction]
      simp [eq_comm]
  | classDecl modifiers c =>
    simp only [addStmt]
    split
    · exact hsame rfl rfl rfl rfl
    · exact hsame (by simp) (by simp) rfl rfl
  | _ => exact hsame rfl rfl rfl rfl

/-- The interface has the names of the local clauses that have values, in source order, and the
functions that the module declares. -/
theorem parts_ofFile (t : NameTable) (file : SourceFile) :
    (ofFile t file).specifiers =
        (NameTable.exportedSpecifiers file.statements).filter t.specifierIsValue ∧
      ∀ d, d ∈ (ofFile t file).functions ↔
        ∃ st ∈ file.statements, ∃ x, st.functionName? = some x ∧ x.id = d := by
  have hall : ∀ (stmts : List Stmt) (i : Interface),
      (stmts.foldl (addStmt t) i).specifiers =
          i.specifiers ++ (NameTable.exportedSpecifiers stmts).filter t.specifierIsValue ∧
        ∀ d, d ∈ (stmts.foldl (addStmt t) i).functions ↔
          d ∈ i.functions ∨ ∃ st ∈ stmts, ∃ x, st.functionName? = some x ∧ x.id = d := by
    intro stmts
    induction stmts with
    | nil => simp [NameTable.exportedSpecifiers]
    | cons s stmts ih =>
      intro i
      obtain ⟨hspecifiers, hfunctions⟩ := ih (i.addStmt t s)
      obtain ⟨hspecifiers', hfunctions'⟩ := i.parts_addStmt s
      constructor
      · rw [List.foldl_cons, hspecifiers, hspecifiers', List.append_assoc, ← List.filter_append]
        simp [NameTable.exportedSpecifiers]
      · intro d
        rw [List.foldl_cons, hfunctions, hfunctions']
        simp [or_assoc]
  obtain ⟨hspecifiers, hfunctions⟩ := hall file.statements {}
  exact ⟨hspecifiers, fun d => (hfunctions d).trans (by simp)⟩

end Interface
/-! ## Names of clauses -/

/-- Lists that have nothing in common and a common element are one. -/
theorem eq_of_mem_flatMap {α β : Type} {f : α → List β} {as : List α} (h : (as.flatMap f).Nodup)
    {a a' : α} (ha : a ∈ as) (ha' : a' ∈ as) {x : β} (hx : x ∈ f a) (hx' : x ∈ f a') : a = a' := by
  by_contra hne
  have hsymm : Std.Symm (Function.onFun List.Disjoint f) := ⟨fun _ _ h _ hx hx' => h hx' hx⟩
  exact (List.nodup_flatMap.mp h).2.forall ha ha' hne hx hx'

theorem map_exportedSpecifiers_sublist (sts : List Stmt) :
    ((NameTable.exportedSpecifiers sts).map (·.exportedName)).Sublist
      (sts.flatMap Stmt.clauseNames) := by
  rw [NameTable.exportedSpecifiers, List.map_flatMap]
  induction sts with
  | nil => exact .refl _
  | cons st sts ih =>
    rw [List.flatMap_cons, List.flatMap_cons]
    refine List.Sublist.append ?_ ih
    split
    · exact List.filter_sublist.map _
    · exact List.nil_sublist _

section names
variable {file : SourceFile} (hnames : file.clauseNames.Nodup) {site : Site}
  {specs : List ExportSpecifier} {isTypeOnly : Bool}
  (hst : .exportFrom site (some (.named specs)) none isTypeOnly ∈ file.statements)
  {spec : ExportSpecifier} (hspec : spec ∈ specs)
include hnames hst hspec

/-- Another name of a local clause with the same exported name is the same. -/
theorem exportedSpecifier_eq {other : ExportSpecifier}
    (hother : other ∈ NameTable.exportedSpecifiers file.statements)
    (hname : other.exportedName = spec.exportedName) : other = spec ∧ isTypeOnly = false := by
  obtain ⟨site', specs', hst', hmem, -⟩ := NameTable.mem_exportedSpecifiers.mp hother
  have hin : spec.exportedName ∈ Stmt.clauseNames (.exportFrom site (some (.named specs)) none
      isTypeOnly) := List.mem_map_of_mem (f := ExportSpecifier.exportedName) hspec
  have hin' : spec.exportedName ∈ Stmt.clauseNames (.exportFrom site' (some (.named specs')) none
      false) := hname ▸ List.mem_map_of_mem (f := ExportSpecifier.exportedName) hmem
  have heq := eq_of_mem_flatMap hnames hst hst' hin hin'
  simp only [Stmt.exportFrom.injEq, Option.some.injEq, ExportClause.named.injEq, true_and] at heq
  obtain ⟨-, rfl, hfalse⟩ := heq
  have hnodup : (specs.map (·.exportedName)).Nodup :=
    (List.nodup_flatMap.mp hnames).1 _ hst
  exact ⟨List.inj_on_of_nodup_map hnodup hmem hspec hname, hfalse⟩

/-- Of the names of an interface, at most the name itself has its exported name. -/
theorem filter_specifiers (t : NameTable) :
    (Interface.ofFile t file).specifiers.filter (·.exportedName = spec.exportedName) =
      if isTypeOnly || !t.specifierIsValue spec then [] else [spec] := by
  rw [(Interface.parts_ofFile t file).1]
  split
  · next hnot =>
    refine List.filter_eq_nil_iff.mpr fun other hother hname => ?_
    obtain ⟨hmem, hvalue⟩ := List.mem_filter.mp hother
    obtain ⟨rfl, rfl⟩ := exportedSpecifier_eq hnames hst hspec hmem (of_decide_eq_true hname)
    simp [hvalue] at hnot
  · next hvalue =>
    obtain ⟨rfl, hvalue'⟩ : isTypeOnly = false ∧ t.specifierIsValue spec = true := by
      simpa using hvalue
    have hmem : spec ∈ NameTable.exportedSpecifiers file.statements := by
      refine NameTable.mem_exportedSpecifiers.mpr ⟨site, specs, hst, hspec, ?_⟩
      simpa using (Bool.and_eq_true_iff.mp hvalue').1
    have hnodup : (NameTable.exportedSpecifiers file.statements).Nodup :=
      List.Nodup.of_map _ (hnames.sublist (map_exportedSpecifiers_sublist _))
    have hsame : ∀ other ∈ (NameTable.exportedSpecifiers file.statements).filter t.specifierIsValue,
        decide (other.exportedName = spec.exportedName) = (other == spec) := by
      intro other hother
      rw [Bool.eq_iff_iff, decide_eq_true_eq, beq_iff_eq]
      refine ⟨fun hname => ?_, congrArg _⟩
      exact (exportedSpecifier_eq hnames hst hspec (List.mem_of_mem_filter hother) hname).1
    rw [List.filter_congr hsame, List.filter_beq,
      List.count_eq_one_of_mem (hnodup.filter _) (List.mem_filter.mpr ⟨hmem, hvalue'⟩)]
    rfl

/-- No name of a re-export is the exported name. -/
theorem exportedName_notMem_forwards {d : Dependence} (hd : d ∈ file.dependences)
    {others : List ExportSpecifier} (hform : d.form = .exporting (some (.named others))) :
    ∀ other ∈ others, other.exportedName ≠ spec.exportedName := by
  intro other hother hname
  obtain ⟨st, hst', hdepends⟩ := List.mem_filterMap.mp hd
  rcases Stmt.dependence?_eq_some hdepends with ⟨clause, _, rfl, hform'⟩ | ⟨x, _, rfl, hform'⟩ |
    ⟨clause, rfl, hform'⟩
  · rw [hform] at hform'
    cases hform'
  · rw [hform] at hform'
    cases hform'
  · rw [hform] at hform'
    cases hform'
    have hin : spec.exportedName ∈ Stmt.clauseNames (.exportFrom site (some (.named specs)) none
        isTypeOnly) := List.mem_map_of_mem (f := ExportSpecifier.exportedName) hspec
    have hin' : spec.exportedName ∈ Stmt.clauseNames (.exportFrom d.site (some (.named others))
        (some d.specifier) false) := hname ▸ List.mem_map_of_mem (f := ExportSpecifier.exportedName) hother
    have heq := eq_of_mem_flatMap hnames hst hst' hin hin'
    simp at heq

end names

/-! ## What a name refers to -/

/-- A symbol whose declarations agree on their origin has that origin. -/
theorem symbolFor_origin {k : ScopeId} {name : String} {origin : Option ImportOrigin}
    {bs : List Binding} {s : Symbol} (h : symbolFor k name bs = some s)
    (hbs : ∀ b ∈ bs, b.ident.name = name → b.origin = origin) : s.origin = origin := by
  induction bs using List.reverseRecOn generalizing s with
  | nil => cases h
  | append_singleton bs b ih =>
    have hbs' : ∀ b ∈ bs, b.ident.name = name → b.origin = origin := fun c hc =>
      hbs c (List.mem_append_left _ hc)
    rw [symbolFor_concat] at h
    by_cases hb : b.ident.name = name
    · have horigin : b.origin = origin := hbs b (by simp) hb
      cases hold : symbolFor k name bs with
      | none =>
        rw [hold, Symbol.after_none hb] at h
        cases h
        exact horigin
      | some old =>
        rw [hold, Symbol.after_some hb] at h
        cases h
        simp [Symbol.redeclared, horigin, ih hold hbs']
    · rw [Symbol.after_of_ne hb] at h
      exact ih h hbs'

section declared
variable {file : SourceFile} {b c : Binding}

namespace SourceFile

/-- A name that is not declared by `var` has one declaration. -/
theorem DeclaresOnce.eq_of_name (h : file.DeclaresOnce) (hb : b ∈ file.bindings)
    (hc : c ∈ blockLexicalBindings true file.statements) (hname : b.ident.name = c.ident.name) :
    b = c := by
  rcases List.mem_append.mp hb with hvar | hlexical
  · exact absurd hname (h.apart c hc b hvar)
  · exact List.inj_on_of_nodup_map h.lexical hlexical hc hname

theorem origin_of_var (hf : file.IsFlat) (hb : b ∈ blockVarBindings file.statements) :
    b.origin = none := by
  obtain ⟨st, hst, hb⟩ := mem_blockVarBindings.mp hb
  exact Stmt.origin_varBindings (hf st hst) hb

/-- All declarations of a name agree on where it is imported from. -/
theorem DeclaresOnce.origin_eq (h : file.DeclaresOnce) (hf : file.IsFlat) (hb : b ∈ file.bindings)
    (hc : c ∈ file.bindings) (hname : b.ident.name = c.ident.name) : b.origin = c.origin := by
  rcases List.mem_append.mp hb with hvar | hlexical
  · rcases List.mem_append.mp hc with hvar' | hlexical'
    · rw [origin_of_var hf hvar, origin_of_var hf hvar']
    · rw [h.eq_of_name hb hlexical' hname]
  · rw [h.eq_of_name hc hlexical hname.symm]

/-- The first declaration of a name is a function's exactly if some function bears the name. -/
theorem DeclaresOnce.contains_functions {t : NameTable} (h : file.DeclaresOnce)
    (hw : file.WellNumbered) (hb : b ∈ file.bindings) :
    (Interface.ofFile t file).functions.contains b.ident.id =
      file.declaresFunction b.ident.name := by
  have hlexical : ∀ st ∈ file.statements, ∀ x, st.functionName? = some x →
      ∃ c ∈ blockLexicalBindings true file.statements, c.ident = x := by
    intro st hst x hx
    cases st with
    | function modifiers f =>
      have hname : f.name = some x := hx
      refine ⟨⟨x, { isFunction := true, isExported := modifiers.isExported }, none⟩, ?_, rfl⟩
      refine List.mem_flatMap.mpr ⟨_, hst, List.mem_map.mpr ⟨x, ?_, rfl⟩⟩
      simp [hname]
    | _ => cases hx
  rw [Bool.eq_iff_iff, List.contains_iff_mem, (Interface.parts_ofFile t file).2, declaresFunction,
    List.any_eq_true]
  constructor
  · rintro ⟨st, hst, x, hx, hid⟩
    obtain ⟨c, hc, rfl⟩ := hlexical st hst x hx
    have hident : c.ident = b.ident := hw.ident_eq
      (ident_mem_visits (List.mem_append_right _ hc)) (ident_mem_visits hb) hid
    exact ⟨st, hst, by simp [hx, hident]⟩
  · rintro ⟨st, hst, hany⟩
    obtain ⟨x, hx, hname⟩ := (Option.any_eq_true _ _).mp hany
    obtain ⟨c, hc, rfl⟩ := hlexical st hst x hx
    have hbc : b = c := h.eq_of_name hb hc (beq_iff_eq.mp hname).symm
    exact ⟨st, hst, c.ident, hx, hbc ▸ rfl⟩

end SourceFile

namespace NameTable

/-- What the module's scope holds under a name. -/
def moduleSymbol? (t : NameTable) (name : String) : Option Symbol :=
  (t.lookupIn 0 name).bind t.symbol?

/-- The symbol of a name is made by the declarations of the name. -/
theorem moduleSymbol?_eq_some (hw : file.WellNumbered) (hf : file.IsFlat) (hd : file.DeclaresOnce)
    {name : String} {symbol : Symbol} (h : (ofFile file).moduleSymbol? name = some symbol) :
    ∃ b, file.bindings.find? (·.ident.name == name) = some b ∧
      symbol.declaration = b.ident.id ∧ symbol.origin = b.origin ∧
        (b.roles.isTypeOnly = true → symbol.roles.isTypeOnly = true) := by
  obtain ⟨id, hl, hs⟩ := Option.bind_eq_some_iff.mp h
  obtain ⟨symbol', hs', hname, hscope⟩ := (ofFile_wf file).symbol_of_lookupIn hl
  obtain rfl : symbol' = symbol := Option.some.inj (hs'.symm.trans hs)
  obtain ⟨made, hmade, hmarked⟩ := symbol_of_module hw hs hscope
  rw [hname] at hmade
  obtain ⟨-, -, b, hfirst, hdeclaration⟩ := symbolFor_eq_some hmade
  have hb : b.ident.name = name := by simpa using List.find?_some hfirst
  have horigin : made.origin = b.origin := symbolFor_origin hmade fun c hc hname' =>
    hd.origin_eq hf hc (List.mem_of_find?_eq_some hfirst) (hname'.trans hb.symm)
  refine ⟨b, hfirst, ?_, ?_, fun htype => ?_⟩
  · rw [hmarked, Symbol.marked_declaration, hdeclaration]
  · rw [hmarked, Symbol.marked_origin, horigin]
  · have hany : made.roles.isTypeOnly =
        file.bindings.any fun b => b.ident.name == name && b.roles.isTypeOnly :=
      symbolFor_any (fun _ _ => rfl) hmade
    have hmade' : made.roles.isTypeOnly = true := by
      rw [hany, List.any_eq_true]
      exact ⟨b, List.mem_of_find?_eq_some hfirst, by simp [hb, htype]⟩
    rw [hmarked, ← hmade']
    unfold Symbol.marked
    split <;> rfl

/-- An identifier that declares a name of the module stands for what the scope holds. -/
theorem symbolOf?_binding (hw : file.WellNumbered) (hb : b ∈ file.bindings) :
    (ofFile file).symbolOf? b.ident = (ofFile file).moduleSymbol? b.ident.name := by
  rw [symbolOf?, hw.not_synthetic (SourceFile.ident_mem_visits hb), lookup_of_binding hw hb]
  rfl

section specifier
variable (hw : file.WellNumbered) {site : Site} {specs : List ExportSpecifier} {isTypeOnly : Bool}
  (hst : .exportFrom site (some (.named specs)) none isTypeOnly ∈ file.statements)
  {spec : ExportSpecifier} (hspec : spec ∈ specs)
include hw hst hspec

/-- A local clause names what the module's scope holds. -/
theorem symbolOf?_source :
    (ofFile file).symbolOf? spec.source = (ofFile file).moduleSymbol? spec.source.name := by
  have hsource : spec.source ∈ identsIn file.visits := by
    refine identsIn_subset (stmt_visits_subset hst) ?_
    rw [identsIn_clauseVisits]
    exact List.mem_map_of_mem hspec
  rw [symbolOf?, hw.not_synthetic hsource, (lookup_specifier hw hst hspec).1]
  rfl

theorem specifierIsValue_eq : (ofFile file).specifierIsValue spec =
    (!spec.isTypeOnly && ((ofFile file).moduleSymbol? spec.source.name).any (·.roles.isValue)) := by
  rw [specifierIsValue, (lookup_specifier hw hst hspec).2]
  rfl

/-- The lowering takes the route that the declaration calls for. -/
theorem route_eq (options : Options) (hf : file.IsFlat) (hd : file.DeclaresOnce) :
    (Setting.ofFile options (ofFile file) file).1.route isTypeOnly spec =
      file.route isTypeOnly spec := by
  have hnames : (Setting.ofFile options (ofFile file) file).1.names = ofFile file := rfl
  unfold Setting.route SourceFile.route
  rw [hnames]
  by_cases hvalue : (ofFile file).specifierIsValue spec = true
  swap
  · simp [hvalue]
  · have hboth := hvalue
    rw [specifierIsValue_eq hw hst hspec, Bool.and_eq_true] at hboth
    obtain ⟨symbol, hsymbol, hroles⟩ := (Option.any_eq_true _ _).mp hboth.2
    obtain ⟨b, hfirst, hdeclaration, horigin, -⟩ := moduleSymbol?_eq_some hw hf hd hsymbol
    have hsource := symbolOf?_source hw hst hspec
    rw [hsymbol] at hsource
    have htype : symbol.roles.isTypeOnly = false := by
      have hall := (Bool.and_eq_true_iff.mp hroles).2
      simpa using hall
    have himport : (ofFile file).importOf? spec.source = b.origin := by
      simp [importOf?, hsource, htype, horigin]
    have hdeclared : (ofFile file).valueDeclaration? spec.source = some b.ident.id := by
      simp [valueDeclaration?, hsource, hroles, hdeclaration]
    have hb : b ∈ file.bindings := List.mem_of_find?_eq_some hfirst
    have hname : b.ident.name = spec.source.name := by simpa using List.find?_some hfirst
    have hfunctions : ((Setting.ofFile options (ofFile file) file).1.interface.functions.contains
        b.ident.id = true) = (file.declaresFunction spec.source.name = true) :=
      congrArg (· = true) (hname ▸ hd.contains_functions hw hb)
    rw [himport, hfirst, hdeclared]
    simp only [Option.any_some, hfunctions]

end specifier
end NameTable
end declared

end RegisterForm
