import RegisterForm.Registration.Call
import RegisterForm.Proofs.Renumber.Lowered
import RegisterForm.Proofs.Renumber.Print
import RegisterForm.Proofs.Renumber.Visit
import RegisterForm.Proofs.Script.Holders
/-!
# Renumbered modules

Numbers tell nodes apart and do nothing else: a file under new numbers is lowered to the same code,
with the same dependencies, or fails with the same error.
-/
namespace RegisterForm
open Lowering

variable (r : Renumbering)

/-! ## Holders -/

namespace Dependence

theorem freshHolder_renumber (d : Dependence) (h : Hoisting) :
    (d.renumber r).freshHolder (h.renumber r) =
      ((d.freshHolder h).1, (d.freshHolder h).2.renumber r) := by
  have hstring : (d.renumber r).specifier.string? = d.specifier.string? :=
    Expr.string?_renumber r d.specifier
  rw [freshHolder, hstring]
  rfl

theorem holder?_renumber (d : Dependence) (h : Hoisting) :
    (d.renumber r).holder? (h.renumber r) = ((d.holder? h).1, (d.holder? h).2.renumber r) := by
  have hfresh := d.freshHolder_renumber r h
  obtain ⟨site, specifier, form⟩ := d
  cases form with
  | equals name isExported => rfl
  | exporting clause =>
    cases clause with
    | none => rfl
    | some c => cases c <;> rfl
  | importing clause =>
    cases clause with
    | none => rfl
    | some c =>
      obtain ⟨default, bindings⟩ := c
      cases default with
      | some x => exact congrArg (fun out : String × Hoisting => (some out.1, out.2)) hfresh
      | none =>
        cases bindings with
        | none => exact congrArg (fun out : String × Hoisting => (some out.1, out.2)) hfresh
        | some b =>
          cases b with
          | star x => rfl
          | named specifiers =>
            exact congrArg (fun out : String × Hoisting => (some out.1, out.2)) hfresh

end Dependence

theorem enterHolder_renumber (entries : List (NodeId × String)) (h : Hoisting) (d : Dependence) :
    (d.renumber r).enterHolder (r.pairs entries, h.renumber r) =
      Prod.map r.pairs (Hoisting.renumber r) (d.enterHolder (entries, h)) := by
  unfold Dependence.enterHolder
  rw [d.holder?_renumber r h]
  obtain ⟨name, h'⟩ := d.holder? h
  cases name with
  | none => rfl
  | some name => rfl

theorem holdersOf_renumber (uses : List Dependence) (h : Hoisting) :
    holdersOf (uses.map (·.renumber r)) (h.renumber r) =
      (r.pairs (holdersOf uses h).1, (holdersOf uses h).2.renumber r) := by
  suffices hall : ∀ state : List (NodeId × String) × Hoisting,
      (uses.map (·.renumber r)).foldl Dependence.enterHolder (r.pairs state.1, state.2.renumber r) =
        Prod.map r.pairs (Hoisting.renumber r) (uses.foldl Dependence.enterHolder state) from
    hall ([], h)
  induction uses with
  | nil => exact fun _ => rfl
  | cons d uses ih =>
    rintro ⟨entries, h⟩
    rw [List.map_cons, List.foldl_cons, List.foldl_cons, enterHolder_renumber]
    exact ih (d.enterHolder (entries, h))

/-! ## Setters -/

namespace Setting
variable (s : Setting)

theorem publishAll_renumber (ps : List Property) :
    (s.renumber r).publishAll (ps.map (·.renumber r)) =
      (s.publishAll ps).map (·.renumber r) := by
  cases ps with
  | nil => rfl
  | cons p ps =>
    simp [publishAll, renumber]

theorem importedValue_renumber (parameter : String) (kind : ImportKind) :
    (importedValue parameter kind).renumber r = importedValue parameter kind := by
  cases kind <;> simp [importedValue]

theorem reexports_renumber (declaration : NodeId) (parameter : String) (x : Ident) :
    (s.renumber r).reexports (r declaration) parameter (x.renumber r) =
      (s.reexports declaration parameter x).map (·.renumber r) := by
  unfold reexports
  rw [names_renumber, NameTable.importOf?_renumber]
  cases s.names.importOf? x with
  | none => rfl
  | some origin =>
    have hsame : ∀ spec : ExportSpecifier,
        decide ((s.names.renumber r).importOf? (spec.renumber r).source = some (origin.renumber r)) =
          decide (s.names.importOf? spec.source = some origin) := by
      intro spec
      have himport := s.names.importOf?_renumber r spec.source
      rw [show (spec.renumber r).source = spec.source.renumber r from rfl, himport]
      cases s.names.importOf? spec.source <;> simp
    have hdeclaration : (origin.renumber r).declaration = r origin.declaration := rfl
    have hkind : (origin.renumber r).kind = origin.kind := rfl
    simp only [Option.map_some, hdeclaration, hkind, r.apply_inj, interface_renumber,
      Interface.specifiersOf_renumber, Ident.name_renumber, List.filter_map, List.map_map]
    split
    · simp only [List.map_map, Function.comp_def, hsame, ExportSpecifier.exportedName_renumber,
        Property.renumber_ofString, importedValue_renumber]
    · rfl

theorem forwarded_renumber (parameter : String) (specifiers : List ExportSpecifier) :
    forwarded parameter (specifiers.map (·.renumber r)) =
      (forwarded parameter specifiers).map (·.renumber r) := by
  simp only [forwarded, List.filter_map, List.map_map]
  refine List.map_congr_left fun spec _ => ?_
  simp [ExportSpecifier.renumber, ExportSpecifier.exportedName]

theorem keep_renumber (name parameter : String) : (keep name parameter).renumber r = keep name parameter := by
  simp [keep]

/-- What is published for the bindings of an import clause. -/
private theorem flatMap_bound_renumber {publish publish' : Ident → List Property}
    (h : ∀ x, publish' (x.renumber r) = (publish x).map (·.renumber r)) (clause : ImportClause) :
    ((clause.renumber r).default.toList ++ match (clause.renumber r).bindings with
      | none => []
      | some (.star x) => [x]
      | some (.named specifiers) => specifiers.map (·.binding)).flatMap publish' =
    ((clause.default.toList ++ match clause.bindings with
      | none => []
      | some (.star x) => [x]
      | some (.named specifiers) => specifiers.map (·.binding)).flatMap publish).map
        (·.renumber r) := by
  obtain ⟨default, bindings⟩ := clause
  rw [List.flatMap_append, List.flatMap_append, List.map_append]
  congr 1
  · cases default with
    | none => rfl
    | some x => simp [ImportClause.renumber, h]
  · cases bindings with
    | none => rfl
    | some b =>
      cases b with
      | star x => simp [ImportClause.renumber, ImportBindings.renumber, h]
      | named specifiers =>
        simp only [ImportClause.renumber, Option.map_some, ImportBindings.renumber, List.map_map,
          List.flatMap_map, List.map_flatMap]
        exact congrArg specifiers.flatMap (funext fun spec => h spec.binding)

theorem serve_renumber (star : Option String) (parameter : String) (d : Dependence) :
    (s.renumber r).serve star parameter (d.renumber r) =
      (s.serve star parameter d).map (·.renumber r) := by
  obtain ⟨site, specifier, form⟩ := d
  have hpublish : ∀ name, (s.renumber r).publish name (.ofName parameter) =
      (s.publish name (.ofName parameter)).renumber r := by
    intro name
    rw [← publish_renumber, Expr.renumber_ofName]
  cases form with
  | importing clause =>
    cases clause with
    | none => rfl
    | some clause =>
      have hheld : ((s.renumber r).holders.lookup (r site.id)).toList.map (keep · parameter) =
          ((s.holders.lookup site.id).toList.map (keep · parameter)).map (·.renumber r) := by
        rw [lookup_holders_renumber, List.map_map]
        exact List.map_congr_left fun name _ => (keep_renumber r name parameter).symm
      have hpublished := flatMap_bound_renumber r (s.reexports_renumber r site.id parameter) clause
      refine Eq.trans ?_ List.map_append.symm
      exact congrArg₂ (· ++ ·) hheld
        ((congrArg (s.renumber r).publishAll hpublished).trans (s.publishAll_renumber r _))
  | equals name isExported =>
    simp only [Dependence.renumber, DependencyForm.renumber, serve, Site.id_renumber,
      Ident.name_renumber, reexports_renumber, publishAll_renumber, hpublish, List.map_append,
      List.map_cons, keep_renumber]
    cases isExported <;> rfl
  | exporting clause =>
    cases clause with
    | none =>
      simp only [Dependence.renumber, DependencyForm.renumber, Option.map_none, serve,
        List.map_map]
      simp [Function.comp_def]
    | some clause =>
      cases clause with
      | named specifiers =>
        simp only [Dependence.renumber, DependencyForm.renumber, Option.map_some,
          ExportClause.renumber, serve, forwarded_renumber, publishAll_renumber]
      | star x =>
        simp only [Dependence.renumber, DependencyForm.renumber, Option.map_some,
          ExportClause.renumber, serve, Ident.name_renumber, hpublish, List.map_cons, List.map_nil,
          Stmt.renumber_expr]

theorem parameterBase_renumber (uses : List Dependence) (h : Hoisting) :
    (s.renumber r).parameterBase (uses.map (·.renumber r)) (h.renumber r) =
      ((s.parameterBase uses h).1, (s.parameterBase uses h).2.renumber r) := by
  induction uses with
  | nil => rfl
  | cons d uses ih =>
    have hfresh := d.freshHolder_renumber r h
    have hlookup : (s.renumber r).holders.lookup (d.renumber r).site.id =
        s.holders.lookup d.site.id := s.lookup_holders_renumber r d.site.id
    rw [List.map_cons, parameterBase, parameterBase, hlookup]
    cases s.holders.lookup d.site.id with
    | some name => rfl
    | none =>
      obtain ⟨site, specifier, form⟩ := d
      cases form with
      | exporting clause => exact hfresh
      | importing clause => exact ih
      | equals name isExported => exact ih

theorem setter_renumber (star : Option String) (d : Dependency) (h : Hoisting) :
    (s.renumber r).setter star (d.renumber r) (h.renumber r) =
      ((s.setter star d h).1.renumber r, (s.setter star d h).2.renumber r) := by
  have huses : (d.renumber r).uses = d.uses.map (·.renumber r) := rfl
  unfold setter
  rw [huses, parameterBase_renumber]
  simp only [Hoisting.unique_renumber, List.flatMap_map, serve_renumber, ← List.map_flatMap,
    Expr.renumber_functionOf, List.map_cons, List.map_nil, Param.renumber_ofName]

theorem setters_renumber (star : Option String) (ds : List Dependency) (h : Hoisting) :
    (s.renumber r).setters star (ds.map (·.renumber r)) (h.renumber r) =
      ((s.setters star ds h).1.map (·.renumber r), (s.setters star ds h).2.renumber r) := by
  induction ds generalizing h with
  | nil => rfl
  | cons d ds ih =>
    simp only [List.map_cons, setters, setter_renumber, ih]

end Setting

/-! ## Helpers -/

namespace Rest

/-- A helper that is made up has no numbers. -/
theorem define_renumber : define.renumber r = define := by
  simp [define, copyStrings, copySymbols, copyProperty, notExcluded, Expr.prototypeCall]

end Rest

namespace StarExport

theorem clauses_renumber (groups : List Dependency) :
    clauses (groups.map (·.renumber r)) = (clauses groups).map (·.renumber r) := by
  have huses : (groups.map (·.renumber r)).flatMap (·.uses) =
      (groups.flatMap (·.uses)).map (·.renumber r) := by
    rw [List.flatMap_map, List.map_flatMap]
    rfl
  rw [clauses, huses, List.filterMap_map, clauses, List.map_filterMap]
  refine List.filterMap_congr fun d _ => ?_
  obtain ⟨site, specifier, form⟩ := d
  cases form <;> rfl

theorem namesOf_renumber (clause : ExportClause) : namesOf (clause.renumber r) = namesOf clause := by
  cases clause with
  | star x => rfl
  | named specifiers =>
    simp only [ExportClause.renumber, namesOf, List.filter_map, List.map_map]
    rfl

theorem helper_renumber (s : Setting) (name : String) (ownNames : Option String) :
    helper (s.renumber r) name ownNames = (helper s name ownNames).renumber r := by
  cases ownNames <;>
    simp [helper, Setting.renumber]

theorem define_renumber (s : Setting) (exportedNames : List String) (groups : List Dependency)
    (h : Hoisting) :
    define (s.renumber r) exportedNames (groups.map (·.renumber r)) (h.renumber r) =
      ((define s exportedNames groups h).1, (define s exportedNames groups h).2.1.map (·.renumber r),
        (define s exportedNames groups h).2.2.renumber r) := by
  have hstar : (s.renumber r).interface.hasStar = s.interface.hasStar := rfl
  have hspecifiers : (s.renumber r).interface.specifiers.isEmpty = s.interface.specifiers.isEmpty :=
    s.interface.isEmpty_specifiers_renumber r
  unfold define
  rw [hstar, hspecifiers, clauses_renumber]
  simp only [List.isEmpty_map, List.flatMap_map, namesOf_renumber, helper_renumber,
    Hoisting.unique_renumber]
  split
  · rfl
  · split
    · rfl
    · simp [Function.comp_def]

end StarExport

/-! ## Modules -/

namespace Setting
variable (s : Setting)

theorem prologue_renumber (frame : Frame) (functionExports : List Stmt) (needsRest : Bool) :
    (s.renumber r).prologue (frame.renumber r) (functionExports.map (·.renumber r)) needsRest =
      (s.prologue frame functionExports needsRest).map (·.renumber r) := by
  have hoptions : (s.renumber r).options = s.options := rfl
  have hcontext : (s.renumber r).context = s.context := rfl
  have hfunctions : (frame.renumber r).functions = frame.functions.map (·.renumber r) := rfl
  simp only [prologue, hoptions, hcontext, hfunctions, frame.variableStmt?_renumber,
    List.map_append, Option.toList_map, apply_ite (List.map (Stmt.renumber r)), List.map_cons,
    List.map_nil, Stmt.renumber_expr, Expr.renumber_ofString, Stmt.renumber_varInit,
    Option.map_some, Expr.renumber_binary, Expr.renumber_ofName, Expr.renumber_dot,
    Rest.define_renumber]

theorem registration_renumber (groups : List Dependency) (body : List Stmt) :
    (s.renumber r).registration (groups.map (·.renumber r)) (body.map (·.renumber r)) =
      (s.registration groups body).renumber r := by
  have hnames : (groups.map (·.renumber r)).map (fun d => Expr.ofString d.name) =
      groups.map fun d => Expr.ofString d.name := by
    rw [List.map_map]
    rfl
  have hself : ∀ {α : Type} (as : List α) (text : α → String),
      (as.map fun a => Expr.ofString (text a)).map (·.renumber r) =
        as.map fun a => Expr.ofString (text a) := by
    intro α as text
    rw [List.map_map]
    rfl
  simp only [registration, hnames, Stmt.renumber_expr, Expr.renumber_apply, Expr.renumber_ofPath,
    List.map_append, List.map_cons, List.map_nil, Expr.renumber_arrayOf, hself,
    Expr.renumber_functionOf, Param.renumber_ofName]
  rfl

end Setting

def Lowered.renumber (lowered : Lowered) : Lowered :=
  { lowered with statement := lowered.statement.renumber r }

theorem Setting.assemble_renumber (s : Setting) (groups : List Dependency) (execute : List Stmt)
    (p : Progress) :
    (s.renumber r).assemble (groups.map (·.renumber r)) (execute.map (·.renumber r)) (p.renumber r) =
      (s.assemble groups execute p).renumber r := by
  have hexports : (p.renumber r).exportedNames = p.exportedNames := rfl
  have hfunctions : (p.renumber r).functionExports = p.functionExports.map (·.renumber r) := rfl
  have hrest : (p.renumber r).needsRest = p.needsRest := rfl
  have hhoisting : (p.renumber r).hoisting = p.hoisting.renumber r := rfl
  simp only [assemble, hexports, hfunctions, hrest, hhoisting, Hoisting.pop_renumber,
    StarExport.define_renumber, setters_renumber, prologue_renumber, Lowered.renumber,
    ← registration_renumber, List.map_append, List.length_map, Dependency.map_name_renumber]
  simp

/-! ## Files -/

/-- The names of a file leave the same names to give out. -/
theorem FileState.ofFile_renumber (file : SourceFile) :
    FileState.ofFile (file.renumber r) = FileState.ofFile file := by
  have hhoisting : Hoisting.ofFile (file.renumber r) = Hoisting.ofFile file := by
    rw [Hoisting.ofFile, SourceFile.names_renumber, Hoisting.ofFile]
  rw [FileState.ofFile, hhoisting]
  rfl

theorem Setting.ofFile_renumber (options : Options) (t : NameTable) (file : SourceFile) :
    Setting.ofFile options (t.renumber r) (file.renumber r) =
      ((Setting.ofFile options t file).1.renumber r, (Setting.ofFile options t file).2.renumber r) := by
  have hhoisting : (FileState.ofFile file).hoisting.push.renumber r =
      (FileState.ofFile file).hoisting.push := rfl
  have hholders := holdersOf_renumber r (Interface.ofFile t file).dependences
    (FileState.ofFile file).hoisting.push
  rw [hhoisting] at hholders
  unfold Setting.ofFile Setting.ofState
  rw [FileState.ofFile_renumber, Interface.ofFile_renumber]
  dsimp only
  rw [Interface.dependences_renumber, hholders]
  rfl

/-- A file under new numbers is lowered to what it was lowered to, under new numbers. -/
theorem lower_renumber (options : Options) (file : SourceFile) :
    lower options (.ofFile (file.renumber r)) (file.renumber r) =
      (lower options (.ofFile file) file).map (Lowered.renumber r) := by
  rw [lower_eq, lower_eq, NameTable.ofFile_renumber, Setting.ofFile_renumber]
  generalize Setting.ofFile options (.ofFile file) file = start
  obtain ⟨s, hoisting⟩ := start
  have hdependences : (s.renumber r).interface.dependences =
      s.interface.dependences.map (·.renumber r) := rfl
  have hstmts := lowerStmts_renumber (r := r) (s := s) file.statements .topLevel { hoisting }
  rw [renumberStmts_eq] at hstmts
  dsimp only
  rw [hdependences, Dependency.group_renumber, SourceFile.statements_renumber]
  cases Dependency.group file s.interface.dependences with
  | error e => rfl
  | ok groups =>
    change (((lowerStmts (s.renumber r) .topLevel (file.statements.map (·.renumber r))).run
      (Progress.renumber r { hoisting })).bind fun out =>
        .ok ((s.renumber r).assemble (groups.map (·.renumber r)) out.1 out.2)) =
      Except.map (Lowered.renumber r) (((lowerStmts s .topLevel file.statements).run
        { hoisting }).bind fun out => .ok (s.assemble groups out.1 out.2))
    rw [hstmts]
    cases (lowerStmts s .topLevel file.statements).run { hoisting } with
    | error e => rfl
    | ok out =>
      refine congrArg Except.ok (Eq.trans ?_ (s.assemble_renumber r groups out.1 out.2))
      dsimp only
      rw [renumberStmts_eq]

/-- What is seen of a lowered module: its dependencies, the number of its setters and its code. -/
def Lowered.shown (lowered : Lowered) : List String × Nat × String :=
  (lowered.dependencies, lowered.setterCount, lowered.statement.print)

/-- Numbers matter as identities only: under new numbers a file fails with the same error, or has
the same dependencies, setters and code. -/
theorem lower_renumber_shown (options : Options) (file : SourceFile) :
    (lower options (.ofFile (file.renumber r)) (file.renumber r)).map Lowered.shown =
      (lower options (.ofFile file) file).map Lowered.shown := by
  have hshown : ∀ lowered : Lowered, (lowered.renumber r).shown = lowered.shown := fun lowered =>
    congrArg (fun code => (lowered.dependencies, lowered.setterCount, code))
      (lowered.statement.print_renumber r)
  rw [lower_renumber]
  cases lower options (.ofFile file) file with
  | error e => rfl
  | ok lowered => exact congrArg Except.ok (hshown lowered)

end RegisterForm
