import Mathlib.Data.List.Basic
import RegisterForm.Dependency
import RegisterForm.Lowering.Setting
import RegisterForm.Proofs.Renumber.Bind
/-!
# The setting of a renumbered file

What is known of a file before it is lowered: the answers of its table, its interface, and what
an identifier reads and writes. Under new numbers each answer is the same, or the same node under
its new number.
-/
namespace RegisterForm

variable (r : Renumbering)

/-! ## Questions to the table -/

namespace NameTable

@[simp] theorem symbolOf?_renumber (t : NameTable) (x : Ident) :
    (t.renumber r).symbolOf? (x.renumber r) = (t.symbolOf? x).map (·.renumber r) := by
  simp only [symbolOf?, Ident.id_renumber, r.isSynthetic_apply, ofIdent_renumber, r.lookup_pairs]
  split
  · rfl
  · cases t.ofIdent.lookup x.id with
    | none => rfl
    | some id => exact t.symbol?_renumber r id

@[simp] theorem importOf?_renumber (t : NameTable) (x : Ident) :
    (t.renumber r).importOf? (x.renumber r) = (t.importOf? x).map (·.renumber r) := by
  rw [importOf?, symbolOf?_renumber, importOf?]
  cases t.symbolOf? x with
  | none => rfl
  | some s =>
    simp only [Option.map_some, Option.bind_some, Symbol.roles_renumber, Symbol.origin_renumber]
    exact (apply_ite (Option.map (·.renumber r)) (s.roles.isTypeOnly = true) none s.origin).symm

@[simp] theorem exporterOf?_renumber (t : NameTable) (x : Ident) :
    (t.renumber r).exporterOf? (x.renumber r) = (t.exporterOf? x).map r := by
  rw [exporterOf?, symbolOf?_renumber, exporterOf?]
  cases t.symbolOf? x with
  | none => rfl
  | some s =>
    simp only [Option.map_some, Option.bind_some, Symbol.roles_renumber]
    exact (apply_ite (Option.map r) _ t.file none).symm

@[simp] theorem valueDeclaration?_renumber (t : NameTable) (x : Ident) :
    (t.renumber r).valueDeclaration? (x.renumber r) = (t.valueDeclaration? x).map r := by
  rw [valueDeclaration?, symbolOf?_renumber, valueDeclaration?]
  cases t.symbolOf? x with
  | none => rfl
  | some s =>
    simp only [Option.map_some, Option.bind_some, Symbol.roles_renumber,
      Symbol.declaration_renumber]
    exact (apply_ite (Option.map r) _ (some s.declaration) none).symm

@[simp] theorem mayBeValue_renumber (t : NameTable) (x : Ident) :
    (t.renumber r).mayBeValue (x.renumber r) = t.mayBeValue x := by
  rw [mayBeValue, symbolOf?_renumber, mayBeValue, Option.all_map]
  rfl

@[simp] theorem specifierIsValue_renumber (t : NameTable) (s : ExportSpecifier) :
    (t.renumber r).specifierIsValue (s.renumber r) = t.specifierIsValue s := by
  dsimp only [specifierIsValue, ExportSpecifier.renumber]
  rw [ofSpecifier_renumber, r.lookup_pairs]
  cases t.ofSpecifier.lookup s.id with
  | none => rfl
  | some id =>
    rw [Option.bind_some, Option.bind_some, symbol?_renumber, Option.any_map]
    rfl

private theorem all_mayBeValue_renumber (t : NameTable) (x : Option Ident) :
    (x.map (·.renumber r)).all (t.renumber r).mayBeValue = x.all t.mayBeValue := by
  cases x with
  | none => rfl
  | some x => exact t.mayBeValue_renumber r x

@[simp] theorem expressionIsValue_renumber (t : NameTable) (e : Expr) :
    (t.renumber r).expressionIsValue (e.renumber r) = t.expressionIsValue e := by
  rw [expressionIsValue, Expr.skipParens_renumber, Expr.ident?_renumber, all_mayBeValue_renumber,
    expressionIsValue]

@[simp] theorem importEqualsIsValue_renumber (t : NameTable) (kind : Reference) (value : Expr) :
    (t.renumber r).importEqualsIsValue kind (value.renumber r) =
      t.importEqualsIsValue kind value := by
  cases kind with
  | require => rfl
  | entity =>
    rw [importEqualsIsValue, Expr.root?_renumber, all_mayBeValue_renumber, importEqualsIsValue]

end NameTable

/-! ## Interfaces -/

def DependencyForm.renumber : DependencyForm → DependencyForm
  | importing clause => importing (clause.map (·.renumber r))
  | equals name isExported => equals (name.renumber r) isExported
  | exporting clause => exporting (clause.map (·.renumber r))

def Dependence.renumber (d : Dependence) : Dependence :=
  ⟨d.site.renumber r, d.specifier.renumber r, d.form.renumber r⟩

@[simp] theorem ImportClause.isTypeOnly_renumber (c : ImportClause) :
    (c.renumber r).isTypeOnly = c.isTypeOnly := by
  obtain ⟨default, bindings⟩ := c
  cases default with
  | some x => rfl
  | none =>
    cases bindings with
    | none => rfl
    | some b =>
      cases b with
      | star x => rfl
      | named specifiers =>
        simp only [isTypeOnly, renumber, Option.map_some, Option.map_none, ImportBindings.renumber,
          List.isEmpty_map, List.all_map]
        rfl

@[simp] theorem ExportClause.isTypeOnly_renumber (c : ExportClause) :
    (c.renumber r).isTypeOnly = c.isTypeOnly := by
  cases c with
  | star x => rfl
  | named specifiers =>
    simp only [isTypeOnly, renumber, List.isEmpty_map, List.all_map]
    rfl

namespace Interface

def renumber (i : Interface) : Interface where
  dependences := i.dependences.map (·.renumber r)
  specifiers := i.specifiers.map (·.renumber r)
  exportEquals := i.exportEquals.map r
  hasStar := i.hasStar
  exports := r.pairs i.exports
  functions := i.functions.map r

@[simp] theorem dependences_renumber (i : Interface) :
    (i.renumber r).dependences = i.dependences.map (·.renumber r) := rfl

@[simp] theorem hasStar_renumber (i : Interface) : (i.renumber r).hasStar = i.hasStar := rfl

@[simp] theorem isEmpty_specifiers_renumber (i : Interface) :
    (i.renumber r).specifiers.isEmpty = i.specifiers.isEmpty := List.isEmpty_map

@[simp] theorem contains_functions_renumber (i : Interface) (declaration : NodeId) :
    (i.renumber r).functions.contains (r declaration) = i.functions.contains declaration := by
  rw [Bool.eq_iff_iff, List.contains_iff_mem, List.contains_iff_mem]
  exact List.mem_map_of_injective r.injective

@[simp] theorem contains_exports_renumber (i : Interface) (declaration : NodeId) (name : String) :
    (i.renumber r).exports.contains (r declaration, name) =
      i.exports.contains (declaration, name) := by
  rw [Bool.eq_iff_iff, List.contains_iff_mem, List.contains_iff_mem]
  exact r.mem_pairs

@[simp] theorem namesOf_renumber (i : Interface) (declaration : NodeId) :
    (i.renumber r).namesOf (r declaration) = i.namesOf declaration := by
  simp only [namesOf, renumber, Renumbering.pairs, List.filter_map, List.map_map]
  congr 1
  exact List.filter_congr fun entry _ => r.apply_beq entry.1 declaration

@[simp] theorem specifiersOf_renumber (i : Interface) (name : String) :
    (i.renumber r).specifiersOf name = (i.specifiersOf name).map (·.renumber r) := by
  simp only [specifiersOf, renumber, List.filter_map]
  rfl

theorem addExport_renumber (declaration : NodeId) (name : String) (i : Interface) :
    (i.renumber r).addExport (r declaration) name = (i.addExport declaration name).renumber r := by
  simp only [addExport, contains_exports_renumber]
  split
  · rfl
  · simp [renumber, Renumbering.pairs]

theorem addDependence_renumber (d : Dependence) (i : Interface) :
    (i.renumber r).addDependence (d.renumber r) = (i.addDependence d).renumber r := by
  simp [addDependence, renumber]

theorem addFunction_renumber (declaration : NodeId) (i : Interface) :
    (i.renumber r).addFunction (r declaration) = (i.addFunction declaration).renumber r := by
  simp only [addFunction, contains_functions_renumber]
  split
  · rfl
  · simp [renumber]

theorem addNamed_renumber (modifiers : Modifiers) (name : Ident) (i : Interface) :
    (i.renumber r).addNamed modifiers (name.renumber r) =
      (i.addNamed modifiers name).renumber r := by
  simp only [addNamed, Ident.id_renumber, Ident.name_renumber, addExport_renumber]
  split <;> rfl

theorem addSpecifier_renumber (t : NameTable) (i : Interface) (s : ExportSpecifier) :
    addSpecifier (t.renumber r) (i.renumber r) (s.renumber r) =
      (addSpecifier t i s).renumber r := by
  have hsource : (s.renumber r).source = s.source.renumber r := rfl
  simp only [addSpecifier, NameTable.specifierIsValue_renumber, hsource,
    NameTable.valueDeclaration?_renumber, ExportSpecifier.exportedName_renumber]
  have hadd : ({ i.renumber r with specifiers := (i.renumber r).specifiers ++ [s.renumber r] } :
      Interface) = ({ i with specifiers := i.specifiers ++ [s] } : Interface).renumber r := by
    simp [renumber]
  split
  · rw [hadd]
    cases t.valueDeclaration? s.source with
    | none => rfl
    | some declaration => exact addExport_renumber r declaration _ _
  · rfl

/-- Folds that take renumbered nodes into a renumbered interface. -/
private theorem foldl_renumber {α : Type} {step step' : Interface → α → Interface} {change : α → α}
    (h : ∀ i a, step' (i.renumber r) (change a) = (step i a).renumber r) (as : List α)
    (i : Interface) :
    (as.map change).foldl step' (i.renumber r) = (as.foldl step i).renumber r := by
  induction as generalizing i with
  | nil => rfl
  | cons a as ih => rw [List.map_cons, List.foldl_cons, h, ih, List.foldl_cons]

theorem addStmt_renumber (t : NameTable) (i : Interface) (s : Stmt) :
    addStmt (t.renumber r) (i.renumber r) (s.renumber r) = (addStmt t i s).renumber r := by
  cases s with
  | importFrom site clause specifier isTypeOnly =>
    have hclause : (clause.map (·.renumber r)).any (·.isTypeOnly) = clause.any (·.isTypeOnly) := by
      cases clause with
      | none => rfl
      | some c => exact c.isTypeOnly_renumber r
    change (if isTypeOnly || (clause.map (·.renumber r)).any (·.isTypeOnly) then _ else _) =
      (if isTypeOnly || clause.any (·.isTypeOnly) then i
        else i.addDependence ⟨site, specifier, .importing clause⟩).renumber r
    rw [hclause]
    split
    · rfl
    · exact addDependence_renumber r ⟨site, specifier, .importing clause⟩ i
  | importEquals site isExported name kind value =>
    cases kind with
    | require =>
      have hadd := addDependence_renumber r ⟨site, value, .equals name isExported⟩ i
      cases isExported with
      | false => exact hadd
      | true => exact (congrArg (addExport _ _) hadd).trans (addExport_renumber r _ _ _)
    | entity =>
      change (if isExported && (t.renumber r).importEqualsIsValue .entity (value.renumber r) then
          (i.renumber r).addExport (r name.id) name.name else _) =
        (if isExported && t.importEqualsIsValue .entity value then i.addExport name.id name.name
          else i).renumber r
      rw [NameTable.importEqualsIsValue_renumber, addExport_renumber]
      split <;> rfl
  | exportFrom site clause specifier isTypeOnly =>
    cases isTypeOnly with
    | true => rfl
    | false =>
      cases specifier with
      | none =>
        cases clause with
        | none => rfl
        | some c =>
          cases c with
          | star x => rfl
          | named specifiers => exact foldl_renumber r (addSpecifier_renumber r t) specifiers i
      | some e =>
        have hclause : (clause.map (·.renumber r)).any (·.isTypeOnly) =
            clause.any (·.isTypeOnly) := by
          cases clause with
          | none => rfl
          | some c => exact c.isTypeOnly_renumber r
        change (if (clause.map (ExportClause.renumber r)).any ExportClause.isTypeOnly then
            { i.renumber r with
              hasStar := i.hasStar || (clause.map (ExportClause.renumber r)).isNone } else _) =
          (if clause.any ExportClause.isTypeOnly then
            { i with hasStar := i.hasStar || clause.isNone }
            else { i with hasStar := i.hasStar || clause.isNone }.addDependence
              ⟨site, e, .exporting clause⟩).renumber r
        rw [hclause, Option.isNone_map]
        split
        · rfl
        · exact addDependence_renumber r ⟨site, e, .exporting clause⟩
            { i with hasStar := i.hasStar || clause.isNone }
  | exportValue site form value => cases form <;> rfl
  | var modifiers list =>
    change (if modifiers.isExported then (list.renumber r).boundIdents.foldl _ _ else _) =
      (if modifiers.isExported then
        list.boundIdents.foldl (fun i x => i.addExport x.id x.name) i else i).renumber r
    rw [VarList.boundIdents_renumber]
    split
    · exact foldl_renumber r (fun i x => addExport_renumber r x.id x.name i) list.boundIdents i
    · rfl
  | function modifiers f =>
    obtain ⟨name, params, body, isAsync, isGenerator⟩ := f
    cases name with
    | none => rfl
    | some name =>
      exact (congrArg (addNamed modifiers (name.renumber r)) (addFunction_renumber r name.id i)).trans
        (addNamed_renumber r modifiers name _)
  | classDecl modifiers c =>
    obtain ⟨name, base, members⟩ := c
    cases name with
    | none => rfl
    | some name => exact addNamed_renumber r modifiers name i
  | _ => rfl

theorem ofFile_renumber (t : NameTable) (file : SourceFile) :
    ofFile (t.renumber r) (file.renumber r) = (ofFile t file).renumber r :=
  foldl_renumber r (addStmt_renumber r t) file.statements {}

end Interface

/-! ## Dependencies -/

namespace Dependency

def renumber (d : Dependency) : Dependency := ⟨d.name, d.uses.map (·.renumber r)⟩

theorem map_name_renumber (ds : List Dependency) :
    (ds.map (·.renumber r)).map (·.name) = ds.map (·.name) := by
  rw [List.map_map]
  rfl

theorem insert_renumber (name : String) (use : Dependence) (ds : List Dependency) :
    insert name (use.renumber r) (ds.map (·.renumber r)) =
      (insert name use ds).map (·.renumber r) := by
  induction ds with
  | nil => rfl
  | cons d ds ih =>
    have hname : (d.renumber r).name = d.name := rfl
    simp only [List.map_cons, insert, hname]
    split
    · simp [renumber]
    · rw [ih, List.map_cons]

/-- Files a statement under the module that it names, if its specifier can be read. -/
def enter (file : SourceFile) (ds : List Dependency) (use : Dependence) :
    Except LowerError (List Dependency) :=
  match use.specifier.string? with
  | none => .error (.unreadableSpecifier file.name use.site.span)
  | some text => .ok (insert (file.resolveSpecifier text) use ds)

theorem group_eq_foldlM (file : SourceFile) (uses : List Dependence) :
    group file uses = uses.foldlM (enter file) [] := rfl

theorem enter_renumber (file : SourceFile) (ds : List Dependency) (use : Dependence) :
    enter (file.renumber r) (ds.map (·.renumber r)) (use.renumber r) =
      (enter file ds use).map (List.map (·.renumber r)) := by
  have hstring : (use.renumber r).specifier.string? = use.specifier.string? :=
    Expr.string?_renumber r use.specifier
  unfold enter
  rw [hstring]
  cases use.specifier.string? with
  | none => rfl
  | some text =>
    simp only [SourceFile.resolveSpecifier_renumber, insert_renumber]
    rfl

/-- The dependencies stay in their order, and an unreadable specifier stays where it is. -/
theorem group_renumber (file : SourceFile) (uses : List Dependence) :
    group (file.renumber r) (uses.map (·.renumber r)) =
      (group file uses).map (List.map (·.renumber r)) := by
  suffices h : ∀ ds : List Dependency,
      (uses.map (·.renumber r)).foldlM (enter (file.renumber r)) (ds.map (·.renumber r)) =
        (uses.foldlM (enter file) ds).map (List.map (·.renumber r)) from h []
  induction uses with
  | nil => exact fun _ => rfl
  | cons use uses ih =>
    intro ds
    rw [List.map_cons, List.foldlM_cons, List.foldlM_cons, enter_renumber]
    cases enter file ds use with
    | error e => rfl
    | ok ds => exact ih ds

end Dependency

/-! ## Settings -/

namespace Setting

/-- A setting under new numbers. -/
def renumber (s : Setting) : Setting :=
  { s with
    file := s.file.renumber r
    names := s.names.renumber r
    interface := s.interface.renumber r
    holders := r.pairs s.holders }

@[simp] theorem names_renumber (s : Setting) : (s.renumber r).names = s.names.renumber r := rfl

@[simp] theorem interface_renumber (s : Setting) :
    (s.renumber r).interface = s.interface.renumber r := rfl

@[simp] theorem lookup_holders_renumber (s : Setting) (declaration : NodeId) :
    (s.renumber r).holders.lookup (r declaration) = s.holders.lookup declaration :=
  r.lookup_pairs s.holders declaration

theorem publish_renumber (s : Setting) (name : String) (value : Expr) :
    (s.renumber r).publish name (value.renumber r) = (s.publish name value).renumber r := by
  simp [publish, renumber]

theorem importedProperty_renumber (s : Setting) (holder name : String) :
    (s.importedProperty holder name).renumber r = (s.renumber r).importedProperty holder name := by
  unfold importedProperty
  rw [apply_ite (Expr.renumber r)]
  simp [renumber]

theorem read_renumber (s : Setting) (x : Ident) :
    (s.renumber r).read (x.renumber r) = (s.read x).renumber r := by
  unfold read
  rw [names_renumber, NameTable.importOf?_renumber]
  cases s.names.importOf? x with
  | none => rfl
  | some origin =>
    obtain ⟨declaration, kind⟩ := origin
    simp only [Option.map_some, ImportOrigin.renumber, lookup_holders_renumber,
      Ident.name_renumber]
    cases s.holders.lookup declaration with
    | none => rfl
    | some holder =>
      cases kind with
      | default => exact (s.importedProperty_renumber r holder "default").symm
      | named imported => exact (s.importedProperty_renumber r holder imported).symm
      | star | equals =>
        simp only [apply_ite (Expr.renumber r), Expr.renumber_ofName]
        rfl

@[simp] theorem exportNames_renumber (s : Setting) (x : Ident) :
    (s.renumber r).exportNames (x.renumber r) = s.exportNames x := by
  have hexporter : (decide ((s.names.exporterOf? x).map r ≠ some (r s.file.id))) =
      decide (s.names.exporterOf? x ≠ some s.file.id) := by
    cases s.names.exporterOf? x <;> simp
  have hnames : ((s.names.valueDeclaration? x).map r).map (s.interface.renumber r).namesOf =
      (s.names.valueDeclaration? x).map s.interface.namesOf := by
    cases s.names.valueDeclaration? x <;> simp
  have hfile : (s.renumber r).file.id = r s.file.id := rfl
  simp only [exportNames, Ident.id_renumber, Ident.name_renumber, r.isSynthetic_apply,
    names_renumber, interface_renumber, NameTable.exporterOf?_renumber,
    NameTable.importOf?_renumber, NameTable.valueDeclaration?_renumber, Option.isSome_map, hfile,
    hexporter, hnames]

theorem published_renumber (s : Setting) (x : Ident) (value : Expr) :
    (s.renumber r).published (x.renumber r) (value.renumber r) =
      (s.published x value).renumber r := by
  unfold published
  rw [exportNames_renumber]
  induction s.exportNames x generalizing value with
  | nil => rfl
  | cons name names ih => rw [List.foldl_cons, publish_renumber, ih, List.foldl_cons]

theorem publishedTo_renumber (s : Setting) (target : Pattern) (assignment : Expr) :
    (s.renumber r).publishedTo (target.renumber r) (assignment.renumber r) =
      (s.publishedTo target assignment).renumber r := by
  unfold publishedTo
  rw [Pattern.ident?_renumber]
  cases target.ident? with
  | none => rfl
  | some x => exact s.published_renumber r x assignment

theorem bindingAssignment_renumber (s : Setting) (x : Ident) (value : Expr) :
    (s.renumber r).bindingAssignment (x.renumber r) (value.renumber r) =
      (s.bindingAssignment x value).renumber r :=
  s.published_renumber r x (.assignTo (.ident x) value)

@[simp] theorem hasExportedLeaf_renumber (s : Setting) (p : Pattern) :
    (s.renumber r).hasExportedLeaf (p.renumber r) = s.hasExportedLeaf p := by
  unfold hasExportedLeaf
  rw [p.boundIdents_renumber, List.any_map]
  exact congrArg p.boundIdents.any (funext fun x => by simp)

theorem publishedUpdate?_renumber (s : Setting) (op : UpdateOp) (isPrefix isUsed : Bool)
    (arg : Expr) : (s.renumber r).publishedUpdate? op isPrefix isUsed (arg.renumber r) =
      (s.publishedUpdate? op isPrefix isUsed arg).map (·.renumber r) := by
  unfold publishedUpdate?
  rw [Expr.skipParens_renumber]
  cases arg.skipParens with
  | ident x =>
    simp only [Expr.renumber_ident, exportNames_renumber]
    have hpublished := s.published_renumber r x (.update op true (.ident x))
    split
    · rfl
    · simp only [Expr.renumber_update, Expr.renumber_ident] at hpublished
      rw [Option.map_some, hpublished]
      split <;> rfl
  | _ => rfl

theorem readShorthand_renumber (s : Setting) (x : Ident) :
    (s.renumber r).readShorthand (x.renumber r) = (s.readShorthand x).renumber r := by
  unfold readShorthand
  rw [read_renumber]
  cases s.read x with
  | ident y =>
    exact (apply_ite (Property.renumber r) (y.name = x.name) (.shorthand x)
      (.ofName x.name (.ident y))).symm
  | _ => rfl

end Setting
end RegisterForm
