import RegisterForm.Scope.Query
/-!
# Module interfaces

What a module takes from others and what it gives them, read off its top-level statements.
-/
namespace RegisterForm

/-- The three kinds of statement that depend on another module. -/
inductive DependencyForm where
  | importing (clause : Option ImportClause)
  | equals (name : Ident) (isExported : Bool)
  /-- A re-export; without a clause, of all names. -/
  | exporting (clause : Option ExportClause)
  deriving DecidableEq

/-- A statement that depends on another module. -/
structure Dependence where
  site : Site
  specifier : Expr
  form : DependencyForm

structure Interface where
  /-- The dependences on other modules, in source order. -/
  dependences : List Dependence := []
  /-- The names that local export clauses give values, in source order. -/
  specifiers : List ExportSpecifier := []
  /-- The last declaration that exports one value as the whole module. -/
  exportEquals : Option NodeId := none
  /-- Whether all names of some module are forwarded. -/
  hasStar : Bool := false
  /-- The export names of the declaring identifiers, each pair once. -/
  exports : List (NodeId × String) := []
  /-- The declaring identifiers of the top-level functions. -/
  functions : List NodeId := []

namespace Interface

/-- The names under which a declaration is exported. -/
def namesOf (i : Interface) (declaration : NodeId) : List String :=
  (i.exports.filter (·.1 == declaration)).map (·.2)

/-- The export specifiers with the given local name. -/
def specifiersOf (i : Interface) (name : String) : List ExportSpecifier :=
  i.specifiers.filter (·.source.name == name)

def addExport (declaration : NodeId) (name : String) (i : Interface) : Interface :=
  if i.exports.contains (declaration, name) then i
  else { i with exports := i.exports ++ [(declaration, name)] }

def addDependence (d : Dependence) (i : Interface) : Interface :=
  { i with dependences := i.dependences ++ [d] }

def addFunction (declaration : NodeId) (i : Interface) : Interface :=
  if i.functions.contains declaration then i
  else { i with functions := i.functions ++ [declaration] }

/-- The export name of a declaration of `name`. -/
def exportNameOf (modifiers : Modifiers) (name : String) : String :=
  if modifiers.isDefault then "default" else name

/-- Adds the export of a named function or class. -/
def addNamed (modifiers : Modifiers) (name : Ident) (i : Interface) : Interface :=
  if modifiers.isExported then i.addExport name.id (exportNameOf modifiers name.name) else i

/-- Adds a name of a local export clause, if it exports a value. -/
def addSpecifier (t : NameTable) (i : Interface) (s : ExportSpecifier) : Interface :=
  if t.specifierIsValue s then
    let i := { i with specifiers := i.specifiers ++ [s] }
    match t.valueDeclaration? s.source with
    | none => i
    | some declaration => i.addExport declaration s.exportedName
  else i

end Interface

/-- A clause whose every binding is marked as a type. -/
def ImportClause.isTypeOnly (c : ImportClause) : Bool :=
  match c.default, c.bindings with
  | none, some (.named specifiers) => !specifiers.isEmpty && specifiers.all (·.isTypeOnly)
  | _, _ => false

/-- A clause whose every name is marked as a type. -/
def ExportClause.isTypeOnly : ExportClause → Bool
  | named specifiers => !specifiers.isEmpty && specifiers.all (·.isTypeOnly)
  | star _ => false

namespace Interface

/-- Adds what one top-level statement takes and gives. -/
def addStmt (t : NameTable) (i : Interface) : Stmt → Interface
  | .importFrom site clause specifier isTypeOnly =>
    if isTypeOnly || clause.any (·.isTypeOnly) then i
    else i.addDependence ⟨site, specifier, .importing clause⟩
  | .importEquals site isExported name .require value =>
    let i := i.addDependence ⟨site, value, .equals name isExported⟩
    if isExported then i.addExport name.id name.name else i
  | .importEquals _ isExported name .entity value =>
    if isExported && t.importEqualsIsValue .entity value then i.addExport name.id name.name else i
  | .exportFrom _ _ _ true => i
  | .exportFrom site clause (some specifier) false =>
    let i := { i with hasStar := i.hasStar || clause.isNone }
    if clause.any (·.isTypeOnly) then i
    else i.addDependence ⟨site, specifier, .exporting clause⟩
  | .exportFrom _ (some (.named specifiers)) none false => specifiers.foldl (addSpecifier t) i
  | .exportValue site .equals _ => { i with exportEquals := some site.id }
  | .var modifiers list =>
    if modifiers.isExported then list.boundIdents.foldl (fun i x => i.addExport x.id x.name) i
    else i
  | .function modifiers f =>
    match f.name with
    | none => i
    | some name => (i.addFunction name.id).addNamed modifiers name
  | .classDecl modifiers c =>
    match c.name with
    | none => i
    | some name => i.addNamed modifiers name
  | _ => i

/-- The interface of a module whose names are bound. -/
def ofFile (t : NameTable) (file : SourceFile) : Interface :=
  file.statements.foldl (addStmt t) {}

end Interface
end RegisterForm
