import RegisterForm.Dependency
import RegisterForm.Registration.Rest
import RegisterForm.Lowering.Hoisting
import RegisterForm.Lowering.Setting
/-!
# Star exports

A module that forwards all names of another defines a function for it. Names that the module
exports itself take precedence, and `default` is never forwarded.
-/
namespace RegisterForm

namespace StarExport

/-- The export clauses of the re-exporting statements. -/
def clauses (groups : List Dependency) : List ExportClause :=
  (groups.flatMap (·.uses)).filterMap fun d =>
    match d.form with
    | .exporting clause => clause
    | _ => none

/-- The names that a clause re-exports. -/
def namesOf : ExportClause → List String
  | .named specifiers => (specifiers.filter (!·.isTypeOnly)).map (·.exportedName)
  | .star x => [x.name]

/-- The names without `default` and without repetition, in the order in which they first occur. -/
def precedence (names : List String) : List String :=
  names.foldl (fun seen name =>
    if name == "default" || seen.contains name then seen else seen ++ [name]) []

/-- The function that forwards the names of a module `m`. Only the module's own names count,
and the test goes through `Object.prototype`, as `m` may lack a prototype. -/
def helper (s : Setting) (name : String) (ownNames : Option String) : Stmt :=
  let key := Expr.ofName "n"
  let own : Expr :=
    .binary .and (.binary .strictNe key (.ofString "default"))
      ((Expr.ofPath "Object.prototype.hasOwnProperty.call").apply [.ofName "m", key])
  let condition := match ownNames with
    | none => own
    | some map =>
      .binary .and own (.negate (((Expr.ofName map).dot "hasOwnProperty").apply [key]))
  let copy : Stmt := .expr (.assignTo (.expr ((Expr.ofName "exports").lookup key))
    ((Expr.ofName "m").lookup key))
  .functionNamed name [.ofName "m"]
    [.varInit "exports" (some (.object [])),
      .forIn (.var ⟨.var, [.ofName "n" none]⟩) (.ofName "m") (.block [.ifThen condition copy]),
      .expr ((Expr.ofName s.exporter).apply [.ofName "exports"])]

/-- The statements that define the function, and its name. -/
def define (s : Setting) (exportedNames : List String) (groups : List Dependency)
    (h : Hoisting) : Option String × List Stmt × Hoisting :=
  if !s.interface.hasStar then (none, [], h)
  else
    let clauses := clauses groups
    if exportedNames.isEmpty && s.interface.specifiers.isEmpty && clauses.isEmpty then
      let (name, h) := h.unique "exportStar"
      (some name, [helper s name none], h)
    else
      let (map, h) := h.unique "exportedNames"
      let names := precedence (exportedNames ++ clauses.flatMap namesOf)
      let properties := names.map fun name => .ofString name (.ofBool true)
      let (name, h) := h.unique "exportStar"
      (some name, [.varInit map (some (.object properties)), helper s name (some map)], h)

end StarExport
end RegisterForm
