import RegisterForm.Registration.Holder
import RegisterForm.Lowering.Setting
/-!
# Setters

For each dependency a registered module has one function that is called whenever the other
module has published something. It keeps the module in its holders and publishes what is
exported from there.
-/
namespace RegisterForm

namespace Setting

/-- `exporter({ "name": value, ... })`, unless there is nothing to publish. -/
def publishAll (s : Setting) : List Property → List Stmt
  | [] => []
  | p :: ps => [.expr ((Expr.ofName s.exporter).apply [.object (p :: ps)])]

/-- What an imported binding is in the module that the parameter holds. -/
def importedValue (parameter : String) : ImportKind → Expr
  | .default => (Expr.ofName parameter).lookup (.ofString "default")
  | .named imported => (Expr.ofName parameter).lookup (.ofString imported)
  | .star | .equals => .ofName parameter

/-- The names under which a local clause exports an imported binding. -/
def reexports (s : Setting) (declaration : NodeId) (parameter : String) (x : Ident) :
    List Property :=
  match s.names.importOf? x with
  | none => []
  | some origin =>
    if origin.declaration = declaration then
      ((s.interface.specifiersOf x.name).filter fun spec =>
          decide (s.names.importOf? spec.source = some origin)).map fun spec =>
        .ofString spec.exportedName (importedValue parameter origin.kind)
    else []

/-- The names that a re-exporting clause takes from the module that the parameter holds. -/
def forwarded (parameter : String) (specifiers : List ExportSpecifier) : List Property :=
  (specifiers.filter (!·.isTypeOnly)).map fun spec =>
    .ofString spec.exportedName ((Expr.ofName parameter).lookup (.ofString spec.source.name))

/-- `name = parameter;` -/
def keep (name parameter : String) : Stmt := .expr (.assignName name (.ofName parameter))

/-- What a setter does for one statement that names its module. -/
def serve (s : Setting) (star : Option String) (parameter : String) (d : Dependence) :
    List Stmt :=
  match d.form with
  | .importing none => []
  | .importing (some clause) =>
    let bound := clause.default.toList ++ match clause.bindings with
      | none => []
      | some (.star x) => [x]
      | some (.named specifiers) => specifiers.map (·.binding)
    (s.holders.lookup d.site.id).toList.map (keep · parameter)
      ++ s.publishAll (bound.flatMap (s.reexports d.site.id parameter))
  | .equals name isExported =>
    keep name.name parameter
      :: (if isExported then [.expr (s.publish name.name (.ofName parameter))] else [])
      ++ s.publishAll (s.reexports d.site.id parameter name)
  | .exporting (some (.named specifiers)) => s.publishAll (forwarded parameter specifiers)
  | .exporting (some (.star x)) => [.expr (s.publish x.name (.ofName parameter))]
  | .exporting none =>
    star.toList.map fun helper => .expr ((Expr.ofName helper).apply [.ofName parameter])

/-- The name that a setter's parameter is made from: the first holder among the statements,
or one made for a re-export. -/
def parameterBase (s : Setting) : List Dependence → Hoisting → String × Hoisting
  | [], h => ("", h)
  | d :: ds, h =>
    match s.holders.lookup d.site.id, d.form with
    | some name, _ => (name, h)
    | none, .exporting _ => d.freshHolder h
    | none, _ => s.parameterBase ds h

/-- The setter of a dependency. -/
def setter (s : Setting) (star : Option String) (d : Dependency) (h : Hoisting) :
    Expr × Hoisting :=
  let (base, h) := s.parameterBase d.uses h
  let (parameter, h) := h.unique base
  (.functionOf none [.ofName parameter] (d.uses.flatMap (s.serve star parameter)), h)

def setters (s : Setting) (star : Option String) :
    List Dependency → Hoisting → List Expr × Hoisting
  | [], h => ([], h)
  | d :: ds, h =>
    let (e, h) := s.setter star d h
    let (es, h) := s.setters star ds h
    (e :: es, h)

end Setting
end RegisterForm
