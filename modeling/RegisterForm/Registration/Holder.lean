import RegisterForm.Lowering.Hoisting
import RegisterForm.Dependency
import RegisterForm.Text.Split
/-!
# Holders

The variables in which a registered module keeps the modules that it depends on. A namespace
keeps its own name; otherwise the name is made from the specifier.
-/
namespace RegisterForm

/-- A character as it can stand in a holder's name. -/
def holderChar (c : Char) : Char := if c.isAlphanum || c == '_' then c else '_'

/-- A name for a module: the last part of its path, with an underscore for all that no name
can hold. -/
def holderBase (specifier : String) : String :=
  let trimmed := (specifier.toList.reverse.dropWhile (· == '/')).reverse
  let last := Text.lastPart '/' trimmed
  let start := if last.head?.any Char.isDigit then ['_'] else []
  String.ofList (start ++ last.map holderChar)

namespace Dependence

/-- A fresh holder made from the specifier. -/
def freshHolder (d : Dependence) (h : Hoisting) : String × Hoisting :=
  h.unique ((d.specifier.string?.map holderBase).getD "module")

/-- The holder of the module that a statement names, if the statement needs one. -/
def holder? (d : Dependence) (h : Hoisting) : Option String × Hoisting :=
  match d.form with
  | .importing none => (none, h)
  | .importing (some ⟨none, some (.star x)⟩) => (some x.name, h)
  | .importing (some _) => let (name, h) := d.freshHolder h; (some name, h)
  | .equals name _ => (some name.name, h)
  | .exporting (some (.star x)) => (some x.name, h)
  | .exporting _ => (none, h)

end Dependence

/-- The holders of all dependences, the newest entry first. -/
def holdersOf (uses : List Dependence) (h : Hoisting) : List (NodeId × String) × Hoisting :=
  uses.foldl (fun (holders, h) d =>
    match d.holder? h with
    | (some name, h) => ((d.site.id, name) :: holders, h)
    | (none, h) => (holders, h)) ([], h)

end RegisterForm
