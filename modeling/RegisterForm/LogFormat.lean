import RegisterForm.Text.Blank
/-!
# Log formats

The forms in which a run can be logged, and the setting that chooses one.
-/
namespace RegisterForm

inductive LogFormat where
  | text | tree | json
  deriving DecidableEq, Repr

/-- The format a setting names, in any case and with blanks around; if none, plain text. -/
def LogFormat.parse (setting : String) : LogFormat :=
  let name := String.ofList ((Text.trim setting.toList).map Char.toLower)
  if name = "tree" then .tree else if name = "json" then .json else .text

end RegisterForm
