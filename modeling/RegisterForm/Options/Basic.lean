import RegisterForm.Target
import RegisterForm.Text.Quoted
/-!
# Options

The settings that all files of one run share, and their written form.
-/
namespace RegisterForm

structure Options where
  target : Target := .esNext
  /-- The dotted name of the function that modules register with. -/
  registerFunction : String := "System.register"
  /-- Whether registered modules are in strict mode. -/
  emitUseStrict : Bool := true
  /-- Whether registered modules bind their own name. -/
  emitModuleNameBinding : Bool := true
  deriving DecidableEq, Repr, Inhabited

namespace Options

private def member (name : String) (value : List Char) : List Char :=
  Text.quote Text.escapeData name ++ ':' :: value

private def flag (b : Bool) : List Char := (if b then "true" else "false").toList

/-- The options as a JSON object on one line. -/
def toJson (o : Options) : String :=
  String.ofList <|
    '\x7b' :: member "target" (Text.quote Text.escapeData o.target.name)
      ++ ',' :: member "registerFunction" (Text.quote Text.escapeData o.registerFunction)
      ++ ',' :: member "emitUseStrict" (flag o.emitUseStrict)
      ++ ',' :: member "emitModuleNameBinding" (flag o.emitModuleNameBinding)
      ++ ['\x7d']

end Options
end RegisterForm
