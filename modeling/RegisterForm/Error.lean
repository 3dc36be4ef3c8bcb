import RegisterForm.Tree.Ident
/-!
# Errors

Why a module cannot be lowered.
-/
namespace RegisterForm

inductive LowerError where
  /-- A module specifier that is not a string literal. -/
  | unreadableSpecifier (file : String) (span : Span)
  /-- A tree nested past the limit. -/
  | tooDeep (file : String)
  deriving DecidableEq, Repr

def LowerError.message : LowerError → String
  | unreadableSpecifier file span =>
    file ++ ": module specifier at " ++ toString span.start ++ ".." ++ toString span.stop
      ++ " is not a string literal"
  | tooDeep file => file ++ ": syntax tree nesting exceeds the lowering depth limit"

end RegisterForm
