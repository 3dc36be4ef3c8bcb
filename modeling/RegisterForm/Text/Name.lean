import RegisterForm.Text.Letter
/-!
# Identifier names

Which texts can stand after a dot, and which characters continue a word.
-/
namespace RegisterForm.Text

/-- A character that can start a name. -/
def startsName (c : Char) : Bool := isAlphabetic c || c == '_' || c == '$'

/-- A character that can stand inside a name. -/
def continuesName (c : Char) : Bool := isAlphanumeric c || c == '_' || c == '$'

/-- Whether a text can follow the dot of a property access. -/
def isIdentifierName (s : String) : Bool :=
  match s.toList with
  | [] => false
  | c :: cs => startsName c && cs.all continuesName

end RegisterForm.Text
