/-!
# Quoted text

Text written between double quotes, for program text and for data. A quote or a backslash
inside is escaped, and so is every character that would not survive on one line.
-/
namespace RegisterForm.Text

/-- The digits of base sixteen, in the case that the program text uses. -/
def upperDigits : List Char :=
  ['0', '1', '2', '3', '4', '5', '6', '7', '8', '9', 'A', 'B', 'C', 'D', 'E', 'F']

/-- The digits of base sixteen, in the case that data uses. -/
def lowerDigits : List Char :=
  ['0', '1', '2', '3', '4', '5', '6', '7', '8', '9', 'a', 'b', 'c', 'd', 'e', 'f']

/-- The `width` lowest digits of a number in base sixteen, the highest first. -/
def hex (digits : List Char) : Nat → Nat → List Char
  | 0, _ => []
  | width + 1, n => hex digits width (n / 16) ++ [digits.getD (n % 16) '0']

/-- A character inside a string literal of the printed program. -/
def escapeCode (c : Char) : List Char :=
  if c = '\x22' then ['\\', '\x22']
  else if c = '\\' then ['\\', '\\']
  else if c = '\n' then ['\\', 'n']
  else if c = '\r' then ['\\', 'r']
  else if c = '\t' then ['\\', 't']
  else if c = '\x00' then ['\\', '0']
  else if c.toNat = 0x2028 ∨ c.toNat = 0x2029 ∨ c.toNat < 0x20 ∨ c.toNat = 0x7F then
    '\\' :: 'u' :: hex upperDigits 4 c.toNat
  else [c]

/-- A character inside a string of the written data. -/
def escapeData (c : Char) : List Char :=
  if c = '\x22' then ['\\', '\x22']
  else if c = '\\' then ['\\', '\\']
  else if c = '\x08' then ['\\', 'b']
  else if c = '\x0c' then ['\\', 'f']
  else if c = '\n' then ['\\', 'n']
  else if c = '\r' then ['\\', 'r']
  else if c = '\t' then ['\\', 't']
  else if c.toNat < 0x20 then '\\' :: 'u' :: hex lowerDigits 4 c.toNat
  else [c]

/-- The text between double quotes, each character written by `escape`. -/
def quote (escape : Char → List Char) (s : String) : List Char :=
  '\x22' :: s.toList.flatMap escape ++ ['\x22']

end RegisterForm.Text
