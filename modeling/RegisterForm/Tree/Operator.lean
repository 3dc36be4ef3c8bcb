/-!
# Operators

The operators of the language with their spelling, and the binding power of the binary ones.
-/
namespace RegisterForm

/-- Operators written before their operand. -/
inductive UnaryOp where
  | minus | plus | not | bitNot | typeOf | void | delete
  deriving DecidableEq, Repr, Inhabited

namespace UnaryOp

def all : List UnaryOp := [minus, plus, not, bitNot, typeOf, void, delete]

def text : UnaryOp → String
  | minus => "-"
  | plus => "+"
  | not => "!"
  | bitNot => "~"
  | typeOf => "typeof"
  | void => "void"
  | delete => "delete"

/-- Keyword operators are set off from their operand by a space. -/
def isKeyword : UnaryOp → Bool
  | typeOf | void | delete => true
  | _ => false

def ofText? (s : String) : Option UnaryOp := all.find? (·.text == s)

@[simp] theorem ofText?_text (op : UnaryOp) : ofText? op.text = some op := by
  cases op <;> rfl

end UnaryOp

inductive UpdateOp where
  | increment | decrement
  deriving DecidableEq, Repr, Inhabited

namespace UpdateOp

def all : List UpdateOp := [increment, decrement]

def text : UpdateOp → String
  | increment => "++"
  | decrement => "--"

def ofText? (s : String) : Option UpdateOp := all.find? (·.text == s)

@[simp] theorem ofText?_text (op : UpdateOp) : ofText? op.text = some op := by
  cases op <;> rfl

end UpdateOp

inductive BinaryOp where
  | add | sub | mul | div | mod | exp
  | shl | shr | ushr
  | lt | gt | le | ge
  | eq | ne | strictEq | strictNe
  | bitAnd | bitOr | bitXor
  | and | or | nullish
  | isIn | instanceOf
  deriving DecidableEq, Repr, Inhabited

namespace BinaryOp

def all : List BinaryOp :=
  [add, sub, mul, div, mod, exp, shl, shr, ushr, lt, gt, le, ge, eq, ne, strictEq, strictNe,
    bitAnd, bitOr, bitXor, and, or, nullish, isIn, instanceOf]

def text : BinaryOp → String
  | add => "+"
  | sub => "-"
  | mul => "*"
  | div => "/"
  | mod => "%"
  | exp => "**"
  | shl => "<<"
  | shr => ">>"
  | ushr => ">>>"
  | lt => "<"
  | gt => ">"
  | le => "<="
  | ge => ">="
  | eq => "=="
  | ne => "!="
  | strictEq => "==="
  | strictNe => "!=="
  | bitAnd => "&"
  | bitOr => "|"
  | bitXor => "^"
  | and => "&&"
  | or => "||"
  | nullish => "??"
  | isIn => "in"
  | instanceOf => "instanceof"

/-- Binding power; the higher binds tighter. -/
def precedence : BinaryOp → Nat
  | nullish | or => 4
  | and => 5
  | bitOr => 6
  | bitXor => 7
  | bitAnd => 8
  | eq | ne | strictEq | strictNe => 9
  | lt | gt | le | ge | isIn | instanceOf => 10
  | shl | shr | ushr => 11
  | add | sub => 12
  | mul | div | mod => 13
  | exp => 14

/-- Exponentiation groups to the right, every other operator to the left. -/
def isRightAssociative : BinaryOp → Bool
  | exp => true
  | _ => false

def ofText? (s : String) : Option BinaryOp := all.find? (·.text == s)

@[simp] theorem ofText?_text (op : BinaryOp) : ofText? op.text = some op := by
  cases op <;> rfl

end BinaryOp

inductive AssignOp where
  | plain
  | add | sub | mul | div | mod | exp
  | shl | shr | ushr
  | bitAnd | bitOr | bitXor
  | and | or | nullish
  deriving DecidableEq, Repr, Inhabited

namespace AssignOp

def all : List AssignOp :=
  [plain, add, sub, mul, div, mod, exp, shl, shr, ushr, bitAnd, bitOr, bitXor, and, or, nullish]

def text : AssignOp → String
  | plain => "="
  | add => "+="
  | sub => "-="
  | mul => "*="
  | div => "/="
  | mod => "%="
  | exp => "**="
  | shl => "<<="
  | shr => ">>="
  | ushr => ">>>="
  | bitAnd => "&="
  | bitOr => "|="
  | bitXor => "^="
  | and => "&&="
  | or => "||="
  | nullish => "??="

def ofText? (s : String) : Option AssignOp := all.find? (·.text == s)

@[simp] theorem ofText?_text (op : AssignOp) : ofText? op.text = some op := by
  cases op <;> rfl

end AssignOp

/-- The keyword of a variable declaration. -/
inductive VarKind where
  | var | let | const
  deriving DecidableEq, Repr, Inhabited

namespace VarKind

def all : List VarKind := [var, VarKind.let, const]

def text : VarKind → String
  | var => "var"
  | VarKind.let => "let"
  | const => "const"

def isBlockScoped : VarKind → Bool
  | var => false
  | _ => true

def ofText? (s : String) : Option VarKind := all.find? (·.text == s)

@[simp] theorem ofText?_text (kind : VarKind) : ofText? kind.text = some kind := by
  cases kind <;> rfl

end VarKind
end RegisterForm
