import RegisterForm.Proofs.Script.Module
/-!
# Values

What the expressions of arithmetic compute. Numbers are whole and exact, which is what the numbers
of the language are up to the largest one that it counts through.
-/
namespace RegisterForm

inductive Value where
  | undefined
  | bool (b : Bool)
  | int (n : Int)
  | nan
  deriving DecidableEq, Repr

namespace Value

/-! ## Numbers -/

/-- The number a value is converted to, if there is one. -/
def number? : Value → Option Int
  | undefined | nan => none
  | bool b => some (if b then 1 else 0)
  | int n => some n

def ofNumber? : Option Int → Value
  | none => nan
  | some n => int n

/-- The value converted to a number. -/
def number (v : Value) : Value := ofNumber? v.number?

@[simp] theorem number?_ofNumber? (n : Option Int) : (ofNumber? n).number? = n := by
  cases n <;> rfl

/-- A calculation with two numbers; it gives none where an operand is none. -/
def calculate (f : Int → Int → Int) (a b : Value) : Value :=
  ofNumber? (a.number?.bind fun m => b.number?.map (f m))

def add : Value → Value → Value := calculate (· + ·)

def sub : Value → Value → Value := calculate (· - ·)

/-! ## Comparisons -/

/-- A comparison of numbers; where an operand is none, it fails. -/
def compare (r : Int → Int → Bool) (a b : Value) : Bool :=
  (a.number?.bind fun m => b.number?.map (r m)).getD false

def looseEq : Value → Value → Bool
  | undefined, undefined => true
  | undefined, _ | _, undefined => false
  | a, b => compare (· == ·) a b

def strictEq : Value → Value → Bool
  | undefined, undefined => true
  | bool a, bool b => a == b
  | int m, int n => m == n
  | _, _ => false

def isTruthy : Value → Bool
  | undefined | nan => false
  | bool b => b
  | int n => n != 0

end Value

/-! ## Operators -/

/-- Sums, differences and comparisons; the other operators are not computed. -/
def BinaryOp.compute? (op : BinaryOp) (a b : Value) : Option Value :=
  match op with
  | .add => some (a.add b)
  | .sub => some (a.sub b)
  | .lt => some (.bool (a.compare (decide <| · < ·) b))
  | .gt => some (.bool (a.compare (decide <| · > ·) b))
  | .le => some (.bool (a.compare (decide <| · ≤ ·) b))
  | .ge => some (.bool (a.compare (decide <| · ≥ ·) b))
  | .eq => some (.bool (a.looseEq b))
  | .ne => some (.bool !(a.looseEq b))
  | .strictEq => some (.bool (a.strictEq b))
  | .strictNe => some (.bool !(a.strictEq b))
  | _ => none

/-- Whether the operator is computed. -/
def BinaryOp.isArithmetic (op : BinaryOp) : Bool := (op.compute? .undefined .undefined).isSome

theorem BinaryOp.compute?_isSome {op : BinaryOp} (h : op.isArithmetic = true) (a b : Value) :
    ∃ v, op.compute? a b = some v := by
  cases op <;> first | exact ⟨_, rfl⟩ | cases h

/-- The updated value. -/
def UpdateOp.apply : UpdateOp → Value → Value
  | .increment, v => v.add (.int 1)
  | .decrement, v => v.sub (.int 1)

/-- The operator that an assignment computes with, if it is one of arithmetic. -/
def AssignOp.binary? : AssignOp → Option BinaryOp
  | .add => some .add
  | .sub => some .sub
  | _ => none

/-! ## Numerals -/

def digit (c : Char) : Nat := c.toNat - '0'.toNat

/-- The number that a row of decimal digits stands for. A leading zero stands alone. -/
def numeral? (source : String) : Option Nat :=
  match source.toList with
  | [] => none
  | c :: cs =>
    if (c :: cs).all Char.isDigit && (c != '0' || cs.isEmpty) then
      some ((c :: cs).foldl (fun n c => 10 * n + digit c) 0)
    else none

def Literal.value? : Literal → Option Value
  | .number source => (numeral? source).map fun n => .int n
  | _ => none

end RegisterForm
