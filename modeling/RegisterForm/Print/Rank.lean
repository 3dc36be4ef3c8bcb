import RegisterForm.Tree.Node
import RegisterForm.Print.Piece
import RegisterForm.Text.Name
/-!
# Ranks

How tightly an expression binds as it is printed, and the places where a tree needs
parentheses that binding power alone does not ask for.
-/
namespace RegisterForm

/-- Binding power of a printed expression; the higher binds tighter. -/
abbrev Rank := Nat

namespace Rank

def sequence : Rank := 0
def assign : Rank := 2
def conditional : Rank := 3
def unary : Rank := 15
def suffix : Rank := 16
def construct : Rank := 17
def call : Rank := 18
def primary : Rank := 19

end Rank

namespace Expr

def rank : Expr → Rank
  | sequence _ => Rank.sequence
  | yield _ _ | arrow _ _ _ | assign _ _ _ | spread _ => Rank.assign
  | conditional _ _ _ => Rank.conditional
  | binary op _ _ => op.precedence
  | unary _ _ | await _ | update _ true _ => Rank.unary
  | update _ false _ => Rank.suffix
  | newBare _ => Rank.construct
  | newCall _ _ | call _ _ _ | member _ _ _ | index _ _ _ | tagged _ _ _ | importCall _ =>
    Rank.call
  | _ => Rank.primary

/-- Two signs side by side would read as one operator. -/
def mergesWithSign : UnaryOp → Expr → Bool
  | .minus, unary .minus _ | .plus, unary .plus _ => true
  | .minus, update .decrement true _ | .plus, update .increment true _ => true
  | .minus, literal (.number s) => s.toList.head? == some '-'
  | .plus, literal (.number s) => s.toList.head? == some '+'
  | _, _ => false

/-- A left operand of `**` that the grammar wants in parentheses. -/
def isUnaryLike : Expr → Bool
  | unary _ _ | await _ => true
  | _ => false

/-- `??` stands beside `&&` or `||` only with parentheses between. -/
def clashesWith : BinaryOp → Expr → Bool
  | .nullish, binary .and _ _ | .nullish, binary .or _ _ => true
  | .and, binary .nullish _ _ | .or, binary .nullish _ _ => true
  | _, _ => false

/-- A callee of `new` that needs no parentheses: a chain of properties without a call in it. -/
def isPlainCallee : Expr → Bool
  | ident _ | this | paren _ => true
  | member owner _ _ => owner.isPlainCallee
  | index owner _ _ => owner.isPlainCallee
  | _ => false

def isNumber : Expr → Bool
  | literal (.number _) => true
  | _ => false

def isObject : Expr → Bool
  | object _ => true
  | _ => false

/-- Array elements that put every element of the array on a line of its own. -/
def isFunctionLike : Expr → Bool
  | function _ | arrow _ _ _ => true
  | _ => false

end Expr

namespace Stmt

def isAmbient : Stmt → Bool
  | ambient _ _ => true
  | _ => false

def isBlock : Stmt → Bool
  | block _ => true
  | _ => false

end Stmt

/-- Whether a text begins with a word, and not with a longer name. -/
def startsWithWord (word text : List Char) : Bool :=
  word.isPrefixOf text && ((text.drop word.length).head?.all fun c => !Text.continuesName c)

/-- Whether an expression, at the start of a statement, would read as a block or a declaration. -/
def startsAmbiguously (pieces : List Piece) : Bool :=
  let text := Piece.leading "async function".length pieces
  text.head? == some '\x7b' || startsWithWord "function".toList text
    || startsWithWord "class".toList text || "async function".toList.isPrefixOf text

end RegisterForm
